import MemPerf.LeakReport

/-!
# Leak checks in a run

Allocations, frees and leak checks of any threads, one after another. The
sweep takes the marks off copies of the entries, so a mark set once stays;
a check that marks nothing is the only one that leaves no trace.
-/

namespace MemPerf.Temp

open Chained StepSystem

structure LeakChecks where
  waste : MemoryWaste
  /-- thread-local -/
  unexploredObjects : Nat → List Nat := fun _ => []
  totalLeakageSize : Nat := 0

namespace LeakChecks

open Leakcheck

/-- A check sees the memory, the words of the thread's registers and stack,
those of the globals, and `allocatingType.objectAddress`. -/
inductive Action where
  | call (call : MemoryWaste.Call)
  | check (thread objectAddress : Nat) (memory : Nat → Nat) (words globals : List Nat)

/-- The window `handler` passes. -/
def view (s : LeakChecks) (memory : Nat → Nat) : View :=
  { heapBegin := s.waste.minAddr, heapEnd := s.waste.maxAddr, memory }

/-- What the check of a thread starts from. -/
def leakcheck (s : LeakChecks) (thread : Nat) : Leakcheck :=
  { objStatusMap := s.waste.objStatusMap
    unexploredObjects := s.unexploredObjects thread
    totalLeakageSize := s.totalLeakageSize
    backtrace := s.waste.backtrace }

def step (p : ProgramStatus) (s : LeakChecks) : Action → Option LeakChecks
  | .call call => (s.waste.step p call).map fun waste => { s with waste }
  | .check thread objectAddress memory words globals =>
      let v := s.view memory
      let c := sweep v thread objectAddress (doSlowLeakCheck v (s.leakcheck thread) words) globals
      some { s with
        waste := { s.waste with objStatusMap := c.objStatusMap, backtrace := c.backtrace }
        unexploredObjects := Function.update s.unexploredObjects thread c.unexploredObjects
        totalLeakageSize := c.totalLeakageSize }

/-- No earlier check left a mark or a candidate behind. -/
structure Independent (s : LeakChecks) : Prop where
  cleared : s.waste.objStatusMap.Forall fun e => e.value.mark = false
  empty : ∀ thread, s.unexploredObjects thread = []

/-- What a check would report if it were the first of the run. -/
def firstTotal (s : LeakChecks) (thread objectAddress : Nat) (memory : Nat → Nat)
    (words globals : List Nat) : Nat :=
  (check (s.view memory) (s.waste.objStatusMap.mapValues fun o => { o with mark := false })
    s.waste.backtrace thread objectAddress words globals).totalLeakageSize

/-- No root word is the address of an allocated object strictly inside the
window. -/
def MarksNothing (s : LeakChecks) : Action → Prop
  | .call _ => True
  | .check _ _ memory words globals =>
      ∀ w ∈ words ++ globals, ¬ Node (s.view memory) s.waste.objStatusMap w

/-! ## A check that marks nothing -/

/-- Candidates that are marked or not allocated come off the list, and that
is all. -/
theorem mark_skips {v : View} {s : Leakcheck}
    (h : ∀ a ∈ s.unexploredObjects, ∀ o, s.objStatusMap.find a = some o →
      o.mark = true ∨ o.allocated = false) :
    mark v s = { s with unexploredObjects := [] } := by
  induction s using Leakcheck.mark.induct v with
  | case1 s hempty =>
      rw [mark_nil hempty]
      cases s
      simp_all
  | case2 s addr rest hlist ih =>
      rw [mark_cons hlist]
      rcases explore_cases (v := v) { s with unexploredObjects := rest } addr with
        ⟨heq, -⟩ | ⟨o, hf, hmark, halloc, -⟩
      · rw [heq] at ih ⊢
        refine ih fun a ha => h a ?_
        rw [hlist]
        exact List.mem_cons_of_mem addr ha
      · rcases h addr (by rw [hlist]; exact List.mem_cons_self) o hf with hm | hna
        · rw [hm] at hmark
          cases hmark
        · rw [hna] at halloc
          cases halloc

/-- From an empty worklist, with no node among the roots, the sweep scans
the table as it found it. -/
theorem sweep_of_no_node {v : View} {c : Leakcheck} {words globals : List Nat}
    (hempty : c.unexploredObjects = [])
    (hno : ∀ w ∈ words ++ globals, ¬ Node v c.objStatusMap w) (thread objectAddress : Nat) :
    sweep v thread objectAddress (doSlowLeakCheck v c words) globals =
      c.objStatusMap.iterate.foldl (sweepEntry thread objectAddress)
        { c with totalLeakageSize := 0 } := by
  have hmark : mark v ((words ++ globals).foldl (checkInsertUnexploredList v) c) = c := by
    rw [foldl_checkInsert, mark_skips, ← hempty]
    intro a ha o ho
    simp only [hempty, List.nil_append, List.mem_filter, isPossibleHeapPointer_iff] at ha
    obtain ⟨hroot, hwindow, -⟩ := ha
    right
    by_contra hal
    exact hno a hroot ⟨hwindow, o, ho, by simpa using hal⟩
  rw [List.foldl_append] at hmark
  rw [sweep, doSlowLeakCheck, hmark]

/-! ## A check that marks something -/

/-- An allocated object that is marked, or waits to be. -/
def Waits (c : Leakcheck) (w : Nat) : Prop :=
  ∃ o, c.objStatusMap.find w = some o ∧ o.allocated = true ∧
    (o.mark = true ∨ w ∈ c.unexploredObjects)

/-- It ends up marked. -/
theorem mark_of_waits {v : View} {c : Leakcheck} {w : Nat} (h : Waits c w) :
    ∃ o, (mark v c).objStatusMap.find w = some o ∧ o.mark = true := by
  induction c using Leakcheck.mark.induct v with
  | case1 c hempty =>
      obtain ⟨o, ho, -, hm | hw⟩ := h
      · exact ⟨o, by rwa [mark_nil hempty], hm⟩
      · rw [hempty] at hw
        cases hw
  | case2 c addr rest hlist ih =>
      rw [mark_cons hlist]
      refine ih ?_
      obtain ⟨o, ho, hal, hwaits⟩ := h
      rw [hlist] at hwaits
      rcases explore_cases (v := v) { c with unexploredObjects := rest } addr with
        ⟨heq, hskip⟩ | ⟨o', hf, -, -, heq⟩
      · rw [heq]
        refine ⟨o, ho, hal, ?_⟩
        rcases hwaits with hm | hw
        · exact .inl hm
        · rcases List.mem_cons.mp hw with rfl | hw
          · exact .inl ((hskip o ho).resolve_right (by simp [hal]))
          · exact .inr hw
      · rw [heq, searchHeapPointers, foldl_checkInsert]
        by_cases hw : w = addr
        · subst hw
          exact ⟨{ o with mark := true }, by simp [HashMap.find_modify, ho], hal, .inl rfl⟩
        · refine ⟨o, by simp [HashMap.find_modify, hw, ho], hal, hwaits.imp_right fun hmem => ?_⟩
          exact List.mem_append_left _ ((List.mem_cons.mp hmem).resolve_left hw)

/-- The total is written by the scan alone. -/
theorem explore_total (v : View) (c : Leakcheck) (addr x : Nat) :
    exploreHeapObject v { c with totalLeakageSize := x } addr =
      { exploreHeapObject v c addr with totalLeakageSize := x } := by
  unfold exploreHeapObject
  simp only
  split
  · split
    · simp only [searchHeapPointers, foldl_checkInsert]
      rfl
    · rfl
  · rfl

theorem mark_total (v : View) (c : Leakcheck) (x : Nat) :
    mark v { c with totalLeakageSize := x } = { mark v c with totalLeakageSize := x } := by
  induction c using Leakcheck.mark.induct v with
  | case1 c hempty => rw [mark_nil hempty, mark_nil (by exact hempty)]
  | case2 c addr rest hlist ih =>
      have hcons : mark v { c with totalLeakageSize := x } = mark v (exploreHeapObject v
          { { c with unexploredObjects := rest } with totalLeakageSize := x } addr) :=
        mark_cons (s := { c with totalLeakageSize := x }) hlist
      rw [hcons, explore_total, ih, mark_cons hlist]

theorem foldl_checkInsert_total (v : View) (c : Leakcheck) (words : List Nat) (x : Nat) :
    words.foldl (checkInsertUnexploredList v) { c with totalLeakageSize := x } =
      { words.foldl (checkInsertUnexploredList v) c with totalLeakageSize := x } := by
  simp only [foldl_checkInsert]
  rfl

/-- A sweep starts the total anew. -/
theorem sweep_total (v : View) (c : Leakcheck) (thread objectAddress : Nat)
    (words globals : List Nat) (x : Nat) :
    sweep v thread objectAddress
        (doSlowLeakCheck v { c with totalLeakageSize := x } words) globals =
      sweep v thread objectAddress (doSlowLeakCheck v c words) globals := by
  simp only [sweep, doSlowLeakCheck, ← List.foldl_append]
  rw [foldl_checkInsert_total, mark_total]

/-! ## Whole runs -/

variable {p : ProgramStatus} {s s' : LeakChecks}

/-- From a state no check has touched, a check reports what a first check
would. -/
theorem Independent.total_eq (h : Independent s) {thread objectAddress : Nat}
    {memory : Nat → Nat} {words globals : List Nat}
    (hs : s.step p (.check thread objectAddress memory words globals) = some s') :
    s'.totalLeakageSize = s.firstTotal thread objectAddress memory words globals := by
  have hmap : s.waste.objStatusMap.mapValues (fun o => { o with mark := false }) =
      s.waste.objStatusMap :=
    HashMap.mapValues_eq_self (h.cleared.mono fun e he => by rw [← he])
  obtain rfl := Option.some.inj hs
  rw [firstTotal, check, hmap]
  have hsweep := sweep_total (s.view memory)
    { objStatusMap := s.waste.objStatusMap, backtrace := s.waste.backtrace } thread objectAddress
    words globals s.totalLeakageSize
  have hfirst : s.leakcheck thread =
      { objStatusMap := s.waste.objStatusMap
        totalLeakageSize := s.totalLeakageSize
        backtrace := s.waste.backtrace } := by
    rw [leakcheck, h.empty thread]
  rw [hfirst]
  exact congrArg Leakcheck.totalLeakageSize hsweep

/-- A call leaves no marks, a check that finds nothing to mark neither. -/
theorem Independent.step {a : Action} (h : Independent s) (ha : MarksNothing s a)
    (hs : s.step p a = some s') : Independent s' := by
  cases a with
  | call call =>
      obtain ⟨waste, hw, rfl⟩ := Option.map_eq_some_iff.mp hs
      exact ⟨MemoryWaste.step_cleared h.cleared hw, h.empty⟩
  | check thread objectAddress memory words globals =>
      obtain rfl := Option.some.inj hs
      have hsweep := sweep_of_no_node (v := s.view memory) (c := s.leakcheck thread)
        (h.empty thread) ha thread objectAddress
      obtain ⟨hmap, hlist, -⟩ := foldl_sweepEntry thread objectAddress
        (s.leakcheck thread).objStatusMap.iterate
        { s.leakcheck thread with totalLeakageSize := 0 } (Nat.two_pow_pos 64)
      rw [← hsweep] at hmap hlist
      refine ⟨?_, fun t => ?_⟩
      · simp only [hmap]
        exact h.cleared
      · simp only [hlist]
        by_cases ht : t = thread
        · subst ht
          rw [Function.update_self]
          exact h.empty t
        · rw [Function.update_of_ne ht]
          exact h.empty t

/-- The condition is exact: a check that marks an object leaves the mark. -/
theorem Independent.marksNothing {thread objectAddress : Nat} {memory : Nat → Nat}
    {words globals : List Nat} (h : Independent s)
    (hs : s.step p (.check thread objectAddress memory words globals) = some s')
    (hs' : Independent s') : MarksNothing s (.check thread objectAddress memory words globals) := by
  obtain rfl := Option.some.inj hs
  rintro w hw ⟨hwindow, o, ho, hal⟩
  have hcleared : o.mark = false := h.cleared.find ho
  have hwaits : Waits ((words ++ globals).foldl (checkInsertUnexploredList (s.view memory))
      (s.leakcheck thread)) w := by
    rw [foldl_checkInsert]
    refine ⟨o, ho, hal, .inr (List.mem_append_right _ (List.mem_filter.mpr ⟨hw, ?_⟩))⟩
    exact isPossibleHeapPointer_iff.mpr ⟨hwindow, o, ho, hcleared⟩
  obtain ⟨o', ho', hmark⟩ := mark_of_waits (v := s.view memory) hwaits
  rw [List.foldl_append] at ho'
  have hfind : (sweep (s.view memory) thread objectAddress
      (doSlowLeakCheck (s.view memory) (s.leakcheck thread) words) globals).objStatusMap.find w =
      some o' := by
    rw [sweep_objStatusMap]
    exact ho'
  have hfalse := hs'.cleared.find hfind
  simp only [hmark] at hfalse
  cases hfalse

/-- What a run whose checks find nothing to mark leaves. -/
theorem Independent.run {b : Backtrace} {past : List Action}
    (h : Run (LeakChecks.step p) (fun _ => MarksNothing) { waste := .init b } past s) :
    Independent s := by
  refine h.inv (fun _ s => Independent s) ⟨HashMap.init_forall _ _ _, fun _ => rfl⟩ ?_
  intro past s a s' _ hi ha hs
  exact hi.step ha hs

/-- **Leak checks leave no trace** in a run whose checks find nothing to
mark; the next check then reports what a first one would. -/
theorem leak_checks_independent {b : Backtrace} {past : List Action}
    (h : Run (step p) (fun _ => MarksNothing) { waste := .init b } past s) :
    Independent s ∧ ∀ (thread objectAddress : Nat) (memory : Nat → Nat) (words globals : List Nat)
      (s' : LeakChecks), s.step p (.check thread objectAddress memory words globals) = some s' →
      s'.totalLeakageSize = s.firstTotal thread objectAddress memory words globals := by
  have hi : Independent s := .run h
  exact ⟨hi, fun thread objectAddress memory words globals s' hs => hi.total_eq hs⟩

/-- Three objects, nobody checks yet. -/
theorem run_three_objects :
    ∃ s, Run (step .bumpTable) (fun _ => MarksNothing) { waste := .init .init }
        [.call .newThread, .call (.allocUpdate 0 8 4096 1), .call (.allocUpdate 0 8 8192 1),
          .call (.allocUpdate 0 8 12288 1)] s ∧
      s.waste.minAddr = 4096 ∧ s.waste.maxAddr = 12288 ∧
      (s.waste.objStatusMap.find 8192).map ObjectStatus.allocated = some true ∧
      s.waste.objStatusMap.find 8200 = none := by
  let actions : List Action := [.call .newThread, .call (.allocUpdate 0 8 4096 1),
    .call (.allocUpdate 0 8 8192 1), .call (.allocUpdate 0 8 12288 1)]
  have hvals : ((actions.foldlM (step .bumpTable) { waste := .init .init }).map fun s =>
      (s.waste.minAddr, s.waste.maxAddr,
        (s.waste.objStatusMap.find 8192).map ObjectStatus.allocated,
        (s.waste.objStatusMap.find 8200).isSome)) =
      some (4096, 12288, some true, false) := by decide +kernel
  obtain ⟨s, hs, hval⟩ := Option.map_eq_some_iff.mp hvals
  obtain ⟨hmin, hmax, hobject, hnone⟩ : s.waste.minAddr = 4096 ∧ s.waste.maxAddr = 12288 ∧
      (s.waste.objStatusMap.find 8192).map ObjectStatus.allocated = some true ∧
      s.waste.objStatusMap.find 8200 = none := by simpa [-Option.map_eq_some_iff] using hval
  refine ⟨s, Run.ofFoldlM (fun a ha past s => ?_) hs, hmin, hmax, hobject, hnone⟩
  simp only [List.mem_cons, List.not_mem_nil, or_false] at ha
  rcases ha with rfl | rfl | rfl | rfl <;> trivial

/-- A check that finds no object: the next one reports as if it came first. -/
theorem leak_checks_independent_no_object :
    ∃ s s', Run (step .bumpTable) (fun _ => MarksNothing) { waste := .init .init }
        [.call .newThread, .call (.allocUpdate 0 8 4096 1), .call (.allocUpdate 0 8 8192 1),
          .call (.allocUpdate 0 8 12288 1), .check 0 0 (fun _ => 0) [8200] []] s ∧
      s.step .bumpTable (.check 0 0 (fun _ => 0) [8192] []) = some s' ∧
      s'.totalLeakageSize = s.firstTotal 0 0 (fun _ => 0) [8192] [] := by
  obtain ⟨s, hrun, -, -, -, hnone⟩ := run_three_objects
  have hcheck : MarksNothing s (.check 0 0 (fun _ => 0) [8200] []) := by
    rintro w hw ⟨-, o, ho, -⟩
    obtain rfl : w = 8200 := by simpa using hw
    rw [hnone] at ho
    cases ho
  have hrun' := Run.snoc hrun hcheck rfl
  exact ⟨_, _, hrun', rfl, (leak_checks_independent hrun').2 0 0 (fun _ => 0) [8192] [] _ rfl⟩

/-- A check whose root refers to the middle one of three objects leaves its
mark in the table. -/
theorem leak_check_leaves_mark :
    ∃ s, Run (step .bumpTable) (fun _ _ _ => True) { waste := .init .init }
        [.call .newThread, .call (.allocUpdate 0 8 4096 1), .call (.allocUpdate 0 8 8192 1),
          .call (.allocUpdate 0 8 12288 1), .check 0 0 (fun _ => 0) [8192] []] s ∧
      ¬ Independent s := by
  obtain ⟨s, hrun, hmin, hmax, hobject, -⟩ := run_three_objects
  obtain ⟨o, ho, hal⟩ := Option.map_eq_some_iff.mp hobject
  refine ⟨_, .snoc (hrun.weaken fun _ _ _ _ => trivial) trivial rfl, fun hleft => ?_⟩
  have hnothing := (Independent.run hrun).marksNothing (p := .bumpTable) rfl hleft
  refine hnothing 8192 (by simp) ⟨?_, o, ho, hal⟩
  simp [view, hmin, hmax]

end LeakChecks

end MemPerf.Temp
