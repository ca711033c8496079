import MemPerf.ObjectTable

/-!
# What a leak check reports

Marking against reachability. An object is reached from a root word
through words inside allocated objects; the marker follows exactly these
chains as long as they stay strictly between `_heapBegin` and `_heapEnd`.
As the window is given by the lowest and the highest object address, the
two objects there are the ones it loses.
-/

namespace MemPerf.Temp

open Chained Reach Word

namespace Leakcheck

/-- An address at which the table holds an allocated object. -/
def IsAllocated (t : HashMap Nat ObjectStatus) (addr : Nat) : Prop :=
  ∃ o, t.find addr = some o ∧ o.allocated = true

/-- `w` stands as an aligned 8-byte word inside the object at `addr`. -/
def HoldsWord (memory : Nat → Nat) (t : HashMap Nat ObjectStatus) (addr w : Nat) : Prop :=
  ∃ o, t.find addr = some o ∧
    ∃ i, 8 * (i + 1) ≤ o.sizeClassSizeAndIndex.size ∧ memory (addr + 8 * i) = w

/-- Allocated objects reached from the root words through allocated objects. -/
def Reached (memory : Nat → Nat) (t : HashMap Nat ObjectStatus) (roots : List Nat) : Nat → Prop :=
  Reachable (fun a => a ∈ roots ∧ IsAllocated t a)
    fun a b => HoldsWord memory t a b ∧ IsAllocated t b

/-- A whole check from cleared marks and an empty worklist. -/
def check (v : View) (t : HashMap Nat ObjectStatus) (backtrace : Backtrace)
    (runningThreadIndex objectAddress : Nat) (words globals : List Nat) : Leakcheck :=
  sweep v runningThreadIndex objectAddress
    (doSlowLeakCheck v { objStatusMap := t, backtrace } words) globals

open Classical in
/-- The sizes of the thread's allocated objects that are not reached, but
for the one being operated on, as a `size_t`. -/
noncomputable def leaked (memory : Nat → Nat) (t : HashMap Nat ObjectStatus) (roots : List Nat)
    (runningThreadIndex objectAddress : Nat) : Nat :=
  wrap 64 (t.total fun e =>
    if e.value.allocated = true ∧ ¬ Reached memory t roots e.key ∧
        e.value.tid = runningThreadIndex ∧ e.key ≠ objectAddress then
      e.value.sizeClassSizeAndIndex.size
    else 0)

/-- The marks are the reached objects, and the total is what leaked. -/
structure Reports (memory : Nat → Nat) (t : HashMap Nat ObjectStatus) (roots : List Nat)
    (runningThreadIndex objectAddress : Nat) (s : Leakcheck) : Prop where
  marks : s.objStatusMap.Forall fun e =>
    e.value.mark = true ↔ e.value.allocated = true ∧ Reached memory t roots e.key
  total : s.totalLeakageSize = leaked memory t roots runningThreadIndex objectAddress

/-! ## The search inside the window -/

variable {v : View} {t : HashMap Nat ObjectStatus} {roots : List Nat} {s : Leakcheck}

/-- What the marker takes for a node. -/
def Node (v : View) (t : HashMap Nat ObjectStatus) (addr : Nat) : Prop :=
  (v.heapBegin < addr ∧ addr < v.heapEnd) ∧ IsAllocated t addr

def Root (v : View) (t : HashMap Nat ObjectStatus) (roots : List Nat) (addr : Nat) : Prop :=
  addr ∈ roots ∧ Node v t addr

def Edge (v : View) (t : HashMap Nat ObjectStatus) (a b : Nat) : Prop :=
  HoldsWord v.memory t a b ∧ Node v t b

def Marked (s : Leakcheck) (addr : Nat) : Prop :=
  ∃ o, s.objStatusMap.find addr = some o ∧ o.mark = true

/-- The table with other marks than at the start. -/
structure SameButMarks (t t' : HashMap Nat ObjectStatus) : Prop where
  wellFormed : t'.WellFormed
  find : ∀ addr, (t'.find addr).map (fun o => { o with mark := false }) = t.find addr
  total : ∀ f : Entry Nat ObjectStatus → Nat,
    (∀ k o b, f ⟨k, { o with mark := b }⟩ = f ⟨k, o⟩) → t'.total f = t.total f

/-- Loop invariant of the marker. -/
structure Marking (v : View) (t : HashMap Nat ObjectStatus) (roots : List Nat)
    (s : Leakcheck) : Prop where
  same : SameButMarks t s.objStatusMap
  window : ∀ a ∈ s.unexploredObjects, v.heapBegin < a ∧ a < v.heapEnd
  search : Search (Node v t) (Root v t roots) (Edge v t) (Marked s) s.unexploredObjects

theorem SameButMarks.allocated (h : SameButMarks t s.objStatusMap) {addr : Nat} {o : ObjectStatus}
    (ho : s.objStatusMap.find addr = some o) : o.allocated = true ↔ IsAllocated t addr := by
  have hfind := h.find addr
  rw [ho] at hfind
  constructor
  · exact fun ha => ⟨_, hfind.symm, ha⟩
  · rintro ⟨o', ho', ha⟩
    rw [ho'] at hfind
    obtain rfl := Option.some.inj hfind
    exact ha

/-- Marking an entry changes only its mark. -/
theorem SameButMarks.mark {t' : HashMap Nat ObjectStatus} (h : SameButMarks t t') (addr : Nat) :
    SameButMarks t (t'.modify addr fun o => { o with mark := true }) := by
  refine ⟨h.wellFormed.modify _ _, fun a => ?_, fun f hf => ?_⟩
  · rw [HashMap.find_modify]
    split
    · next heq =>
        subst heq
        rw [Option.map_map, ← h.find a]
        rfl
    · exact h.find a
  · cases hfind : t'.find addr with
    | none => rw [HashMap.modify_of_find_none hfind, h.total f hf]
    | some o =>
        have htotal := HashMap.total_modify f hfind fun o => { o with mark := true }
        simp only [hf] at htotal
        rw [← h.total f hf]
        omega

/-! ## The words of an object -/

theorem isPossibleHeapPointer_iff {addr : Nat} : isPossibleHeapPointer v s addr = true ↔
    (v.heapBegin < addr ∧ addr < v.heapEnd) ∧
      ∃ o, s.objStatusMap.find addr = some o ∧ o.mark = false := by
  unfold isPossibleHeapPointer
  split
  · next hw =>
      cases s.objStatusMap.find addr with
      | none => simp
      | some o => simp [hw]
  · next hw => simp [hw]

/-- The loop over an aligned object visits its whole words. -/
theorem mem_words {memory : Nat → Nat} {addr size w : Nat} (haligned : addr % 8 = 0)
    (hspace : addr + size < 2 ^ 64) :
    w ∈ (pointers addr (aligndown (wrap 64 (addr + size)) 8)).map memory ↔
      ∃ i, 8 * (i + 1) ≤ size ∧ memory (addr + 8 * i) = w := by
  have hmask : (addr + size) &&& (8 - 1) = (addr + size) % 8 :=
    Nat.and_two_pow_sub_one_eq_mod (addr + size) 3
  have hcount : (aligndown (wrap 64 (addr + size)) 8 - addr + 7) / 8 = size / 8 := by
    rw [wrap_of_lt hspace, aligndown, hmask]
    omega
  simp only [pointers, hcount, List.map_map, List.mem_map, List.mem_range, Function.comp_apply]
  refine exists_congr fun i => and_congr_left fun _ => ?_
  omega

theorem ObjectTable.mem_words (h : ObjectTable v t) {addr w : Nat} {o : ObjectStatus}
    (ho : t.find addr = some o) :
    w ∈ (pointers addr (aligndown (wrap 64 (addr + o.sizeClassSizeAndIndex.size)) 8)).map v.memory ↔
      HoldsWord v.memory t addr w := by
  rw [Leakcheck.mem_words (h.aligned.find ho) (h.inSpace.find ho)]
  constructor
  · exact fun hw => ⟨o, ho, hw⟩
  · rintro ⟨o', ho', hw⟩
    rw [ho] at ho'
    obtain rfl := Option.some.inj ho'
    exact hw

/-! ## What the marker preserves -/

theorem ObjectTable.sameButMarks (h : ObjectTable v t) : SameButMarks t t := by
  refine ⟨h.wellFormed, fun addr => ?_, fun _ _ => rfl⟩
  cases hf : t.find addr with
  | none => rfl
  | some o =>
      have hcleared : o.mark = false := h.cleared.find hf
      rw [Option.map_some, ← hcleared]

/-- The root words have been offered. -/
theorem ObjectTable.marking (h : ObjectTable v t) (backtrace : Backtrace) (roots : List Nat) :
    Marking v t roots
      (roots.foldl (checkInsertUnexploredList v) { objStatusMap := t, backtrace }) := by
  have hpossible : ∀ a, isPossibleHeapPointer v { objStatusMap := t, backtrace } a = true ↔
      (v.heapBegin < a ∧ a < v.heapEnd) ∧ ∃ o, t.find a = some o := fun a => by
    rw [isPossibleHeapPointer_iff]
    refine and_congr_right fun _ => exists_congr fun o => and_iff_left_of_imp fun hf => ?_
    exact h.cleared.find hf
  rw [foldl_checkInsert]
  refine ⟨h.sameButMarks, fun a ha => ?_, fun a ha => ?_, fun a ha hn => ?_, fun a ha => ?_,
    fun a b ha _ => ?_⟩
  · simp only [List.nil_append, List.mem_filter, hpossible] at ha
    exact ha.2.1
  · obtain ⟨o, ho, hmark⟩ := ha
    rw [h.cleared.find ho] at hmark
    cases hmark
  · simp only [List.nil_append, List.mem_filter] at ha
    exact .root ⟨ha.1, hn⟩
  · obtain ⟨o, ho, -⟩ := ha.2.2
    refine .inr ?_
    simp only [List.nil_append, List.mem_filter, hpossible]
    exact ⟨ha.1, ha.2.1, o, ho⟩
  · obtain ⟨o, ho, hmark⟩ := ha
    rw [h.cleared.find ho] at hmark
    cases hmark

/-- One round of the loop. -/
theorem Marking.explore (ht : ObjectTable v t) {addr : Nat} {rest : List Nat}
    (h : Marking v t roots { s with unexploredObjects := addr :: rest }) :
    Marking v t roots (exploreHeapObject v { s with unexploredObjects := rest } addr) := by
  have hroot : ∀ a, Root v t roots a → Node v t a := fun a ha => ha.2
  have hedge : ∀ a b, Edge v t a b → Node v t b := fun a b hb => hb.2
  have hsame : SameButMarks t s.objStatusMap := h.same
  have hwindow : v.heapBegin < addr ∧ addr < v.heapEnd := h.window addr List.mem_cons_self
  rcases explore_cases (v := v) { s with unexploredObjects := rest } addr with
    ⟨heq, hskip⟩ | ⟨o, hf, hmark, halloc, heq⟩
  · rw [heq]
    refine ⟨hsame, fun a ha => h.window a (List.mem_cons_of_mem addr ha),
      h.search.drop hroot hedge ?_⟩
    by_cases hnode : Node v t addr
    · obtain ⟨o, ho, ha⟩ := hnode.2
      rw [← hsame.find addr] at ho
      obtain ⟨o', ho', rfl⟩ := Option.map_eq_some_iff.mp ho
      rcases hskip o' ho' with hm | hna
      · exact .inl ⟨o', ho', hm⟩
      · rw [hna] at ha
        cases ha
    · exact .inr hnode
  · rw [heq, searchHeapPointers, foldl_checkInsert]
    have hf' : s.objStatusMap.find addr = some o := hf
    have hnode : Node v t addr := ⟨hwindow, (hsame.allocated hf').mp halloc⟩
    have hfind : t.find addr = some { o with mark := false } := by
      rw [← hsame.find addr, hf']
      rfl
    have hwords : ∀ w, w ∈ (pointers addr
        (aligndown (wrap 64 (addr + o.sizeClassSizeAndIndex.size)) 8)).map v.memory ↔
        HoldsWord v.memory t addr w := fun w => ht.mem_words (o := { o with mark := false }) hfind
    have hmodify : SameButMarks t
        (s.objStatusMap.modify addr fun o => { o with mark := true }) := hsame.mark addr
    refine ⟨hmodify, fun a ha => ?_, ?_⟩
    · rcases List.mem_append.mp ha with hr | hp
      · exact h.window a (List.mem_cons_of_mem addr hr)
      · exact (isPossibleHeapPointer_iff.mp (List.mem_filter.mp hp).2).1
    · refine h.search.visit hnode (fun b => ?_) (fun b hb => ?_) fun b hb hn => ?_
      · -- the entry marked is the only one whose mark changed
        simp only [Marked, HashMap.find_modify]
        by_cases hb : b = addr
        · subst hb
          simp [hf']
        · simp [hb]
      · obtain ⟨hword, hn⟩ := hb
        obtain ⟨o', ho', -⟩ := hn.2
        rw [← hmodify.find b] at ho'
        obtain ⟨o'', ho'', rfl⟩ := Option.map_eq_some_iff.mp ho'
        by_cases hm : o''.mark = true
        · exact .inl ⟨o'', ho'', hm⟩
        · refine .inr (List.mem_filter.mpr ⟨(hwords b).mpr hword, ?_⟩)
          exact isPossibleHeapPointer_iff.mpr ⟨hn.1, o'', ho'', by simpa using hm⟩
      · exact ⟨(hwords b).mp (List.mem_filter.mp hb).1, hn⟩

theorem mark_nil (hempty : s.unexploredObjects = []) : mark v s = s := by
  unfold mark
  split
  · rfl
  · next hlist => rw [hempty] at hlist; cases hlist

theorem mark_cons {addr : Nat} {rest : List Nat} (hlist : s.unexploredObjects = addr :: rest) :
    mark v s = mark v (exploreHeapObject v { s with unexploredObjects := rest } addr) := by
  conv_lhs => unfold mark
  split
  · next hempty => rw [hempty] at hlist; cases hlist
  · next hlist' =>
      obtain ⟨rfl, rfl⟩ := List.cons.inj (hlist'.symm.trans hlist)
      rfl

/-- The run of the loop, by induction on its rounds. -/
theorem Marking.mark (ht : ObjectTable v t) {s : Leakcheck} (h : Marking v t roots s) :
    Marking v t roots (mark v s) ∧ (Leakcheck.mark v s).unexploredObjects = [] := by
  induction s using Leakcheck.mark.induct v with
  | case1 s hempty =>
      rw [mark_nil hempty]
      exact ⟨h, hempty⟩
  | case2 s addr rest hlist ih =>
      rw [mark_cons hlist]
      have hcons : Marking v t roots { s with unexploredObjects := addr :: rest } := by
        rw [← hlist]
        exact h
      exact ih (hcons.explore ht)

/-! ## The sweep -/

/-- What the scan of the table adds up. -/
def scanned (runningThreadIndex objectAddress : Nat) (e : Entry Nat ObjectStatus) : Nat :=
  if e.value.mark = false ∧ e.value.allocated = true ∧ e.value.tid = runningThreadIndex ∧
      e.key ≠ objectAddress then
    e.value.sizeClassSizeAndIndex.size
  else 0

theorem sweepEntry_spec (runningThreadIndex objectAddress : Nat) (s : Leakcheck)
    (e : Entry Nat ObjectStatus) (hs : s.totalLeakageSize < 2 ^ 64) :
    let s' := sweepEntry runningThreadIndex objectAddress s e
    s'.objStatusMap = s.objStatusMap ∧ s'.unexploredObjects = s.unexploredObjects ∧
    s'.totalLeakageSize =
      wrap 64 (s.totalLeakageSize + scanned runningThreadIndex objectAddress e) := by
  simp only [sweepEntry, scanned]
  by_cases hm : e.value.mark = true
  · simp [hm, wrap_of_lt hs]
  · by_cases hcond : e.value.allocated = true ∧ e.value.tid = runningThreadIndex ∧
        e.key ≠ objectAddress
    · simp [hm, hcond]
    · simp [hm, hcond, wrap_of_lt hs]

theorem foldl_sweepEntry (runningThreadIndex objectAddress : Nat)
    (l : List (Entry Nat ObjectStatus)) (s : Leakcheck) (hs : s.totalLeakageSize < 2 ^ 64) :
    let s' := l.foldl (sweepEntry runningThreadIndex objectAddress) s
    s'.objStatusMap = s.objStatusMap ∧ s'.unexploredObjects = s.unexploredObjects ∧
    s'.totalLeakageSize = wrap 64 (s.totalLeakageSize +
      (l.map (scanned runningThreadIndex objectAddress)).sum) := by
  induction l generalizing s with
  | nil => exact ⟨rfl, rfl, (wrap_of_lt hs).symm⟩
  | cons e l ih =>
      obtain ⟨hmap, hlist, htotal⟩ := sweepEntry_spec runningThreadIndex objectAddress s e hs
      have hlt := wrap_lt 64 (s.totalLeakageSize + scanned runningThreadIndex objectAddress e)
      obtain ⟨hmap', hlist', htotal'⟩ := ih _ (htotal ▸ hlt)
      refine ⟨hmap'.trans hmap, hlist'.trans hlist, htotal'.trans ?_⟩
      rw [htotal, List.map_cons, List.sum_cons, ← add_assoc]
      exact Nat.mod_add_mod _ _ _

/-- A sweep leaves the table as the marker left it. -/
theorem sweep_objStatusMap (v : View) (runningThreadIndex objectAddress : Nat) (s : Leakcheck)
    (globals : List Nat) : (sweep v runningThreadIndex objectAddress s globals).objStatusMap =
      (mark v (globals.foldl (checkInsertUnexploredList v) s)).objStatusMap :=
  (foldl_sweepEntry runningThreadIndex objectAddress _ _ (Nat.two_pow_pos 64)).1

/-- The invariant speaks of the table and the worklist only. -/
theorem Marking.congr {s' : Leakcheck} (h : Marking v t roots s)
    (hmap : s'.objStatusMap = s.objStatusMap)
    (hlist : s'.unexploredObjects = s.unexploredObjects) : Marking v t roots s' := by
  have hmarked : Marked s' = Marked s := by
    funext addr
    simp only [Marked, hmap]
  exact ⟨hmap ▸ h.same, hlist ▸ h.window, hmarked ▸ hlist ▸ h.search⟩

/-- The marks and the worklist a check leaves, and what it adds up. -/
theorem ObjectTable.check_spec (h : ObjectTable v t) (backtrace : Backtrace)
    (runningThreadIndex objectAddress : Nat) (words globals : List Nat) :
    let s' := check v t backtrace runningThreadIndex objectAddress words globals
    Marking v t (words ++ globals) s' ∧ s'.unexploredObjects = [] ∧
    s'.totalLeakageSize =
      wrap 64 (s'.objStatusMap.total (scanned runningThreadIndex objectAddress)) := by
  have hstart := h.marking backtrace (words ++ globals)
  rw [List.foldl_append] at hstart
  obtain ⟨hmarking, hempty⟩ := hstart.mark h
  rw [check, sweep, doSlowLeakCheck]
  generalize Leakcheck.mark v _ = s at hmarking hempty ⊢
  obtain ⟨hmap, hlist, htotal⟩ := foldl_sweepEntry runningThreadIndex objectAddress
    s.objStatusMap.iterate { s with totalLeakageSize := 0 } (Nat.two_pow_pos 64)
  refine ⟨hmarking.congr hmap hlist, hlist.trans hempty, htotal.trans ?_⟩
  rw [hmap, Nat.zero_add, hmarking.same.wellFormed.sum_iterate]

/-! ## Reachability with and without the window -/

/-- What the marker reaches is reached. -/
theorem reached_of_search {addr : Nat}
    (h : Reachable (Root v t roots) (Edge v t) addr) : Reached v.memory t roots addr :=
  h.mono (fun _ hr => ⟨hr.1, hr.2.2⟩) fun _ _ he => ⟨he.1, he.2.2⟩

theorem node_of_search {addr : Nat} (h : Reachable (Root v t roots) (Edge v t) addr) :
    Node v t addr :=
  h.node (fun _ hr => hr.2) fun _ _ he => he.2

/-- Conversely, if the two ends of the window are not reached. -/
theorem ObjectTable.search_of_reached (h : ObjectTable v t)
    (hends : ∀ a, Reached v.memory t roots a → a ≠ v.heapBegin ∧ a ≠ v.heapEnd) {addr : Nat}
    (ha : Reached v.memory t roots addr) : Reachable (Root v t roots) (Edge v t) addr := by
  have hnode : ∀ a, Reached v.memory t roots a → IsAllocated t a → Node v t a := by
    intro a hr hal
    obtain ⟨o, ho, -⟩ := id hal
    have hwindow := h.inWindow.find ho
    obtain ⟨hbegin, hend⟩ := hends a hr
    refine ⟨⟨?_, ?_⟩, hal⟩ <;> simp only at hwindow <;> omega
  have hboth : Reached v.memory t roots addr ∧ Reachable (Root v t roots) (Edge v t) addr := by
    refine Reachable.subset (S := fun a => Reached v.memory t roots a ∧
      Reachable (Root v t roots) (Edge v t) a) (fun a hr => ?_) (fun a b hab he => ?_) ha
    · have hra : Reached v.memory t roots a := .root hr
      exact ⟨hra, .root ⟨hr.1, hnode a hra hr.2⟩⟩
    · have hrb : Reached v.memory t roots b := .step hab.1 he
      exact ⟨hrb, .step hab.2 ⟨he.1, hnode b hrb he.2⟩⟩
  exact hboth.2

theorem reached_allocated {memory : Nat → Nat} {addr : Nat} (h : Reached memory t roots addr) :
    IsAllocated t addr :=
  h.node (fun _ hr => hr.2) fun _ _ he => he.2

/-- The marks in terms of the marker's own reachability. -/
theorem Marking.entry_marked (h : Marking v t roots s) (hempty : s.unexploredObjects = [])
    {i : Nat} {e : Entry Nat ObjectStatus} (he : e ∈ (s.objStatusMap.buckets i).list) :
    e.value.mark = true ↔ Reachable (Root v t roots) (Edge v t) e.key := by
  have hfind := h.same.wellFormed.find_of_mem he
  have hsearch := h.search
  rw [hempty] at hsearch
  rw [← hsearch.done e.key]
  constructor
  · exact fun hm => ⟨e.value, hfind, hm⟩
  · rintro ⟨o, ho, hm⟩
    rw [hfind] at ho
    obtain rfl := Option.some.inj ho
    exact hm

/-- A found object stands in the table. -/
theorem exists_entry {m : HashMap Nat ObjectStatus} {addr : Nat} {o : ObjectStatus}
    (h : m.find addr = some o) :
    ∃ i, (⟨addr, o⟩ : Entry Nat ObjectStatus) ∈ (m.buckets i).list := by
  obtain ⟨k, -, hget⟩ := HashMap.find_spec h
  exact ⟨_, List.mem_of_getElem? hget⟩

/-- A right report needs every reached object strictly inside the window. -/
theorem ObjectTable.inside_of_reports (h : ObjectTable v t) {backtrace : Backtrace}
    {runningThreadIndex objectAddress : Nat} {words globals : List Nat}
    (hreports : Reports v.memory t (words ++ globals) runningThreadIndex objectAddress
      (check v t backtrace runningThreadIndex objectAddress words globals))
    {a : Nat} (ha : Reached v.memory t (words ++ globals) a) : v.heapBegin < a ∧ a < v.heapEnd := by
  obtain ⟨hmarking, hempty, -⟩ :=
    h.check_spec backtrace runningThreadIndex objectAddress words globals
  obtain ⟨o, ho, hal⟩ := reached_allocated ha
  rw [← hmarking.same.find a] at ho
  obtain ⟨o', ho', rfl⟩ := Option.map_eq_some_iff.mp ho
  obtain ⟨i, he⟩ := exists_entry ho'
  have hmark := (hreports.marks i _ he).mpr ⟨hal, ha⟩
  exact (node_of_search ((hmarking.entry_marked hempty he).mp hmark)).1

/-- And that is enough. -/
theorem ObjectTable.reports_of_inside (h : ObjectTable v t) (backtrace : Backtrace)
    (runningThreadIndex objectAddress : Nat) {words globals : List Nat}
    (hends : ∀ a, Reached v.memory t (words ++ globals) a → a ≠ v.heapBegin ∧ a ≠ v.heapEnd) :
    Reports v.memory t (words ++ globals) runningThreadIndex objectAddress
      (check v t backtrace runningThreadIndex objectAddress words globals) := by
  obtain ⟨hmarking, hempty, htotal⟩ :=
    h.check_spec backtrace runningThreadIndex objectAddress words globals
  generalize check v t backtrace runningThreadIndex objectAddress words globals = s
    at hmarking hempty htotal ⊢
  have hmark : ∀ i, ∀ e ∈ (s.objStatusMap.buckets i).list,
      (e.value.mark = true ↔ Reached v.memory t (words ++ globals) e.key) := by
    intro i e he
    rw [hmarking.entry_marked hempty he]
    exact ⟨reached_of_search, h.search_of_reached hends⟩
  refine ⟨fun i e he => ?_, ?_⟩
  · refine (hmark i e he).trans ⟨fun hr => ⟨?_, hr⟩, fun hr => hr.2⟩
    exact (hmarking.same.allocated (hmarking.same.wellFormed.find_of_mem he)).mpr
      (reached_allocated hr)
  · rw [htotal, leaked]
    congr 1
    rw [← hmarking.same.total _ (fun _ _ _ => rfl)]
    classical
    refine HashMap.total_congr fun i e he => if_congr ?_ rfl rfl
    have hunmarked : e.value.mark = false ↔ ¬ Reached v.memory t (words ++ globals) e.key := by
      rw [← hmark i e he, Bool.not_eq_true]
    rw [hunmarked]
    tauto

/-- **The leak check reports reachability exactly when it loses no end of
the window**: neither the lowest nor the highest object is reached. -/
theorem leak_check_reports_iff (h : ObjectTable v t) (backtrace : Backtrace)
    (runningThreadIndex objectAddress : Nat) (words globals : List Nat) :
    Reports v.memory t (words ++ globals) runningThreadIndex objectAddress
        (check v t backtrace runningThreadIndex objectAddress words globals) ↔
      ¬ Reached v.memory t (words ++ globals) v.heapBegin ∧
      ¬ Reached v.memory t (words ++ globals) v.heapEnd := by
  constructor
  · intro hreports
    exact ⟨fun ha => absurd (h.inside_of_reports hreports ha).1 (lt_irrefl _),
      fun ha => absurd (h.inside_of_reports hreports ha).2 (lt_irrefl _)⟩
  · rintro ⟨hbegin, hend⟩
    exact h.reports_of_inside backtrace runningThreadIndex objectAddress
      fun a ha => ⟨fun heq => hbegin (heq ▸ ha), fun heq => hend (heq ▸ ha)⟩

open MemoryWaste StepSystem in
/-- Three objects, of which the middle one is referred to. -/
theorem leak_check_reports_middle :
    ∃ s : MemoryWaste, Run (step .bumpTable) (fun _ _ => AlignedCall) (init .init)
        [.newThread, .allocUpdate 0 8 4096 1, .allocUpdate 0 8 8192 1, .allocUpdate 0 8 12288 1] s ∧
      Reports (fun _ => 0) s.objStatusMap [8192] 0 0
        (check { heapBegin := s.minAddr, heapEnd := s.maxAddr, memory := fun _ => 0 }
          s.objStatusMap s.backtrace 0 0 [8192] []) := by
  let calls : List Call := [.newThread, .allocUpdate 0 8 4096 1, .allocUpdate 0 8 8192 1,
    .allocUpdate 0 8 12288 1]
  let checked : MemoryWaste → Call → Option MemoryWaste :=
    fun s call => if AlignedCall call then s.step .bumpTable call else none
  have hvals : ((calls.foldlM checked (init .init)).map fun s =>
      (s.minAddr, s.maxAddr, (s.objStatusMap.find 0).isSome)) = some (4096, 12288, false) := by
    decide +kernel
  obtain ⟨s, hs, hbounds⟩ := Option.map_eq_some_iff.mp hvals
  obtain ⟨hmin, hmax, hnull⟩ : s.minAddr = 4096 ∧ s.maxAddr = 12288 ∧
      (s.objStatusMap.find 0).isSome = false := by simpa using hbounds
  have hrun : Run (step .bumpTable) (fun _ _ => AlignedCall) (init .init) calls s :=
    Run.ofChecked hs
  have htable := run_objectTable hrun (run_short hrun (by decide)) fun _ => 0
  -- no object is at the null address, so no word leads anywhere
  have honly : ∀ a, Reached (fun _ => 0) s.objStatusMap [8192] a → a = 8192 := by
    intro a ha
    refine ha.subset (S := fun a => a = 8192) (fun a hr => by simpa using hr.1) ?_
    rintro a b - ⟨⟨o, -, i, -, rfl⟩, o', ho', -⟩
    simp [ho'] at hnull
  refine ⟨s, hrun, (leak_check_reports_iff htable s.backtrace 0 0 [8192] []).mpr ⟨?_, ?_⟩⟩
  · intro ha
    have h8192 := honly _ ha
    simp only at h8192
    omega
  · intro ha
    have h8192 := honly _ ha
    simp only at h8192
    omega

open MemoryWaste StepSystem in
/-- The only object of a program is the lowest and the highest one: a root
word refers to it and it is reported as leaked. -/
theorem lowest_object_reported_leaked :
    ∃ s : MemoryWaste, Run (step .bumpTable) (fun _ _ => AlignedCall) (init .init)
        [.newThread, .allocUpdate 0 8 4096 1] s ∧
      ObjectTable { heapBegin := s.minAddr, heapEnd := s.maxAddr, memory := fun _ => 0 }
        s.objStatusMap ∧
      ¬ Reports (fun _ => 0) s.objStatusMap [4096] 0 0
        (check { heapBegin := s.minAddr, heapEnd := s.maxAddr, memory := fun _ => 0 }
          s.objStatusMap s.backtrace 0 0 [4096] []) := by
  let calls : List Call := [.newThread, .allocUpdate 0 8 4096 1]
  let checked : MemoryWaste → Call → Option MemoryWaste :=
    fun s call => if AlignedCall call then s.step .bumpTable call else none
  have hvals : ((calls.foldlM checked (init .init)).map fun s =>
      (s.minAddr, (s.objStatusMap.find 4096).map ObjectStatus.allocated)) =
      some (4096, some true) := by decide +kernel
  obtain ⟨s, hs, hobject⟩ := Option.map_eq_some_iff.mp hvals
  obtain ⟨hmin, o, ho, hal⟩ : s.minAddr = 4096 ∧ ∃ o, s.objStatusMap.find 4096 = some o ∧
      o.allocated = true := by simpa using hobject
  have hrun : Run (step .bumpTable) (fun _ _ => AlignedCall) (init .init) calls s :=
    Run.ofChecked hs
  have htable := run_objectTable hrun (run_short hrun (by decide)) fun _ => 0
  refine ⟨s, hrun, htable, fun hreports => ?_⟩
  have hreached : Reached (fun _ => 0) s.objStatusMap ([4096] ++ []) 4096 :=
    .root ⟨by simp, o, ho, hal⟩
  have hinside := htable.inside_of_reports hreports hreached
  simp only at hinside
  omega

end Leakcheck

end MemPerf.Temp
