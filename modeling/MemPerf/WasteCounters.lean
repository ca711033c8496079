import Mathlib.Algebra.BigOperators.Ring.Finset
import Mathlib.Algebra.BigOperators.Ring.List
import Mathlib.Algebra.Order.BigOperators.Group.Finset
import Mathlib.Algebra.Order.BigOperators.Group.List
import MemPerf.ObjectSizes
import MemPerf.WasteReport

/-!
# Live objects and internal fragmentation

The rows of a class summed over the threads against the entries of the
table. An object is often freed by another thread than the one that
allocated it, so only the sums mean anything; what is subtracted when an
object is freed is what was added when it was allocated, because no call
in between touches its entry.
-/

namespace MemPerf.Temp

open Chained Rows Word StepSystem

namespace MemoryWaste

/-! ## Sums over the table -/

/-- `f` of an allocated object of the class, zero of any other entry. -/
def live (c : Nat) (f : ObjectStatus → Nat) (o : ObjectStatus) : Nat :=
  if o.allocated = true ∧ o.classIndex = c then f o else 0

/-- `f` summed over the allocated entries of the class. -/
def liveTotal (s : MemoryWaste) (c : Nat) (f : ObjectStatus → Nat) : Nat :=
  s.objStatusMap.total fun e => live c f e.value

/-- The number of allocated entries of the class. -/
def allocatedObjects (s : MemoryWaste) (c : Nat) : Nat := s.liveTotal c fun _ => 1

/-- Their internal fragmentation. -/
def liveFragment (s : MemoryWaste) (c : Nat) : Nat := s.liveTotal c ObjectStatus.internalFragment

variable {p : ProgramStatus} {s s' : MemoryWaste} {c : Nat} {f : ObjectStatus → Nat}

theorem live_allocate (o : ObjectStatus) (thread callsiteKey : Nat)
    (hf : f (o.allocate thread callsiteKey) = f o) :
    live c f (o.allocate thread callsiteKey) = if c = o.classIndex then f o else 0 := by
  rw [live, hf]
  exact if_congr (by simp [ObjectStatus.allocate, ObjectStatus.classIndex, eq_comm]) rfl rfl

theorem live_of_free {o : ObjectStatus} (h : o.allocated = false) : live c f o = 0 := by
  simp [live, h]

theorem live_of_allocated {o : ObjectStatus} (h : o.allocated = true) :
    live c f o = if c = o.classIndex then f o else 0 :=
  if_congr (by simp [h, eq_comm]) rfl rfl

theorem liveTotal_afterNew {thread address callsiteKey : Nat} (o : ObjectStatus)
    (cache : SizeClassSizeAndIndex) (hf : f (o.allocate thread callsiteKey) = f o) :
    (s.afterNew p thread address callsiteKey o cache).liveTotal c f =
      s.liveTotal c f + if c = o.classIndex then f o else 0 := by
  rw [liveTotal, afterNew, HashMap.total_insert, live_allocate o thread callsiteKey hf]
  rfl

theorem liveTotal_afterReuse {thread address callsiteKey : Nat} {old : ObjectStatus}
    (hfind : s.objStatusMap.find address = some old) (hold : old.allocated = false)
    (o : ObjectStatus) (cache : SizeClassSizeAndIndex)
    (hf : f (o.allocate thread callsiteKey) = f o) :
    (s.afterReuse p thread address callsiteKey o cache).liveTotal c f =
      s.liveTotal c f + if c = o.classIndex then f o else 0 := by
  have h := HashMap.total_modify (fun e => live c f e.value) hfind
    fun _ => o.allocate thread callsiteKey
  simp only [live_of_free hold, live_allocate o thread callsiteKey hf, add_zero] at h
  exact h

theorem liveTotal_afterFree (thread : Nat)
    {address : Nat} {o : ObjectStatus} (hfind : s.objStatusMap.find address = some o)
    (ho : o.allocated = true) :
    (s.afterFree p thread address o).liveTotal c f + (if c = o.classIndex then f o else 0) =
      s.liveTotal c f := by
  have h := HashMap.total_modify (fun e => live c f e.value) hfind
    fun _ => { o with allocated := false }
  simp only [live_of_allocated ho] at h
  rw [live_of_free rfl, add_zero] at h
  exact h

/-! ## The rows -/

/-- The rows of the class over the existing threads, summed. -/
def rowSum (p : ProgramStatus) (s : MemoryWaste) (rows : Nat → Int) (c : Nat) : Int :=
  columnSum p.numberOfClassSizes s.totalNumOfThread rows c

/-- What the rows stand for. Counts are exact; the fragments are summed in
the rows' own 64-bit arithmetic. -/
structure Counted (p : ProgramStatus) (s : MemoryWaste) : Prop where
  consistent : Consistent p s
  classes : s.objStatusMap.Forall fun e => e.value.classIndex < p.numberOfClassSizes
  objects : ∀ c < p.numberOfClassSizes,
    rowSum p s s.currentStatus.numOfAllocatedObjects c = s.allocatedObjects c
  fragments : ∀ c < p.numberOfClassSizes,
    rowSum p s s.currentStatus.internalFragment c ≡ s.liveFragment c [ZMOD 2 ^ 64]
  fresh : ∀ thread, s.totalNumOfThread ≤ thread → ∀ c < p.numberOfClassSizes,
    s.currentStatus.numOfAllocatedObjects (p.arrayIndex thread c) = 0 ∧
    s.currentStatus.internalFragment (p.arrayIndex thread c) = 0

/-- No count in the thread's row is at the end of its range. -/
def InRange (p : ProgramStatus) (s : MemoryWaste) (thread : Nat) : Prop :=
  ∀ c < p.numberOfClassSizes,
    -2 ^ 31 < s.currentStatus.numOfAllocatedObjects (p.arrayIndex thread c) ∧
    s.currentStatus.numOfAllocatedObjects (p.arrayIndex thread c) < 2 ^ 31 - 1

/-- The table assigns the size a class that holds it. -/
def Assigned (p : ProgramStatus) (size : Nat) : Prop :=
  ∀ k ∈ p.classOf size, size ≤ k.classSize ∧ k.classSizeIndex < p.numberOfClassSizes

/-- Existing threads allocate at addresses that are not allocated, and free
any address. -/
def Orderly (p : ProgramStatus) (s : MemoryWaste) : Call → Prop
  | .allocUpdate thread size address _ =>
      thread < s.totalNumOfThread ∧ Assigned p size ∧ InRange p s thread ∧
      ∀ o ∈ s.objStatusMap.find address, o.allocated = false
  | .freeUpdate thread _ => thread < s.totalNumOfThread ∧ InRange p s thread
  | .newThread => True

theorem Assigned.fits {size : Nat} (h : Assigned p size) : p.Fits size :=
  fun k hk => (h k hk).1

/-- Size 0 may be answered by an untouched cache, with class 0. -/
theorem Assigned.index_lt {size : Nat} (h : Assigned p size)
    {k cache cache' : SizeClassSizeAndIndex}
    (hc : p.Caches cache) (hk : p.getClassSizeAndIndex cache size = some (k, cache')) :
    k.classSizeIndex < p.numberOfClassSizes := by
  rcases (p.getClassSizeAndIndex_spec hc hk).1 with hclass | ⟨rfl, rfl⟩
  · exact (h k hclass).2
  · obtain ⟨k, hk0, hindex⟩ := p.classOf_zero
    have hlt := (h k hk0).2
    rwa [hindex] at hlt

/-! ## What the calls preserve -/

/-- An allocation: the entry and the row of the calling thread gain the
same share. -/
theorem Counted.alloc {thread : Nat} {o : ObjectStatus} (h : Counted p s)
    (hthread : thread < s.totalNumOfThread) (hindex : o.classIndex < p.numberOfClassSizes)
    (hrange : InRange p s thread) (hc' : Consistent p s')
    (hclasses : s'.objStatusMap.Forall fun e => e.value.classIndex < p.numberOfClassSizes)
    (htotal : s'.totalNumOfThread = s.totalNumOfThread)
    (hobjects : s'.currentStatus.numOfAllocatedObjects =
      addAt 32 s.currentStatus.numOfAllocatedObjects (p.arrayIndex thread o.classIndex) 1)
    (hfragments : s'.currentStatus.internalFragment =
      addAt 64 s.currentStatus.internalFragment (p.arrayIndex thread o.classIndex)
        o.internalFragment)
    (hone : ∀ c, s'.allocatedObjects c = s.allocatedObjects c + if c = o.classIndex then 1 else 0)
    (hlive : ∀ c, s'.liveFragment c =
      s.liveFragment c + if c = o.classIndex then o.internalFragment else 0) :
    Counted p s' := by
  refine ⟨hc', hclasses, fun c hc => ?_, fun c hc => ?_, fun t ht c hc => ?_⟩
  · have hexact : swrap 32 (s.currentStatus.numOfAllocatedObjects
        (p.arrayIndex thread o.classIndex) + 1) =
        s.currentStatus.numOfAllocatedObjects (p.arrayIndex thread o.classIndex) + 1 := by
      obtain ⟨hlo, hhi⟩ := hrange _ hindex
      exact swrap_of_range (by push_cast; omega) (by push_cast; omega)
    rw [rowSum, htotal, hobjects, columnSum_addAt_exact hthread hc hindex hexact, ← rowSum,
      h.objects c hc, hone c]
    split <;> push_cast <;> rfl
  · rw [rowSum, htotal, hfragments, hlive c]
    refine (columnSum_addAt_modEq hthread hc hindex).trans ?_
    push_cast
    exact (h.fragments c hc).add_right _
  · rw [htotal] at ht
    obtain ⟨h0, h1⟩ := h.fresh t ht c hc
    have hne : p.arrayIndex t c ≠ p.arrayIndex thread o.classIndex :=
      fun heq => by have := ((index_inj hc hindex).mp heq).1; omega
    rw [hobjects, hfragments, addAt, addAt, Function.update_of_ne hne, Function.update_of_ne hne]
    exact ⟨h0, h1⟩

/-- A free: the thread's row loses what the entry was worth. -/
theorem Counted.free {thread address : Nat} {o : ObjectStatus} (h : Counted p s)
    (hthread : thread < s.totalNumOfThread) (hrange : InRange p s thread)
    (hfind : s.objStatusMap.find address = some o) (ho : o.allocated = true)
    (hc' : Consistent p (s.afterFree p thread address o)) :
    Counted p (s.afterFree p thread address o) := by
  have hindex : o.classIndex < p.numberOfClassSizes := h.classes.find hfind
  refine ⟨hc', h.classes.modify fun _ _ => hindex, fun c hc => ?_, fun c hc => ?_,
    fun t ht c hc => ?_⟩
  · have hexact : swrap 32 (s.currentStatus.numOfAllocatedObjects
        (p.arrayIndex thread o.classIndex) + -1) =
        s.currentStatus.numOfAllocatedObjects (p.arrayIndex thread o.classIndex) + -1 := by
      obtain ⟨hlo, hhi⟩ := hrange _ hindex
      exact swrap_of_range (by push_cast; omega) (by push_cast; omega)
    have hsum := columnSum_addAt_exact hthread hc hindex hexact
    have hone := liveTotal_afterFree (p := p) (c := c) (f := fun _ => 1) thread hfind ho
    have hold := h.objects c hc
    simp only [rowSum, allocatedObjects, afterFree, MemoryWasteStatus.countFree] at hsum hone hold ⊢
    rw [hsum, hold]
    split at hone <;> omega
  · have hsum := columnSum_addAt_modEq (w := 64) (a := s.currentStatus.internalFragment)
      (d := -(o.internalFragment : Int)) hthread hc hindex
    have hlive := liveTotal_afterFree (p := p) (c := c) (f := ObjectStatus.internalFragment)
      thread hfind ho
    refine hsum.trans ((h.fragments c hc).add_right _ |>.trans ?_)
    rw [liveFragment, ← hlive, liveFragment]
    push_cast
    split <;> simp [Int.ModEq]
  · obtain ⟨h0, h1⟩ := h.fresh t ht c hc
    have hne : p.arrayIndex t c ≠ p.arrayIndex thread o.classIndex := by
      intro heq
      have hlt := ((index_inj hc hindex).mp heq).1
      exact absurd ht (by simp [afterFree]; omega)
    simp only [afterFree, MemoryWasteStatus.countFree, addAt]
    rw [Function.update_of_ne hne, Function.update_of_ne hne]
    exact ⟨h0, h1⟩

/-- A new thread's row is still empty. -/
theorem Counted.newThread (h : Counted p s) :
    Counted p { s with totalNumOfThread := s.totalNumOfThread + 1 } := by
  have hfresh := h.fresh s.totalNumOfThread le_rfl
  refine ⟨⟨h.consistent.caches, h.consistent.entries⟩, h.classes,
    fun c hc => ?_, fun c hc => ?_, fun t ht c hc => h.fresh t (by simp at ht; omega) c hc⟩
  · exact (columnSum_succ (hfresh c hc).1).trans (h.objects c hc)
  · have hsum := h.fragments c hc
    rw [rowSum, ← columnSum_succ (hfresh c hc).2] at hsum
    exact hsum

theorem init_counted (p : ProgramStatus) (b : Backtrace) : Counted p (init b) where
  consistent := init_consistent p b
  classes := HashMap.init_forall _ _ _
  objects := fun c _ => by
    simp [rowSum, columnSum, allocatedObjects, liveTotal, init]
  fragments := fun c _ => by
    simp [rowSum, columnSum, liveFragment, liveTotal, init]
  fresh := fun _ _ _ _ => ⟨rfl, rfl⟩

/-- The step lemma, one case a call. -/
theorem step_counted {call : Call} (h : Counted p s) (hg : Orderly p s call)
    (hs : s.step p call = some s') : Counted p s' := by
  cases call with
  | allocUpdate thread size address callsiteKey =>
      obtain ⟨hthread, hassigned, hrange, hfree⟩ := hg
      have hc' : Consistent p s' := step_consistent h.consistent
        (fun _ _ _ _ heq => by cases heq; exact hassigned.fits) hs
      rcases alloc_cases hs with ⟨k, cache, -, hk, rfl⟩ | ⟨old, status, cache, hfind, hr, rfl⟩
      · have hindex := hassigned.index_lt (h.consistent.caches thread) hk
        refine h.alloc (o := .newObjectStatus k size) hthread hindex hrange hc'
          (h.classes.insert hindex) rfl rfl rfl (fun c => ?_) fun c => ?_
        · exact liveTotal_afterNew _ cache rfl
        · exact liveTotal_afterNew _ cache rfl
      · have hindex : status.classIndex < p.numberOfClassSizes := by
          rcases hr with ⟨-, rfl, -⟩ | ⟨-, k, hk, rfl⟩
          · exact h.classes.find hfind
          · exact hassigned.index_lt (h.consistent.caches thread) hk
        refine h.alloc (o := status) hthread hindex hrange hc'
          (h.classes.modify fun _ _ => hindex) rfl rfl rfl (fun c => ?_) fun c => ?_
        · exact liveTotal_afterReuse hfind (hfree old hfind) status cache rfl
        · exact liveTotal_afterReuse hfind (hfree old hfind) status cache rfl
  | freeUpdate thread address =>
      obtain ⟨hthread, hrange⟩ := hg
      rcases free_cases hs with rfl | ⟨status, hfind, hallocated, rfl⟩
      · exact h
      · have hc' := step_consistent h.consistent (by rintro _ _ _ _ ⟨⟩) hs
        exact h.free hthread hrange hfind hallocated hc'
  | newThread =>
      obtain ⟨-, rfl⟩ := newThread_cases hs
      exact h.newThread

/-- A fragment takes less than 32 bits, so few enough of them fit in 63. -/
theorem liveFragment_le (h : Consistent p s) (c : Nat) :
    s.liveFragment c ≤ (2 ^ 32 - 1) * s.allocatedObjects c := by
  simp only [liveFragment, allocatedObjects, liveTotal, HashMap.total, Finset.mul_sum]
  refine Finset.sum_le_sum fun i _ => ?_
  rw [← List.sum_map_mul_left]
  refine List.sum_le_sum fun e he => ?_
  have hsound := h.entries i e he
  have hle := hsound.internalFragment_le
  have hlt := hsound.classSize_lt
  simp only [live]
  split <;> omega

/-- **Live objects and fragments are exact**: the rows of every class sum up
to the allocated entries of the class and to their internal fragmentation,
and `globalize` of a snapshot yields these sums. -/
theorem waste_counters_exact {b : Backtrace} {past : List Call}
    (h : Run (step p) (fun _ => Orderly p) (init b) past s)
    (hcount : ∀ c < p.numberOfClassSizes, s.allocatedObjects c < 2 ^ 31) :
    ∀ c < p.numberOfClassSizes,
      rowSum p s s.currentStatus.numOfAllocatedObjects c = s.allocatedObjects c ∧
      swrap 64 (rowSum p s s.currentStatus.internalFragment c) = s.liveFragment c ∧
      ∀ r : MemoryWasteStatus, r.SnapshotOf p s.totalNumOfThread s.currentStatus →
        let g := MemoryWasteGlobalStatus.globalize p s.totalNumOfThread r {}
        g.numOfAllocatedObjects c = s.allocatedObjects c ∧
        g.internalFragment c = s.liveFragment c := by
  have hi : Counted p s := by
    refine h.inv (fun _ s => Counted p s) (init_counted p b) ?_
    intro past s call s' _ hc hg hs
    exact step_counted hc hg hs
  intro c hc
  have hobj := hcount c hc
  have hfrag := liveFragment_le hi.consistent c
  have hfragLt : s.liveFragment c < 2 ^ 63 := by omega
  refine ⟨hi.objects c hc, swrap_eq_of_modEq (hi.fragments c hc) (by omega) (by omega), ?_⟩
  intro r hr
  have hrows : ∑ thread ∈ Finset.range s.totalNumOfThread,
      r.numOfAllocatedObjects (p.arrayIndex thread c) = s.allocatedObjects c := by
    rw [← hi.objects c hc]
    exact Finset.sum_congr rfl fun t ht => (hr.rows t (Finset.mem_range.mp ht) c hc).2.1
  have hcells : ∑ thread ∈ Finset.range s.totalNumOfThread,
      r.internalFragment (p.arrayIndex thread c) ≡ s.liveFragment c [ZMOD 2 ^ 64] := by
    have hsum : ∑ thread ∈ Finset.range s.totalNumOfThread,
        r.internalFragment (p.arrayIndex thread c)
          = rowSum p s s.currentStatus.internalFragment c :=
      Finset.sum_congr rfl fun t ht => (hr.rows t (Finset.mem_range.mp ht) c hc).1
    rw [hsum]
    exact hi.fragments c hc
  refine ⟨?_, ?_⟩
  · rw [MemoryWasteGlobalStatus.globalize_numOfAllocatedObjects hc]
    exact accumulate_eq (by rw [hrows]) (by omega) (by omega)
  · rw [MemoryWasteGlobalStatus.globalize_internalFragment hc]
    exact accumulate_eq hcells (by omega) (by omega)

/-- What an entry has at most one of grows by at most one with each call. -/
theorem total_le_length {guard : List Call → MemoryWaste → Call → Prop} {b : Backtrace}
    {share : ObjectStatus → Nat} (hshare : ∀ o, share o ≤ 1) {past : List Call}
    (h : Run (step p) guard (init b) past s) :
    (s.objStatusMap.total fun e => share e.value) ≤ past.length := by
  refine h.inv (fun past s => (s.objStatusMap.total fun e => share e.value) ≤ past.length)
    (by simp [init]) ?_
  intro past s call s' _ hle _ hs
  rw [List.length_append, List.length_singleton]
  cases call with
  | allocUpdate thread size address callsiteKey =>
      rcases alloc_cases hs with ⟨k, cache, -, -, rfl⟩ | ⟨old, status, cache, hfind, -, rfl⟩
      · rw [afterNew, HashMap.total_insert]
        exact Nat.add_le_add hle (hshare _)
      · have htotal := HashMap.total_modify (fun e => share e.value) hfind
          fun _ => status.allocate thread callsiteKey
        have hnew := hshare (status.allocate thread callsiteKey)
        simp only [afterReuse] at htotal ⊢
        omega
  | freeUpdate thread address =>
      rcases free_cases hs with rfl | ⟨status, hfind, -, rfl⟩
      · omega
      · have htotal := HashMap.total_modify (fun e => share e.value) hfind
          fun _ => { status with allocated := false }
        have hnew := hshare { status with allocated := false }
        simp only [afterFree] at htotal ⊢
        omega
  | newThread =>
      obtain ⟨-, rfl⟩ := newThread_cases hs
      exact Nat.le_succ_of_le hle

theorem live_one_le (c : Nat) (o : ObjectStatus) : live c (fun _ => 1) o ≤ 1 := by
  simp only [live]
  split <;> omega

instance (p : ProgramStatus) (size : Nat) : Decidable (Assigned p size) :=
  inferInstanceAs (Decidable
    (∀ k ∈ p.classOf size, size ≤ k.classSize ∧ k.classSizeIndex < p.numberOfClassSizes))

instance (p : ProgramStatus) (s : MemoryWaste) (thread : Nat) : Decidable (InRange p s thread) :=
  inferInstanceAs (Decidable (∀ c < p.numberOfClassSizes, _ ∧ _))

instance (p : ProgramStatus) (s : MemoryWaste) : ∀ call, Decidable (Orderly p s call)
  | .allocUpdate thread size address _ =>
      inferInstanceAs (Decidable (thread < s.totalNumOfThread ∧ Assigned p size ∧
        InRange p s thread ∧ ∀ o ∈ s.objStatusMap.find address, o.allocated = false))
  | .freeUpdate thread _ =>
      inferInstanceAs (Decidable (thread < s.totalNumOfThread ∧ InRange p s thread))
  | .newThread => inferInstanceAs (Decidable True)

/-- Thread 1 frees what thread 0 allocated; its row is negative and the sum
is right. -/
theorem waste_counters_exact_two_threads :
    ∃ s, Run (step .bumpTable) (fun _ => Orderly .bumpTable) (init .init)
        [.newThread, .newThread, .allocUpdate 0 30 4096 1, .allocUpdate 0 31 8192 1,
          .freeUpdate 1 4096] s ∧
      s.currentStatus.numOfAllocatedObjects (ProgramStatus.bumpTable.arrayIndex 1 1) = -1 ∧
      rowSum .bumpTable s s.currentStatus.numOfAllocatedObjects 1 = s.allocatedObjects 1 := by
  let calls : List Call := [.newThread, .newThread, .allocUpdate 0 30 4096 1,
    .allocUpdate 0 31 8192 1, .freeUpdate 1 4096]
  let checked : MemoryWaste → Call → Option MemoryWaste :=
    fun s c => if Orderly .bumpTable s c then s.step .bumpTable c else none
  have hrow : ((calls.foldlM checked (init .init)).map fun s =>
      s.currentStatus.numOfAllocatedObjects (ProgramStatus.bumpTable.arrayIndex 1 1)) =
      some (-1) := by decide +kernel
  obtain ⟨s, hs, hneg⟩ := Option.map_eq_some_iff.mp hrow
  have hrun : Run (step .bumpTable) (fun _ => Orderly .bumpTable) (init .init) calls s :=
    Run.ofChecked hs
  refine ⟨s, hrun, hneg, ?_⟩
  refine (waste_counters_exact hrun (fun c _ => ?_) 1 (by decide)).1
  exact lt_of_le_of_lt (total_le_length (live_one_le c) hrun) (by decide)

end MemoryWaste

end MemPerf.Temp
