import MemPerf.WasteCounters

/-!
# Free addresses

`numOfFreelistObjects` counts a free address under the class it was freed
as. A reuse takes it off the list of the class it is reused as, so the
counters describe the free addresses exactly as long as every address is
reused for the class it had.
-/

namespace MemPerf.Temp

open Chained Rows Word StepSystem

namespace MemoryWaste

/-- One for a free entry of the class. A free entry keeps the class it was
freed as: only `allocUpdate` rewrites it. -/
def onFreelist (c : Nat) (o : ObjectStatus) : Nat :=
  if o.allocated = false ∧ o.classIndex = c then 1 else 0

/-- The number of addresses whose entry is not allocated and was last freed
as class `c`. -/
def freeAddresses (s : MemoryWaste) (c : Nat) : Nat :=
  s.objStatusMap.total fun e => onFreelist c e.value

/-- The rows of every class sum up to its free addresses, of which the blowup
flag marks some. -/
structure DescribesFree (p : ProgramStatus) (s : MemoryWaste) : Prop where
  rows : ∀ c < p.numberOfClassSizes,
    rowSum p s s.currentStatus.numOfFreelistObjects c = s.freeAddresses c
  flag_nonneg : ∀ c < p.numberOfClassSizes, 0 ≤ s.currentStatus.blowupFlag c
  flag_le : ∀ c < p.numberOfClassSizes, s.currentStatus.blowupFlag c ≤ s.freeAddresses c

/-- Existing threads allocate at addresses that are not allocated. -/
def Allowed (s : MemoryWaste) : Call → Prop
  | .allocUpdate thread _ address _ =>
      thread < s.totalNumOfThread ∧ ∀ o ∈ s.objStatusMap.find address, o.allocated = false
  | .freeUpdate thread _ => thread < s.totalNumOfThread
  | .newThread => True

/-- No freelist count in the thread's row is at the end of its range. -/
def FreelistInRange (p : ProgramStatus) (s : MemoryWaste) (thread : Nat) : Prop :=
  ∀ c < p.numberOfClassSizes,
    -2 ^ 31 < s.currentStatus.numOfFreelistObjects (p.arrayIndex thread c) ∧
    s.currentStatus.numOfFreelistObjects (p.arrayIndex thread c) < 2 ^ 31 - 1

/-- The size has a class of the table, and an address that is reused for it
was last freed as that class. -/
def KeepsClass (p : ProgramStatus) (s : MemoryWaste) : Call → Prop
  | .allocUpdate thread size address _ =>
      (∀ k ∈ p.classOf size, k.classSizeIndex < p.numberOfClassSizes) ∧
      FreelistInRange p s thread ∧
      ∀ old ∈ s.objStatusMap.find address, old.sizeClassSizeAndIndex.size = size ∨
        ∀ k ∈ p.classOf size, k.classSizeIndex = old.classIndex
  | .freeUpdate thread _ => FreelistInRange p s thread
  | .newThread => True

variable {p : ProgramStatus} {s s' : MemoryWaste} {c : Nat}

/-! ## The free entries after a call -/

theorem onFreelist_of_allocated {o : ObjectStatus} (h : o.allocated = true) :
    onFreelist c o = 0 := by
  simp [onFreelist, h]

theorem onFreelist_of_free {o : ObjectStatus} (h : o.allocated = false) :
    onFreelist c o = if c = o.classIndex then 1 else 0 :=
  if_congr (by simp [h, eq_comm]) rfl rfl

theorem freeAddresses_afterNew {thread address callsiteKey : Nat} (o : ObjectStatus)
    (cache : SizeClassSizeAndIndex) :
    (s.afterNew p thread address callsiteKey o cache).freeAddresses c = s.freeAddresses c := by
  rw [freeAddresses, afterNew, HashMap.total_insert, onFreelist_of_allocated rfl]
  rfl

theorem freeAddresses_afterReuse {thread address callsiteKey : Nat} {old : ObjectStatus}
    (hfind : s.objStatusMap.find address = some old) (hold : old.allocated = false)
    (o : ObjectStatus) (cache : SizeClassSizeAndIndex) :
    (s.afterReuse p thread address callsiteKey o cache).freeAddresses c +
      (if c = old.classIndex then 1 else 0) = s.freeAddresses c := by
  have h := HashMap.total_modify (fun e => onFreelist c e.value) hfind
    fun _ => o.allocate thread callsiteKey
  rw [onFreelist_of_free hold, onFreelist_of_allocated rfl] at h
  exact h

theorem freeAddresses_afterFree {thread address : Nat}
    {o : ObjectStatus} (hfind : s.objStatusMap.find address = some o) (ho : o.allocated = true) :
    (s.afterFree p thread address o).freeAddresses c =
      s.freeAddresses c + if c = o.classIndex then 1 else 0 := by
  have h := HashMap.total_modify (fun e => onFreelist c e.value) hfind
    fun _ => { o with allocated := false }
  rw [onFreelist_of_allocated ho, onFreelist_of_free rfl] at h
  exact h

/-! ## What the calls preserve -/

structure Listed (p : ProgramStatus) (s : MemoryWaste) : Prop where
  caches : ∀ thread, p.Caches (s.cacheForGetClassSizeAndIndex thread)
  classes : s.objStatusMap.Forall fun e => e.value.classIndex < p.numberOfClassSizes
  threads : s.totalNumOfThread ≤ maxThreadNumber
  range : ∀ i, s.currentStatus.numOfFreelistObjects i < 2 ^ 31
  describes : DescribesFree p s
  fresh : ∀ thread, s.totalNumOfThread ≤ thread → ∀ c < p.numberOfClassSizes,
    s.currentStatus.numOfFreelistObjects (p.arrayIndex thread c) = 0

theorem addAt_lt {a : Nat → Int} {d : Int} {i : Nat} (h : ∀ j, a j < 2 ^ 31) (j : Nat) :
    addAt 32 a i d j < 2 ^ 31 := by
  by_cases hj : j = i
  · subst hj
    rw [addAt, Function.update_self, swrap]
    have hlt := Int.bmod_lt (x := a j + d) (m := 2 ^ 32) (by norm_num)
    norm_num at hlt ⊢
    exact hlt
  · rw [addAt, Function.update_of_ne hj]
    exact h j

/-- 1024 rows of 32-bit counts stay far below 63 bits. -/
theorem Listed.freeAddresses_lt (h : Listed p s) (hc : c < p.numberOfClassSizes) :
    (s.freeAddresses c : Int) ≤ 2 ^ 41 := by
  have hsum : rowSum p s s.currentStatus.numOfFreelistObjects c ≤ s.totalNumOfThread • 2 ^ 31 := by
    have hcells := Finset.sum_le_card_nsmul (Finset.range s.totalNumOfThread)
      (fun t => s.currentStatus.numOfFreelistObjects (p.arrayIndex t c)) (2 ^ 31)
      fun t _ => le_of_lt (h.range _)
    rwa [Finset.card_range] at hcells
  have hT : (s.totalNumOfThread : Int) ≤ 1024 := by exact_mod_cast h.threads
  rw [h.describes.rows c hc, nsmul_eq_mul] at hsum
  omega

/-- A flag of the class counted in moves with its list; it never leaves the
list behind. -/
theorem flag_step {flag : Nat → Int} {k : Nat} (h0 : 0 ≤ flag k) (hlt : flag k ≤ 2 ^ 41) (c : Nat) :
    (if 0 < flag k then addAt 64 flag k (-1) else flag) c =
      flag c - if c = k ∧ 0 < flag k then 1 else 0 := by
  by_cases hk : 0 < flag k
  · rw [if_pos hk, addAt]
    by_cases hc : c = k
    · subst hc
      rw [Function.update_self, swrap_of_range (by push_cast; omega) (by push_cast; omega)]
      simp [hk, sub_eq_add_neg]
    · rw [Function.update_of_ne hc]
      simp [hc]
  · simp [hk]

/-- A flag is only taken down from a positive count. -/
theorem flag_step_nonneg {flag : Nat → Int} {k c : Nat} (h0 : 0 ≤ flag k) (hlt : flag k ≤ 2 ^ 41)
    (hc : 0 ≤ flag c) : 0 ≤ (if 0 < flag k then addAt 64 flag k (-1) else flag) c := by
  rw [flag_step h0 hlt]
  split
  · next hpos =>
      obtain ⟨rfl, hpos⟩ := hpos
      omega
  · omega

theorem Listed.flag_le (h : Listed p s) (hc : c < p.numberOfClassSizes) :
    s.currentStatus.blowupFlag c ≤ 2 ^ 41 :=
  (h.describes.flag_le c hc).trans (h.freeAddresses_lt hc)

/-- A new address: no list changes, a flag may be taken down. -/
theorem Listed.allocNew {thread address size callsiteKey : Nat} {k cache : SizeClassSizeAndIndex}
    (h : Listed p s) (hindex : k.classSizeIndex < p.numberOfClassSizes)
    (hk : p.getClassSizeAndIndex (s.cacheForGetClassSizeAndIndex thread) size = some (k, cache)) :
    Listed p (s.afterNew p thread address callsiteKey (.newObjectStatus k size) cache) := by
  have hflag := flag_step (h.describes.flag_nonneg _ hindex) (h.flag_le hindex)
  refine ⟨caches_update h.caches hk, h.classes.insert hindex, h.threads, h.range,
    ⟨fun c hc => ?_, fun c hc => ?_, fun c hc => ?_⟩, h.fresh⟩
  · rw [freeAddresses_afterNew]
    exact h.describes.rows c hc
  · exact flag_step_nonneg (h.describes.flag_nonneg _ hindex) (h.flag_le hindex)
      (h.describes.flag_nonneg c hc)
  · have hle := h.describes.flag_le c hc
    rw [freeAddresses_afterNew]
    refine (hflag c).trans_le ?_
    split <;> omega

/-- A reuse for the class of the free entry takes one address off that list. -/
theorem Listed.allocReuse {thread address callsiteKey : Nat} {old o : ObjectStatus}
    {cache : SizeClassSizeAndIndex} (h : Listed p s) (hthread : thread < s.totalNumOfThread)
    (hrange : FreelistInRange p s thread) (hfind : s.objStatusMap.find address = some old)
    (hold : old.allocated = false) (hclass : o.classIndex = old.classIndex)
    (hcaches : ∀ thread',
      p.Caches (Function.update s.cacheForGetClassSizeAndIndex thread cache thread')) :
    Listed p (s.afterReuse p thread address callsiteKey o cache) := by
  have hindex : o.classIndex < p.numberOfClassSizes := hclass ▸ h.classes.find hfind
  have hflag := flag_step (h.describes.flag_nonneg _ hindex) (h.flag_le hindex)
  have hfree : ∀ c, (s.afterReuse p thread address callsiteKey o cache).freeAddresses c +
      (if c = o.classIndex then 1 else 0) = s.freeAddresses c := fun c => by
    rw [hclass]
    exact freeAddresses_afterReuse hfind hold o cache
  refine ⟨hcaches, h.classes.modify fun _ _ => hindex,
    h.threads, addAt_lt h.range, ⟨fun c hc => ?_, fun c hc => ?_, fun c hc => ?_⟩,
    fun t ht c hc => ?_⟩
  · have hexact : swrap 32 (s.currentStatus.numOfFreelistObjects
        (p.arrayIndex thread o.classIndex) + -1) =
        s.currentStatus.numOfFreelistObjects (p.arrayIndex thread o.classIndex) + -1 := by
      obtain ⟨hlo, hhi⟩ := hrange _ hindex
      exact swrap_of_range (by push_cast; omega) (by push_cast; omega)
    have hsum := columnSum_addAt_exact hthread hc hindex hexact
    have hrows := h.describes.rows c hc
    have hfreec := hfree c
    refine hsum.trans ?_
    rw [rowSum] at hrows
    rw [hrows]
    split at hfreec <;> omega
  · exact flag_step_nonneg (h.describes.flag_nonneg _ hindex) (h.flag_le hindex)
      (h.describes.flag_nonneg c hc)
  · have hle := h.describes.flag_le c hc
    have hfreec := hfree c
    refine (hflag c).trans_le ?_
    by_cases hco : c = o.classIndex
    · subst hco
      by_cases hpos : 0 < s.currentStatus.blowupFlag o.classIndex <;>
        simp [hpos] at hfreec ⊢ <;> omega
    · simp [hco] at hfreec ⊢
      omega
  · have hne : p.arrayIndex t c ≠ p.arrayIndex thread o.classIndex := by
      intro heq
      have hlt := ((index_inj hc hindex).mp heq).1
      exact absurd ht (by simp [afterReuse]; omega)
    exact (Function.update_of_ne hne ..).trans (h.fresh t ht c hc)

/-- A free puts one address on the list and flags it. -/
theorem Listed.free {thread address : Nat} {o : ObjectStatus} (h : Listed p s)
    (hthread : thread < s.totalNumOfThread) (hrange : FreelistInRange p s thread)
    (hfind : s.objStatusMap.find address = some o) (ho : o.allocated = true) :
    Listed p (s.afterFree p thread address o) := by
  have hindex : o.classIndex < p.numberOfClassSizes := h.classes.find hfind
  have hfree : ∀ c, (s.afterFree p thread address o).freeAddresses c =
      s.freeAddresses c + if c = o.classIndex then 1 else 0 :=
    fun c => freeAddresses_afterFree hfind ho
  have hflag : ∀ c, addAt 64 s.currentStatus.blowupFlag o.classIndex 1 c =
      s.currentStatus.blowupFlag c + if c = o.classIndex then 1 else 0 := fun c => by
    have h0 := h.describes.flag_nonneg _ hindex
    have hle := h.flag_le hindex
    by_cases hco : c = o.classIndex
    · subst hco
      rw [addAt, Function.update_self, if_pos rfl]
      exact swrap_of_range (by push_cast; omega) (by push_cast; omega)
    · rw [addAt, Function.update_of_ne hco, if_neg hco, add_zero]
  refine ⟨h.caches, h.classes.modify fun _ _ => hindex,
    h.threads, addAt_lt h.range, ⟨fun c hc => ?_, fun c hc => ?_, fun c hc => ?_⟩,
    fun t ht c hc => ?_⟩
  · have hexact : swrap 32 (s.currentStatus.numOfFreelistObjects
        (p.arrayIndex thread o.classIndex) + 1) =
        s.currentStatus.numOfFreelistObjects (p.arrayIndex thread o.classIndex) + 1 := by
      obtain ⟨hlo, hhi⟩ := hrange _ hindex
      exact swrap_of_range (by push_cast; omega) (by push_cast; omega)
    have hrows := h.describes.rows c hc
    refine (columnSum_addAt_exact hthread hc hindex hexact).trans ?_
    rw [rowSum] at hrows
    rw [hrows, hfree c]
    split <;> push_cast <;> rfl
  · have h0 := h.describes.flag_nonneg c hc
    refine le_of_le_of_eq ?_ (hflag c).symm
    split <;> omega
  · have hle := h.describes.flag_le c hc
    refine (hflag c).trans_le ?_
    rw [hfree c]
    split <;> push_cast <;> omega
  · have hne : p.arrayIndex t c ≠ p.arrayIndex thread o.classIndex := by
      intro heq
      have hlt := ((index_inj hc hindex).mp heq).1
      exact absurd ht (by simp [afterFree]; omega)
    exact (Function.update_of_ne hne ..).trans (h.fresh t ht c hc)

theorem init_listed (p : ProgramStatus) (b : Backtrace) : Listed p (init b) where
  caches := fun _ => .inl rfl
  classes := HashMap.init_forall _ _ _
  threads := Nat.zero_le _
  range := fun _ => by norm_num [init]
  describes :=
    { rows := fun c _ => by simp [rowSum, columnSum, freeAddresses, init]
      flag_nonneg := fun _ _ => le_rfl
      flag_le := fun _ _ => Int.natCast_nonneg _ }
  fresh := fun _ _ _ _ => rfl

/-- The index of the class a call uses, size 0 included. -/
theorem KeepsClass.index_lt {thread size address callsiteKey : Nat}
    {k cache : SizeClassSizeAndIndex}
    (h : KeepsClass p s (.allocUpdate thread size address callsiteKey))
    (hc : p.Caches (s.cacheForGetClassSizeAndIndex thread))
    (hk : p.getClassSizeAndIndex (s.cacheForGetClassSizeAndIndex thread) size = some (k, cache)) :
    ∃ k' ∈ p.classOf size, k.classSizeIndex = k'.classSizeIndex ∧
      k.classSizeIndex < p.numberOfClassSizes := by
  rcases (p.getClassSizeAndIndex_spec hc hk).1 with hclass | ⟨rfl, rfl⟩
  · exact ⟨k, hclass, rfl, h.1 k hclass⟩
  · obtain ⟨k, hk0, hindex⟩ := p.classOf_zero
    have hlt := h.1 k hk0
    exact ⟨k, hk0, hindex.symm, by rwa [hindex] at hlt⟩

theorem step_listed {call : Call} (h : Listed p s) (hallowed : Allowed s call)
    (hkeeps : KeepsClass p s call) (hs : s.step p call = some s') : Listed p s' := by
  cases call with
  | allocUpdate thread size address callsiteKey =>
      obtain ⟨hthread, hfree⟩ := hallowed
      obtain ⟨hindex, hrange, hclass⟩ := id hkeeps
      rcases alloc_cases hs with ⟨k, cache, -, hk, rfl⟩ | ⟨old, o, cache, hfind, hr, rfl⟩
      · obtain ⟨k', -, -, hlt⟩ := hkeeps.index_lt (h.caches thread) hk
        exact h.allocNew hlt hk
      · rcases hr with ⟨-, rfl, rfl⟩ | ⟨hsize, k, hk, rfl⟩
        · refine h.allocReuse hthread hrange hfind (hfree _ hfind) rfl fun thread' => ?_
          rw [Function.update_eq_self]
          exact h.caches thread'
        · obtain ⟨k', hk', heq, -⟩ := hkeeps.index_lt (h.caches thread) hk
          have hold := (hclass old hfind).resolve_left hsize k' hk'
          exact h.allocReuse hthread hrange hfind (hfree _ hfind) (heq.trans hold)
            (caches_update h.caches hk)
  | freeUpdate thread address =>
      rcases free_cases hs with rfl | ⟨o, hfind, ho, rfl⟩
      · exact h
      · exact h.free hallowed hkeeps hfind ho
  | newThread =>
      obtain ⟨hlt, rfl⟩ := newThread_cases hs
      have hfresh := h.fresh s.totalNumOfThread le_rfl
      refine ⟨h.caches, h.classes, hlt, h.range,
        ⟨fun c hc => ?_, h.describes.flag_nonneg, h.describes.flag_le⟩,
        fun t ht c hc => h.fresh t (by simp at ht; omega) c hc⟩
      exact (columnSum_succ (hfresh c hc)).trans (h.describes.rows c hc)

/-! ## Whole runs -/

/-- The blowup of a class whose list is at least as long as its flag. -/
theorem memoryBlowup_nonneg {r : MemoryWasteStatus} (h : DescribesFree p s)
    (hr : r.SnapshotOf p s.totalNumOfThread s.currentStatus) (hc : c < p.numberOfClassSizes)
    (hcount : s.freeAddresses c < 2 ^ 31) :
    0 ≤ (MemoryWasteGlobalStatus.calculateBlowup p r
      (MemoryWasteGlobalStatus.globalize p s.totalNumOfThread r {})).memoryBlowup c := by
  have hrows : ∑ thread ∈ Finset.range s.totalNumOfThread,
      r.numOfFreelistObjects (p.arrayIndex thread c) = s.freeAddresses c := by
    rw [← h.rows c hc]
    exact Finset.sum_congr rfl fun t ht => (hr.rows t (Finset.mem_range.mp ht) c hc).2.2.1
  have hlist :
      (MemoryWasteGlobalStatus.globalize p s.totalNumOfThread r {}).numOfFreelistObjects c =
      s.freeAddresses c := by
    rw [MemoryWasteGlobalStatus.globalize_numOfFreelistObjects hc]
    exact accumulate_eq (by rw [hrows]) (by omega) (by omega)
  have h0 := h.flag_nonneg c hc
  have hle := h.flag_le c hc
  have hsize := p.classSizes_lt c
  simp only [MemoryWasteGlobalStatus.calculateBlowup, if_pos hc, hlist, hr.blowupFlag c hc]
  rw [swrap_of_range (x := s.freeAddresses c - s.currentStatus.blowupFlag c)
    (by push_cast; omega) (by push_cast; omega)]
  have hdiff : (0 : Int) ≤ s.freeAddresses c - s.currentStatus.blowupFlag c := by omega
  have hprod : (p.classSizes c : Int) * (s.freeAddresses c - s.currentStatus.blowupFlag c) ≤
      (2 ^ 32 - 1) * (2 ^ 31 - 1) :=
    mul_le_mul (by omega) (by omega) hdiff (by norm_num)
  have hprod0 : 0 ≤ (p.classSizes c : Int) * (s.freeAddresses c - s.currentStatus.blowupFlag c) :=
    mul_nonneg (Int.natCast_nonneg _) hdiff
  rw [swrap_of_range (by push_cast; omega) (by push_cast; omega)]
  exact hprod0

/-- **Freelists**: in a run that reuses every address for the class it was
freed as, the counters describe the free addresses, and no blowup is
negative before it is clamped. -/
theorem freelists_describe_free {b : Backtrace} {past : List Call}
    (h : Run (step p) (fun _ s call => Allowed s call ∧ KeepsClass p s call) (init b) past s) :
    DescribesFree p s ∧
      ∀ r : MemoryWasteStatus, r.SnapshotOf p s.totalNumOfThread s.currentStatus →
        ∀ c < p.numberOfClassSizes, s.freeAddresses c < 2 ^ 31 →
        0 ≤ (MemoryWasteGlobalStatus.calculateBlowup p r
          (MemoryWasteGlobalStatus.globalize p s.totalNumOfThread r {})).memoryBlowup c := by
  have hi : Listed p s := by
    refine h.inv (fun _ s => Listed p s) (init_listed p b) ?_
    intro past s call s' _ hl hg hs
    exact step_listed hl hg.1 hg.2 hs
  exact ⟨hi.describes, fun r hr c hc hcount => memoryBlowup_nonneg hi.describes hr hc hcount⟩

instance (s : MemoryWaste) : ∀ call, Decidable (Allowed s call)
  | .allocUpdate thread _ address _ =>
      inferInstanceAs (Decidable
        (thread < s.totalNumOfThread ∧ ∀ o ∈ s.objStatusMap.find address, o.allocated = false))
  | .freeUpdate thread _ => inferInstanceAs (Decidable (thread < s.totalNumOfThread))
  | .newThread => inferInstanceAs (Decidable True)

instance (p : ProgramStatus) (s : MemoryWaste) (thread : Nat) :
    Decidable (FreelistInRange p s thread) :=
  inferInstanceAs (Decidable (∀ c < p.numberOfClassSizes, _ ∧ _))

instance (p : ProgramStatus) (s : MemoryWaste) : ∀ call, Decidable (KeepsClass p s call)
  | .allocUpdate thread size address _ =>
      inferInstanceAs (Decidable
        ((∀ k ∈ p.classOf size, k.classSizeIndex < p.numberOfClassSizes) ∧
        FreelistInRange p s thread ∧
        ∀ old ∈ s.objStatusMap.find address, old.sizeClassSizeAndIndex.size = size ∨
          ∀ k ∈ p.classOf size, k.classSizeIndex = old.classIndex))
  | .freeUpdate thread _ => inferInstanceAs (Decidable (FreelistInRange p s thread))
  | .newThread => inferInstanceAs (Decidable True)

/-- Thread 1 frees an address that thread 0 reuses for another size of the
same class. -/
theorem freelists_describe_free_two_threads :
    ∃ s, Run (step .bumpTable) (fun _ s call => Allowed s call ∧ KeepsClass .bumpTable s call)
        (init .init) [.newThread, .newThread, .allocUpdate 0 30 4096 1, .allocUpdate 0 31 8192 1,
          .freeUpdate 1 4096, .freeUpdate 1 8192, .allocUpdate 0 35 4096 1] s ∧
      s.currentStatus.numOfFreelistObjects (ProgramStatus.bumpTable.arrayIndex 0 1) = -1 ∧
      DescribesFree .bumpTable s := by
  let calls : List Call := [.newThread, .newThread, .allocUpdate 0 30 4096 1,
    .allocUpdate 0 31 8192 1, .freeUpdate 1 4096, .freeUpdate 1 8192, .allocUpdate 0 35 4096 1]
  let checked : MemoryWaste → Call → Option MemoryWaste := fun s call =>
    if Allowed s call ∧ KeepsClass .bumpTable s call then s.step .bumpTable call else none
  have hrow : ((calls.foldlM checked (init .init)).map fun s =>
      s.currentStatus.numOfFreelistObjects (ProgramStatus.bumpTable.arrayIndex 0 1)) =
      some (-1) := by decide +kernel
  obtain ⟨s, hs, hneg⟩ := Option.map_eq_some_iff.mp hrow
  have hrun : Run (step .bumpTable) (fun _ s call => Allowed s call ∧ KeepsClass .bumpTable s call)
      (init .init) calls s := Run.ofChecked hs
  exact ⟨s, hrun, hneg, (freelists_describe_free hrun).1⟩

/-- An address freed as class 1 and reused as class 0: the list of class 0
is one short of empty, that of class 1 still holds the address, and the
blowup of class 0 is negative. -/
theorem freelists_miss_reuse :
    ∃ s, Run (step .bumpTable) (fun _ => Allowed) (init .init)
        [.newThread, .allocUpdate 0 30 4096 1, .freeUpdate 0 4096, .allocUpdate 0 20 4096 1] s ∧
      ¬ DescribesFree .bumpTable s ∧
      (MemoryWasteGlobalStatus.calculateBlowup .bumpTable s.currentStatus
        (MemoryWasteGlobalStatus.globalize .bumpTable s.totalNumOfThread s.currentStatus
          {})).memoryBlowup 0 = -24 := by
  let calls : List Call := [.newThread, .allocUpdate 0 30 4096 1, .freeUpdate 0 4096,
    .allocUpdate 0 20 4096 1]
  let checked : MemoryWaste → Call → Option MemoryWaste := fun s call =>
    if Allowed s call then s.step .bumpTable call else none
  have hrow : ((calls.foldlM checked (init .init)).map fun s =>
      (s.totalNumOfThread, s.currentStatus.numOfFreelistObjects 0,
        (MemoryWasteGlobalStatus.calculateBlowup .bumpTable s.currentStatus
          (MemoryWasteGlobalStatus.globalize .bumpTable s.totalNumOfThread s.currentStatus
            {})).memoryBlowup 0)) = some (1, -1, -24) := by decide +kernel
  obtain ⟨s, hs, hvals⟩ := Option.map_eq_some_iff.mp hrow
  obtain ⟨hthreads, hlist, hblowup⟩ : s.totalNumOfThread = 1 ∧
      s.currentStatus.numOfFreelistObjects 0 = -1 ∧ _ = (-24 : Int) := by simpa using hvals
  have hrun : Run (step .bumpTable) (fun _ => Allowed) (init .init) calls s := Run.ofChecked hs
  refine ⟨s, hrun, fun hd => ?_, hblowup⟩
  have hsum := hd.rows 0 (by decide)
  simp only [rowSum, columnSum, hthreads, Finset.sum_range_one, index, zero_mul, zero_add,
    hlist] at hsum
  omega

end MemoryWaste

end MemPerf.Temp
