import MemPerf.MemoryWaste

/-!
# The sizes in an object's entry

The highest byte touched of an object lies between its size and the size
of its class, whatever sizes the address was reused for. The unsigned
subtractions of `internalFragment` are then exact.
-/

namespace MemPerf.Temp

open Chained Word StepSystem

namespace ObjectStatus

/-- The bounds every entry keeps. -/
structure Sound (o : ObjectStatus) : Prop where
  size_le : o.sizeClassSizeAndIndex.size ≤ o.maxTouchedBytes
  le_classSize : o.maxTouchedBytes ≤ o.sizeClassSizeAndIndex.classSize
  classSize_lt : o.sizeClassSizeAndIndex.classSize < 2 ^ 32

/-- The whole pages of the class above the highest byte touched. -/
def unusedPages (o : ObjectStatus) : Nat :=
  (o.sizeClassSizeAndIndex.classSize - o.maxTouchedBytes) / pagesize * pagesize

variable {o : ObjectStatus}

theorem Sound.unusedPages_le (h : o.Sound) :
    o.unusedPages + o.maxTouchedBytes ≤ o.sizeClassSizeAndIndex.classSize :=
  calc o.unusedPages + o.maxTouchedBytes
      ≤ o.sizeClassSizeAndIndex.classSize - o.maxTouchedBytes + o.maxTouchedBytes :=
        Nat.add_le_add_right (Nat.div_mul_le_self _ _) _
    _ = o.sizeClassSizeAndIndex.classSize := Nat.sub_add_cancel h.le_classSize

/-- None of the subtractions wraps. -/
theorem Sound.internalFragment_eq (h : o.Sound) : o.internalFragment =
    o.sizeClassSizeAndIndex.classSize - o.unusedPages - o.sizeClassSizeAndIndex.size := by
  have hpages := h.unusedPages_le
  have hsize := h.size_le
  have hlt := h.classSize_lt
  have hunused : wsub 32 o.sizeClassSizeAndIndex.classSize o.maxTouchedBytes =
      o.sizeClassSizeAndIndex.classSize - o.maxTouchedBytes :=
    wsub_of_le h.le_classSize hlt
  have hkept : wsub 64 o.sizeClassSizeAndIndex.classSize o.unusedPages =
      o.sizeClassSizeAndIndex.classSize - o.unusedPages :=
    wsub_of_le (by omega) (by omega)
  rw [internalFragment]
  simp only [hunused]
  rw [← unusedPages, hkept]
  exact wsub_of_le (by omega) (by omega)

theorem Sound.internalFragment_le (h : o.Sound) : o.internalFragment ≤
    o.sizeClassSizeAndIndex.classSize - o.sizeClassSizeAndIndex.size := by
  rw [h.internalFragment_eq]
  omega

/-- The flags do not matter. -/
theorem Sound.allocate (h : o.Sound) (thread callsiteKey : Nat) :
    (o.allocate thread callsiteKey).Sound :=
  ⟨h.size_le, h.le_classSize, h.classSize_lt⟩

theorem Sound.freed (h : o.Sound) : ({ o with allocated := false } : ObjectStatus).Sound :=
  ⟨h.size_le, h.le_classSize, h.classSize_lt⟩

theorem sound_newObjectStatus {k : SizeClassSizeAndIndex} (hfit : k.size ≤ k.classSize)
    (hlt : k.classSize < 2 ^ 32) : (newObjectStatus k k.size).Sound :=
  ⟨le_rfl, hfit, hlt⟩

/-- Clipping to the class comes before raising to the size, so both bounds
hold afterwards, whatever the entry held before. -/
theorem sound_resize {k : SizeClassSizeAndIndex} (o : ObjectStatus) (hfit : k.size ≤ k.classSize)
    (hlt : k.classSize < 2 ^ 32) : (o.resize k k.size).Sound := by
  refine ⟨?_, ?_, hlt⟩
  · simp only [resize]
    split <;> split <;> omega
  · simp only [resize]
    split <;> split <;> omega

end ObjectStatus

namespace MemoryWaste

/-- What every call keeps of the table and the class caches. -/
structure Consistent (p : ProgramStatus) (s : MemoryWaste) : Prop where
  caches : ∀ thread, p.Caches (s.cacheForGetClassSizeAndIndex thread)
  entries : s.objStatusMap.Forall fun e => e.value.Sound

variable {p : ProgramStatus} {s s' : MemoryWaste}

theorem init_consistent (p : ProgramStatus) (b : Backtrace) : Consistent p (init b) where
  caches := fun _ => .inl rfl
  entries := HashMap.init_forall _ _ _

/-- The class given out for a size that fits. -/
theorem Consistent.fits (h : Consistent p s) {thread size : Nat} {k cache : SizeClassSizeAndIndex}
    (hfit : p.Fits size)
    (hk : p.getClassSizeAndIndex (s.cacheForGetClassSizeAndIndex thread) size = some (k, cache)) :
    k.size = size ∧ k.size ≤ k.classSize ∧ k.classSize < 2 ^ 32 := by
  rcases (p.getClassSizeAndIndex_spec (h.caches thread) hk).1 with hclass | ⟨rfl, rfl⟩
  · obtain ⟨hsize, hlt⟩ := p.classOf_spec hclass
    exact ⟨hsize, hsize ▸ hfit k hclass, hlt⟩
  · exact ⟨rfl, le_rfl, Nat.two_pow_pos 32⟩

/-- A lookup leaves sound caches behind. -/
theorem caches_update {thread size : Nat} {k cache : SizeClassSizeAndIndex}
    (hcaches : ∀ thread, p.Caches (s.cacheForGetClassSizeAndIndex thread))
    (hk : p.getClassSizeAndIndex (s.cacheForGetClassSizeAndIndex thread) size = some (k, cache))
    (thread' : Nat) :
    p.Caches (Function.update s.cacheForGetClassSizeAndIndex thread cache thread') := by
  by_cases ht : thread' = thread
  · subst ht
    rw [Function.update_self]
    exact (p.getClassSizeAndIndex_spec (hcaches _) hk).2
  · rw [Function.update_of_ne ht]
    exact hcaches thread'

/-- What a reused entry becomes. -/
theorem Consistent.reuses (h : Consistent p s) {thread size address : Nat}
    {old status : ObjectStatus} {cache : SizeClassSizeAndIndex} (hfit : p.Fits size)
    (hf : s.objStatusMap.find address = some old)
    (hr : Reuses p (s.cacheForGetClassSizeAndIndex thread) size old status cache) :
    status.Sound ∧ status.sizeClassSizeAndIndex.size = size ∧
      ∀ thread', p.Caches
        (Function.update s.cacheForGetClassSizeAndIndex thread cache thread') := by
  rcases hr with ⟨hsize, rfl, rfl⟩ | ⟨-, k, hk, rfl⟩
  · refine ⟨h.entries.find hf, hsize, fun thread' => ?_⟩
    rw [Function.update_eq_self]
    exact h.caches thread'
  · obtain ⟨rfl, hle, hlt⟩ := h.fits hfit hk
    exact ⟨old.sound_resize hle hlt, rfl, caches_update h.caches hk⟩

/-- The step lemma: only the sizes passed to `allocUpdate` have to fit. -/
theorem step_consistent {c : Call} (h : Consistent p s)
    (hfit : ∀ thread size address callsiteKey,
      c = .allocUpdate thread size address callsiteKey → p.Fits size)
    (hs : s.step p c = some s') : Consistent p s' := by
  cases c with
  | allocUpdate thread size address callsiteKey =>
      have hsize := hfit _ _ _ _ rfl
      rcases alloc_cases hs with ⟨k, cache, -, hk, rfl⟩ | ⟨old, status, cache, hf, hr, rfl⟩
      · obtain ⟨rfl, hle, hlt⟩ := h.fits hsize hk
        exact ⟨caches_update h.caches hk, h.entries.insert
          ((ObjectStatus.sound_newObjectStatus hle hlt).allocate thread callsiteKey)⟩
      · obtain ⟨hsound, -, hcaches⟩ := h.reuses hsize hf hr
        exact ⟨hcaches,
          h.entries.modify fun _ _ => hsound.allocate thread callsiteKey⟩
  | freeUpdate thread address =>
      rcases free_cases hs with rfl | ⟨status, hf, -, rfl⟩
      · exact h
      · exact ⟨h.caches,
          h.entries.modify fun _ _ => (h.entries.find hf).freed⟩
  | newThread =>
      obtain ⟨-, rfl⟩ := newThread_cases hs
      exact ⟨h.caches, h.entries⟩

/-- The sizes a program may allocate: in range of the rounding to the large
object alignment, and no larger than their class. -/
def SizesFit (p : ProgramStatus) (_ : MemoryWaste) : Call → Prop
  | .allocUpdate _ size _ _ =>
      1 ≤ size ∧ size ≤ 2 ^ 32 - 1 - p.largeObjectAlignment ∧ p.Fits size
  | _ => True

instance (p : ProgramStatus) (s : MemoryWaste) : ∀ call, Decidable (SizesFit p s call)
  | .allocUpdate _ size _ _ =>
      inferInstanceAs
        (Decidable (1 ≤ size ∧ size ≤ 2 ^ 32 - 1 - p.largeObjectAlignment ∧ p.Fits size))
  | .freeUpdate _ _ => inferInstanceAs (Decidable True)
  | .newThread => inferInstanceAs (Decidable True)

/-- **Object sizes**: in every run each entry keeps `size <= maxTouchedBytes <= classSize`, so
no subtraction of `internalFragment` goes below zero. -/
theorem object_sizes_bounded {b : Backtrace} {past : List Call}
    (h : Run (step p) (fun _ => SizesFit p) (init b) past s) :
    s.objStatusMap.Forall fun e =>
      let o := e.value
      let k := o.sizeClassSizeAndIndex
      k.size ≤ o.maxTouchedBytes ∧ o.maxTouchedBytes ≤ k.classSize ∧
      o.unusedPages + k.size ≤ k.classSize ∧
      o.internalFragment = k.classSize - o.unusedPages - k.size ∧
      o.internalFragment ≤ k.classSize - k.size := by
  have hc : Consistent p s := h.invariant (Consistent p) (init_consistent p b)
    fun _ s c s' hc hg hs => step_consistent hc
      (fun thread size address callsiteKey heq => by subst heq; exact hg.2.2) hs
  refine hc.entries.mono fun e he => ⟨he.size_le, he.le_classSize, ?_, he.internalFragment_eq,
    he.internalFragment_le⟩
  have hpages := he.unusedPages_le
  have hsize := he.size_le
  omega

/-- An address reused for a larger, then a smaller size. -/
theorem object_sizes_bounded_reuse :
    ∃ s, Run (step .bumpTable) (fun _ => SizesFit .bumpTable) (init .init)
        [.newThread, .allocUpdate 0 30 4096 1, .freeUpdate 0 4096, .allocUpdate 0 5000 4096 1,
          .freeUpdate 0 4096, .allocUpdate 0 50 4096 1] s ∧
      ∀ o, s.objStatusMap.find 4096 = some o →
        o.sizeClassSizeAndIndex.size ≤ o.maxTouchedBytes ∧
        o.internalFragment ≤ o.sizeClassSizeAndIndex.classSize - o.sizeClassSizeAndIndex.size := by
  let calls : List Call := [.newThread, .allocUpdate 0 30 4096 1, .freeUpdate 0 4096,
    .allocUpdate 0 5000 4096 1, .freeUpdate 0 4096, .allocUpdate 0 50 4096 1]
  let checked : MemoryWaste → Call → Option MemoryWaste :=
    fun s c => if SizesFit .bumpTable s c then s.step .bumpTable c else none
  have hsome : (calls.foldlM checked (init .init)).isSome := by decide +kernel
  obtain ⟨s, hs⟩ := Option.isSome_iff_exists.mp hsome
  have hrun : Run (step .bumpTable) (fun _ => SizesFit .bumpTable) (init .init) calls s :=
    Run.ofChecked hs
  refine ⟨s, hrun, fun o ho => ?_⟩
  obtain ⟨hsize, -, -, -, hle⟩ := (object_sizes_bounded hrun).find ho
  exact ⟨hsize, hle⟩

end MemoryWaste

end MemPerf.Temp
