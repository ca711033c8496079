import Mathlib.Order.Bounds.Basic
import MemPerf.ClassTable
import MemPerf.Lib.Run

/-!
# Which class a size gets

The class of a size should be the least one the size fits in: the least
entry of the table up to the threshold, the least multiple of the
alignment above it. The linear search of a bibop table finds that entry.
The two closed forms go one too far at the boundary: a bump pointer size
that is exactly a class gets the class after it, and a large size that is
exactly a multiple of the alignment gets the multiple after it, since the
cast in `(bool)size % largeObjectAlignment` binds before the remainder.
-/

namespace MemPerf.Temp

open StepSystem Word

/-- The least multiple from a bound on is the one less than one step above
the bound. -/
theorem isLeast_multiple_iff {a s c : Nat} (ha : 0 < a) :
    IsLeast {c | s ≤ c ∧ a ∣ c} c ↔ s ≤ c ∧ a ∣ c ∧ c < s + a := by
  constructor
  · rintro ⟨⟨hs, hdvd⟩, hleast⟩
    refine ⟨hs, hdvd, ?_⟩
    by_contra hfar
    have hle : c ≤ c - a := hleast ⟨by omega, Nat.dvd_sub hdvd (Nat.dvd_refl a)⟩
    omega
  · rintro ⟨hs, hdvd, hlt⟩
    refine ⟨⟨hs, hdvd⟩, ?_⟩
    rintro d ⟨hd, hdvd'⟩
    by_contra hbelow
    have hgap := Nat.le_of_dvd (by omega) (Nat.dvd_sub hdvd hdvd')
    omega

namespace ProgramStatus

variable {p : ProgramStatus} {N size : Nat}

/-- A table of `N` classes as an info file describes it. -/
structure ValidTable (p : ProgramStatus) (N : Nat) : Prop where
  pos : 0 < N
  room : N ≤ classSizesMax
  bibop : p.allocatorStyleIsBibop = true →
    p.numberOfClassSizes = N + 1 ∧ p.classSizes (N - 1) = p.largeObjectThreshold ∧
      ∀ i j, i < j → j < N → p.classSizes i < p.classSizes j
  bump : p.allocatorStyleIsBibop = false →
    p.largeObjectThreshold ≤ p.classSizes (N - 1) ∧ ∀ i < N, p.classSizes i = 24 + 16 * i
  aligned : 0 < p.largeObjectAlignment

/-- The answer for a size is the least class it fits in. -/
structure BestFit (p : ProgramStatus) (N size : Nat) (k : SizeClassSizeAndIndex) : Prop where
  size_eq : k.size = size
  small : size ≤ p.largeObjectThreshold →
    k.classSizeIndex < N ∧ p.classSizes k.classSizeIndex = k.classSize ∧
      IsLeast {c | size ≤ c ∧ ∃ i < N, p.classSizes i = c} k.classSize
  large : p.largeObjectThreshold < size →
    k.classSizeIndex = wsub 16 p.numberOfClassSizes 1 ∧
      IsLeast {c | size ≤ c ∧ p.largeObjectAlignment ∣ c} k.classSize

/-! ## The three computations -/

/-- The search stops at the least class: the classes before it are smaller
than the size, the classes after it larger than it. -/
theorem ValidTable.bibopClass_fits (h : p.ValidTable N) (hbibop : p.allocatorStyleIsBibop = true)
    (hsize : size ≤ p.largeObjectThreshold) :
    ∃ k, p.bibopClass size = some k ∧ p.BestFit N size k := by
  obtain ⟨hnumber, hlast, hascending⟩ := h.bibop hbibop
  have hpos := h.pos
  have hroom := h.room
  simp only [classSizesMax] at hroom
  obtain ⟨index, hfind⟩ : ∃ index,
      (List.range (p.numberOfClassSizes - 1)).find? (fun index => size ≤ p.classSizes index) =
        some index := by
    rw [← Option.isSome_iff_exists, List.find?_isSome]
    refine ⟨N - 1, List.mem_range.mpr (by omega), ?_⟩
    rw [hlast]
    exact decide_eq_true hsize
  obtain ⟨hfits, hmem, hbefore⟩ := List.find?_range_eq_some.mp hfind
  have hindex : index < N := by
    have := List.mem_range.mp hmem
    omega
  refine ⟨{ classSizeIndex := index, size, classSize := p.classSizes index }, ?_, rfl, ?_, ?_⟩
  · rw [bibopClass, hfind]
    simp only [classSizesMax]
    rw [if_pos (by omega)]
  · refine fun _ => ⟨hindex, rfl, ⟨of_decide_eq_true hfits, index, hindex, rfl⟩, ?_⟩
    rintro c ⟨hc, i, hi, rfl⟩
    rcases Nat.lt_trichotomy i index with hlt | rfl | hgt
    · have := hbefore i hlt
      simp only [Bool.not_eq_true', decide_eq_false_iff_not] at this
      exact absurd hc this
    · exact Nat.le_refl _
    · exact Nat.le_of_lt (hascending index i hgt hi)
  · exact fun hlarge => absurd hsize (Nat.not_le.mpr hlarge)

/-- The bump pointer index is the one of the least class, except at a
class boundary, where it is one more. -/
theorem ValidTable.bumpClass_fits_iff (h : p.ValidTable N) (hbump : p.allocatorStyleIsBibop = false)
    (hsize : size ≤ p.largeObjectThreshold) :
    (∃ k, p.bumpClass size = some k ∧ p.BestFit N size k) ↔ size ≤ 24 ∨ (size - 24) % 16 ≠ 0 := by
  obtain ⟨hlast, hclasses⟩ := h.bump hbump
  have hpos := h.pos
  have hroom := h.room
  simp only [classSizesMax] at hroom
  rw [hclasses _ (by omega)] at hlast
  by_cases hsmall : size ≤ 24
  · refine iff_of_true ⟨{ classSizeIndex := 0, size, classSize := 24 }, ?_, rfl, ?_, ?_⟩
      (.inl hsmall)
    · rw [bumpClass, if_pos hsmall]
    · refine fun _ => ⟨hpos, hclasses 0 hpos, ⟨hsmall, 0, hpos, hclasses 0 hpos⟩, ?_⟩
      rintro c ⟨-, i, hi, rfl⟩
      rw [hclasses i hi]
      exact Nat.le_add_right 24 _
    · exact fun hlarge => absurd hsize (Nat.not_le.mpr hlarge)
  · have hwrap : wrap 16 ((size - 24) / 16 + 1) = (size - 24) / 16 + 1 :=
      wrap_of_lt (w := 16) (by omega)
    constructor
    · rintro ⟨k, hk, hfit⟩
      refine .inr fun hboundary => ?_
      obtain ⟨hindex, hclass, hleast⟩ := hfit.small hsize
      have hnext : k.classSizeIndex = (size - 24) / 16 + 1 := by
        rw [bumpClass, if_neg hsmall] at hk
        simp only [hwrap] at hk
        split at hk
        · rw [← Option.some.inj hk]
        · cases hk
      -- the size is a class itself, and the answer is the class after it
      have hself : k.classSize ≤ size :=
        hleast.2 ⟨Nat.le_refl _, (size - 24) / 16, by omega, by rw [hclasses _ (by omega)]; omega⟩
      rw [← hclass, hclasses _ hindex, hnext] at hself
      omega
    · intro hoff
      have hindex : (size - 24) / 16 + 1 < N := by omega
      refine ⟨{ classSizeIndex := (size - 24) / 16 + 1, size
                classSize := p.classSizes ((size - 24) / 16 + 1) }, ?_, rfl, ?_, ?_⟩
      · rw [bumpClass, if_neg hsmall]
        simp only [hwrap, classSizesMax]
        rw [if_pos (by omega)]
      · refine fun _ => ⟨hindex, rfl, ⟨?_, _, hindex, rfl⟩, ?_⟩
        · show size ≤ p.classSizes _
          rw [hclasses _ hindex]
          omega
        · rintro c ⟨hc, i, hi, rfl⟩
          show p.classSizes _ ≤ _
          rw [hclasses i hi] at hc ⊢
          rw [hclasses _ hindex]
          omega
      · exact fun hlarge => absurd hsize (Nat.not_le.mpr hlarge)

/-- The remainder of the cast is 1, or 0 when the alignment is 1, so the
round-up adds a whole step to any size: right for a size between two
multiples, one step too far for a multiple. -/
theorem ValidTable.largeClass_fits_iff (h : p.ValidTable N) (hsize : p.largeObjectThreshold < size)
    (hfit : size + p.largeObjectAlignment < 2 ^ 32) :
    (∃ k, p.largeClass size = some k ∧ p.BestFit N size k) ↔
      p.largeObjectAlignment = 1 ∨ ¬ p.largeObjectAlignment ∣ size := by
  have ha := h.aligned
  have hdown : size / p.largeObjectAlignment * p.largeObjectAlignment ≤ size :=
    Nat.div_mul_le_self ..
  have hrem := Nat.div_add_mod' size p.largeObjectAlignment
  have hmod := Nat.mod_lt size ha
  have hbump : 1 % p.largeObjectAlignment * p.largeObjectAlignment =
      if p.largeObjectAlignment = 1 then 0 else p.largeObjectAlignment := by
    split
    · next h1 => rw [h1]
    · next h1 => rw [Nat.mod_eq_of_lt (by omega), one_mul]
  have hclass : p.largeClass size = some
      { classSizeIndex := wsub 16 p.numberOfClassSizes 1, size
        classSize := size / p.largeObjectAlignment * p.largeObjectAlignment +
          if p.largeObjectAlignment = 1 then 0 else p.largeObjectAlignment } := by
    have hword : size / p.largeObjectAlignment * p.largeObjectAlignment +
        (if p.largeObjectAlignment = 1 then 0 else p.largeObjectAlignment) < 2 ^ 32 := by
      split <;> omega
    simp only [largeClass, if_neg (Nat.ne_of_gt ha), hbump, wrap_of_lt hword]
  have hiff : (∃ k, p.largeClass size = some k ∧ p.BestFit N size k) ↔
      IsLeast {c | size ≤ c ∧ p.largeObjectAlignment ∣ c}
        (size / p.largeObjectAlignment * p.largeObjectAlignment +
          if p.largeObjectAlignment = 1 then 0 else p.largeObjectAlignment) := by
    constructor
    · rintro ⟨k, hk, hfits⟩
      obtain rfl := Option.some.inj (hclass.symm.trans hk)
      exact (hfits.large hsize).2
    · intro hleast
      exact ⟨_, hclass, rfl, fun hle => absurd hsize (Nat.not_lt.mpr hle), fun _ => ⟨rfl, hleast⟩⟩
  rw [hiff, isLeast_multiple_iff ha]
  by_cases h1 : p.largeObjectAlignment = 1
  · simp [h1]
  · have hdvd : p.largeObjectAlignment ∣
        size / p.largeObjectAlignment * p.largeObjectAlignment + p.largeObjectAlignment :=
      Nat.dvd_add (Nat.dvd_mul_left ..) (Nat.dvd_refl _)
    have hmultiple := Nat.dvd_iff_mod_eq_zero (m := p.largeObjectAlignment) (n := size)
    rw [if_neg h1, or_iff_right h1, hmultiple]
    exact ⟨fun ⟨_, _, hlt⟩ => by omega, fun hoff => ⟨by omega, hdvd, by omega⟩⟩

/-! ## The lookup -/

/-- One call, as a step of the cache. -/
def lookup (p : ProgramStatus) (cache : SizeClassSizeAndIndex) (size : Nat) :
    Option SizeClassSizeAndIndex :=
  (p.getClassSizeAndIndex cache size).map Prod.snd

theorem run_caches {past : List Nat} {cache : SizeClassSizeAndIndex}
    (hrun : Run p.lookup (fun _ _ _ => True) {} past cache) : p.Caches cache := by
  refine hrun.invariant p.Caches (.inl rfl) fun past cache size cache' hc _ hstep => ?_
  obtain ⟨⟨k, cache''⟩, hget, rfl⟩ := Option.map_eq_some_iff.mp hstep
  exact (getClassSizeAndIndex_spec hc hget).2

/-- Whatever the cache remembers, the answer is the class of the size. -/
theorem Caches.answer_iff {cache : SizeClassSizeAndIndex} (hc : p.Caches cache) (hpos : 0 < size)
    (P : SizeClassSizeAndIndex → Prop) :
    (∃ k cache', p.getClassSizeAndIndex cache size = some (k, cache') ∧ P k) ↔
      ∃ k, p.classOf size = some k ∧ P k := by
  constructor
  · rintro ⟨k, cache', hget, hP⟩
    rcases (getClassSizeAndIndex_spec hc hget).1 with hk | ⟨rfl, -⟩
    · exact ⟨k, hk, hP⟩
    · cases hpos
  · rintro ⟨k, hk, hP⟩
    unfold getClassSizeAndIndex
    by_cases hhit : size = cache.size
    · rcases hc with rfl | hc
      · exact absurd hhit (Nat.ne_of_gt hpos)
      · obtain rfl : cache = k := Option.some.inj (hc.symm.trans (hhit ▸ hk))
        exact ⟨cache, cache, if_pos hhit, hP⟩
    · rw [if_neg hhit]
      unfold classOf at hk
      split at hk
      · next hlarge => exact ⟨k, cache, by rw [if_pos hlarge, hk]; rfl, hP⟩
      · next hlarge => exact ⟨k, k, by rw [if_neg hlarge, hk]; rfl, hP⟩

/-- The sizes whose least class is found. -/
def Between (p : ProgramStatus) (size : Nat) : Prop :=
  if p.largeObjectThreshold < size then
    p.largeObjectAlignment = 1 ∨ ¬ p.largeObjectAlignment ∣ size
  else p.allocatorStyleIsBibop = true ∨ size ≤ 24 ∨ (size - 24) % 16 ≠ 0

/-- After any earlier calls, for every size. -/
theorem getClassSizeAndIndex_bestFit_iff {past : List Nat} {cache : SizeClassSizeAndIndex}
    (h : p.ValidTable N) (hrun : Run p.lookup (fun _ _ _ => True) {} past cache) (hpos : 1 ≤ size)
    (hfit : size ≤ 2 ^ 32 - 1 - p.largeObjectAlignment) :
    (∃ k cache', p.getClassSizeAndIndex cache size = some (k, cache') ∧ p.BestFit N size k) ↔
      p.Between size := by
  rw [(run_caches hrun).answer_iff hpos, classOf, Between]
  by_cases hlarge : p.largeObjectThreshold < size
  · rw [if_pos hlarge, if_pos hlarge]
    exact h.largeClass_fits_iff hlarge (by omega)
  · rw [if_neg hlarge, if_neg hlarge, smallClass]
    by_cases hbibop : p.allocatorStyleIsBibop = true
    · rw [if_pos hbibop]
      exact iff_of_true (h.bibopClass_fits hbibop (Nat.not_lt.mp hlarge)) (.inl hbibop)
    · rw [if_neg hbibop, or_iff_right hbibop]
      exact h.bumpClass_fits_iff (Bool.not_eq_true _ ▸ hbibop) (Nat.not_lt.mp hlarge)

theorem bumpTable_valid : bumpTable.ValidTable 6 where
  pos := by decide
  room := by decide
  bibop := fun h => by cases h
  bump := fun _ => ⟨by decide, by decide⟩
  aligned := by decide

theorem getClassSizeAndIndex_bestFit_thirty :
    ∃ k cache', bumpTable.getClassSizeAndIndex {} 30 = some (k, cache') ∧
      bumpTable.BestFit 6 30 k :=
  (getClassSizeAndIndex_bestFit_iff bumpTable_valid .nil (by decide) (by decide)).mpr
    (.inr (.inr (by decide)))

/-- 40 bytes, a class, get 56; 8192 bytes, two pages, get three. -/
theorem getClassSizeAndIndex_past_boundary :
    bumpTable.ValidTable 6 ∧
      bumpTable.getClassSizeAndIndex {} 40 = some (⟨2, 40, 56⟩, ⟨2, 40, 56⟩) ∧
      bumpTable.getClassSizeAndIndex {} 8192 = some (⟨6, 8192, 12288⟩, {}) ∧
      (∀ size ∈ [40, 8192], ¬ ∃ k cache',
        bumpTable.getClassSizeAndIndex {} size = some (k, cache') ∧
          bumpTable.BestFit 6 size k) := by
  have h40 : bumpTable.getClassSizeAndIndex {} 40 = some (⟨2, 40, 56⟩, ⟨2, 40, 56⟩) := by decide
  have h8192 : bumpTable.getClassSizeAndIndex {} 8192 = some (⟨6, 8192, 12288⟩, {}) := by decide
  refine ⟨bumpTable_valid, h40, h8192, fun size hsize => ?_⟩
  rintro ⟨k, cache', hget, hfit⟩
  rcases List.mem_pair.mp hsize with rfl | rfl
  · rw [h40, Option.some.injEq, Prod.mk.injEq] at hget
    obtain ⟨rfl, -⟩ := hget
    have hle : 56 ≤ 40 := (hfit.small (by decide)).2.2.2 ⟨by decide, 1, by decide, by decide⟩
    omega
  · rw [h8192, Option.some.injEq, Prod.mk.injEq] at hget
    obtain ⟨rfl, -⟩ := hget
    have hle : 12288 ≤ 8192 := (hfit.large (by decide)).2.2 ⟨by decide, by decide⟩
    omega

end ProgramStatus

end MemPerf.Temp
