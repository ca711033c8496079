import Mathlib.Data.List.Range
import Mathlib.Tactic.NormNum
import MemPerf.Lib.Word

/-!
# Size classes

`ProgramStatus::getClassSizeAndIndex` of the `MEMORY` build: the
configuration it reads, the class it computes for a size, and the
thread-local cache in front of the computation.

Where C++ leaves the result undefined (division by the alignment when it
is zero, an index past the end of `classSizes`) there is no result.
-/

namespace MemPerf.Temp

open Word

/-- The length of `classSizes`. -/
@[simp] abbrev classSizesMax : Nat := 8270

structure SizeClassSizeAndIndex where
  classSizeIndex : Nat := 0
  size : Nat := 0
  classSize : Nat := 0
deriving DecidableEq, Repr

theorem noClassSizes_lt : ∀ _ : Nat, 0 < 2 ^ 32 := fun _ => Nat.two_pow_pos 32

/-- What `readInputInfoFile` leaves behind; `classSizes` holds `unsigned int`s. -/
structure ProgramStatus where
  allocatorStyleIsBibop : Bool := false
  numberOfClassSizes : Nat := 0
  classSizes : Nat → Nat := fun _ => 0
  middleObjectThreshold : Nat := 0
  largeObjectThreshold : Nat := 0
  largeObjectAlignment : Nat := 0
  classSizes_lt : ∀ i, classSizes i < 2 ^ 32 := by exact noClassSizes_lt

namespace ProgramStatus

variable (p : ProgramStatus)

/-- A size over the threshold. `(bool)size % largeObjectAlignment` casts
before it divides, so it is `1 % largeObjectAlignment` for every such size. -/
def largeClass (size : Nat) : Option SizeClassSizeAndIndex :=
  if p.largeObjectAlignment = 0 then none
  else
    let bump := 1 % p.largeObjectAlignment * p.largeObjectAlignment
    some { classSizeIndex := wsub 16 p.numberOfClassSizes 1
           size
           classSize := wrap 32 (size / p.largeObjectAlignment * p.largeObjectAlignment + bump) }

/-- The first class the size fits in; class 0 of size 0 when it fits in none. -/
def bibopClass (size : Nat) : Option SizeClassSizeAndIndex :=
  match (List.range (p.numberOfClassSizes - 1)).find? (fun index => size ≤ p.classSizes index) with
  | some index =>
      if index < classSizesMax then
        some { classSizeIndex := index, size, classSize := p.classSizes index }
      else none
  | none =>
      if p.numberOfClassSizes - 1 ≤ classSizesMax then
        some { classSizeIndex := 0, size, classSize := 0 }
      else none

def bumpClass (size : Nat) : Option SizeClassSizeAndIndex :=
  if size ≤ 24 then some { classSizeIndex := 0, size, classSize := 24 }
  else
    let classSizeIndex := wrap 16 ((size - 24) / 16 + 1)
    if classSizeIndex < classSizesMax then
      some { classSizeIndex, size, classSize := p.classSizes classSizeIndex }
    else none

def smallClass (size : Nat) : Option SizeClassSizeAndIndex :=
  if p.allocatorStyleIsBibop then p.bibopClass size else p.bumpClass size

/-- The class computed when the cache does not answer. -/
def classOf (size : Nat) : Option SizeClassSizeAndIndex :=
  if p.largeObjectThreshold < size then p.largeClass size else p.smallClass size

/-- The answer, and the cache afterwards: large sizes bypass it. -/
def getClassSizeAndIndex (cache : SizeClassSizeAndIndex) (size : Nat) :
    Option (SizeClassSizeAndIndex × SizeClassSizeAndIndex) :=
  if size = cache.size then some (cache, cache)
  else if p.largeObjectThreshold < size then (p.largeClass size).map fun k => (k, cache)
  else (p.smallClass size).map fun k => (k, k)

/-- A cache holds its initial zeros or a class the table computed. -/
def Caches (cache : SizeClassSizeAndIndex) : Prop :=
  cache = {} ∨ p.classOf cache.size = some cache

variable {p}

theorem largeClass_spec {size : Nat} {k : SizeClassSizeAndIndex} (h : p.largeClass size = some k) :
    k.size = size ∧ k.classSize < 2 ^ 32 := by
  unfold largeClass at h
  split at h
  · cases h
  · obtain rfl := Option.some.inj h
    exact ⟨rfl, wrap_lt 32 _⟩

theorem bibopClass_spec {size : Nat} {k : SizeClassSizeAndIndex} (h : p.bibopClass size = some k) :
    k.size = size ∧ k.classSize < 2 ^ 32 := by
  unfold bibopClass at h
  split at h <;> split at h
  · obtain rfl := Option.some.inj h
    exact ⟨rfl, p.classSizes_lt _⟩
  · cases h
  · obtain rfl := Option.some.inj h
    exact ⟨rfl, Nat.two_pow_pos 32⟩
  · cases h

theorem bumpClass_spec {size : Nat} {k : SizeClassSizeAndIndex} (h : p.bumpClass size = some k) :
    k.size = size ∧ k.classSize < 2 ^ 32 := by
  unfold bumpClass at h
  split at h
  · obtain rfl := Option.some.inj h
    exact ⟨rfl, by norm_num⟩
  · simp only at h
    split at h
    · obtain rfl := Option.some.inj h
      exact ⟨rfl, p.classSizes_lt _⟩
    · cases h

/-- A class is computed of the size asked for, and fits in 32 bits. -/
theorem classOf_spec {size : Nat} {k : SizeClassSizeAndIndex} (h : p.classOf size = some k) :
    k.size = size ∧ k.classSize < 2 ^ 32 := by
  unfold classOf smallClass at h
  split at h
  · exact largeClass_spec h
  · split at h
    · exact bibopClass_spec h
    · exact bumpClass_spec h

/-- Size 0 belongs in class 0, whatever the table. -/
theorem classOf_zero (p : ProgramStatus) : ∃ k, p.classOf 0 = some k ∧ k.classSizeIndex = 0 := by
  rw [classOf, if_neg (Nat.not_lt_zero _), smallClass]
  split
  · rw [bibopClass]
    cases hn : p.numberOfClassSizes - 1 with
    | zero => exact ⟨_, rfl, rfl⟩
    | succ n => exact ⟨{ classSize := p.classSizes 0 }, by simp [List.range_succ_eq_map], rfl⟩
  · exact ⟨_, rfl, rfl⟩

/-- The class of the size is as large as the size. -/
def Fits (p : ProgramStatus) (size : Nat) : Prop :=
  ∀ k ∈ p.classOf size, size ≤ k.classSize

instance (p : ProgramStatus) (size : Nat) : Decidable (p.Fits size) :=
  inferInstanceAs (Decidable (∀ k ∈ p.classOf size, size ≤ k.classSize))

/-- With a sound cache the answer is the class the table computes, except
that a fresh cache answers size 0 with its zeros. -/
theorem getClassSizeAndIndex_spec {cache cache' k : SizeClassSizeAndIndex} {size : Nat}
    (hc : p.Caches cache) (h : p.getClassSizeAndIndex cache size = some (k, cache')) :
    (p.classOf size = some k ∨ size = 0 ∧ k = {}) ∧ p.Caches cache' := by
  unfold getClassSizeAndIndex at h
  split at h
  · next hsize =>
      obtain ⟨rfl, rfl⟩ : cache = k ∧ cache = cache' := by simpa using h
      refine ⟨?_, hc⟩
      rcases hc with rfl | hc
      · exact .inr ⟨hsize, rfl⟩
      · exact .inl (hsize ▸ hc)
  · split at h
    · next hlarge =>
        obtain ⟨k', hk, heq⟩ := Option.map_eq_some_iff.mp h
        obtain ⟨rfl, rfl⟩ : k' = k ∧ cache = cache' := by simpa using heq
        exact ⟨.inl (by rw [classOf, if_pos hlarge, hk]), hc⟩
    · next hlarge =>
        obtain ⟨k', hk, heq⟩ := Option.map_eq_some_iff.mp h
        obtain ⟨rfl, rfl⟩ : k' = k ∧ k' = cache' := by simpa using heq
        have hclass : p.classOf size = some k' := by rw [classOf, if_neg hlarge, hk]
        exact ⟨.inl hclass, .inr (by rw [(classOf_spec hclass).1, hclass])⟩

/-- The size asked for is the size answered about. -/
theorem getClassSizeAndIndex_size {cache cache' k : SizeClassSizeAndIndex} {size : Nat}
    (hc : p.Caches cache) (h : p.getClassSizeAndIndex cache size = some (k, cache')) :
    k.size = size := by
  rcases (getClassSizeAndIndex_spec hc h).1 with hk | ⟨rfl, rfl⟩
  · exact (classOf_spec hk).1
  · rfl

/-- A bump pointer allocator: classes of 24, 40, … 104 bytes, then pages. -/
def bumpTable : ProgramStatus where
  numberOfClassSizes := 7
  classSizes i := if i < 6 then 24 + 16 * i else 0
  largeObjectThreshold := 100
  largeObjectAlignment := 4096
  classSizes_lt i := by split <;> omega

end ProgramStatus

end MemPerf.Temp
