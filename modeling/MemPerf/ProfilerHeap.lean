import MemPerf.Interposition
import MemPerf.Lib.Coverage

/-!
# The blocks of the profiler's own heap

`MyMalloc::malloc` hands out a 2 GB array from its start upwards. Blocks
never overlap as long as they fit, but the pointer is not compared with
the end of the array and not rounded to any alignment, so the requests
themselves decide whether their blocks are usable; and the ownership test
counts the address one past the array as inside.
-/

namespace MemPerf

open Coverage Word

/-- Spans laid one after another from a base. -/
def laid : Nat → List Nat → List Span
  | _, [] => []
  | base, size :: sizes => ⟨base, size⟩ :: laid (base + size) sizes

section Laid

variable {base : Nat} {sizes : List Nat}

theorem laid_bounds : ∀ {base : Nat} {sizes : List Nat} {b : Span}, b ∈ laid base sizes →
    base ≤ b.start ∧ b.start + b.len ≤ base + sizes.sum
  | _, [], _, hb => by cases hb
  | base, size :: sizes, b, hb => by
      rw [List.sum_cons]
      rcases List.mem_cons.mp hb with rfl | hb
      · exact ⟨Nat.le_refl _, by simp⟩
      · obtain ⟨hlo, hhi⟩ := laid_bounds hb
        omega

theorem laid_apart : ∀ (base : Nat) (sizes : List Nat), (laid base sizes).Pairwise Span.Apart
  | _, [] => List.Pairwise.nil
  | base, size :: sizes => by
      refine List.pairwise_cons.mpr ⟨fun b hb a ha ha' => ?_, laid_apart _ sizes⟩
      have hlo := (laid_bounds hb).1
      simp only [Span.Covers] at ha ha'
      omega

/-- Every block is aligned when the base is and every size but the last
keeps the alignment. -/
theorem laid_aligned_iff {n : Nat} : ∀ {base : Nat} {sizes : List Nat},
    (∀ b ∈ laid base sizes, n ∣ b.start) ↔
      (sizes ≠ [] → n ∣ base) ∧ ∀ size ∈ sizes.dropLast, n ∣ size
  | _, [] => by simp [laid]
  | base, [size] => by simp [laid]
  | base, size :: size' :: sizes => by
      rw [laid, List.forall_mem_cons, laid_aligned_iff, List.dropLast_cons_cons,
        List.forall_mem_cons]
      simp only [ne_eq, reduceCtorEq, not_false_eq_true, forall_const]
      constructor
      · rintro ⟨hbase, hnext, hrest⟩
        exact ⟨hbase, (Nat.dvd_add_right hbase).mp hnext, hrest⟩
      · rintro ⟨hbase, hsize, hrest⟩
        exact ⟨hbase, Nat.dvd_add hbase hsize, hrest⟩

end Laid

namespace ProfilerMemory

variable {m : ProfilerMemory}

/-- One request after another, with the blocks they return. -/
def mallocAll (m : ProfilerMemory) : List Nat → ProfilerMemory × List Span
  | [] => (m, [])
  | size :: sizes =>
      let (m, object) := m.mallocWithoutLock size
      let (m, blocks) := m.mallocAll sizes
      (m, ⟨object, size⟩ :: blocks)

/-- An allocation returns the overhead pointer, even one whose end wraps. -/
theorem mallocWithoutLock_object (size : Nat) (h : m.checkAndInitialize.overheadPointer < 2 ^ 64) :
    (m.mallocWithoutLock size).2 = m.checkAndInitialize.overheadPointer := by
  refine eq_of_modEq (wsub_lt 64 _ _) h (Nat.ModEq.add_right_cancel' size ?_)
  exact (wsub_add_modEq 64 _ size).trans (wrap_modEq 64 _)

/-- Requests that stay below `2 ^ 64` are laid from the overhead pointer. -/
theorem mallocAll_eq : ∀ (sizes : List Nat) (m : ProfilerMemory),
    m.checkAndInitialize.overheadPointer + sizes.sum < 2 ^ 64 →
    (m.mallocAll sizes).2 = laid m.checkAndInitialize.overheadPointer sizes
  | [], _, _ => rfl
  | size :: sizes, m, h => by
      rw [List.sum_cons] at h
      have hfit : m.checkAndInitialize.overheadPointer + size < 2 ^ 64 := by omega
      obtain ⟨hobject, hoverhead⟩ := mallocWithoutLock_eq hfit
      have ih := mallocAll_eq sizes (m.mallocWithoutLock size).1 (by omega)
      simp only [mallocAll, laid, hobject, ih, hoverhead]

/-- Blocks that all end by a bound leave no request past it: the first one
past it would be the block that does not end by it. -/
theorem sum_le_of_inside {bound : Nat} (hbound : bound < 2 ^ 64) :
    ∀ (sizes : List Nat) (m : ProfilerMemory),
      m.checkAndInitialize.overheadPointer ≤ bound →
      (∀ b ∈ (m.mallocAll sizes).2, b.start + b.len ≤ bound) →
      m.checkAndInitialize.overheadPointer + sizes.sum ≤ bound
  | [], _, h, _ => by simpa using h
  | size :: sizes, m, h, hinside => by
      simp only [mallocAll, List.forall_mem_cons] at hinside
      obtain ⟨hfirst, hrest⟩ := hinside
      rw [mallocWithoutLock_object size (by omega)] at hfirst
      have hfit : m.checkAndInitialize.overheadPointer + size < 2 ^ 64 := by omega
      have hoverhead := (mallocWithoutLock_eq hfit).2
      have ih := sum_le_of_inside hbound sizes (m.mallocWithoutLock size).1 (by omega) hrest
      rw [List.sum_cons]
      omega

theorem mallocAll_startPointer : ∀ (sizes : List Nat) (m : ProfilerMemory),
    (m.mallocAll sizes).1.startPointer = m.startPointer
  | [], _ => rfl
  | size :: sizes, m =>
      (mallocAll_startPointer sizes (m.mallocWithoutLock size).1).trans
        mallocWithoutLock_startPointer

theorem mallocAll_endPointer : ∀ (sizes : List Nat) (m : ProfilerMemory),
    (m.mallocAll sizes).1.checkAndInitialize.endPointer = m.checkAndInitialize.endPointer
  | [], _ => rfl
  | size :: sizes, m =>
      (mallocAll_endPointer sizes (m.mallocWithoutLock size).1).trans mallocWithoutLock_endPointer

/-- The array's bytes. -/
def Inside (startPointer a : Nat) : Prop :=
  startPointer ≤ a ∧ a < startPointer + profilerMemorySize

/-- What the requests return can be used, and the query is answered right. -/
structure Usable (startPointer : Nat) (sizes : List Nat) (addr : Nat) : Prop where
  inside : ∀ b ∈ (mallocAll { startPointer } sizes).2,
    startPointer ≤ b.start ∧ b.start + b.len ≤ startPointer + profilerMemorySize
  apart : (mallocAll { startPointer } sizes).2.Pairwise Span.Apart
  aligned : ∀ b ∈ (mallocAll { startPointer } sizes).2, 16 ∣ b.start
  owned : ((mallocAll { startPointer } sizes).1.ifInProfilerMemoryThenFree addr).2 = true ↔
    Inside startPointer addr

variable {startPointer addr : Nat} {sizes : List Nat}

/-- The query answers for one address more than the array has. -/
theorem ifInProfilerMemoryThenFree_iff (hend : startPointer + profilerMemorySize < 2 ^ 64) :
    ((mallocAll { startPointer } sizes).1.ifInProfilerMemoryThenFree addr).2 = true ↔
      startPointer ≤ addr ∧ addr ≤ startPointer + profilerMemorySize := by
  have hlast : (mallocAll { startPointer } sizes).1.checkAndInitialize.endPointer =
      startPointer + profilerMemorySize := (mallocAll_endPointer ..).trans (wrap_of_lt hend)
  simp only [ifInProfilerMemoryThenFree, inMemory, checkAndInitialize_startPointer,
    mallocAll_startPointer, hlast, decide_eq_true_eq]

/-- For every array, every sequence of requests and every query. On a
target that puts the array two bytes behind an 8-byte boundary, after the
lock and the flag, no request is served with an aligned block. -/
theorem profiler_heap_usable_iff (hend : startPointer + profilerMemorySize < 2 ^ 64) :
    (Usable startPointer sizes addr ↔
      sizes.sum ≤ profilerMemorySize ∧ (sizes ≠ [] → 16 ∣ startPointer) ∧
        (∀ size ∈ sizes.dropLast, 16 ∣ size) ∧ addr ≠ startPointer + profilerMemorySize) ∧
    (startPointer % 8 = 2 →
      (Usable startPointer sizes addr ↔
        sizes = [] ∧ addr ≠ startPointer + profilerMemorySize)) := by
  have hiff : Usable startPointer sizes addr ↔
      sizes.sum ≤ profilerMemorySize ∧ (sizes ≠ [] → 16 ∣ startPointer) ∧
        (∀ size ∈ sizes.dropLast, 16 ∣ size) ∧ addr ≠ startPointer + profilerMemorySize := by
    constructor
    · intro h
      have hsum : startPointer + sizes.sum ≤ startPointer + profilerMemorySize :=
        sum_le_of_inside hend sizes { startPointer } (Nat.le_add_right _ _)
          fun b hb => (h.inside b hb).2
      have heq : (mallocAll { startPointer } sizes).2 = laid startPointer sizes :=
        mallocAll_eq _ _ (Nat.lt_of_le_of_lt hsum hend)
      have haligned := h.aligned
      rw [heq, laid_aligned_iff] at haligned
      refine ⟨Nat.le_of_add_le_add_left hsum, haligned.1, haligned.2, ?_⟩
      rintro rfl
      have howned := h.owned.mp ((ifInProfilerMemoryThenFree_iff hend).mpr ⟨by simp, Nat.le_refl _⟩)
      exact Nat.lt_irrefl _ howned.2
    · rintro ⟨hsum, hstart, hsizes, haddr⟩
      have heq : (mallocAll { startPointer } sizes).2 = laid startPointer sizes :=
        mallocAll_eq _ _ (Nat.lt_of_le_of_lt (Nat.add_le_add_left hsum _) hend)
      refine ⟨fun b hb => ?_, heq ▸ laid_apart _ _, ?_, ?_⟩
      · obtain ⟨hlo, hhi⟩ := laid_bounds (heq ▸ hb)
        exact ⟨hlo, Nat.le_trans hhi (Nat.add_le_add_left hsum _)⟩
      · rw [heq]
        exact laid_aligned_iff.mpr ⟨hstart, hsizes⟩
      · rw [ifInProfilerMemoryThenFree_iff hend, Inside]
        omega
  refine ⟨hiff, fun hlayout => hiff.trans ?_⟩
  constructor
  · rintro ⟨-, hstart, -, haddr⟩
    refine ⟨?_, haddr⟩
    by_contra hne
    have := hstart hne
    omega
  · rintro ⟨rfl, haddr⟩
    exact ⟨Nat.zero_le _, fun h => absurd rfl h,
      fun size hsize => (List.not_mem_nil hsize).elim, haddr⟩

/-- 48 and then 100 bytes, of an array at a page boundary. -/
theorem profiler_heap_usable_two_blocks : Usable 4096 [48, 100] 4196 :=
  ((profiler_heap_usable_iff (by decide)).1).mpr (by decide)

/-- Two requests of 8 bytes, and a query for the byte after the array. -/
theorem profiler_heap_unaligned_block :
    (mallocAll { startPointer := 4096 } [8, 8]).2 = [⟨4096, 8⟩, ⟨4104, 8⟩] ∧
      ¬ Usable 4096 [8, 8] 0 ∧
      ((mallocAll { startPointer := 4096 } []).1.ifInProfilerMemoryThenFree
        (4096 + profilerMemorySize)).2 = true ∧
      ¬ Usable 4096 [] (4096 + profilerMemorySize) := by
  have hblocks : (mallocAll { startPointer := 4096 } [8, 8]).2 = [⟨4096, 8⟩, ⟨4104, 8⟩] := by decide
  have hquery : ((mallocAll { startPointer := 4096 } []).1.ifInProfilerMemoryThenFree
      (4096 + profilerMemorySize)).2 = true := by decide
  refine ⟨hblocks, fun h => ?_, hquery, fun h => ?_⟩
  · have haligned := h.aligned ⟨4104, 8⟩ (by rw [hblocks]; simp)
    exact absurd haligned (by decide)
  · exact Nat.lt_irrefl _ (h.owned.mp hquery).2

end ProfilerMemory

end MemPerf
