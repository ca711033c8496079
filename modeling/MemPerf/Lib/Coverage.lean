import Mathlib.Order.Interval.Finset.Nat
import Mathlib.Data.Finset.Card
import Mathlib.Algebra.BigOperators.Group.List.Basic
import Mathlib.Algebra.GroupWithZero.Nat

/-!
# Bytes of a unit covered by disjoint spans

A `Span` is a half-open byte interval; memory is cut into units (pages,
cache lines) and one asks how many bytes of a unit a collection of spans
covers. `covered` is that number as a set is counted. For pairwise
disjoint spans it is the sum of the single overlaps (`covered_eq_sum`),
which is what makes incremental bookkeeping possible: adding or removing
one span changes the count by its own overlap, and a span that fills a
unit leaves nothing for the others (`overlap_eq_zero_of_full`).
-/

namespace Coverage

/-- The bytes `[start, start + len)`. -/
structure Span where
  start : Nat
  len : Nat
deriving DecidableEq, Repr

namespace Span

def Covers (o : Span) (a : Nat) : Prop := o.start ≤ a ∧ a < o.start + o.len

instance (o : Span) (a : Nat) : Decidable (o.Covers a) :=
  inferInstanceAs (Decidable (_ ∧ _))

/-- No byte in common. -/
def Apart (o o' : Span) : Prop := ∀ a, o.Covers a → ¬ o'.Covers a

theorem Apart.symm {o o' : Span} (h : o.Apart o') : o'.Apart o :=
  fun a h' h'' => h a h'' h'

/-- How many bytes of `[A, A + n)` the span covers. -/
def overlap (o : Span) (A n : Nat) : Nat :=
  min (o.start + o.len) (A + n) - max o.start A

theorem card_covers (o : Span) (A n : Nat) :
    ((Finset.Ico A (A + n)).filter o.Covers).card = o.overlap A n := by
  have heq : (Finset.Ico A (A + n)).filter o.Covers
      = Finset.Ico (max o.start A) (min (o.start + o.len) (A + n)) := by
    ext a
    simp only [Finset.mem_filter, Finset.mem_Ico, Covers]
    omega
  rw [heq, Nat.card_Ico, overlap]

theorem overlap_pos_iff {o : Span} {A n : Nat} :
    0 < o.overlap A n ↔ ∃ a, A ≤ a ∧ a < A + n ∧ o.Covers a := by
  unfold overlap Covers
  constructor
  · intro h
    exact ⟨max o.start A, by omega, by omega, by omega, by omega⟩
  · rintro ⟨a, h1, h2, h3, h4⟩
    omega

/-- A span that fills a unit overlaps it in full. -/
theorem overlap_full {o : Span} {A n : Nat} (h1 : o.start ≤ A)
    (h2 : A + n ≤ o.start + o.len) : o.overlap A n = n := by
  unfold overlap; omega

/-- The unit the span starts in. -/
theorem overlap_first {o : Span} {A n : Nat} (h1 : A ≤ o.start) (h2 : o.start < A + n) :
    o.overlap A n = min (A + n - o.start) o.len := by
  unfold overlap; omega

/-- The unit the span ends in, when it starts earlier. -/
theorem overlap_last {o : Span} {A n : Nat} (h1 : o.start ≤ A)
    (h2 : o.start + o.len ≤ A + n) : o.overlap A n = o.start + o.len - A := by
  unfold overlap; omega

theorem overlap_outside {o : Span} {A n : Nat}
    (h : o.start + o.len ≤ A ∨ A + n ≤ o.start) : o.overlap A n = 0 := by
  unfold overlap; omega

theorem overlap_empty (A B n : Nat) : (Span.mk A 0).overlap B n = 0 := by
  unfold overlap; simp only; omega

end Span

/-! ## Collections of spans -/

/-- The bytes of `[A, A + n)` that lie in some span of the list. -/
def covered (L : List Span) (A n : Nat) : Nat :=
  ((Finset.Ico A (A + n)).filter fun a => ∃ o ∈ L, o.Covers a).card

theorem covered_le (L : List Span) (A n : Nat) : covered L A n ≤ n :=
  (Finset.card_filter_le _ _).trans (by simp)

theorem covered_congr {L L' : List Span} {A n : Nat}
    (h : ∀ a, A ≤ a → a < A + n → ((∃ o ∈ L, o.Covers a) ↔ ∃ o ∈ L', o.Covers a)) :
    covered L A n = covered L' A n := by
  unfold covered
  congr 1
  apply Finset.filter_congr
  intro a ha
  rw [Finset.mem_Ico] at ha
  exact h a ha.1 ha.2

/-- Bytes covered by pairwise disjoint spans add up. -/
theorem covered_eq_sum {L : List Span} (h : L.Pairwise Span.Apart) (A n : Nat) :
    covered L A n = (L.map fun o => o.overlap A n).sum := by
  induction L with
  | nil => simp [covered]
  | cons o rest ih =>
      rw [List.pairwise_cons] at h
      obtain ⟨ho, hrest⟩ := h
      have hsplit : ((Finset.Ico A (A + n)).filter fun a => ∃ o' ∈ o :: rest, o'.Covers a)
          = ((Finset.Ico A (A + n)).filter o.Covers)
            ∪ ((Finset.Ico A (A + n)).filter fun a => ∃ o' ∈ rest, o'.Covers a) := by
        ext a
        simp only [Finset.mem_filter, Finset.mem_union, List.mem_cons, exists_eq_or_imp]
        tauto
      have hdisj : Disjoint ((Finset.Ico A (A + n)).filter o.Covers)
          ((Finset.Ico A (A + n)).filter fun a => ∃ o' ∈ rest, o'.Covers a) := by
        rw [Finset.disjoint_filter]
        rintro a - hoa ⟨o', ho', hcov⟩
        exact ho o' ho' a hoa hcov
      rw [covered, hsplit, Finset.card_union_of_disjoint hdisj, Span.card_covers,
        List.map_cons, List.sum_cons, ← ih hrest, covered]

/-- A span added beside the others adds its overlap. -/
theorem covered_cons {L : List Span} {o : Span} (h : (o :: L).Pairwise Span.Apart) (A n : Nat) :
    covered (o :: L) A n = o.overlap A n + covered L A n := by
  rw [covered_eq_sum h, covered_eq_sum (List.pairwise_cons.mp h).2, List.map_cons, List.sum_cons]

/-- A span of the list covers what it overlaps. -/
theorem overlap_le_covered {L : List Span} {o : Span} (ho : o ∈ L) (A n : Nat) :
    o.overlap A n ≤ covered L A n := by
  rw [← Span.card_covers]
  refine Finset.card_le_card fun a ha => ?_
  rw [Finset.mem_filter] at ha ⊢
  exact ⟨ha.1, o, ho, ha.2⟩

/-- The summed overlaps never exceed the unit. -/
theorem sum_overlap_le {L : List Span} (h : L.Pairwise Span.Apart) (A n : Nat) :
    (L.map fun o => o.overlap A n).sum ≤ n :=
  covered_eq_sum h A n ▸ covered_le L A n

/-- Nothing of the list reaches into the unit. -/
theorem sum_overlap_eq_zero {L : List Span} {A n : Nat}
    (h : ∀ o ∈ L, ∀ a, A ≤ a → a < A + n → ¬ o.Covers a) :
    (L.map fun o => o.overlap A n).sum = 0 := by
  refine List.sum_eq_zero fun x hx => ?_
  obtain ⟨o, ho, rfl⟩ := List.mem_map.mp hx
  by_contra hne
  obtain ⟨a, ha1, ha2, hcov⟩ := Span.overlap_pos_iff.mp (Nat.pos_of_ne_zero hne)
  exact h o ho a ha1 ha2 hcov

end Coverage
