import Mathlib.Data.List.Sort
import Mathlib.Data.List.Perm.Basic

/-!
# Sorting by a strict comparison

A library sort is given a strict comparison and promises two things only:
what it returns is a rearrangement of what it was given, and no later entry
comes before an earlier one. Nothing is promised about entries the
comparison does not tell apart, so a `Sorter` is any function with the two
properties. What a report wants of a sort is that its first entries are the
top ones, whatever the sort did with ties.
-/

namespace Sorting

variable {α : Type*} {lt : α → α → Bool}

structure Sorter (lt : α → α → Bool) where
  sort : List α → List α
  perm : ∀ l, (sort l).Perm l
  sorted : ∀ l, (sort l).Pairwise fun a b => lt b a = false

/-- Merge sort, for a comparison by keys. -/
def byKey (key : α → Nat) : Sorter fun a b => decide (key a > key b) where
  sort l := l.mergeSort fun a b => decide (key b ≤ key a)
  perm l := List.mergeSort_perm l _
  sorted l := by
    have h : (l.mergeSort fun a b => decide (key b ≤ key a)).Pairwise
        fun a b => decide (key b ≤ key a) = true :=
      List.pairwise_mergeSort
        (fun a b c hab hbc => by simp only [decide_eq_true_eq] at *; omega)
        (fun a b => by simp only [Bool.or_eq_true, decide_eq_true_eq]; omega) l
    refine h.imp fun {a b} hab => ?_
    simpa using hab

/-- A rearrangement of images is the image of a rearrangement. -/
theorem exists_map_of_perm {β : Type*} {f : α → β} {l : List α} {m : List β}
    (h : m.Perm (l.map f)) : ∃ l' : List α, l'.map f = m ∧ l'.Perm l := by
  have hrel : List.Forall₂ (fun b a => b = f a) (l.map f) l := by
    rw [List.forall₂_map_left_iff]
    exact List.forall₂_same.mpr fun _ _ => rfl
  obtain ⟨l', hl', hperm⟩ : Relation.Comp (List.Forall₂ fun b a => b = f a) List.Perm m l := by
    rw [List.forall₂_comp_perm_eq_perm_comp_forall₂]
    exact ⟨_, h, hrel⟩
  refine ⟨l', ?_, hperm⟩
  clear hperm hrel h
  induction hl' with
  | nil => rfl
  | cons hab _ ih => rw [List.map_cons, ih, hab]

end Sorting
