import Mathlib.Data.List.Basic

/-!
# Linear search

`for(i = 0; i < n && !p(i); ++i) {}` over an array prefix: the first
index below `n` with the property, or `n` when there is none.
-/

namespace Search

def firstIndex (n : Nat) (p : Nat → Bool) : Nat := (List.range n).findIdx p

variable {n i : Nat} {p q : Nat → Bool}

theorem firstIndex_le (n : Nat) (p : Nat → Bool) : firstIndex n p ≤ n := by
  simpa [firstIndex] using (List.findIdx_le_length : (List.range n).findIdx p ≤ _)

/-- The search stops inside only at an index with the property. -/
theorem firstIndex_sat (h : firstIndex n p < n) : p (firstIndex n p) = true := by
  have hlen : (List.range n).findIdx p < (List.range n).length := by
    simpa [firstIndex] using h
  have hsat : p ((List.range n).get ⟨_, hlen⟩) = true := List.findIdx_getElem
  simpa [firstIndex] using hsat

/-- Nothing before the stop has the property. -/
theorem firstIndex_min (h : i < firstIndex n p) : p i = false := by
  have hlt : i < n := Nat.lt_of_lt_of_le h (firstIndex_le n p)
  have hmin := List.not_of_lt_findIdx h
  simpa using hmin

/-- If some index below `n` has the property, the search stops inside. -/
theorem firstIndex_lt (hi : i < n) (hp : p i = true) : firstIndex n p < n := by
  by_contra hge
  have := firstIndex_min (n := n) (p := p) (i := i) (by omega)
  simp [hp] at this

theorem firstIndex_le_of_sat (hp : p i = true) : firstIndex n p ≤ i := by
  by_contra hgt
  have := firstIndex_min (n := n) (p := p) (i := i) (by omega)
  simp [hp] at this

/-- A property only one index below `n` has is found there. -/
theorem firstIndex_eq_of_unique (hi : i < n) (hp : p i = true)
    (huniq : ∀ j < n, p j = true → j = i) : firstIndex n p = i :=
  huniq _ (firstIndex_lt hi hp) (firstIndex_sat (firstIndex_lt hi hp))

/-- The first index with the property. -/
theorem firstIndex_eq (hi : i < n) (hp : p i = true) (hmin : ∀ j < i, p j = false) :
    firstIndex n p = i := by
  refine Nat.le_antisymm (firstIndex_le_of_sat hp) ?_
  by_contra hlt
  have hsat := firstIndex_sat (firstIndex_lt hi hp)
  rw [hmin _ (by omega)] at hsat
  cases hsat

/-- No index has the property. -/
theorem firstIndex_eq_length (h : ∀ j < n, p j = false) : firstIndex n p = n := by
  refine Nat.le_antisymm (firstIndex_le n p) ?_
  by_contra hlt
  have hsat := firstIndex_sat (n := n) (p := p) (by omega)
  rw [h _ (by omega)] at hsat
  cases hsat

end Search
