import Mathlib.Algebra.BigOperators.Group.List.Basic
import Mathlib.Algebra.Order.BigOperators.Group.List
import Mathlib.Algebra.Order.Ring.Nat

/-!
# Tallies

The sum of a number over the members of a list, and what changing one
member does to it.
-/

namespace Tally

variable {α : Type*}

/-- `f` summed over the list. -/
def tally (f : α → Nat) (l : List α) : Nat := (l.map f).sum

@[simp] theorem tally_append (f : α → Nat) (l r : List α) :
    tally f (l ++ r) = tally f l + tally f r := by
  simp [tally]

@[simp] theorem tally_singleton (f : α → Nat) (a : α) : tally f [a] = f a := by
  simp [tally]

theorem tally_cons (f : α → Nat) (a : α) (l : List α) :
    tally f (a :: l) = f a + tally f l := by
  simp [tally]

/-- Exchanging one member exchanges its contribution. -/
theorem tally_modify (f : α → Nat) (g : α → α) : ∀ {l : List α} {n : Nat} {a : α},
    l[n]? = some a → tally f (l.modify n g) + f a = tally f l + f (g a)
  | b :: l, 0, a, h => by
      obtain rfl : b = a := by simpa using h
      simp only [tally, List.modify_zero_cons, List.map_cons, List.sum_cons]
      omega
  | b :: l, n + 1, a, h => by
      have ih := tally_modify f g (l := l) (n := n) (by simpa using h)
      simp only [tally, List.modify_succ_cons, List.map_cons, List.sum_cons] at ih ⊢
      omega

/-- Setting a member, seen through `f`. -/
theorem map_set_eq_modify {β : Type*} {f : α → β} {g : β → β} {l : List α} {n : Nat} {a b : α}
    (ha : l[n]? = some a) (hb : f b = g (f a)) : (l.set n b).map f = (l.map f).modify n g := by
  refine List.ext_getElem? fun k => ?_
  rw [List.getElem?_map, List.getElem?_set, List.getElem?_modify, List.getElem?_map]
  by_cases hk : n = k
  · subst hk
    obtain ⟨hlen, hget⟩ := List.getElem?_eq_some_iff.mp ha
    simp [hlen, hget, hb]
  · simp [hk]

theorem tally_le {f g : α → Nat} {l : List α} (h : ∀ a ∈ l, f a ≤ g a) :
    tally f l ≤ tally g l :=
  List.sum_le_sum h

/-- Every member contributes to the tally. -/
theorem le_tally (f : α → Nat) {l : List α} {a : α} (h : a ∈ l) : f a ≤ tally f l :=
  List.single_le_sum (fun _ _ => Nat.zero_le _) _ (List.mem_map_of_mem h)

theorem tally_le_mul {f : α → Nat} {c : Nat} : ∀ {l : List α}, (∀ a ∈ l, f a ≤ c) →
    tally f l ≤ c * l.length
  | [], _ => Nat.zero_le _
  | a :: l, h => by
      have ih := tally_le_mul fun b hb => h b (List.mem_cons_of_mem a hb)
      have ha := h a List.mem_cons_self
      rw [tally_cons, List.length_cons, Nat.mul_succ]
      omega

theorem tally_le_length {f : α → Nat} {l : List α} (h : ∀ a ∈ l, f a ≤ 1) :
    tally f l ≤ l.length := by
  have h1 := tally_le h
  simpa [tally] using h1

end Tally
