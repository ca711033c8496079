import Mathlib.Data.List.Pairwise
import Mathlib.Data.Nat.Init

/-!
# Visits to places

A list of visits, newest first, each with its place and its time. Where two
visits one after the other are to different places, the place `switches`,
and the time between them is a gap. A place `z` stands for no place at all.

When the times go up with every visit, a switch takes time (`switches_le_gaps`),
and the gaps fit in the time there was (`gaps_le`).
-/

namespace Visits

variable {α : Type*} [DecidableEq α]

/-- The second visit goes to another place. -/
def Switch (z : α) (new old : α × Nat) : Prop := new.1 ≠ old.1 ∧ old.1 ≠ z

instance (z : α) (new old : α × Nat) : Decidable (Switch z new old) :=
  inferInstanceAs (Decidable (_ ∧ _))

def switches (z : α) : List (α × Nat) → Nat
  | [] => 0
  | [_] => 0
  | new :: old :: v => switches z (old :: v) + if Switch z new old then 1 else 0

def gaps (z : α) : List (α × Nat) → Nat
  | [] => 0
  | [_] => 0
  | new :: old :: v => gaps z (old :: v) + if Switch z new old then new.2 - old.2 else 0

/-- The place of the last visit. -/
def lastPlace (z : α) : List (α × Nat) → α
  | [] => z
  | new :: _ => new.1

def lastTime : List (α × Nat) → Nat
  | [] => 0
  | new :: _ => new.2

variable (z : α)

/-- A visit counts as a switch if there was another place before. -/
theorem switches_cons (new : α × Nat) (v : List (α × Nat)) : switches z (new :: v) =
    switches z v + if new.1 ≠ lastPlace z v ∧ lastPlace z v ≠ z then 1 else 0 := by
  cases v with
  | nil => simp [switches, lastPlace]
  | cons old v => rfl

theorem gaps_cons (new : α × Nat) (v : List (α × Nat)) : gaps z (new :: v) =
    gaps z v + if new.1 ≠ lastPlace z v ∧ lastPlace z v ≠ z then new.2 - lastTime v else 0 := by
  cases v with
  | nil => simp [gaps, lastPlace]
  | cons old v => rfl

/-- The times go up. -/
def Later (v : List (α × Nat)) : Prop := v.Pairwise fun new old => old.2 < new.2

variable {z}

theorem switches_le_gaps : ∀ {v : List (α × Nat)}, Later v → switches z v ≤ gaps z v
  | [], _ => Nat.le_refl 0
  | [_], _ => Nat.le_refl 0
  | new :: old :: v, h => by
      obtain ⟨hnew, hrest⟩ := List.pairwise_cons.mp h
      have ih : switches z (old :: v) ≤ gaps z (old :: v) := switches_le_gaps hrest
      have hlater := hnew old List.mem_cons_self
      unfold switches gaps
      split <;> omega

theorem gaps_le : ∀ {v : List (α × Nat)}, Later v → gaps z v ≤ lastTime v
  | [], _ => Nat.le_refl 0
  | [_], _ => Nat.zero_le _
  | new :: old :: v, h => by
      obtain ⟨hnew, hrest⟩ := List.pairwise_cons.mp h
      have ih : gaps z (old :: v) ≤ old.2 := gaps_le hrest
      have hlater := hnew old List.mem_cons_self
      show gaps z (new :: old :: v) ≤ new.2
      unfold gaps
      split <;> omega

theorem switches_le_length (v : List (α × Nat)) : switches z v ≤ v.length - 1 := by
  induction v with
  | nil => exact Nat.le_refl 0
  | cons new v ih =>
      cases v with
      | nil => exact Nat.le_refl 0
      | cons old v =>
          simp only [List.length_cons] at ih ⊢
          unfold switches
          split <;> omega

end Visits
