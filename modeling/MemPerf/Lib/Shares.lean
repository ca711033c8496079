import Mathlib.Algebra.BigOperators.Group.List.Basic
import Mathlib.Algebra.GroupWithZero.Nat
import Mathlib.Algebra.Order.BigOperators.Group.List
import Mathlib.Data.List.Count
import Mathlib.Data.List.Nodup

/-!
# Shares of a whole

Events are attributed to keys; the share of a key is its part of all
events, as a rounded percentage. Distinct keys have at most all events
between them, so their percentages add up to at most a hundred, and at
most `k` keys have a `k`-th part of the whole each.
-/

namespace Shares

/-- `⌊part * 100 / whole⌋`. -/
def percent (whole part : Nat) : Nat := part * 100 / whole

theorem percent_le {whole part : Nat} (h : part ≤ whole) : percent whole part ≤ 100 :=
  Nat.div_le_of_le_mul (Nat.mul_le_mul_right 100 h)

theorem sum_percent_le_percent (whole : Nat) : ∀ parts : List Nat,
    (parts.map (percent whole)).sum ≤ percent whole parts.sum
  | [] => Nat.zero_le _
  | part :: rest => by
      have ih := sum_percent_le_percent whole rest
      have hadd :
          percent whole part + percent whole rest.sum ≤ percent whole (part + rest.sum) := by
        simp only [percent, Nat.add_mul]
        exact Nat.div_add_div_le_add_div
      rw [List.map_cons, List.sum_cons, List.sum_cons]
      omega

/-- The percentages of parts of one whole add up to at most a hundred. -/
theorem sum_percent_le {whole : Nat} {parts : List Nat} (h : parts.sum ≤ whole) :
    (parts.map (percent whole)).sum ≤ 100 :=
  (sum_percent_le_percent whole parts).trans (percent_le h)

/-- At most `k` parts are a `k`-th of the whole each. -/
theorem length_le_of_parts {whole k : Nat} {parts : List Nat} (hwhole : 0 < whole)
    (hparts : ∀ part ∈ parts, whole ≤ part * k) (hsum : parts.sum ≤ whole) :
    parts.length ≤ k := by
  have hall : ∀ l : List Nat, (∀ part ∈ l, whole ≤ part * k) → l.length * whole ≤ l.sum * k := by
    intro l hl
    induction l with
    | nil => simp
    | cons part rest ih =>
        have h1 := hl part (List.mem_cons_self ..)
        have h2 := ih fun p hp => hl p (List.mem_cons_of_mem _ hp)
        rw [List.length_cons, List.sum_cons, Nat.add_mul, Nat.add_mul]
        omega
  have hle : parts.length * whole ≤ k * whole :=
    calc parts.length * whole ≤ parts.sum * k := hall parts hparts
      _ ≤ whole * k := Nat.mul_le_mul_right k hsum
      _ = k * whole := Nat.mul_comm ..
  exact Nat.le_of_mul_le_mul_right hle hwhole

theorem sum_count_cons {κ : Type*} [BEq κ] [LawfulBEq κ] (keys : List κ) (event : κ)
    (rest : List κ) :
    (keys.map fun key => (event :: rest).count key).sum
      = (keys.map fun key => rest.count key).sum + keys.count event := by
  induction keys with
  | nil => rfl
  | cons key keys ih =>
      rw [List.map_cons, List.map_cons, List.sum_cons, List.sum_cons, ih, List.count_cons,
        List.count_cons]
      have hcomm : (event == key) = (key == event) := BEq.comm
      rw [hcomm]
      omega

/-- Distinct keys have at most all events between them. -/
theorem sum_count_le {κ : Type*} [BEq κ] [LawfulBEq κ] {keys : List κ} (h : keys.Nodup) :
    ∀ events : List κ, (keys.map fun key => events.count key).sum ≤ events.length
  | [] => by simp
  | event :: rest => by
      have ih := sum_count_le h rest
      have hsplit := sum_count_cons keys event rest
      have hone : keys.count event ≤ 1 := List.nodup_iff_count_le_one.mp h event
      rw [hsplit, List.length_cons]
      omega

/-! ## Weighted sums -/

/-- `∑ i, ⌊scores[i] / 2 ^ (k + i)⌋`. -/
def weightedFrom (k : Nat) (scores : List Nat) : Nat :=
  ((scores.zipIdx k).map fun score => score.1 / 2 ^ score.2).sum

/-- `∑ i, ⌊scores[i] / 2 ^ i⌋`. -/
def weighted (scores : List Nat) : Nat := weightedFrom 0 scores

theorem weightedFrom_cons (k score : Nat) (rest : List Nat) :
    weightedFrom k (score :: rest) = score / 2 ^ k + weightedFrom (k + 1) rest := by
  simp [weightedFrom]

theorem weightedFrom_le_sum : ∀ (scores : List Nat) (k : Nat), weightedFrom k scores ≤ scores.sum
  | [], _ => Nat.zero_le _
  | score :: rest, k => by
      rw [weightedFrom_cons, List.sum_cons]
      exact Nat.add_le_add (Nat.div_le_self ..) (weightedFrom_le_sum rest (k + 1))

theorem weighted_le_sum (scores : List Nat) : weighted scores ≤ scores.sum :=
  weightedFrom_le_sum scores 0

end Shares
