import Mathlib.Data.Finset.Card
import Mathlib.Data.List.Dedup
import MemPerf.Lib.Tally
import MemPerf.Lib.Word

/-!
# First members of a log

A log is a list, newest member first. Some members have a key. A counter
that goes up whenever a member comes with a key that is not in the log yet
counts the `firsts`, and there are as many of those as keys
(`length_firsts`).

Members have owners, too; what the owners count for themselves adds up to
the whole (`sum_owned`).
-/

namespace Firsts

open Tally Word

variable {α κ ι : Type*} [DecidableEq κ]

/-- The keys in the log. -/
def keys (key : α → Option κ) (log : List α) : Finset κ := (log.filterMap key).toFinset

@[simp] theorem mem_keys {key : α → Option κ} {log : List α} {k : κ} :
    k ∈ keys key log ↔ ∃ a ∈ log, key a = some k := by
  simp [keys]

theorem mem_keys_cons {key : α → Option κ} {a : α} {log : List α} {k : κ} :
    k ∈ keys key (a :: log) ↔ key a = some k ∨ k ∈ keys key log := by
  simp

/-- Keys of some members are keys. -/
theorem keys_subset {key key' : α → Option κ} {log : List α}
    (h : ∀ a ∈ log, ∀ k, key a = some k → key' a = some k) : keys key log ⊆ keys key' log := by
  intro k hk
  obtain ⟨a, ha, hkey⟩ := mem_keys.mp hk
  exact mem_keys.mpr ⟨a, ha, h a ha k hkey⟩

/-- The member comes with a key that is not in the log. -/
def IsFirst (key : α → Option κ) (a : α) (log : List α) : Prop :=
  ∃ k, key a = some k ∧ k ∉ keys key log

theorem isFirst_of_some {key : α → Option κ} {a : α} {log : List α} {k : κ} (h : key a = some k) :
    IsFirst key a log ↔ k ∉ keys key log := by
  constructor
  · rintro ⟨k', hk', hnew⟩
    obtain rfl := Option.some.inj (h.symm.trans hk')
    exact hnew
  · exact fun hnew => ⟨k, h, hnew⟩

theorem not_isFirst_of_none {key : α → Option κ} {a : α} (h : key a = none) (log : List α) :
    ¬IsFirst key a log := by
  rintro ⟨k, hk, -⟩
  exact Option.some_ne_none k (hk.symm.trans h)

instance (key : α → Option κ) (a : α) (log : List α) : Decidable (IsFirst key a log) :=
  match h : key a with
  | none => isFalse (not_isFirst_of_none h log)
  | some _ => decidable_of_iff _ (isFirst_of_some h).symm

def firsts (key : α → Option κ) : List α → List α
  | [] => []
  | a :: log => if IsFirst key a log then a :: firsts key log else firsts key log

theorem firsts_cons (key : α → Option κ) (a : α) (log : List α) : firsts key (a :: log) =
    if IsFirst key a log then a :: firsts key log else firsts key log := rfl

theorem firsts_sublist (key : α → Option κ) : ∀ log : List α, (firsts key log).Sublist log
  | [] => .slnil
  | a :: log => by
      rw [firsts_cons]
      split
      · exact (firsts_sublist key log).cons_cons a
      · exact (firsts_sublist key log).cons a

/-- There are as many first members as keys. -/
theorem length_firsts (key : α → Option κ) :
    ∀ log : List α, (firsts key log).length = (keys key log).card
  | [] => rfl
  | a :: log => by
      have ih := length_firsts key log
      rw [firsts_cons]
      cases hkey : key a with
      | none =>
          have hkeys : keys key (a :: log) = keys key log := by simp [keys, hkey]
          rw [if_neg (not_isFirst_of_none hkey log), hkeys, ih]
      | some k =>
          have hkeys : keys key (a :: log) = insert k (keys key log) := by simp [keys, hkey]
          by_cases hk : k ∈ keys key log
          · rw [if_neg fun hnew => (isFirst_of_some hkey).mp hnew hk, hkeys,
              Finset.insert_eq_of_mem hk, ih]
          · rw [if_pos ((isFirst_of_some hkey).mpr hk), hkeys, Finset.card_insert_of_notMem hk,
              List.length_cons, ih]

theorem tally_firsts (key : α → Option κ) (log : List α) :
    tally (fun _ => 1) (firsts key log) = (keys key log).card := by
  rw [← length_firsts]
  simp [tally]

/-! ## Owners -/

theorem wrap_sum_wrap (w : Nat) (g : ι → Nat) : ∀ l : List ι,
    wrap w ((l.map fun i => wrap w (g i)).sum) = wrap w ((l.map g).sum)
  | [] => rfl
  | i :: l => by
      rw [List.map_cons, List.sum_cons, List.map_cons, List.sum_cons, ← wrap_wrap_add,
        wrap_sum_wrap w g l, ← wrap_wrap_add w (g i)]
      simp [wrap]

variable [DecidableEq ι]

/-- What a member counts for its owner. -/
def owned (owner : α → ι) (f : α → Nat) (i : ι) (a : α) : Nat := if owner a = i then f a else 0

/-- A counter of `w` bits of what the owner's members count. -/
def ownCount (w : Nat) (owner : α → ι) (f : α → Nat) (i : ι) (log : List α) : Nat :=
  wrap w (tally (owned owner f i) log)

variable {w : Nat} {owner : α → ι} {f : α → Nat} {i : ι} {a : α}

/-- A member is counted. -/
theorem ownCount_cons (h : owner a = i) (log : List α) :
    ownCount w owner f i (a :: log) = wrap w (ownCount w owner f i log + f a) := by
  rw [ownCount, ownCount, wrap_add_wrap, tally_cons, owned, if_pos h, Nat.add_comm]

/-- A member that counts for nothing, or for another owner. -/
theorem ownCount_cons_of_zero (h : owner a = i → f a = 0) (log : List α) :
    ownCount w owner f i (a :: log) = ownCount w owner f i log := by
  have hzero : owned owner f i a = 0 := by
    unfold owned
    split
    · next howner => exact h howner
    · rfl
  rw [ownCount, ownCount, tally_cons, hzero, Nat.zero_add]

/-- A member that is a first one. -/
theorem ownCount_firsts (key : α → Option κ) (h : owner a = i) (log : List α) :
    ownCount w owner (fun _ => 1) i (firsts key (a :: log)) =
      if IsFirst key a log then wrap w (ownCount w owner (fun _ => 1) i (firsts key log) + 1)
      else ownCount w owner (fun _ => 1) i (firsts key log) := by
  rw [firsts_cons]
  split
  · rw [ownCount_cons h]
  · rfl

theorem ownCount_firsts_of_ne (key : α → Option κ) (h : owner a ≠ i) (log : List α) :
    ownCount w owner f i (firsts key (a :: log)) = ownCount w owner f i (firsts key log) := by
  rw [firsts_cons]
  split
  · exact ownCount_cons_of_zero (fun howner => absurd howner h) _
  · rfl

/-- A member counts for one of the owners. -/
theorem sum_owned_self (f : α → Nat) {a : α} :
    ∀ {owners : List ι}, owners.Nodup → owner a ∈ owners →
      (owners.map fun i => owned owner f i a).sum = f a
  | i :: owners, hnodup, ha => by
      rw [List.nodup_cons] at hnodup
      rw [List.map_cons, List.sum_cons]
      by_cases hi : owner a = i
      · have hrest : ∀ j ∈ owners, owned owner f j a = 0 := by
          intro j hj
          refine if_neg ?_
          rintro rfl
          exact hnodup.1 (hi ▸ hj)
        rw [owned, if_pos hi, List.map_congr_left hrest]
        simp
      · rw [owned, if_neg hi, Nat.zero_add]
        exact sum_owned_self f hnodup.2 ((List.mem_cons.mp ha).resolve_left hi)

/-- The owners together count what there is. -/
theorem sum_owned (f : α → Nat) {owners : List ι} (hnodup : owners.Nodup) :
    ∀ {log : List α}, (∀ a ∈ log, owner a ∈ owners) →
      (owners.map fun i => tally (owned owner f i) log).sum = tally f log
  | [], _ => by simp [tally]
  | a :: log, h => by
      have ih := sum_owned f hnodup fun b hb => h b (List.mem_cons_of_mem a hb)
      simp only [tally, List.map_cons, List.sum_cons] at ih ⊢
      rw [List.sum_map_add, sum_owned_self f hnodup (h a List.mem_cons_self), ih]

/-- In machine integers. -/
theorem sum_ownCount (w : Nat) (f : α → Nat) {owners : List ι} (hnodup : owners.Nodup)
    {log : List α} (h : ∀ a ∈ log, owner a ∈ owners) :
    wrap w ((owners.map fun i => ownCount w owner f i log).sum) = wrap w (tally f log) := by
  rw [← sum_owned f hnodup h]
  exact wrap_sum_wrap w _ owners

end Firsts
