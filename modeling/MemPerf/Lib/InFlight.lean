import Mathlib.Algebra.BigOperators.Group.Finset.Basic
import Mathlib.Algebra.GroupWithZero.Nat
import Mathlib.Algebra.Order.BigOperators.Group.Finset
import Mathlib.Algebra.Order.Ring.Int
import Mathlib.Data.List.Flatten
import Mathlib.Data.List.Perm.Basic
import Mathlib.Logic.Function.Basic

/-!
# Calls in flight

Threads `0`, ..., `n - 1`, each in some phase of a call. What the phases
hold is collected over the threads, into a list (`gather`) or into a sum
(`owed`). When one thread goes to another phase, only its own part changes:
`gather_perm` and `gather_update` split its part off, `owed_update` says
what is added.
-/

namespace InFlight

variable {α β : Type*}

section gather

variable (n t : Nat) (hold : α → List β) (phase : Nat → α)

def gather : List β := (List.range n).flatMap fun t => hold (phase t)

/-- What the threads other than `t` hold. -/
def others : List β := ((List.range n).erase t).flatMap fun t => hold (phase t)

variable {n t}

theorem gather_perm (ht : t < n) :
    (gather n hold phase).Perm (hold (phase t) ++ others n t hold phase) := by
  have hsplit := List.perm_cons_erase (List.mem_range.mpr ht)
  exact hsplit.flatMap_right fun t => hold (phase t)

theorem others_update (x : α) :
    others n t hold (Function.update phase t x) = others n t hold phase := by
  refine List.flatMap_congr fun t' ht' => ?_
  rw [Function.update_of_ne ((List.nodup_range.mem_erase_iff).mp ht').1]

theorem gather_update (ht : t < n) (x : α) :
    (gather n hold (Function.update phase t x)).Perm (hold x ++ others n t hold phase) := by
  have hsplit := gather_perm hold (Function.update phase t x) ht
  rwa [Function.update_self, others_update] at hsplit

theorem mem_gather {b : β} : b ∈ gather n hold phase ↔ ∃ t < n, b ∈ hold (phase t) := by
  simp [gather, List.mem_flatMap]

theorem gather_eq_nil (h : ∀ t, hold (phase t) = []) : gather n hold phase = [] :=
  List.flatMap_eq_nil_iff.mpr fun t _ => h t

theorem mem_others {b : β} : b ∈ others n t hold phase ↔
    ∃ t' < n, t' ≠ t ∧ b ∈ hold (phase t') := by
  rw [others, List.mem_flatMap]
  constructor
  · rintro ⟨t', ht', hb⟩
    obtain ⟨hne, hlt⟩ := (List.nodup_range.mem_erase_iff).mp ht'
    exact ⟨t', List.mem_range.mp hlt, hne, hb⟩
  · rintro ⟨t', hlt, hne, hb⟩
    exact ⟨t', (List.nodup_range.mem_erase_iff).mpr ⟨hne, List.mem_range.mpr hlt⟩, hb⟩

theorem others_subset_gather : others n t hold phase ⊆ gather n hold phase := by
  intro b hb
  obtain ⟨t', hlt, -, hb⟩ := (mem_others hold phase).mp hb
  exact (mem_gather hold phase).mpr ⟨t', hlt, hb⟩

variable {hold} in
/-- Threads that hold less hold less together. -/
theorem others_subset {hold' : α → List β} (h : ∀ x, hold x ⊆ hold' x) :
    others n t hold phase ⊆ others n t hold' phase := by
  intro b hb
  obtain ⟨t', hlt, hne, hb⟩ := (mem_others hold phase).mp hb
  exact (mem_others hold' phase).mpr ⟨t', hlt, hne, h _ hb⟩

variable {hold} in
theorem gather_sublist {hold' : α → List β} (h : ∀ x, (hold x).Sublist (hold' x)) :
    (gather n hold phase).Sublist (gather n hold' phase) :=
  List.Sublist.flatMap_right _ fun t _ => h (phase t)

/-- A list that is made up of `L` and of what the threads hold, when thread
`t` goes on. -/
theorem perm_update {L L' M M' : List β} {x : α} (ht : t < n)
    (h : M.Perm (L ++ gather n hold phase))
    (hmove : ∀ rest, M.Perm (L ++ (hold (phase t) ++ rest)) → M'.Perm (L' ++ (hold x ++ rest))) :
    M'.Perm (L' ++ gather n hold (Function.update phase t x)) := by
  have hold' := h.trans ((gather_perm hold phase ht).append_left L)
  exact (hmove _ hold').trans ((gather_update hold phase ht x).symm.append_left L')

end gather

section owed

variable (n : Nat) (owes : α → Int) (phase : Nat → α)

def owed : Int := ∑ t ∈ Finset.range n, owes (phase t)

variable {n}

theorem owed_update {t : Nat} (ht : t < n) (x : α) :
    owed n owes (Function.update phase t x) = owed n owes phase - owes (phase t) + owes x := by
  have hmem := Finset.mem_range.mpr ht
  have hnew : (∑ t' ∈ (Finset.range n).erase t, owes (Function.update phase t x t'))
      = ∑ t' ∈ (Finset.range n).erase t, owes (phase t') :=
    Finset.sum_congr rfl fun t' ht' => by rw [Function.update_of_ne (Finset.mem_erase.mp ht').1]
  rw [owed, owed, ← Finset.add_sum_erase _ _ hmem, ← Finset.add_sum_erase _ _ hmem, hnew,
    Function.update_self]
  omega

variable {owes}

theorem owed_nonneg (h : ∀ x, 0 ≤ owes x) : 0 ≤ owed n owes phase :=
  Finset.sum_nonneg fun t _ => h (phase t)

theorem owed_le {b : Int} (h : ∀ t < n, owes (phase t) ≤ b) : owed n owes phase ≤ n * b := by
  have hle := Finset.sum_le_card_nsmul (Finset.range n) (fun t => owes (phase t)) b
    fun t ht => h t (Finset.mem_range.mp ht)
  rwa [Finset.card_range, nsmul_eq_mul] at hle

theorem owed_mono {owes' : α → Int} (h : ∀ x, owes x ≤ owes' x) :
    owed n owes phase ≤ owed n owes' phase :=
  Finset.sum_le_sum fun t _ => h (phase t)

/-- What is owed for what is held. -/
theorem owed_sum (hold : α → List β) (f : β → Nat) :
    owed n (fun x => (((hold x).map f).sum : Int)) phase = ((gather n hold phase).map f).sum := by
  unfold owed gather
  induction n with
  | zero => rfl
  | succ n ih =>
      rw [Finset.sum_range_succ, ih, List.range_succ, List.flatMap_append, List.map_append,
        List.sum_append, List.flatMap_singleton]
      push_cast
      rfl

/-- Only thread `t` owes something. -/
theorem owed_eq_single {t : Nat} (ht : t < n) (h : ∀ t' < n, t' ≠ t → owes (phase t') = 0) :
    owed n owes phase = owes (phase t) :=
  Finset.sum_eq_single_of_mem t (Finset.mem_range.mpr ht) fun t' ht' hne =>
    h t' (Finset.mem_range.mp ht') hne

end owed

end InFlight
