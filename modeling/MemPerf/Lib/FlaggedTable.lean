import Mathlib.Logic.Function.Basic

/-!
# A table whose members carry a flag

Membership in an append-only array is often not searched for but read
off a flag kept with each key. That is sound as long as every entry's
flag stays set: a key whose flag is clear is then new, and pushing it
keeps the entries distinct.
-/

variable {κ : Type*}

/-- The first `n` entries of `T` are distinct keys with their flag set. -/
structure FlaggedTable (T : Nat → Option κ) (n : Nat) (flag : κ → Prop) : Prop where
  entry : ∀ i < n, ∃ k, T i = some k ∧ flag k
  distinct : ∀ i < n, ∀ j < n, T i = T j → i = j

namespace FlaggedTable

variable {T T' : Nat → Option κ} {n : Nat} {flag flag' : κ → Prop} {k : κ}

theorem empty : FlaggedTable T 0 flag where
  entry _ h := absurd h (Nat.not_lt_zero _)
  distinct _ h := absurd h (Nat.not_lt_zero _)

/-- The same entries, with flags that were set still set. -/
theorem mono (h : FlaggedTable T n flag) (hT : ∀ i < n, T' i = T i)
    (hflag : ∀ k, flag k → flag' k) : FlaggedTable T' n flag' where
  entry i hi := by
    obtain ⟨k, hk, hf⟩ := h.entry i hi
    exact ⟨k, (hT i hi).trans hk, hflag k hf⟩
  distinct i hi j hj heq := by
    rw [hT i hi, hT j hj] at heq
    exact h.distinct i hi j hj heq

/-- A key whose flag is clear is not in the table. -/
theorem not_mem (h : FlaggedTable T n flag) (hk : ¬ flag k) : ∀ i < n, T i ≠ some k := by
  intro i hi heq
  obtain ⟨k', hk', hf⟩ := h.entry i hi
  rw [heq] at hk'
  obtain rfl := Option.some.inj hk'
  exact hk hf

/-- Appending a key whose flag is clear, and setting its flag. -/
theorem push (h : FlaggedTable T n flag) (hk : ¬ flag k) (hflag : ∀ k', flag k' → flag' k')
    (hk' : flag' k) : FlaggedTable (Function.update T n (some k)) (n + 1) flag' where
  entry i hi := by
    rcases Nat.lt_succ_iff_lt_or_eq.mp hi with hlt | rfl
    · obtain ⟨k', hT, hf⟩ := h.entry i hlt
      exact ⟨k', by rw [Function.update_of_ne (Nat.ne_of_lt hlt), hT], hflag k' hf⟩
    · exact ⟨k, Function.update_self .., hk'⟩
  distinct i hi j hj heq := by
    rcases Nat.lt_succ_iff_lt_or_eq.mp hi with hi' | rfl <;>
      rcases Nat.lt_succ_iff_lt_or_eq.mp hj with hj' | rfl
    · rw [Function.update_of_ne (Nat.ne_of_lt hi'), Function.update_of_ne (Nat.ne_of_lt hj')] at heq
      exact h.distinct i hi' j hj' heq
    · rw [Function.update_of_ne (Nat.ne_of_lt hi'), Function.update_self] at heq
      exact absurd heq (h.not_mem hk i hi')
    · rw [Function.update_of_ne (Nat.ne_of_lt hj'), Function.update_self] at heq
      exact absurd heq.symm (h.not_mem hk j hj')
    · rfl

end FlaggedTable
