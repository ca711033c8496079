import Mathlib.Data.Int.ModEq
import Mathlib.Data.Nat.ModEq
import Mathlib.Algebra.BigOperators.Group.Finset.Basic

/-!
# Machine words

Unsigned machine integers are naturals reduced modulo `2 ^ w`, signed
ones integers reduced to the balanced range `[-2 ^ (w - 1), 2 ^ (w - 1))`.
The lemmas say when the reduction does nothing, which is how "this
field never wraps" is used.
-/

namespace Word

/-- The value an unsigned `w`-bit field holds after `x` is stored in it. -/
def wrap (w x : Nat) : Nat := x % 2 ^ w

/-- The value a signed `w`-bit field holds after `x` is stored in it. -/
def swrap (w : Nat) (x : Int) : Int := Int.bmod x (2 ^ w)

theorem wrap_of_lt {w x : Nat} (h : x < 2 ^ w) : wrap w x = x := Nat.mod_eq_of_lt h

theorem wrap_lt (w x : Nat) : wrap w x < 2 ^ w := Nat.mod_lt _ (Nat.two_pow_pos w)

theorem wrap_add_wrap (w x y : Nat) : wrap w (wrap w x + y) = wrap w (x + y) := by
  simp [wrap]

theorem wrap_wrap_add (w x y : Nat) : wrap w (wrap w x + wrap w y) = wrap w (x + y) := by
  simp [wrap]

theorem swrap_of_range {w : Nat} {x : Int} (hlo : -(2 ^ w : Nat) ≤ 2 * x)
    (hhi : 2 * x < (2 ^ w : Nat)) : swrap w x = x := by
  unfold swrap
  apply Int.bmod_eq_of_le <;> omega

/-- Unsigned subtraction modulo `2 ^ w`. -/
def wsub (w x y : Nat) : Nat := wrap w (x + (2 ^ w - wrap w y))

theorem wsub_lt (w x y : Nat) : wsub w x y < 2 ^ w := wrap_lt w _

theorem wrap_modEq (w x : Nat) : wrap w x ≡ x [MOD 2 ^ w] := Nat.mod_modEq x _

/-- Subtracting and adding back is the identity modulo `2 ^ w`. -/
theorem wsub_add_modEq (w x y : Nat) : wsub w x y + y ≡ x [MOD 2 ^ w] := by
  have hy := wrap_lt w y
  calc wsub w x y + y
      ≡ (x + (2 ^ w - wrap w y)) + wrap w y [MOD 2 ^ w] :=
        (wrap_modEq w _).add (wrap_modEq w y).symm
    _ = x + 2 ^ w := by omega
    _ ≡ x [MOD 2 ^ w] := by simp [Nat.ModEq]

theorem wsub_of_le {w x y : Nat} (hy : y ≤ x) (hx : x < 2 ^ w) : wsub w x y = x - y := by
  have hyw : wrap w y = y := wrap_of_lt (by omega)
  have hsplit : x + (2 ^ w - y) = x - y + 2 ^ w := by omega
  rw [wsub, hyw, hsplit, wrap, Nat.add_mod_right]
  exact Nat.mod_eq_of_lt (by omega)

/-- Two words that agree modulo `2 ^ w` are equal. -/
theorem eq_of_modEq {w x y : Nat} (hx : x < 2 ^ w) (hy : y < 2 ^ w) (h : x ≡ y [MOD 2 ^ w]) :
    x = y := by
  rw [Nat.ModEq, Nat.mod_eq_of_lt hx, Nat.mod_eq_of_lt hy] at h
  exact h

/-- The difference of two numbers that were cut to words. -/
theorem wsub_wrap_wrap {w x y : Nat} (h : y ≤ x) :
    wsub w (wrap w x) (wrap w y) = wrap w (x - y) := by
  refine eq_of_modEq (wsub_lt ..) (wrap_lt ..) (Nat.ModEq.add_right_cancel' y ?_)
  have hleft : wsub w (wrap w x) (wrap w y) + y ≡ x [MOD 2 ^ w] :=
    (((wrap_modEq w y).symm.add_left _).trans (wsub_add_modEq ..)).trans (wrap_modEq w x)
  have hright : wrap w (x - y) + y ≡ x - y + y [MOD 2 ^ w] := (wrap_modEq w (x - y)).add_right y
  rw [Nat.sub_add_cancel h] at hright
  exact hleft.trans hright.symm

/-! ## A loop that adds the terms of a table -/

/-- `for i < n: if (b[i]) acc += a[i] * b[i]`, in `w` bits. -/
def addProducts (w : Nat) (a b : Nat → Nat) (n acc : Nat) : Nat :=
  (List.range n).foldl (fun acc i => if b i = 0 then acc else wrap w (acc + wrap w (a i * b i))) acc

theorem addProducts_succ (w : Nat) (a b : Nat → Nat) (n acc : Nat) :
    addProducts w a b (n + 1) acc = if b n = 0 then addProducts w a b n acc
      else wrap w (addProducts w a b n acc + wrap w (a n * b n)) := by
  simp [addProducts, List.range_succ]

theorem addProducts_modEq (w : Nat) (a b : Nat → Nat) (n acc : Nat) :
    addProducts w a b n acc ≡ acc + ∑ i ∈ Finset.range n, a i * b i [MOD 2 ^ w] := by
  induction n with
  | zero => simp [addProducts, Nat.ModEq.refl]
  | succ n ih =>
      rw [addProducts_succ, Finset.sum_range_succ, ← Nat.add_assoc]
      split
      · next h0 => simpa [h0] using ih
      · exact (wrap_modEq w _).trans (ih.add (wrap_modEq w _))

theorem addProducts_lt {w : Nat} (a b : Nat → Nat) (n : Nat) {acc : Nat} (h : acc < 2 ^ w) :
    addProducts w a b n acc < 2 ^ w := by
  induction n with
  | zero => exact h
  | succ n ih =>
      rw [addProducts_succ]
      split
      · exact ih
      · exact wrap_lt w _

@[simp] theorem swrap_zero (w : Nat) : swrap w 0 = 0 := by simp [swrap]

end Word
