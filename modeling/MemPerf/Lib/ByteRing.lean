import Mathlib.Data.List.Basic
import Mathlib.Data.Nat.ModEq
import Mathlib.Logic.Function.Basic

/-!
# Rings of bytes

A writer puts a stream into a ring of `n` places: what has position `p` in
the stream goes to place `p % n`. A stretch no longer than the ring can be
read back, either in place or, when it runs over the end of the ring, out
of a copy made in two pieces. `littleEndian` reads a number out of a
buffer; like everything here it depends on the bytes it reads only.
-/

namespace ByteRing

variable {β : Type*} {n : Nat} {ring : Nat → β}

/-- The bytes of a stretch of the stream, written from position `p`. -/
def put (n : Nat) : (Nat → β) → Nat → List β → Nat → β
  | ring, _, [] => ring
  | ring, p, b :: bs => put n (Function.update ring (p % n) b) (p + 1) bs

/-- `memcpy(dst + at, src + from, len)` -/
def memcpy (dst : Nat → β) (at' : Nat) (src : Nat → β) (from' len : Nat) : Nat → β := fun i =>
  if at' ≤ i ∧ i < at' + len then src (from' + (i - at')) else dst i

/-- Positions less than a ring apart have different places. -/
theorem place_ne {p i : Nat} (hpos : 0 < i) (hlt : i < n) : (p + i) % n ≠ p % n := by
  intro heq
  have hmod : p + i ≡ p + 0 [MOD n] := heq
  have hzero : i ≡ 0 [MOD n] := Nat.ModEq.add_left_cancel' p hmod
  have hdvd := (Nat.modEq_zero_iff_dvd.mp hzero)
  exact absurd (Nat.le_of_dvd hpos hdvd) (Nat.not_le.mpr hlt)

theorem put_append (p : Nat) (bs cs : List β) :
    put n ring p (bs ++ cs) = put n (put n ring p bs) (p + bs.length) cs := by
  induction bs generalizing ring p with
  | nil => rfl
  | cons b bs ih =>
      rw [List.cons_append, put, ih, put, List.length_cons]
      congr 1
      omega

/-- A place no position of the stretch has keeps its byte. -/
theorem put_of_ne : ∀ {bs : List β} {ring : Nat → β} {p q : Nat},
    (∀ i < bs.length, (p + i) % n ≠ q) → put n ring p bs q = ring q
  | [], _, _, _, _ => rfl
  | b :: bs, ring, p, q, h => by
      have hrest : ∀ i < bs.length, (p + 1 + i) % n ≠ q := fun i hi => by
        rw [Nat.add_assoc, Nat.add_comm 1 i]
        exact h (i + 1) (by simpa using hi)
      rw [put, put_of_ne hrest]
      exact Function.update_of_ne (h 0 (by simp)).symm ..

/-- A stretch that fits in the ring can be read back. -/
theorem put_get : ∀ {bs : List β} {ring : Nat → β} {p i : Nat}, bs.length ≤ n →
    (hi : i < bs.length) → put n ring p bs ((p + i) % n) = bs[i]
  | b :: bs, ring, p, 0, hlen, _ => by
      rw [List.length_cons] at hlen
      have hlater : ∀ i < bs.length, (p + 1 + i) % n ≠ p % n := fun i hi => by
        rw [Nat.add_assoc]
        exact place_ne (by omega) (by omega)
      show put n (Function.update ring (p % n) b) (p + 1) bs (p % n) = b
      rw [put_of_ne hlater, Function.update_self]
  | b :: bs, ring, p, i + 1, hlen, hi => by
      rw [List.length_cons] at hlen hi
      rw [put, ← Nat.add_assoc, Nat.add_right_comm p i 1, put_get (by omega) (by omega),
        List.getElem_cons_succ]

/-- Reading on from a place, over the end of the ring at most once. -/
theorem place_add {p i : Nat} (hi : i < n) :
    (p + i) % n = if p % n + i < n then p % n + i else p % n + i - n := by
  have hpos : 0 < n := by omega
  have hlt := Nat.mod_lt p hpos
  rw [← Nat.mod_add_mod]
  split
  · next hin => exact Nat.mod_eq_of_lt hin
  · next hover =>
      rw [Nat.mod_eq_sub_mod (Nat.not_lt.mp hover)]
      exact Nat.mod_eq_of_lt (by omega)

/-- The two pieces of a stretch that runs over the end, one after the
other, are the stretch. -/
theorem memcpy_two {dst : Nat → β} {p len i : Nat} (hlen : len ≤ n) (hi : i < len)
    (hover : n - p % n < len) :
    memcpy (memcpy dst 0 ring (p % n) (n - p % n)) (n - p % n) ring 0 (len - (n - p % n)) i =
      ring ((p + i) % n) := by
  have hlt := Nat.mod_lt p (show 0 < n by omega)
  rw [place_add (by omega)]
  unfold memcpy
  by_cases hfirst : i < n - p % n
  · rw [if_neg (by omega), if_pos (by omega), if_pos (by omega), Nat.sub_zero]
  · rw [if_pos (by omega), if_neg (by omega)]
    congr 1
    omega

/-- `k` bytes from an offset, the least significant first. -/
def littleEndian (buf : Nat → UInt8) (offset : Nat) : Nat → Nat
  | 0 => 0
  | k + 1 => (buf offset).toNat + 256 * littleEndian buf (offset + 1) k

theorem littleEndian_congr {buf buf' : Nat → UInt8} : ∀ {k offset offset' : Nat},
    (∀ i < k, buf (offset + i) = buf' (offset' + i)) →
    littleEndian buf offset k = littleEndian buf' offset' k
  | 0, _, _, _ => rfl
  | k + 1, offset, offset', h => by
      have hfirst : buf offset = buf' offset' := h 0 (Nat.succ_pos k)
      have hrest : littleEndian buf (offset + 1) k = littleEndian buf' (offset' + 1) k :=
        littleEndian_congr fun i hi => by
          rw [Nat.add_assoc, Nat.add_assoc, Nat.add_comm 1 i]
          exact h (i + 1) (by omega)
      rw [littleEndian, littleEndian, hfirst, hrest]

end ByteRing
