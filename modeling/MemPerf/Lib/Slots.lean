import Mathlib.Logic.Function.Basic
import Mathlib.Data.List.Basic
import Mathlib.Data.List.Induction
import Mathlib.Data.List.Nodup
import MemPerf.Lib.Search

/-!
# A row of slots

A fixed row of `k` slots in which one value `e` means empty. `insert`
scans for the value or an empty slot and writes only into the latter.
Fed with values other than `e`, the row holds their distinct values in
order of first arrival, as far as there is room (`insert_row`); what is
asked of it later, its number of used slots and its first slot, is then
read off the arrivals.
-/

namespace Slots

open Search

variable {α : Type*} [DecidableEq α]

def insert (k : Nat) (e t : α) (row : Nat → α) : Nat → α :=
  let j := firstIndex k fun j => row j == e || row j == t
  if j < k ∧ row j ≠ t then Function.update row j t else row

/-- The number of slots before the first empty one. -/
def used (k : Nat) (e : α) (row : Nat → α) : Nat := firstIndex k fun j => row j == e

/-! ## Distinct arrivals -/

/-- The distinct values of `A`, in order of first arrival. -/
def arrivals (A : List α) : List α := A.foldl (fun L t => if t ∈ L then L else L ++ [t]) []

theorem arrivals_snoc (A : List α) (t : α) :
    arrivals (A ++ [t]) = if t ∈ arrivals A then arrivals A else arrivals A ++ [t] := by
  rw [arrivals, List.foldl_append]
  rfl

theorem mem_arrivals {A : List α} {t : α} : t ∈ arrivals A ↔ t ∈ A := by
  induction A using List.reverseRecOn with
  | nil => simp [arrivals]
  | append_singleton A a ih =>
      rw [arrivals_snoc]
      split
      · next ha =>
          rw [ih, List.mem_append, List.mem_singleton]
          refine ⟨Or.inl, ?_⟩
          rintro (h | rfl)
          · exact h
          · exact ih.mp ha
      · rw [List.mem_append, List.mem_append, ih]

theorem nodup_arrivals (A : List α) : (arrivals A).Nodup := by
  induction A using List.reverseRecOn with
  | nil => exact List.nodup_nil
  | append_singleton A a ih =>
      rw [arrivals_snoc]
      split
      · exact ih
      · next ha =>
          rw [List.nodup_append]
          refine ⟨ih, List.nodup_singleton a, ?_⟩
          rintro x hx y hy rfl
          exact ha (List.mem_singleton.mp hy ▸ hx)

theorem head_arrivals (A : List α) : (arrivals A).head? = A.head? := by
  induction A using List.reverseRecOn with
  | nil => rfl
  | append_singleton A a ih =>
      have happ : ∀ L : List α, L.head? = A.head? → (L ++ [a]).head? = (A ++ [a]).head? := by
        intro L hL
        rw [List.head?_append, List.head?_append, hL]
      rw [arrivals_snoc]
      split
      · next ha =>
          rw [ih, List.head?_append]
          cases A with
          | nil => simp [arrivals] at ha
          | cons x rest => rfl
      · exact happ _ ih

/-- Two distinct values arrived. -/
theorem two_le_length_arrivals {A : List α} :
    2 ≤ (arrivals A).length ↔ ∃ a ∈ A, ∃ b ∈ A, a ≠ b := by
  constructor
  · intro h
    match harr : arrivals A with
    | [] => simp [harr] at h
    | [x] => simp [harr] at h
    | x :: y :: rest =>
        have hnd := nodup_arrivals A
        rw [harr] at hnd
        refine ⟨x, mem_arrivals.mp (by simp [harr]), y, mem_arrivals.mp (by simp [harr]), ?_⟩
        rintro rfl
        simp at hnd
  · rintro ⟨a, ha, b, hb, hne⟩
    rw [← mem_arrivals] at ha hb
    match harr : arrivals A with
    | [] => simp [harr] at ha
    | [x] =>
        rw [harr, List.mem_singleton] at ha hb
        exact absurd (ha.trans hb.symm) hne
    | x :: y :: rest => simp

/-! ## The row of a sequence of arrivals -/

/-- The slots after the values `A` were inserted. -/
def row (k : Nat) (e : α) (A : List α) : Nat → α := fun j => ((arrivals A).take k).getD j e

theorem row_nil (k : Nat) (e : α) : row k e [] = fun _ => e := by
  funext j
  simp [row, arrivals]

section Row

variable {k : Nat} {e t : α} {A : List α}

theorem row_of_lt {j : Nat} (hj : j < ((arrivals A).take k).length) :
    row k e A j = ((arrivals A).take k).get ⟨j, hj⟩ := by
  simp [row, List.getD_eq_getElem?_getD, List.getElem?_eq_getElem hj]

theorem row_of_ge {j : Nat} (hj : ((arrivals A).take k).length ≤ j) : row k e A j = e := by
  rw [row, List.getD_eq_getElem?_getD, List.getElem?_eq_none hj]
  rfl

theorem row_mem {j : Nat} (hj : j < ((arrivals A).take k).length) :
    row k e A j ∈ (arrivals A).take k := by
  rw [row_of_lt hj]
  exact List.get_mem _ _

theorem row_ne_empty (hA : e ∉ A) {j : Nat} (hj : j < ((arrivals A).take k).length) :
    row k e A j ≠ e := by
  intro h
  exact hA (mem_arrivals.mp (List.mem_of_mem_take (h ▸ row_mem hj)))

/-- The whole row: the arrivals that had room, then empty slots. -/
theorem map_row (k : Nat) (e : α) (A : List α) : (List.range k).map (row k e A) =
    (arrivals A).take k ++ List.replicate (k - (arrivals A).length) e := by
  have hlen : ((arrivals A).take k).length = min k (arrivals A).length := List.length_take
  refine List.ext_getElem? fun j => ?_
  rw [List.getElem?_map]
  by_cases hj : j < k
  · rw [List.getElem?_range hj, Option.map_some]
    by_cases hin : j < ((arrivals A).take k).length
    · rw [List.getElem?_append_left hin, row_of_lt hin, List.get_eq_getElem,
        ← List.getElem?_eq_getElem hin]
    · rw [List.getElem?_append_right (by omega), row_of_ge (by omega),
        List.getElem?_replicate_of_lt (by omega)]
  · rw [List.getElem?_eq_none (by simpa using hj), Option.map_none,
      List.getElem?_eq_none (by simp; omega)]

/-- No value has two slots. -/
theorem row_inj {i j : Nat} (h : row k e A i = row k e A j) (hi : row k e A i ≠ e) : i = j := by
  have hin : ∀ n, row k e A n ≠ e → n < ((arrivals A).take k).length := by
    intro n hn
    by_contra hge
    exact hn (row_of_ge (by omega))
  have hlt := hin i hi
  have hlt' := hin j (h ▸ hi)
  rw [row_of_lt hlt, row_of_lt hlt'] at h
  have hnodup := (nodup_arrivals A).sublist (List.take_sublist k _)
  exact Fin.val_eq_of_eq (hnodup.injective_get h)

/-- The used slots are as many as the distinct arrivals that had room. -/
theorem used_row (hA : e ∉ A) : used k e (row k e A) = min k (arrivals A).length := by
  have hlen : ((arrivals A).take k).length = min k (arrivals A).length := List.length_take
  unfold used
  by_cases hk : (arrivals A).length < k
  · rw [firstIndex_eq (i := (arrivals A).length) hk]
    · omega
    · rw [row_of_ge (by omega)]
      exact beq_self_eq_true e
    · intro j hj
      simpa using row_ne_empty hA (k := k) (j := j) (by omega)
  · rw [firstIndex_eq_length]
    · omega
    · intro j hj
      simpa using row_ne_empty hA (k := k) (j := j) (by omega)

/-- The first slot holds the first arrival. -/
theorem row_zero (hk : 0 < k) : row k e A 0 = A.head?.getD e := by
  rw [row, List.getD_eq_getElem?_getD, List.getElem?_take_of_lt hk, ← List.head?_eq_getElem?,
    head_arrivals]

/-- Inserting a value is one more arrival. -/
theorem insert_row (ht : t ≠ e) (hA : e ∉ A) : insert k e t (row k e A) = row k e (A ++ [t]) := by
  have hlen : ((arrivals A).take k).length = min k (arrivals A).length := List.length_take
  -- the search stops at the first empty slot or at the value
  have hskip : ∀ j < ((arrivals A).take k).length, row k e A j ≠ t →
      (row k e A j == e || row k e A j == t) = false := by
    intro j hj hne
    simp [row_ne_empty hA hj, hne]
  by_cases hmem : t ∈ arrivals A
  · have hsame : row k e (A ++ [t]) = row k e A := by
      unfold row
      rw [arrivals_snoc, if_pos hmem]
    rw [hsame, insert, if_neg]
    rintro ⟨hj, hne⟩
    by_cases hin : t ∈ (arrivals A).take k
    · obtain ⟨⟨i, hi⟩, hget⟩ := List.get_of_mem hin
      have hrow : row k e A i = t := (row_of_lt hi).trans hget
      have hnodup := (nodup_arrivals A).sublist (List.take_sublist k _)
      have hfirst : firstIndex k (fun j => row k e A j == e || row k e A j == t) = i := by
        refine firstIndex_eq (by omega) (by simp [hrow]) fun j hji => hskip j (by omega) ?_
        intro hjt
        rw [row_of_lt (by omega)] at hjt
        have hij := Fin.val_eq_of_eq (hnodup.injective_get (hjt.trans hget.symm))
        simp only at hij
        omega
      rw [hfirst] at hne
      exact hne hrow
    · have hfull : (arrivals A).take k ≠ arrivals A := by
        intro h
        exact hin (h.symm ▸ hmem)
      have hk : k < (arrivals A).length := by
        by_contra hk
        exact hfull (List.take_of_length_le (by omega))
      rw [firstIndex_eq_length] at hj
      · omega
      · intro j hjk
        refine hskip j (by omega) fun hjt => hin ?_
        rw [← hjt]
        exact row_mem (by omega)
  · have hne : ∀ j < ((arrivals A).take k).length, row k e A j ≠ t := by
      intro j hj h
      exact hmem (List.mem_of_mem_take (h ▸ row_mem hj))
    by_cases hk : (arrivals A).length < k
    · have hfirst : firstIndex k (fun j => row k e A j == e || row k e A j == t)
          = (arrivals A).length := by
        refine firstIndex_eq hk ?_ fun j hj => hskip j (by omega) (hne j (by omega))
        rw [row_of_ge (by omega)]
        simp
      have hempty : row k e A (arrivals A).length = e := row_of_ge (by omega)
      rw [insert, hfirst, hempty, if_pos ⟨hk, Ne.symm ht⟩]
      have hold : (arrivals A).take k = arrivals A := List.take_of_length_le (by omega)
      have hnew : (arrivals A ++ [t]).take k = arrivals A ++ [t] :=
        List.take_of_length_le (by simp; omega)
      funext j
      unfold row
      rw [arrivals_snoc, if_neg hmem, hold, hnew]
      simp only [List.getD_eq_getElem?_getD]
      rcases Nat.lt_trichotomy j (arrivals A).length with hj | rfl | hj
      · rw [Function.update_of_ne (by omega), List.getElem?_append_left hj]
      · simp
      · rw [Function.update_of_ne (by omega), List.getElem?_eq_none (by omega),
          List.getElem?_eq_none (by simp; omega)]
    · have hfirst : firstIndex k (fun j => row k e A j == e || row k e A j == t) = k :=
        firstIndex_eq_length fun j hj => hskip j (by omega) (hne j (by omega))
      rw [insert, hfirst, if_neg (by omega)]
      unfold row
      rw [arrivals_snoc, if_neg hmem, List.take_append_of_le_length (by omega)]

end Row

end Slots
