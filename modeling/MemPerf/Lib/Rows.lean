import Mathlib.Algebra.BigOperators.Intervals
import Mathlib.Tactic.Ring
import MemPerf.Lib.Word

/-!
# Rows of counters

A table of signed machine integers, flattened into one array with a row of
`n` columns for each thread. A thread counts in its own row, so a single
row may go negative; the number a column stands for is its sum over the
rows.
-/

namespace Rows

open Word

/-- Where column `c` of row `t` stands. -/
def index (n t c : Nat) : Nat := t * n + c

theorem index_inj {n t t' c c' : Nat} (hc : c < n) (hc' : c' < n) :
    index n t c = index n t' c' ↔ t = t' ∧ c = c' := by
  constructor
  · intro h
    have ht : t = t' := by
      have hdiv := congrArg (· / n) h
      simp only [index, Nat.mul_comm _ n] at hdiv
      rwa [Nat.mul_add_div (by omega), Nat.mul_add_div (by omega), Nat.div_eq_of_lt hc,
        Nat.div_eq_of_lt hc', Nat.add_zero, Nat.add_zero] at hdiv
    subst ht
    exact ⟨rfl, by simpa [index] using h⟩
  · rintro ⟨rfl, rfl⟩
    rfl

/-- `a[i] += d` on an array of signed `w`-bit integers. -/
def addAt (w : Nat) (a : Nat → Int) (i : Nat) (d : Int) : Nat → Int :=
  Function.update a i (swrap w (a i + d))

/-- `a[i]++` on an array of `unsigned int`. -/
def incAt (a : Nat → Nat) (i : Nat) : Nat → Nat :=
  Function.update a i (wrap 32 (a i + 1))

/-- A column summed over the first `T` rows. -/
def columnSum (n T : Nat) (a : Nat → Int) (c : Nat) : Int :=
  ∑ t ∈ Finset.range T, a (index n t c)

variable {n T w t c c' : Nat} {a : Nat → Int} {d : Int}

theorem swrap_modEq (w : Nat) (x : Int) : swrap w x ≡ x [ZMOD 2 ^ w] := by
  have h := Int.bmod_emod (x := x) (m := 2 ^ w)
  simpa [Int.ModEq, swrap] using h

/-- Two signed words that agree modulo `2 ^ w` are equal. -/
theorem swrap_eq_of_modEq {x y : Int} (h : x ≡ y [ZMOD 2 ^ w]) (hlo : -(2 ^ w : Nat) ≤ 2 * y)
    (hhi : 2 * y < (2 ^ w : Nat)) : swrap w x = y := by
  have hmod : x % ((2 ^ w : Nat) : Int) = y % ((2 ^ w : Nat) : Int) := by
    simpa [Int.ModEq] using h
  calc swrap w x = Int.bmod (x % ((2 ^ w : Nat) : Int)) (2 ^ w) := (Int.emod_bmod x _).symm
    _ = Int.bmod (y % ((2 ^ w : Nat) : Int)) (2 ^ w) := by rw [hmod]
    _ = swrap w y := Int.emod_bmod y _
    _ = y := swrap_of_range hlo hhi

/-- Counting in one place changes one column, by what the place changed. -/
theorem columnSum_addAt (ht : t < T) (hc : c < n) (hc' : c' < n) :
    columnSum n T (addAt w a (index n t c') d) c = columnSum n T a c +
      if c = c' then swrap w (a (index n t c') + d) - a (index n t c') else 0 := by
  have hmem : t ∈ Finset.range T := Finset.mem_range.mpr ht
  simp only [columnSum, addAt]
  split
  · next heq =>
      subst heq
      rw [← Finset.add_sum_erase _ _ hmem, ← Finset.add_sum_erase (a := t) (Finset.range T) _ hmem]
      have hrest : ∑ u ∈ (Finset.range T).erase t, Function.update a (index n t c)
          (swrap w (a (index n t c) + d)) (index n u c) =
          ∑ u ∈ (Finset.range T).erase t, a (index n u c) :=
        Finset.sum_congr rfl fun u hu => Function.update_of_ne
          (fun h => Finset.ne_of_mem_erase hu ((index_inj hc hc).mp h).1) ..
      rw [hrest, Function.update_self]
      ring
  · next hne =>
      rw [add_zero]
      exact Finset.sum_congr rfl fun u _ => Function.update_of_ne
        (fun h => hne ((index_inj hc hc').mp h).2) ..

/-- In the counters' own arithmetic. -/
theorem columnSum_addAt_modEq (ht : t < T) (hc : c < n) (hc' : c' < n) :
    columnSum n T (addAt w a (index n t c') d) c ≡
      columnSum n T a c + (if c = c' then d else 0) [ZMOD 2 ^ w] := by
  rw [columnSum_addAt ht hc hc']
  refine Int.ModEq.add_left _ ?_
  split
  · have h := (swrap_modEq w (a (index n t c') + d)).sub_right (a (index n t c'))
    simpa using h
  · rfl

/-- When the counter does not leave its range. -/
theorem columnSum_addAt_exact (ht : t < T) (hc : c < n) (hc' : c' < n)
    (hexact : swrap w (a (index n t c') + d) = a (index n t c') + d) :
    columnSum n T (addAt w a (index n t c') d) c = columnSum n T a c + if c = c' then d else 0 := by
  rw [columnSum_addAt ht hc hc', hexact]
  simp

/-- `for t < T: acc += f(t)` in signed `w`-bit arithmetic. -/
def accumulate (w : Nat) (f : Nat → Int) (T : Nat) (acc : Int) : Int :=
  (List.range T).foldl (fun acc t => swrap w (acc + f t)) acc

theorem accumulate_modEq (f : Nat → Int) (T : Nat) (acc : Int) :
    accumulate w f T acc ≡ acc + ∑ t ∈ Finset.range T, f t [ZMOD 2 ^ w] := by
  induction T with
  | zero => simp [accumulate]
  | succ T ih =>
      rw [accumulate, List.range_succ, List.foldl_append, Finset.sum_range_succ, ← add_assoc]
      exact (swrap_modEq w _).trans (ih.add_right _)

theorem accumulate_range {f : Nat → Int} {acc : Int} (h : swrap w acc = acc) :
    swrap w (accumulate w f T acc) = accumulate w f T acc := by
  cases T with
  | zero => simpa [accumulate] using h
  | succ T =>
      rw [accumulate, List.range_succ, List.foldl_append]
      exact Int.bmod_bmod

/-- The loop's result, when it is in range. -/
theorem accumulate_eq {f : Nat → Int} {x : Int} (h : ∑ t ∈ Finset.range T, f t ≡ x [ZMOD 2 ^ w])
    (hlo : -(2 ^ w : Nat) ≤ 2 * x) (hhi : 2 * x < (2 ^ w : Nat)) : accumulate w f T 0 = x := by
  rw [← accumulate_range (swrap_zero w)]
  refine swrap_eq_of_modEq ?_ hlo hhi
  simpa using (accumulate_modEq f T 0).trans (by simpa using h)

/-- `for t < T: for c < n: a[c] += f(t, c)` -/
def addRows (w n T : Nat) (f : Nat → Nat → Int) (a : Nat → Int) : Nat → Int :=
  (List.range T).foldl (fun a t => (List.range n).foldl (fun a c => addAt w a c (f t c)) a) a

/-- One row adds to each column once. -/
theorem foldl_addAt (f : Nat → Int) (a : Nat → Int) (m c : Nat) :
    (List.range m).foldl (fun a c => addAt w a c (f c)) a c =
      if c < m then swrap w (a c + f c) else a c := by
  induction m with
  | zero => simp
  | succ m ih =>
      rw [List.range_succ, List.foldl_append, List.foldl_cons, List.foldl_nil, addAt]
      by_cases hc : c = m
      · subst hc
        rw [Function.update_self, ih]
        simp
      · rw [Function.update_of_ne hc, ih]
        exact if_congr (by omega) rfl rfl

/-- Each column accumulates on its own. -/
theorem addRows_apply (f : Nat → Nat → Int) (a : Nat → Int) (hc : c < n) :
    addRows w n T f a c = accumulate w (fun t => f t c) T (a c) := by
  induction T with
  | zero => rfl
  | succ T ih =>
      rw [addRows, List.range_succ, List.foldl_append, List.foldl_cons, List.foldl_nil,
        foldl_addAt, if_pos hc]
      rw [accumulate, List.range_succ, List.foldl_append, List.foldl_cons, List.foldl_nil]
      rw [← addRows, ih]
      rfl

/-- A row nobody counts in adds nothing. -/
theorem columnSum_succ (h : a (index n T c) = 0) :
    columnSum n (T + 1) a c = columnSum n T a c := by
  rw [columnSum, Finset.sum_range_succ, h, add_zero]
  rfl

/-! ## Cells rewritten and copied -/

variable {α : Type*}

theorem index_lt (ht : t < T) (hc : c < n) : index n t c < T * n := by
  calc index n t c < t * n + n := Nat.add_lt_add_left hc _
    _ = (t + 1) * n := by ring
    _ ≤ T * n := Nat.mul_le_mul_right n ht

/-- `memcpy` of the first `m` cells of `src` to `dst`. -/
def copy (m : Nat) (dst src : Nat → α) : Nat → α := fun i => if i < m then src i else dst i

theorem copy_of_lt {m i : Nat} (h : i < m) (dst src : Nat → α) : copy m dst src i = src i :=
  if_pos h

/-- `for t < T: for c < n: a[index(t, c)] = g(a[index(t, c)])` -/
def mapRows (n T : Nat) (g : α → α) (a : Nat → α) : Nat → α :=
  (List.range T).foldl (fun a t => (List.range n).foldl
    (fun a c => Function.update a (index n t c) (g (a (index n t c)))) a) a

/-- Distinct cells, each rewritten once. -/
theorem foldl_update (g : α → α) : ∀ (l : List Nat) (a : Nat → α) (i : Nat), l.Nodup →
    l.foldl (fun a j => Function.update a j (g (a j))) a i = if i ∈ l then g (a i) else a i := by
  intro l
  induction l with
  | nil => simp
  | cons j l ih =>
      intro a i hnodup
      obtain ⟨hj, hl⟩ := List.nodup_cons.mp hnodup
      rw [List.foldl_cons, ih _ _ hl]
      by_cases hij : i = j
      · subst hij
        simp [hj]
      · simp [hij]

/-- The cells the two loops visit. -/
def cells (n T : Nat) : List Nat := (List.range T).flatMap fun t => (List.range n).map (index n t)

theorem mem_cells {i : Nat} : i ∈ cells n T ↔ ∃ t < T, ∃ c < n, index n t c = i := by
  simp [cells]

theorem cells_nodup (n T : Nat) : (cells n T).Nodup := by
  induction T with
  | zero => simp [cells]
  | succ T ih =>
      have hsplit : cells n (T + 1) = cells n T ++ (List.range n).map (index n T) := by
        simp [cells, List.range_succ]
      rw [hsplit, List.nodup_append]
      refine ⟨ih, ?_, ?_⟩
      · refine List.nodup_range.map_on fun c hc c' hc' heq => ?_
        exact ((index_inj (List.mem_range.mp hc) (List.mem_range.mp hc')).mp heq).2
      · rintro i hi j hj rfl
        obtain ⟨t, ht, c, hc, rfl⟩ := mem_cells.mp hi
        obtain ⟨c', hc', heq⟩ := List.mem_map.mp hj
        have hrow := ((index_inj (List.mem_range.mp hc') hc).mp heq).1
        omega

theorem mapRows_eq_foldl (g : α → α) (a : Nat → α) :
    mapRows n T g a = (cells n T).foldl (fun a j => Function.update a j (g (a j))) a := by
  rw [mapRows, cells, List.foldl_flatMap]
  simp only [List.foldl_map]

theorem mapRows_apply (g : α → α) (a : Nat → α) (i : Nat) :
    mapRows n T g a i = if i ∈ cells n T then g (a i) else a i := by
  rw [mapRows_eq_foldl]
  exact foldl_update g _ a i (cells_nodup n T)

/-- Nothing changes exactly when `g` keeps every cell of the table. -/
theorem mapRows_eq_self_iff {g : α → α} {a : Nat → α} :
    mapRows n T g a = a ↔ ∀ t < T, ∀ c < n, g (a (index n t c)) = a (index n t c) := by
  constructor
  · intro h t ht c hc
    have hcell := congrFun h (index n t c)
    rwa [mapRows_apply, if_pos (mem_cells.mpr ⟨t, ht, c, hc, rfl⟩)] at hcell
  · intro h
    funext i
    rw [mapRows_apply]
    split
    · next hi =>
        obtain ⟨t, ht, c, hc, rfl⟩ := mem_cells.mp hi
        exact h t ht c hc
    · rfl

end Rows
