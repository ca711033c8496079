import MemPerf.Lib.Coverage
import MemPerf.Lib.Word
import Mathlib.Algebra.Order.BigOperators.Group.Finset
import Mathlib.Logic.Function.Basic

/-!
# Walks over windows

Memory is cut into windows of `W` bytes, each with a cell. A walk over a
span treats the window it starts in as a part, the windows behind it that
it fills as wholes, and what is left at the end as a part again
(`onSpan`). In closed form every cell is treated by what the span covers
of its window (`onSpan_apply`).

Cells that count bytes in machine integers, with additions for the parts
and plain stores for the wholes, count exactly what is covered as long as
the spans do not overlap (`Counts.add`, `Counts.remove`).
-/

namespace Coverage

variable {α β : Type*}

/-- The cells behind `p`, `n` of them. -/
def onRange (p n : Nat) (g : α → α) (f : Nat → α) (k : Nat) : α :=
  if p < k ∧ k ≤ p + n then g (f k) else f k

theorem onRange_zero (p : Nat) (g : α → α) (f : Nat → α) : onRange p 0 g f = f := by
  funext k
  exact if_neg (by omega)

theorem onRange_succ (p n : Nat) (g : α → α) (f : Nat → α) : onRange p (n + 1) g f =
    onRange (p + 1) n g (Function.update f (p + 1) (g (f (p + 1)))) := by
  funext k
  unfold onRange
  by_cases hk : k = p + 1
  · subst hk
    rw [if_pos (by omega), if_neg (by omega), Function.update_self]
  · rw [Function.update_of_ne hk]
    by_cases hin : p < k ∧ k ≤ p + (n + 1)
    · rw [if_pos hin, if_pos (by omega)]
    · rw [if_neg hin, if_neg (by omega)]

section onSpan

variable (W : Nat) (o : Span) (part : Nat → α → α) (whole : α → α) (f : Nat → α)

/-- The bytes in the window the span starts in. -/
def firstPart : Nat := min (W - o.start % W) o.len

/-- Part by part and whole by whole. -/
def onSpan : Nat → α :=
  let p := o.start / W
  let rest := o.len - firstPart W o
  let first := Function.update f p (part (firstPart W o) (f p))
  let wholes := onRange p (rest / W) whole first
  let q := p + rest / W + 1
  if 0 < rest % W then Function.update wholes q (part (rest % W) (wholes q)) else wholes

theorem onSpan_eq {p first rest : Nat} (hp : o.start / W = p) (hfirst : firstPart W o = first)
    (hrest : o.len - first = rest) : onSpan W o part whole f =
      let wholes := onRange p (rest / W) whole (Function.update f p (part first (f p)))
      let q := p + rest / W + 1
      if 0 < rest % W then Function.update wholes q (part (rest % W) (wholes q)) else wholes := by
  subst hp hfirst hrest
  rfl

/-- What the span covers of a window. -/
theorem overlap_window (hW : 0 < W) (k : Nat) : o.overlap (W * k) W =
    if k = o.start / W then firstPart W o
    else if o.start / W < k ∧ k ≤ o.start / W + (o.len - firstPart W o) / W then W
    else if k = o.start / W + (o.len - firstPart W o) / W + 1 then (o.len - firstPart W o) % W
    else 0 := by
  have hstart := Nat.div_add_mod o.start W
  have hoff := Nat.mod_lt o.start hW
  have hrest := Nat.div_add_mod (o.len - firstPart W o) W
  have hlast := Nat.mod_lt (o.len - firstPart W o) hW
  unfold Span.overlap
  rw [firstPart] at hrest hlast ⊢
  generalize o.start / W = p at *
  generalize o.start % W = r at *
  generalize (o.len - min (W - r) o.len) / W = n at *
  generalize (o.len - min (W - r) o.len) % W = m at *
  rcases Nat.lt_trichotomy k p with hk | rfl | hk
  · -- before the span
    have hle := Nat.mul_le_mul_left W (show k + 1 ≤ p from hk)
    rw [Nat.mul_succ] at hle
    rw [if_neg (by omega), if_neg (by omega), if_neg (by omega)]
    omega
  · rw [if_pos rfl]
    omega
  · obtain ⟨j, rfl⟩ : ∃ j, k = p + 1 + j := ⟨k - p - 1, by omega⟩
    have hmul : W * (p + 1 + j) = W * p + W + W * j := by
      rw [Nat.mul_add, Nat.mul_succ]
    rw [hmul, if_neg (by omega)]
    rcases Nat.lt_trichotomy j n with hj | rfl | hj
    · have hle := Nat.mul_le_mul_left W (show j + 1 ≤ n from hj)
      rw [Nat.mul_succ] at hle
      rw [if_pos (by omega)]
      omega
    · rw [if_neg (by omega), if_pos (by omega)]
      omega
    · -- behind the span
      have hle := Nat.mul_le_mul_left W (show n + 1 ≤ j from hj)
      rw [Nat.mul_succ] at hle
      rw [if_neg (by omega), if_neg (by omega)]
      omega

/-- Cell by cell. -/
theorem onSpan_cell (k : Nat) : onSpan W o part whole f k =
    if k = o.start / W then part (firstPart W o) (f k)
    else if o.start / W < k ∧ k ≤ o.start / W + (o.len - firstPart W o) / W then whole (f k)
    else if k = o.start / W + (o.len - firstPart W o) / W + 1 ∧ 0 < (o.len - firstPart W o) % W then
      part ((o.len - firstPart W o) % W) (f k)
    else f k := by
  rw [onSpan]
  generalize o.start / W = p
  generalize firstPart W o = b
  generalize (o.len - b) / W = n
  generalize (o.len - b) % W = m
  -- the cells before the last part
  have hwholes : onRange p n whole (Function.update f p (part b (f p))) k =
      if k = p then part b (f k) else if p < k ∧ k ≤ p + n then whole (f k) else f k := by
    unfold onRange
    by_cases hk : k = p
    · subst hk
      rw [if_neg (by omega), if_pos rfl, Function.update_self]
    · rw [Function.update_of_ne hk, if_neg hk]
  by_cases hm : 0 < m
  · rw [if_pos hm]
    by_cases hq : k = p + n + 1
    · subst hq
      rw [Function.update_self, hwholes, if_neg (by omega), if_neg (by omega), if_neg (by omega),
        if_neg (by omega), if_pos ⟨rfl, hm⟩]
    · rw [Function.update_of_ne hq, hwholes]
      simp [hq]
  · rw [if_neg hm, hwholes]
    simp [hm]

/-- By what is covered. -/
theorem onSpan_apply (hW : 0 < W) (hlen : 0 < o.len) (k : Nat) :
    onSpan W o part whole f k =
      if o.overlap (W * k) W = 0 then f k
      else if o.start / W < k ∧ o.overlap (W * k) W = W then whole (f k)
      else part (o.overlap (W * k) W) (f k) := by
  have hfirst : 0 < firstPart W o := by
    have hoff := Nat.mod_lt o.start hW
    unfold firstPart
    omega
  have hlast := Nat.mod_lt (o.len - firstPart W o) hW
  rw [onSpan_cell, overlap_window W o hW]
  by_cases hk : k = o.start / W
  · simp [hk, Nat.ne_of_gt hfirst]
  · by_cases hin : o.start / W < k ∧ k ≤ o.start / W + (o.len - firstPart W o) / W
    · simp [hk, hin, Nat.ne_of_gt hW]
    · rw [if_neg hk, if_neg hin, if_neg hk, if_neg hin]
      by_cases hq : k = o.start / W + (o.len - firstPart W o) / W + 1
      · rw [if_pos hq]
        by_cases hm : (o.len - firstPart W o) % W = 0
        · rw [if_neg (by omega), if_pos hm]
        · rw [if_pos ⟨hq, Nat.pos_of_ne_zero hm⟩, if_neg hm, if_neg (by omega)]
      · rw [if_neg hq, if_neg (fun h => hq h.1), if_pos rfl]

end onSpan

/-- A field of the cells. -/
theorem onSpan_map (h : α → β) {W : Nat} {o : Span} {part : Nat → α → α} {whole : α → α}
    {part' : Nat → β → β} {whole' : β → β} (hpart : ∀ b x, h (part b x) = part' b (h x))
    (hwhole : ∀ x, h (whole x) = whole' (h x)) (f : Nat → α) (hW : 0 < W) (hlen : 0 < o.len)
    (k : Nat) : h (onSpan W o part whole f k) = onSpan W o part' whole' (fun k => h (f k)) k := by
  rw [onSpan_apply W o part whole f hW hlen, onSpan_apply W o part' whole' _ hW hlen]
  split
  · rfl
  · split
    · exact hwhole _
    · exact hpart _ _

/-! ## Bytes window by window -/

/-- The bytes of a span, window by window. -/
theorem Span.len_eq_sum_overlap {W : Nat} (hW : 0 < W) {o : Span} {T : Finset Nat}
    (hT : ∀ a, o.Covers a → a / W ∈ T) : o.len = ∑ k ∈ T, o.overlap (W * k) W := by
  have hmaps : ∀ a ∈ Finset.Ico o.start (o.start + o.len), a / W ∈ T := fun a ha =>
    hT a (Finset.mem_Ico.mp ha)
  have hcard := Finset.card_eq_sum_card_fiberwise hmaps
  rw [Nat.card_Ico, Nat.add_sub_cancel_left] at hcard
  rw [hcard]
  refine Finset.sum_congr rfl fun k _ => ?_
  rw [← Span.card_covers]
  congr 1
  ext a
  simp only [Finset.mem_filter, Finset.mem_Ico, Span.Covers, Nat.div_eq_iff hW, Nat.mul_comm k W]
  omega

/-- The bytes of spans that are apart. -/
theorem sum_len_eq_sum_covered {W : Nat} (hW : 0 < W) {live : List Span} {T : Finset Nat}
    (hlive : live.Pairwise Span.Apart) (hT : ∀ o ∈ live, ∀ a, o.Covers a → a / W ∈ T) :
    (live.map Span.len).sum = ∑ k ∈ T, covered live (W * k) W := by
  induction live with
  | nil => simp [covered]
  | cons o live ih =>
      have hrest := ih (List.pairwise_cons.mp hlive).2 fun o' ho' =>
        hT o' (List.mem_cons_of_mem o ho')
      rw [List.map_cons, List.sum_cons, hrest,
        Span.len_eq_sum_overlap hW (hT o List.mem_cons_self), ← Finset.sum_add_distrib]
      exact Finset.sum_congr rfl fun k _ => (covered_cons hlive (W * k) W).symm

theorem sum_len_le {W : Nat} (hW : 0 < W) {live : List Span} {T : Finset Nat}
    (hlive : live.Pairwise Span.Apart) (hT : ∀ o ∈ live, ∀ a, o.Covers a → a / W ∈ T) :
    (live.map Span.len).sum ≤ W * T.card := by
  rw [sum_len_eq_sum_covered hW hlive hT, Nat.mul_comm,
    ← Finset.sum_const_nat (s := T) (f := fun _ => W) fun _ _ => rfl]
  exact Finset.sum_le_sum fun k _ => covered_le live (W * k) W

/-! ## Counting cells -/

/-- Every cell counts what is covered of its window. -/
def Counts (W : Nat) (live : List Span) (count : Nat → Int) : Prop :=
  ∀ k, count k = covered live (W * k) W

section Counts

open Word

variable {W w : Nat} {o : Span} {live : List Span} {count : Nat → Int}

theorem Counts.nil : Counts W [] fun _ => 0 := fun k => by simp [covered]

/-- The integers are wide enough for a window, so nothing wraps. -/
theorem Counts.add (hW : 0 < W) (hw : 2 * W < 2 ^ w) (h : Counts W live count)
    (hlive : (o :: live).Pairwise Span.Apart) (hlen : 0 < o.len) :
    Counts W (o :: live)
      (onSpan W o (fun b x => swrap w (x + b)) (fun _ => (W : Int)) count) := by
  intro k
  have hcons := covered_cons hlive (W * k) W
  have hle := covered_le (o :: live) (W * k) W
  rw [onSpan_apply W o _ _ count hW hlen]
  split
  · next hzero =>
      rw [h k, hcons, hzero, Nat.zero_add]
  · split
    · next hfull =>
        rw [hcons, hfull.2] at hle ⊢
        omega
    · rw [h k, hcons, swrap_of_range]
      · push_cast
        omega
      · omega
      · omega

theorem Counts.remove (hW : 0 < W) (hw : 2 * W < 2 ^ w) (h : Counts W (o :: live) count)
    (hlive : (o :: live).Pairwise Span.Apart) (hlen : 0 < o.len) :
    Counts W live (onSpan W o (fun b x => swrap w (x - b)) (fun _ => 0) count) := by
  intro k
  have hcons := covered_cons hlive (W * k) W
  have hle := covered_le (o :: live) (W * k) W
  rw [onSpan_apply W o _ _ count hW hlen]
  split
  · next hzero =>
      rw [h k, hcons, hzero, Nat.zero_add]
  · split
    · next hfull =>
        rw [hcons, hfull.2] at hle
        omega
    · rw [h k, hcons, swrap_of_range]
      · push_cast
        omega
      · omega
      · omega

theorem Counts.perm {live' : List Span} (h : Counts W live count) (hperm : live.Perm live') :
    Counts W live' count := by
  intro k
  rw [h k]
  congr 1
  exact covered_congr fun a _ _ => by simp only [hperm.mem_iff]

/-- Cells whose windows nothing reaches into may be cleared. -/
theorem Counts.clear (h : Counts W live count) {P : Nat → Prop} [DecidablePred P]
    (hfree : ∀ k, P k → ∀ o ∈ live, ∀ a, W * k ≤ a → a < W * k + W → ¬ o.Covers a) :
    Counts W live fun k => if P k then 0 else count k := by
  intro k
  simp only
  split
  · next hk =>
      rw [covered]
      have hnone : (Finset.Ico (W * k) (W * k + W)).filter (fun a => ∃ o ∈ live, o.Covers a)
          = ∅ := by
        refine Finset.filter_eq_empty_iff.mpr fun a ha => ?_
        rw [Finset.mem_Ico] at ha
        rintro ⟨o, ho, hcov⟩
        exact hfree k hk o ho a ha.1 ha.2 hcov
      rw [hnone]
      rfl
  · exact h k

end Counts

end Coverage
