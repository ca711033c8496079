import Mathlib.Data.Finset.Card
import Mathlib.Order.Interval.Finset.Nat

/-!
# Time spent inside

Something is entered and left, again and again and one inside the other. The
log of it is a list of marks with the ticks of a clock, newest first; leaving
what was not entered counts for nothing.

`held` says what a meter of the time inside should read, tick by tick. A
meter that only looks at the clock when it gets in from the outside, and when
it gets out again, reads just that (`held_eq`): what is entered inside of
something else is not counted twice.
-/

namespace Nesting

inductive Mark where
  | enter
  | leave
deriving DecidableEq, Repr

/-- How deep it is inside. -/
def depth : List (Mark × Nat) → Nat
  | [] => 0
  | (.enter, _) :: log => depth log + 1
  | (.leave, _) :: log => depth log - 1

/-- The log as it was at a tick, with what happened at the tick. -/
def upTo (tick : Nat) (log : List (Mark × Nat)) : List (Mark × Nat) :=
  log.filter fun e => decide (e.2 ≤ tick)

/-- The ticks before `now` that were spent inside. -/
def held (log : List (Mark × Nat)) (now : Nat) : Nat :=
  ((Finset.range now).filter fun tick => 0 < depth (upTo tick log)).card

/-! ## Tick by tick -/

variable {log : List (Mark × Nat)} {t now : Nat}

theorem upTo_of_le (h : ∀ e ∈ log, e.2 ≤ t) : upTo t log = log :=
  List.filter_eq_self.mpr fun e he => decide_eq_true (h e he)

theorem upTo_cons_of_lt {e : Mark × Nat} (h : t < e.2) : upTo t (e :: log) = upTo t log :=
  List.filter_cons_of_neg (by simpa using h)

theorem upTo_of_lt (h : ∀ e ∈ log, t < e.2) : upTo t log = [] := by
  refine List.filter_eq_nil_iff.mpr fun e he => ?_
  have hlt := h e he
  simpa using hlt

/-- Nothing happens from `t` to `now`. -/
theorem held_of_le (h : ∀ e ∈ log, e.2 ≤ t) (hnow : t ≤ now) :
    held log now = held log t + if 0 < depth log then now - t else 0 := by
  induction now, hnow using Nat.le_induction with
  | base => simp
  | succ now hle ih =>
      have hsame : upTo now log = log := upTo_of_le fun e he => (h e he).trans hle
      have hsucc : held log (now + 1) = held log now + if 0 < depth log then 1 else 0 := by
        unfold held
        rw [Finset.range_add_one, Finset.filter_insert, hsame]
        split
        · rw [Finset.card_insert_of_notMem (by simp)]
        · rfl
      rw [hsucc, ih]
      split <;> omega

/-- A mark counts from its own tick on. -/
theorem held_cons (e : Mark × Nat) (log : List (Mark × Nat)) :
    held (e :: log) e.2 = held log e.2 := by
  unfold held
  refine congrArg Finset.card (Finset.filter_congr fun tick htick => ?_)
  rw [upTo_cons_of_lt (Finset.mem_range.mp htick)]

/-- All of it is after the first mark. -/
theorem held_le (h : ∀ e ∈ log, t ≤ e.2) (now : Nat) : held log now ≤ now - t := by
  have hsub : ((Finset.range now).filter fun tick => 0 < depth (upTo tick log))
      ⊆ Finset.Ico t now := by
    intro tick htick
    obtain ⟨hnow, hinside⟩ := Finset.mem_filter.mp htick
    refine Finset.mem_Ico.mpr ⟨?_, Finset.mem_range.mp hnow⟩
    by_contra hbefore
    have hnone : upTo tick log = [] :=
      upTo_of_lt fun e he => (Nat.lt_of_not_le hbefore).trans_le (h e he)
    rw [hnone] at hinside
    exact absurd hinside (Nat.lt_irrefl 0)
  exact (Finset.card_le_card hsub).trans_eq (Nat.card_Ico t now)

/-! ## From the outside -/

/-- The tick when it last got in from the outside. -/
def since : List (Mark × Nat) → Nat
  | [] => 0
  | (.enter, t) :: log => if depth log = 0 then t else since log
  | (.leave, _) :: log => since log

/-- How many times it got out again. -/
def sections : List (Mark × Nat) → Nat
  | [] => 0
  | (.enter, _) :: log => sections log
  | (.leave, _) :: log => if depth log = 1 then sections log + 1 else sections log

/-- The ticks from getting in to getting out, added up. -/
def total : List (Mark × Nat) → Nat
  | [] => 0
  | (.enter, _) :: log => total log
  | (.leave, t) :: log => if depth log = 1 then total log + (t - since log) else total log

/-- The clock does not go back. -/
def Ordered (log : List (Mark × Nat)) : Prop := log.Pairwise fun new old => old.2 ≤ new.2

theorem since_le : ∀ {log : List (Mark × Nat)}, (∀ e ∈ log, e.2 ≤ t) → since log ≤ t
  | [], _ => Nat.zero_le t
  | (.enter, u) :: log, h => by
      have ih : since log ≤ t := since_le fun e he => h e (List.mem_cons_of_mem _ he)
      have hu := h _ List.mem_cons_self
      unfold since
      split
      · exact hu
      · exact ih
  | (.leave, u) :: log, h => by
      have ih : since log ≤ t := since_le fun e he => h e (List.mem_cons_of_mem _ he)
      exact ih

/-- **The meter reads the time inside**, with the section it is in, if it is
in one. -/
theorem held_eq : ∀ {log : List (Mark × Nat)} {now : Nat}, Ordered log → (∀ e ∈ log, e.2 ≤ now) →
    held log now = total log + if 0 < depth log then now - since log else 0
  | [], now, _, _ => by simp [held, upTo, depth, total]
  | (m, t) :: log, now, hordered, hnow => by
      obtain ⟨hbefore, hrest⟩ := List.pairwise_cons.mp hordered
      have htnow : t ≤ now := hnow _ List.mem_cons_self
      have hsince := since_le hbefore
      have hlast : ∀ e ∈ (m, t) :: log, e.2 ≤ t := by
        rintro e he
        obtain rfl | he := List.mem_cons.mp he
        · exact Nat.le_refl t
        · exact hbefore e he
      have ih : held log t = total log + if 0 < depth log then t - since log else 0 :=
        held_eq hrest hbefore
      rw [held_of_le hlast htnow, held_cons (m, t) log, ih]
      cases m with
      | enter =>
          rcases Nat.eq_zero_or_pos (depth log) with hout | hin
          · simp [depth, since, total, hout]
          · have hne : depth log ≠ 0 := Nat.ne_of_gt hin
            simp only [depth, since, total, hin, hne, if_true, if_false, Nat.succ_pos]
            omega
      | leave =>
          rcases Nat.lt_trichotomy (depth log) 1 with hout | hlast | hin
          · have hzero : depth log = 0 := by omega
            simp [depth, total, hzero]
          · simp [depth, total, hlast]
          · have hne : depth log ≠ 1 := Nat.ne_of_gt hin
            have hstill : 0 < depth log - 1 := by omega
            have hpos : 0 < depth log := by omega
            simp only [depth, since, total, hne, hstill, hpos, if_true, if_false]
            omega

theorem le_since : ∀ {log : List (Mark × Nat)}, (∀ e ∈ log, t ≤ e.2) → 0 < depth log →
    t ≤ since log
  | [], _, hin => absurd hin (Nat.lt_irrefl 0)
  | (.enter, u) :: log, h, _ => by
      have hu := h _ List.mem_cons_self
      have hlog : ∀ e ∈ log, t ≤ e.2 := fun e he => h e (List.mem_cons_of_mem _ he)
      unfold since
      split
      · exact hu
      · next hin => exact le_since hlog (Nat.pos_of_ne_zero hin)
  | (.leave, u) :: log, h, hin => by
      have hlog : ∀ e ∈ log, t ≤ e.2 := fun e he => h e (List.mem_cons_of_mem _ he)
      have ih : t ≤ since log := le_since hlog (hin.trans_le (Nat.sub_le (depth log) 1))
      exact ih

/-- No section is longer than the log. -/
theorem total_le : ∀ {log : List (Mark × Nat)}, (∀ e ∈ log, t ≤ e.2) → (∀ e ∈ log, e.2 ≤ now) →
    total log ≤ (now - t) * sections log
  | [], _, _ => Nat.zero_le _
  | (m, u) :: log, hafter, hbefore => by
      have hlog : ∀ e ∈ log, t ≤ e.2 := fun e he => hafter e (List.mem_cons_of_mem _ he)
      have hunow : u ≤ now := hbefore _ List.mem_cons_self
      have ih : total log ≤ (now - t) * sections log :=
        total_le hlog fun e he => hbefore e (List.mem_cons_of_mem _ he)
      cases m with
      | enter => exact ih
      | leave =>
          unfold total sections
          split
          · next hlast =>
              have hsince := le_since hlog (hlast ▸ Nat.one_pos)
              have hsection : u - since log ≤ now - t := by omega
              rw [Nat.mul_succ]
              exact Nat.add_le_add ih hsection
          · exact ih

end Nesting
