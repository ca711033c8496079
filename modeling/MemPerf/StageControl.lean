import MemPerf.Threads
import MemPerf.Lib.Tally

/-!
# The counter and the threads behind it

The alternation of the stages depends on one number and on where each
thread is: `Control` keeps these two, with an unbounded counter, and its
moves are the steps of the process with everything else taken away.
`Process.step_control` says that the process follows it.

The counter is one more than the children not yet joined and the threads
between an increment and its create, or a join and its decrement
(`Control.Sound`). A thread that moves is not joined, so while a child
moves the counter stays above one: only the main thread moves it from 1
to 2 and from 2 to 1, and its next test then sees the new value.
-/

namespace MemPerf

open Tally Word

structure Control where
  running : Nat := 1
  main : Pc := .running
  /-- Where a child is, and whether it has been joined. -/
  children : List (Pc × Bool) := []

inductive Move where
  | createAdd
  | createTest
  | createReal
  | startThread
  | stay
  | threadExit
  | joinReal (n : Nat)
  | joinSub
  | joinTest
deriving DecidableEq, Repr

namespace Move

def source : Move → Pc
  | .createAdd | .stay | .threadExit | .joinReal _ => .running
  | .createTest => .createTest
  | .createReal => .createReal
  | .startThread => .created
  | .joinSub => .joinSub
  | .joinTest => .joinTest

def target : Move → Pc
  | .createAdd => .createTest
  | .createTest => .createReal
  | .createReal | .startThread | .stay | .joinTest => .running
  | .threadExit => .ended
  | .joinReal _ => .joinSub
  | .joinSub => .joinTest

end Move

/-- One for a thread that has counted itself in without a child yet, or
joined a child it has not counted out yet. -/
def Pc.busy : Pc → Nat
  | .createTest | .createReal | .joinSub => 1
  | .created | .running | .joinTest | .ended => 0

namespace Control

def place? (c : Control) : Tid → Option Pc
  | .main => some c.main
  | .child n => (c.children[n]?).map Prod.fst

def setPlace (c : Control) (t : Tid) (pc : Pc) : Control :=
  match t with
  | .main => { c with main := pc }
  | .child n => { c with children := c.children.modify n fun child => (pc, child.2) }

def effect (c : Control) : Move → Option Control
  | .createAdd => some { c with running := c.running + 1 }
  | .joinSub => some { c with running := c.running - 1 }
  | .createReal => some { c with children := c.children ++ [(.created, false)] }
  | .joinReal n =>
      if c.children[n]? = some (.ended, false) then
        some { c with children := c.children.modify n fun child => (child.1, true) }
      else none
  | _ => some c

def move (c : Control) (t : Tid) (m : Move) : Option Control :=
  if c.place? t = some m.source ∧ ¬(t = .main ∧ m = .threadExit) then
    (c.setPlace t m.target).effect m
  else none

/-- The stage change that the move's test makes. -/
def stageCall (c : Control) : Move → Option StageCall
  | .createTest => if c.running = 2 then some .stopSerial else none
  | .joinTest => if c.running = 1 then some .stopParallel else none
  | _ => none

/-- The counter goes from 1 to 2, or from 2 to 1. -/
def crossing (c c' : Control) : Option StageCall :=
  if c.running = 1 ∧ c'.running = 2 then some .stopSerial
  else if c.running = 2 ∧ c'.running = 1 then some .stopParallel
  else none

/-! ## What the counter counts -/

def unjoined (c : Control) : Nat := tally (fun child => if child.2 then 0 else 1) c.children

def busy (c : Control) : Nat := tally (fun child => child.1.busy) c.children

structure Sound (c : Control) : Prop where
  counter : c.running = 1 + c.main.busy + c.unjoined + c.busy
  joined_ended : ∀ child ∈ c.children, child.2 = true → child.1 = .ended
  main_started : c.main ≠ .created
  main_running : c.main ≠ .ended

variable {c c' : Control} {t : Tid} {m : Move} {n : Nat} {pc : Pc}

theorem Sound.busy_le_unjoined (hc : c.Sound) : c.busy ≤ c.unjoined := by
  refine tally_le fun child hchild => ?_
  rcases child with ⟨pc, joined⟩
  cases joined with
  | false => cases pc <;> decide
  | true =>
      obtain rfl : pc = .ended := hc.joined_ended _ hchild rfl
      decide

theorem move_cases (h : c.move t m = some c') :
    c.place? t = some m.source ∧ ¬(t = .main ∧ m = .threadExit) ∧
      (c.setPlace t m.target).effect m = some c' := by
  unfold move at h
  split at h
  · next hplace => exact ⟨hplace.1, hplace.2, h⟩
  · cases h

theorem place_child (h : c.place? (.child n) = some pc) :
    ∃ joined, c.children[n]? = some (pc, joined) := by
  obtain ⟨⟨_, joined⟩, hchild, rfl⟩ := Option.map_eq_some_iff.mp h
  exact ⟨joined, hchild⟩

theorem source_ne_ended (m : Move) : m.source ≠ .ended := by
  cases m <;> simp [Move.source]

/-- A child that moves has not been joined. -/
theorem Sound.mover_unjoined (hc : c.Sound) (h : c.place? (.child n) = some m.source) :
    c.children[n]? = some (m.source, false) := by
  obtain ⟨joined, hchild⟩ := place_child h
  cases joined with
  | false => exact hchild
  | true =>
      have hended := hc.joined_ended _ (List.mem_of_getElem? hchild) rfl
      exact absurd hended (source_ne_ended m)

/-! ## Each move keeps it -/

@[simp] theorem setPlace_running (c : Control) (t : Tid) (pc : Pc) :
    (c.setPlace t pc).running = c.running := by
  cases t <;> rfl

@[simp] theorem setPlace_unjoined (c : Control) (t : Tid) (pc : Pc) :
    (c.setPlace t pc).unjoined = c.unjoined := by
  cases t with
  | main => rfl
  | child n =>
      cases h : c.children[n]? with
      | none => simp [setPlace, List.modify_eq_self (List.getElem?_eq_none_iff.mp h)]
      | some child =>
          have h1 := tally_modify (fun child : Pc × Bool => if child.2 then 0 else 1)
            (fun child => (pc, child.2)) h
          dsimp only at h1
          simp only [setPlace, unjoined]
          omega

/-- The places of all threads together. -/
theorem setPlace_busy (h : c.place? t = some pc) (pc' : Pc) :
    (c.setPlace t pc').main.busy + (c.setPlace t pc').busy + pc.busy
      = c.main.busy + c.busy + pc'.busy := by
  cases t with
  | main =>
      obtain rfl : c.main = pc := Option.some.inj h
      simp only [setPlace, busy]
      omega
  | child n =>
      obtain ⟨joined, hchild⟩ := place_child h
      have h1 := tally_modify (fun child : Pc × Bool => child.1.busy)
        (fun child => (pc', child.2)) hchild
      dsimp only at h1
      simp only [setPlace, busy]
      omega

theorem setPlace_joined_ended (hc : c.Sound) (h : c.place? t = some m.source) (pc : Pc) :
    ∀ child ∈ (c.setPlace t pc).children, child.2 = true → child.1 = .ended := by
  cases t with
  | main => exact hc.joined_ended
  | child n =>
      intro child hmem hjoined
      obtain ⟨k, hk⟩ := List.getElem?_of_mem hmem
      simp only [setPlace, List.getElem?_modify] at hk
      obtain ⟨old, hold, rfl⟩ := Option.map_eq_some_iff.mp hk
      split at hjoined
      · next hkn =>
          subst hkn
          obtain rfl : old = (m.source, false) :=
            Option.some.inj (hold.symm.trans (hc.mover_unjoined h))
          cases hjoined
      · next hkn =>
          simp only [hkn, if_false]
          exact hc.joined_ended old (List.mem_of_getElem? hold) hjoined

theorem Sound.setPlace_main (hc : c.Sound) (h : c.place? t = some m.source)
    (hexit : ¬(t = .main ∧ m = .threadExit)) :
    (c.setPlace t m.target).main ≠ .created ∧ (c.setPlace t m.target).main ≠ .ended := by
  cases t with
  | main => cases m <;> simp_all [setPlace, Move.target]
  | child n => exact ⟨hc.main_started, hc.main_running⟩

theorem Sound.move (hc : c.Sound) (h : c.move t m = some c') : c'.Sound := by
  obtain ⟨hplace, hexit, heff⟩ := move_cases h
  have hrunning := setPlace_running c t m.target
  have hunjoined := setPlace_unjoined c t m.target
  have hbusy := setPlace_busy hplace m.target
  have hended := setPlace_joined_ended hc hplace m.target
  obtain ⟨hstarted, hlive⟩ := hc.setPlace_main hplace hexit
  have hcounter := hc.counter
  generalize c.setPlace t m.target = d at *
  cases m with
  | createTest =>
      obtain rfl : d = c' := Option.some.inj heff
      change _ + 1 = _ + 1 at hbusy
      exact ⟨by omega, hended, hstarted, hlive⟩
  | startThread | stay | threadExit | joinTest =>
      obtain rfl : d = c' := Option.some.inj heff
      change _ + 0 = _ + 0 at hbusy
      exact ⟨by omega, hended, hstarted, hlive⟩
  | createAdd =>
      obtain rfl := Option.some.inj heff
      change _ + 0 = _ + 1 at hbusy
      exact ⟨by simp only [unjoined, busy] at *; omega, hended, hstarted, hlive⟩
  | joinSub =>
      obtain rfl := Option.some.inj heff
      change _ + 1 = _ + 0 at hbusy
      exact ⟨by simp only [unjoined, busy] at *; omega, hended, hstarted, hlive⟩
  | createReal =>
      obtain rfl := Option.some.inj heff
      change _ + 1 = _ + 0 at hbusy
      refine ⟨?_, ?_, hstarted, hlive⟩
      · simp only [unjoined, busy, tally_append, tally_singleton, Pc.busy] at *
        simp only [Bool.false_eq_true, if_false]
        omega
      · intro child hmem hjoined
        rcases List.mem_append.mp hmem with hold | hnew
        · exact hended child hold hjoined
        · obtain rfl := List.mem_singleton.mp hnew
          cases hjoined
  | joinReal k =>
      simp only [effect] at heff
      split at heff
      · next hchild =>
          obtain rfl := Option.some.inj heff
          change _ + 0 = _ + 1 at hbusy
          have hu := tally_modify (fun child : Pc × Bool => if child.2 then 0 else 1)
            (fun child => (child.1, true)) hchild
          have hb := tally_modify (fun child : Pc × Bool => child.1.busy)
            (fun child => (child.1, true)) hchild
          simp only [if_true, Bool.false_eq_true, if_false] at hu
          refine ⟨?_, ?_, hstarted, hlive⟩
          · simp only [unjoined, busy] at *
            omega
          · intro child hmem hjoined
            obtain ⟨i, hi⟩ := List.getElem?_of_mem hmem
            rw [List.getElem?_modify] at hi
            obtain ⟨old, hold, rfl⟩ := Option.map_eq_some_iff.mp hi
            split at hjoined
            · next hik =>
                subst hik
                obtain rfl := Option.some.inj (hchild.symm.trans hold)
                simp
            · next hik =>
                simp only [hik, if_false]
                exact hended old (List.mem_of_getElem? hold) hjoined
      · cases heff

/-! ## Crossings and calls -/

/-- The stage change the main thread is about to make: with every child
joined, it stands before its test. -/
def pending (c : Control) : Option StageCall :=
  if c.unjoined = 0 then
    match c.main with
    | .createTest => some .stopSerial
    | .joinTest => some .stopParallel
    | _ => none
  else none

theorem pending_of_unjoined (h : 0 < c.unjoined) : c.pending = none :=
  if_neg (by omega)

theorem unjoined_pos (h : c.children[n]? = some (pc, false)) : 0 < c.unjoined := by
  have h1 := le_tally (fun child : Pc × Bool => if child.2 then 0 else 1)
    (List.mem_of_getElem? h)
  exact h1

/-- A child that moves is unjoined, before and after. -/
theorem Sound.child_move (hc : c.Sound) (h : c.move (.child n) m = some c') :
    0 < c.unjoined ∧ 0 < c'.unjoined := by
  obtain ⟨hplace, -, heff⟩ := move_cases h
  have hmover := hc.mover_unjoined hplace
  have hmoved : (c.setPlace (.child n) m.target).children[n]? = some (m.target, false) := by
    simp [setPlace, hmover]
  refine ⟨unjoined_pos hmover, ?_⟩
  generalize c.setPlace (.child n) m.target = d at *
  cases m with
  | createTest | startThread | stay | threadExit | joinTest | createAdd | joinSub =>
      obtain rfl := Option.some.inj heff
      exact unjoined_pos (c := d) hmoved
  | createReal =>
      obtain rfl := Option.some.inj heff
      refine unjoined_pos (n := n) (show _ = some (Move.createReal.target, false) from ?_)
      rw [List.getElem?_append_left (List.getElem?_eq_some_iff.mp hmoved).1]
      exact hmoved
  | joinReal k =>
      simp only [effect] at heff
      split at heff
      · next hchild =>
          obtain rfl := Option.some.inj heff
          have hne : k ≠ n := by
            rintro rfl
            simp [hchild, Move.target] at hmoved
          refine unjoined_pos (n := n) (show _ = some ((Move.joinReal k).target, false) from ?_)
          simp [hne, hmoved]
      · cases heff

/-- While a child moves the counter stays above one, and the child's
tests see nothing. -/
theorem Sound.child_quiet (hc : c.Sound) (h : c.move (.child n) m = some c') :
    c.pending = none ∧ c'.pending = none ∧ crossing c c' = none ∧ c.stageCall m = none := by
  obtain ⟨hu, hu'⟩ := hc.child_move h
  have hcount := hc.counter
  have hcount' := (hc.move h).counter
  refine ⟨pending_of_unjoined hu, pending_of_unjoined hu', ?_, ?_⟩
  · unfold crossing
    rw [if_neg (by omega), if_neg (by omega)]
  · cases m with
    | createTest =>
        -- the child itself is between its increment and its create
        obtain ⟨hplace, -, -⟩ := move_cases h
        have hbusy := le_tally (fun child : Pc × Bool => child.1.busy)
          (List.mem_of_getElem? (hc.mover_unjoined hplace))
        change 1 ≤ c.busy at hbusy
        exact if_neg (by omega)
    | joinTest => exact if_neg (by omega)
    | _ => rfl

theorem pending_of_place (h1 : c.main ≠ .createTest) (h2 : c.main ≠ .joinTest) :
    c.pending = none := by
  unfold pending
  split
  · cases h : c.main <;> simp_all
  · rfl

theorem pending_createTest (hu : c.unjoined = 0) (h : c.main = .createTest) :
    c.pending = some .stopSerial := by
  simp [pending, hu, h]

theorem pending_joinTest (hu : c.unjoined = 0) (h : c.main = .joinTest) :
    c.pending = some .stopParallel := by
  simp [pending, hu, h]

theorem pending_cases (c : Control) :
    c.pending = none ∨ c.pending = some .stopSerial ∧ c.main = .createTest ∨
      c.pending = some .stopParallel ∧ c.main = .joinTest := by
  unfold pending
  split
  · cases h : c.main <;> simp
  · exact .inl rfl

theorem crossing_eq_none (h1 : ¬(c.running = 1 ∧ c'.running = 2))
    (h2 : ¬(c.running = 2 ∧ c'.running = 1)) : crossing c c' = none := by
  rw [crossing, if_neg h1, if_neg h2]

theorem main_move_main (h : c.move .main m = some c') : c'.main = m.target := by
  obtain ⟨-, -, heff⟩ := move_cases h
  cases m with
  | joinReal k =>
      simp only [effect] at heff
      split at heff
      · cases heff; rfl
      · cases heff
  | _ => cases heff; rfl

/-- Everything but a create's increment and a join's decrement leaves the
counter alone. -/
theorem main_move_running (h : c.move .main m = some c') (hadd : m ≠ .createAdd)
    (hsub : m ≠ .joinSub) : c'.running = c.running := by
  obtain ⟨-, -, heff⟩ := move_cases h
  cases m with
  | createAdd => exact absurd rfl hadd
  | joinSub => exact absurd rfl hsub
  | joinReal k =>
      simp only [effect] at heff
      split at heff
      · cases heff; rfl
      · cases heff
  | _ => cases heff; rfl

/-- A move changes the counter by one at most, and it stays positive. -/
theorem Sound.move_running (hc : c.Sound) (h : c.move t m = some c') :
    0 < c.running ∧ 0 < c'.running ∧ c'.running ≤ c.running + 1 ∧ c.running ≤ c'.running + 1 := by
  have hpos := hc.counter
  have hpos' := (hc.move h).counter
  obtain ⟨-, -, heff⟩ := move_cases h
  have hr : c'.running = c.running ∨ c'.running = c.running + 1 ∨ c'.running = c.running - 1 := by
    rw [← setPlace_running c t m.target]
    cases m with
    | createAdd => cases heff; exact .inr (.inl rfl)
    | joinSub => cases heff; exact .inr (.inr rfl)
    | joinReal k =>
        simp only [effect] at heff
        split at heff
        · cases heff; exact .inl rfl
        · cases heff
    | _ => cases heff; exact .inl rfl
  omega

/-- The main thread makes the stage change a crossing calls for at its
next test, and no other. -/
theorem Sound.main_calls (hc : c.Sound) (h : c.move .main m = some c') :
    c.pending.toList ++ (crossing c c').toList
      = (c.stageCall m).toList ++ c'.pending.toList := by
  obtain ⟨hplace, hexit, heff⟩ := move_cases h
  have hmain : c.main = m.source := Option.some.inj hplace
  have hmain' := main_move_main h
  have hcount := hc.counter
  have hle := hc.busy_le_unjoined
  rw [hmain] at hcount
  have hstill : m ≠ .createAdd → m ≠ .joinSub → crossing c c' = none := fun h1 h2 => by
    have hr := main_move_running h h1 h2
    exact crossing_eq_none (by omega) (by omega)
  cases m with
  | createAdd =>
      obtain ⟨hr, hu'⟩ : c'.running = c.running + 1 ∧ c'.unjoined = c.unjoined := by
        cases heff; exact ⟨rfl, rfl⟩
      change _ = 1 + 0 + _ + _ at hcount
      have hp : c.pending = none := pending_of_place (by simp [hmain, Move.source])
        (by simp [hmain, Move.source])
      by_cases hu : c.unjoined = 0
      · have hx : crossing c c' = some .stopSerial := if_pos ⟨by omega, by omega⟩
        rw [hp, hx, pending_createTest (hu'.trans hu) hmain']
        rfl
      · rw [hp, crossing_eq_none (by omega) (by omega), pending_of_unjoined (by omega)]
        rfl
  | joinSub =>
      obtain ⟨hr, hu'⟩ : c'.running = c.running - 1 ∧ c'.unjoined = c.unjoined := by
        cases heff; exact ⟨rfl, rfl⟩
      change _ = 1 + 1 + _ + _ at hcount
      have hp : c.pending = none := pending_of_place (by simp [hmain, Move.source])
        (by simp [hmain, Move.source])
      by_cases hu : c.unjoined = 0
      · have hx : crossing c c' = some .stopParallel :=
          (if_neg (by omega)).trans (if_pos ⟨by omega, by omega⟩)
        rw [hp, hx, pending_joinTest (hu'.trans hu) hmain']
        rfl
      · rw [hp, crossing_eq_none (by omega) (by omega), pending_of_unjoined (by omega)]
        rfl
  | createTest =>
      change _ = 1 + 1 + _ + _ at hcount
      rw [hstill (by simp) (by simp), pending_of_place (c := c') (by simp [hmain', Move.target])
        (by simp [hmain', Move.target])]
      by_cases hu : c.unjoined = 0
      · rw [pending_createTest hu hmain, stageCall, if_pos (by omega)]
      · rw [pending_of_unjoined (by omega), stageCall, if_neg (by omega)]
  | joinTest =>
      change _ = 1 + 0 + _ + _ at hcount
      rw [hstill (by simp) (by simp), pending_of_place (c := c') (by simp [hmain', Move.target])
        (by simp [hmain', Move.target])]
      by_cases hu : c.unjoined = 0
      · rw [pending_joinTest hu hmain, stageCall, if_pos (by omega)]
      · rw [pending_of_unjoined (by omega), stageCall, if_neg (by omega)]
  | createReal | startThread | stay | threadExit | joinReal k =>
      rw [hstill (by simp) (by simp), pending_of_place (c := c') (by simp [hmain', Move.target])
        (by simp [hmain', Move.target]), pending_of_place (c := c) (by simp [hmain, Move.source])
        (by simp [hmain, Move.source])]
      rfl

/-- Crossings and calls balance, whoever moves. -/
theorem Sound.calls (hc : c.Sound) (h : c.move t m = some c') :
    c.pending.toList ++ (crossing c c').toList = (c.stageCall m).toList ++ c'.pending.toList := by
  cases t with
  | main => exact hc.main_calls h
  | child n =>
      obtain ⟨h1, h2, h3, h4⟩ := hc.child_quiet h
      rw [h1, h2, h3, h4]

/-! ## The stage -/

/-- The stage that is running is serial: it lasts until the call that
ends it. -/
def serialStage (c : Control) : Bool :=
  match c.pending with
  | some .stopSerial => true
  | some .stopParallel => false
  | none => c.running == 1

theorem serialStage_of_pending {k : StageCall} (h : c.pending = some k) :
    c.serialStage = (k == .stopSerial) := by
  rw [serialStage, h]
  cases k <;> rfl

theorem serialStage_of_none (h : c.pending = none) : c.serialStage = (c.running == 1) := by
  rw [serialStage, h]

theorem crossing_cases (c c' : Control) :
    crossing c c' = some .stopSerial ∧ c.running = 1 ∧ c'.running = 2 ∨
    crossing c c' = some .stopParallel ∧ c.running = 2 ∧ c'.running = 1 ∨
    crossing c c' = none ∧ ¬(c.running = 1 ∧ c'.running = 2) ∧
      ¬(c.running = 2 ∧ c'.running = 1) := by
  unfold crossing
  split
  · next h => exact .inl ⟨rfl, h⟩
  · next h =>
      split
      · next h' => exact .inr (.inl ⟨rfl, h'⟩)
      · next h' => exact .inr (.inr ⟨rfl, h, h'⟩)

/-- Without a call the stage stays, and a crossing becomes pending. -/
theorem Sound.stage_keeps (hc : c.Sound) (h : c.move t m = some c') (hcall : c.stageCall m = none) :
    c'.serialStage = c.serialStage ∧
      c'.pending.toList = c.pending.toList ++ (crossing c c').toList := by
  have hcalls := hc.calls h
  obtain ⟨hpos, hpos', hup, hdown⟩ := hc.move_running h
  rw [hcall, Option.toList_none, List.nil_append] at hcalls
  refine ⟨?_, hcalls.symm⟩
  cases hp : c.pending with
  | some k =>
      have hp' : c'.pending = some k := by
        rw [hp] at hcalls
        cases hx : crossing c c' <;> cases hp' : c'.pending <;> simp_all
      rw [serialStage_of_pending hp, serialStage_of_pending hp']
  | none =>
      have hp' : c'.pending = crossing c c' := by
        rw [hp] at hcalls
        cases hx : crossing c c' <;> cases hp' : c'.pending <;> simp_all
      rw [serialStage_of_none hp]
      rcases crossing_cases c c' with ⟨hx, h1, h2⟩ | ⟨hx, h1, h2⟩ | ⟨hx, h1, h2⟩
      · rw [serialStage_of_pending (hp'.trans hx), h1]; rfl
      · rw [serialStage_of_pending (hp'.trans hx), h1]; rfl
      · have hiff : c'.running = 1 ↔ c.running = 1 := by omega
        rw [serialStage_of_none (hp'.trans hx), Bool.eq_iff_iff, beq_iff_eq, beq_iff_eq]
        exact hiff

theorem stageCall_eq_some {k : StageCall} (h : c.stageCall m = some k) :
    m = .createTest ∧ c.running = 2 ∧ k = .stopSerial ∨
    m = .joinTest ∧ c.running = 1 ∧ k = .stopParallel := by
  cases m with
  | createTest =>
      simp only [stageCall] at h
      split at h
      · next htwo => exact .inl ⟨rfl, htwo, (Option.some.inj h).symm⟩
      · cases h
  | joinTest =>
      simp only [stageCall] at h
      split at h
      · next hone => exact .inr ⟨rfl, hone, (Option.some.inj h).symm⟩
      · cases h
  | _ => cases h

/-- A call ends the stage that is running, and the other one begins. -/
theorem Sound.stage_changes (hc : c.Sound) (h : c.move t m = some c') {k : StageCall}
    (hcall : c.stageCall m = some k) :
    t = .main ∧ c.pending = some k ∧ c'.pending = none ∧ crossing c c' = none ∧
      c'.serialStage = (k == .stopParallel) := by
  obtain rfl : t = .main := by
    cases t with
    | main => rfl
    | child n =>
        rw [(hc.child_quiet h).2.2.2] at hcall
        cases hcall
  have hr : c'.running = c.running := by
    refine main_move_running h ?_ ?_ <;> rintro rfl <;> cases hcall
  have hx : crossing c c' = none := crossing_eq_none (by omega) (by omega)
  have hcalls := hc.calls h
  rw [hcall, hx] at hcalls
  obtain ⟨hp, hp'⟩ : c.pending = some k ∧ c'.pending = none := by
    cases hp : c.pending <;> cases hp' : c'.pending <;> simp_all
  refine ⟨rfl, hp, hp', hx, ?_⟩
  rw [serialStage_of_none hp', hr]
  rcases stageCall_eq_some hcall with ⟨-, hrunning, rfl⟩ | ⟨-, hrunning, rfl⟩
  · rw [hrunning]; rfl
  · rw [hrunning]; rfl

end Control

/-! ## The process follows its control -/

namespace Process

def Action.move : Action → Move
  | .createAdd => .createAdd
  | .createTest .. => .createTest
  | .createReal => .createReal
  | .startThread _ => .startThread
  | .call .. | .exitHandler _ => .stay
  | .threadExit _ => .threadExit
  | .joinReal n => .joinReal n
  | .joinSub => .joinSub
  | .joinTest .. => .joinTest

@[simp] theorem Action.move_source (a : Action) : a.move.source = a.pc := by
  cases a <;> rfl

variable {p p' : Process} {t : Tid} {th th' : Thread} {a : Action} {stop : ClockStop}
  {ended : List (Nat × Nat)} {start : ClockStart}

def control (p : Process) : Control where
  running := p.totalNumOfRunningThread
  main := p.main.pc
  children := p.children.map fun th => (th.pc, th.joined)

theorem control_place (h : p.thread? t = some th) : p.control.place? t = some th.pc := by
  cases t with
  | main => exact congrArg (some ·.pc) (Option.some.inj h)
  | child n =>
      have hn : p.children[n]? = some th := h
      simp [Control.place?, control, hn]

theorem control_setThread (h : p.thread? t = some th) (th' : Thread)
    (hj : th'.joined = th.joined) :
    (p.setThread t th').control = p.control.setPlace t th'.pc := by
  cases t with
  | main => rfl
  | child n =>
      have hn : p.children[n]? = some th := h
      have hset : (p.children.set n th').map (fun th => (th.pc, th.joined))
          = (p.children.map fun th => (th.pc, th.joined)).modify n
              fun child => (th'.pc, child.2) :=
        map_set_eq_modify hn (by rw [hj])
      simp only [control, setThread, Control.setPlace, hset]

/-- The control does not see the predictor or the calls. -/
theorem control_setThread_of (h : p.thread? t = some th) (predictor : Predictor)
    (stageCalls : List (StageCall × Tid)) (hj : th'.joined = th.joined) :
    ({ p with predictor, stageCalls }.setThread t th').control = p.control.setPlace t th'.pc := by
  have hth : { p with predictor, stageCalls }.thread? t = some th := by cases t <;> exact h
  exact control_setThread hth th' hj

theorem serialTest_control (h : p.thread? t = some th) :
    (p.serialTest t th stop start).control = p.control.setPlace t .createReal := by
  rcases serialTest_cases p t th stop start with ⟨-, heq⟩ | ⟨-, heq⟩
  · rw [heq]; exact control_setThread h _ rfl
  · rw [heq]; exact control_setThread_of h _ _ rfl

theorem parallelTest_control (h : p.thread? t = some th)
    (hp : p.parallelTest t th stop ended start = some p') :
    p'.control = p.control.setPlace t .running := by
  rcases parallelTest_cases hp with ⟨-, rfl⟩ | ⟨-, predictor, -, rfl⟩
  · exact control_setThread h _ rfl
  · exact control_setThread_of h _ _ rfl

theorem threadExit_control (h : p.thread? t = some th) (hp : p.threadExit t th stop = some p') :
    p'.control = p.control.setPlace t .ended := by
  obtain ⟨predictor, -, rfl⟩ := threadExit_cases hp
  exact control_setThread_of h _ p.stageCalls rfl

theorem exitHandler_control (h : p.thread? t = some th) :
    (p.exitHandler t th stop).control = p.control.setPlace t th.pc :=
  control_setThread_of h _ _ rfl

/-- A signal moves nothing. -/
theorem sampleHandler_control {stop start : Nat} (h : p.thread? t = some th) :
    (p.sampleHandler t th stop start).control = p.control := by
  have hset := control_setThread h
    { th with predictor := th.predictor.sampleHandler stop start } rfl
  rw [sampleHandler, hset]
  cases t with
  | main => rw [← Option.some.inj h]; rfl
  | child n =>
      obtain ⟨hlen, hn⟩ := List.getElem?_eq_some_iff.mp h
      have hplace : p.control.children.modify n (fun child => (th.pc, child.2))
          = p.control.children := by
        refine List.ext_getElem (by simp) fun i hi _ => ?_
        rw [List.getElem_modify]
        split
        · next heq => subst heq; simp [control, hn]
        · rfl
      simp only [Control.setPlace, hplace]

theorem createReal_control (h : p.thread? t = some th) (hp : p.createReal t th = some p') :
    (p.control.setPlace t .running).effect .createReal = some p'.control := by
  have hset := control_setThread h { th with pc := .running } rfl
  obtain ⟨-, rfl⟩ := createReal_cases hp
  rw [← hset]
  simp [Control.effect, control]

theorem startThread_control (h : p.thread? t = some th) (hp : p.startThread t th start = some p') :
    p'.control = p.control.setPlace t .running := by
  obtain ⟨-, rfl⟩ := startThread_cases hp
  exact control_setThread h { th with
    pc := .running
    runningThreadIndex := p.totalNumOfThread
    predictor := th.predictor.threadInit.startClock start } rfl

theorem joinReal_control {n : Nat} (h : p.thread? t = some th) (hpc : th.pc = .running)
    (hp : p.joinReal t th n = some p') :
    (p.control.setPlace t .joinSub).effect (.joinReal n) = some p'.control := by
  obtain ⟨child, hchild, hended, hjoined, rfl⟩ := joinReal_cases hp
  have hne := joinReal_ne h hpc hchild hended
  have hth : (p.setThread (.child n) { child with joined := true }).thread? t = some th :=
    (thread_setThread_of_ne hne).trans h
  have hjoin : (p.children.set n { child with joined := true }).map (fun th => (th.pc, th.joined))
      = (p.children.map fun th => (th.pc, th.joined)).modify n fun child => (child.1, true) :=
    map_set_eq_modify hchild rfl
  have hended' : p.control.children[n]? = some (.ended, false) := by
    simp [control, hchild, hended, hjoined]
  rw [control_setThread hth { th with pc := .joinSub } rfl]
  cases t with
  | main =>
      simp only [Control.effect, Control.setPlace, hended', if_true]
      simp only [control, setThread, hjoin]
  | child k =>
      have hkn : k ≠ n := fun heq => hne (by rw [heq])
      have hended'' : (p.control.setPlace (.child k) .joinSub).children[n]?
          = some (.ended, false) := by
        simpa [Control.setPlace, hkn] using hended'
      simp only [Control.effect, if_pos hended'']
      simp only [Control.setPlace, control, setThread, hjoin]
      rw [List.modify_modify_ne _ _ _ hkn]

/-- A step of the process is a move of its control, as long as the 16-bit
counter does not wrap. -/
theorem step_control (h : p.step (t, a) = some p') (hlo : 0 < p.totalNumOfRunningThread)
    (hhi : p.totalNumOfRunningThread + 1 < 2 ^ 16) : p.control.move t a.move = some p'.control := by
  obtain ⟨-, th, hth, hpc, hact⟩ := step_cases h
  have hplace : p.control.place? t = some a.move.source := by
    rw [control_place hth, hpc, Action.move_source]
  have hexit : ¬(t = .main ∧ a.move = .threadExit) := by
    rintro ⟨rfl, hmove⟩
    cases a <;> simp_all [Action.move, act]
  rw [Control.move, if_pos ⟨hplace, hexit⟩]
  cases a with
  | createAdd =>
      cases hact
      have hrunning : wrap 16 (p.totalNumOfRunningThread + 1) = p.totalNumOfRunningThread + 1 :=
        wrap_of_lt hhi
      have hset := control_setThread hth { th with pc := .createTest } rfl
      rw [show p.control.setPlace t Action.createAdd.move.target = _ from hset.symm]
      cases t <;>
        simp [Control.effect, Action.move, control, setThread, addARunningThread, hrunning]
  | joinSub =>
      cases hact
      have hrunning : wsub 16 p.totalNumOfRunningThread 1 = p.totalNumOfRunningThread - 1 :=
        wsub_of_le hlo (by omega)
      have hset := control_setThread hth { th with pc := .joinTest } rfl
      rw [show p.control.setPlace t Action.joinSub.move.target = _ from hset.symm]
      cases t <;>
        simp [Control.effect, Action.move, control, setThread, subARunningThread, hrunning]
  | createTest stop start =>
      cases hact
      exact congrArg some (serialTest_control hth).symm
  | createReal => exact createReal_control hth hact
  | startThread now => exact congrArg some (startThread_control hth hact).symm
  | call type before after =>
      simp only [act] at hact
      split at hact
      · cases hact
        have hset := control_setThread hth { th with
          predictor := th.predictor.countCall p.predictor.replacedFunctionCycles type
            (cyclesInRealFunction before after) } rfl
        have htarget : (Action.call type before after).move.target = th.pc := hpc.symm
        rw [htarget, ← hset]
        rfl
      · cases hact
  | threadExit stop =>
      simp only [act] at hact
      split at hact
      · cases hact
      · exact congrArg some (threadExit_control hth hact).symm
  | joinReal n => exact joinReal_control hth hpc hact
  | joinTest stop ended start => exact congrArg some (parallelTest_control hth hact).symm
  | exitHandler stop =>
      cases hact
      rw [exitHandler_control hth, hpc]
      rfl

end Process

end MemPerf
