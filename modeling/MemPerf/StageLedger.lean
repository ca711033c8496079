import MemPerf.StageAlternation

/-!
# A ledger of the program's time

What the critical cycles are meant to be, written down by an observer
who sees the counter, the clock readings and where a thread's counters
are cleared, and nothing the predictor stores. The run falls into the
maximal intervals in which the counter is one, the serial ones, and in
which it is larger, the parallel ones. A thread's time runs from each
`outsideCycleStart` to the next `outsideCyclesStop`, so that a signal
pauses it. The main thread enters an interval with its test right after
the counter has changed, and its stretches belong to the interval it is
in. A serial interval takes the main thread's time in it, a parallel one
the longest time of a child that ended in it.
-/

namespace MemPerf

open StepSystem

structure Interval where
  serial : Bool
  /-- The main thread's un-paused time in the interval. -/
  mainTime : Nat := 0
  /-- The un-paused times of the children that ended in the interval. -/
  endedTimes : List Nat := []
deriving DecidableEq, Repr

namespace Interval

def longest (times : List Nat) : Nat := times.foldl max 0

def addMain (iv : Interval) (cycles : Nat) : Interval :=
  { iv with mainTime := iv.mainTime + cycles }

/-- What the interval adds to the critical path. -/
def time (iv : Interval) : Nat := if iv.serial then iv.mainTime else longest iv.endedTimes

/-- The interval that a crossing of the counter opens. -/
def after (crossing : StageCall) : Interval := { serial := crossing == .stopParallel }

theorem longest_append (times : List Nat) (time : Nat) :
    longest (times ++ [time]) = max (longest times) time := by
  simp [longest]

end Interval

/-- What a thread does to its clock. -/
inductive ClockEvent where
  /-- `outsideCycleStart`, with its reading. -/
  | start (reading : Nat)
  /-- `outsideCyclesStop`, with its reading. -/
  | stop (reading : Nat)
  /-- `threadInit`, or the `cleanStageData` of a stage change. -/
  | clear
deriving DecidableEq, Repr

def ClockEvent.reading? : ClockEvent → Option Nat
  | .start r | .stop r => some r
  | .clear => none

/-- The clock readings of the events, in their order. -/
def readings (events : List ClockEvent) : List Nat := events.filterMap ClockEvent.reading?

/-- A signal stops the clock and starts it again. -/
def signalEvents (signals : List (Nat × Nat)) : List ClockEvent :=
  signals.flatMap fun signal => [.stop signal.1, .start signal.2]

def ClockStop.events (stop : ClockStop) : List ClockEvent :=
  .stop stop.reading :: signalEvents stop.signals

def ClockStart.events (start : ClockStart) : List ClockEvent :=
  signalEvents start.signals ++ [.start start.reading]

/-! ## A clock that does not go back -/

/-- The readings do not decrease from `now` on, and are 64-bit values. -/
def ClockRuns (now : Nat) (readings : List Nat) : Prop :=
  (now :: readings).Pairwise (· ≤ ·) ∧ ∀ r ∈ readings, r < 2 ^ 64

instance (now : Nat) (readings : List Nat) : Decidable (ClockRuns now readings) :=
  inferInstanceAs (Decidable (_ ∧ ∀ r ∈ _, _))

theorem clockRuns_nil (now : Nat) : ClockRuns now [] := by simp [ClockRuns]

theorem clockRuns_cons {now r : Nat} {rs : List Nat} :
    ClockRuns now (r :: rs) ↔ now ≤ r ∧ r < 2 ^ 64 ∧ ClockRuns r rs := by
  simp only [ClockRuns, List.pairwise_cons, List.mem_cons, forall_eq_or_imp]
  constructor
  · rintro ⟨⟨⟨hle, -⟩, hsorted⟩, hr, hword⟩
    exact ⟨hle, hr, hsorted, hword⟩
  · rintro ⟨hle, hr, ⟨hfirst, hsorted⟩, hword⟩
    exact ⟨⟨⟨hle, fun x hx => hle.trans (hfirst x hx)⟩, hfirst, hsorted⟩, hr, hword⟩

theorem clockRuns_append {now : Nat} {rs rs' : List Nat} :
    ClockRuns now (rs ++ rs') ↔ ClockRuns now rs ∧ ClockRuns (rs.getLastD now) rs' := by
  induction rs generalizing now with
  | nil => simp [clockRuns_nil]
  | cons r rs ih => simp only [List.cons_append, clockRuns_cons, ih, List.getLastD_cons, and_assoc]

theorem ClockRuns.le_last {now : Nat} {rs : List Nat} (h : ClockRuns now rs) :
    now ≤ rs.getLastD now := by
  induction rs generalizing now with
  | nil => exact le_rfl
  | cons r rs ih =>
      obtain ⟨hle, -, hrest⟩ := clockRuns_cons.mp h
      rw [List.getLastD_cons]
      exact hle.trans (ih hrest)

theorem ClockRuns.last_lt {now : Nat} {rs : List Nat} (h : ClockRuns now rs)
    (hnow : now < 2 ^ 64) : rs.getLastD now < 2 ^ 64 := by
  induction rs generalizing now with
  | nil => exact hnow
  | cons r rs ih =>
      obtain ⟨-, hr, hrest⟩ := clockRuns_cons.mp h
      rw [List.getLastD_cons]
      exact ih hrest hr

@[simp] theorem readings_nil : readings [] = [] := rfl

@[simp] theorem readings_start (r : Nat) (events : List ClockEvent) :
    readings (.start r :: events) = r :: readings events := rfl

@[simp] theorem readings_stop (r : Nat) (events : List ClockEvent) :
    readings (.stop r :: events) = r :: readings events := rfl

@[simp] theorem readings_clear (events : List ClockEvent) :
    readings (.clear :: events) = readings events := rfl

@[simp] theorem readings_append (events events' : List ClockEvent) :
    readings (events ++ events') = readings events ++ readings events' :=
  List.filterMap_append

@[simp] theorem signalEvents_nil : signalEvents [] = [] := rfl

@[simp] theorem signalEvents_cons (signal : Nat × Nat) (signals : List (Nat × Nat)) :
    signalEvents (signal :: signals)
      = .stop signal.1 :: .start signal.2 :: signalEvents signals := rfl

/-! ## The ledger -/

/-- The clock events of an action, in their order. -/
def Process.clockEvents (p : Process) : Process.Action → List ClockEvent
  | .createTest stop start =>
      if p.fromSerialToParallel then stop.events ++ .clear :: start.events else []
  | .joinTest stop ended start =>
      if p.fromParallelToSerial then
        stop.events ++ signalEvents ended ++ .clear :: start.events
      else []
  | .startThread start => .clear :: start.events
  | .threadExit stop => stop.events
  | .exitHandler stop => stop.events ++ [.clear]
  | .createAdd | .createReal | .call .. | .joinReal _ | .joinSub => []

structure Ledger where
  /-- Oldest first; the last one is running. -/
  intervals : List Interval := [{ serial := true }]
  /-- The interval the main thread is in. -/
  entered : Nat := 0
  /-- When a thread's running stretch began. -/
  started : Tid → Option Nat := fun _ => none
  /-- A thread's un-paused time in its finished stretches. -/
  unpaused : Tid → Nat := fun _ => 0

namespace Ledger

/-- What the critical path should be. -/
def total (g : Ledger) : Nat := (g.intervals.map Interval.time).sum

/-- A stretch of thread `t` took the cycles. -/
def book (g : Ledger) (t : Tid) (cycles : Nat) : Ledger :=
  { g with
    intervals :=
      if t = .main then g.intervals.modify g.entered fun iv => iv.addMain cycles else g.intervals
    unpaused := Function.update g.unpaused t (g.unpaused t + cycles) }

/-- Thread `t`'s stretch begins, or ends. -/
def begins (g : Ledger) (t : Tid) (start : Option Nat) : Ledger :=
  { g with started := Function.update g.started t start }

def clock (t : Tid) (g : Ledger) : ClockEvent → Ledger
  | .start r => g.begins t (some r)
  | .stop r =>
      match g.started t with
      | some r0 => (g.book t (r - r0)).begins t none
      | none => g
  | .clear => { g with entered := if t = .main then g.intervals.length - 1 else g.entered }

def clocks (g : Ledger) (t : Tid) (events : List ClockEvent) : Ledger := events.foldl (clock t) g

/-- Thread `t` ends in the running interval. -/
def ends (g : Ledger) (t : Tid) : Ledger :=
  { g with intervals := g.intervals.modify (g.intervals.length - 1) fun iv =>
      { iv with endedTimes := iv.endedTimes ++ [g.unpaused t] } }

/-- The counter crosses between one and two. -/
def cross (g : Ledger) (crossing : Option StageCall) : Ledger :=
  { g with intervals := g.intervals ++ crossing.toList.map Interval.after }

@[simp] theorem cross_none (g : Ledger) : g.cross none = g := by simp [cross]

end Ledger

/-- The process, the last clock reading, and the ledger. -/
structure Timed where
  process : Process
  now : Nat
  ledger : Ledger := {}

namespace Timed

inductive Event where
  | process (a : Process.Action)
  /-- `sampleHandler`, with its two readings. -/
  | sample (stop start : Nat)
deriving DecidableEq, Repr

def clockEvents (w : Timed) : Event → List ClockEvent
  | .process a => w.process.clockEvents a
  | .sample stop start => signalEvents [(stop, start)]

/-- A signal finds a thread while it runs the program. -/
def moves (w : Timed) (t : Tid) : Event → Option Process
  | .process a => w.process.step (t, a)
  | .sample stop start =>
      (w.process.live? t).map fun th => w.process.sampleHandler t th stop start

/-- The ledger after the clock events of the event. -/
def clocked (w : Timed) (i : Tid × Event) : Ledger := w.ledger.clocks i.1 (w.clockEvents i.2)

def record (w : Timed) (i : Tid × Event) : Ledger :=
  match i.2 with
  | .process (.threadExit _) => (w.clocked i).ends i.1
  | _ => w.clocked i

def step (w : Timed) (i : Tid × Event) : Option Timed :=
  (w.moves i.1 i.2).map fun p =>
    { process := p
      now := (readings (w.clockEvents i.2)).getLastD w.now
      ledger := (w.record i).cross (w.process.crossing p) }

def initial (info : PredictorInfo) (now : Nat) : Timed where
  process := Process.initial info now
  now := now
  ledger := Ledger.clocks {} .main [.clear, .start now]

/-! ## What the environment may do -/

/-- A child ends with a positive time, and only the main thread exits,
when every child has been joined. -/
def EndsWell (w : Timed) (t : Tid) : Event → Prop
  | .process (.threadExit stop) => 0 < (w.clocked (t, .process (.threadExit stop))).unpaused t
  | .process (.exitHandler _) => t = .main ∧ ∀ child ∈ w.process.children, child.joined = true
  | _ => True

/-- The clock runs, and threads end as they should. -/
def Permitted (w : Timed) (i : Tid × Event) : Prop :=
  ClockRuns w.now (readings (w.clockEvents i.2)) ∧ w.EndsWell i.1 i.2

/-- No signal comes between an `outsideCyclesStop` and the `threadEnd` or
`stopSerial` that uses the time, or between a stage change and the
`outsideCycleStart` behind it. -/
def InTime : Event → Prop
  | .process (.createTest stop start) => stop.signals = [] ∧ start.signals = []
  | .process (.joinTest _ _ start) => start.signals = []
  | .process (.threadExit stop) | .process (.exitHandler stop) => stop.signals = []
  | _ => True

/-- A child ends with a predicted time that is not 0 in 64 bits. -/
def Predicts (w : Timed) (t : Tid) : Event → Prop
  | .process (.threadExit stop) => ∀ th ∈ w.process.thread? t,
      (th.predictor.stopClock stop).addReplaced w.process.predictor.replacedFunctionCycles 0 ≠ 0
  | _ => True

instance (w : Timed) (t : Tid) : (e : Event) → Decidable (w.EndsWell t e)
  | .process (.threadExit _) => inferInstanceAs (Decidable (0 < _))
  | .process (.exitHandler _) => inferInstanceAs (Decidable (t = .main ∧
      ∀ child ∈ w.process.children, child.joined = true))
  | .sample .. | .process .createAdd | .process (.createTest ..) | .process .createReal
  | .process (.startThread _) | .process (.call ..) | .process (.joinReal _)
  | .process .joinSub | .process (.joinTest ..) => isTrue trivial

instance (w : Timed) (i : Tid × Event) : Decidable (w.Permitted i) :=
  inferInstanceAs (Decidable (_ ∧ _))

instance : (e : Event) → Decidable (InTime e)
  | .process (.createTest ..) => inferInstanceAs (Decidable (_ ∧ _))
  | .process (.joinTest ..) => inferInstanceAs (Decidable (_ = []))
  | .process (.threadExit _) | .process (.exitHandler _) => inferInstanceAs (Decidable (_ = []))
  | .sample .. | .process .createAdd | .process .createReal | .process (.startThread _)
  | .process (.call ..) | .process (.joinReal _) | .process .joinSub => isTrue trivial

instance (w : Timed) (t : Tid) : (e : Event) → Decidable (w.Predicts t e)
  | .process (.threadExit _) => inferInstanceAs (Decidable (∀ th ∈ w.process.thread? t, _))
  | .sample .. | .process .createAdd | .process (.createTest ..) | .process .createReal
  | .process (.startThread _) | .process (.call ..) | .process (.joinReal _)
  | .process .joinSub | .process (.joinTest ..) | .process (.exitHandler _) => isTrue trivial

end Timed

end MemPerf
