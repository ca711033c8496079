import MemPerf.CriticalPath

/-!
# The two clocks of a thread

A thread adds up two times. `outsideCycle` is the time from each
`outsideCycleStart` to the next `outsideCyclesStop`; `sampleHandler`
stops and starts that clock wherever its signal finds the thread.
`totalFunctionCycles` is the time between the readings around the real
function, over the calls of the replaced classes. `threadEnd` and
`stopSerial` subtract the second from the first.

A tracked call is two steps here, so that signals and stage changes fall
inside it. A signal finds a thread between its steps or between two calls
inside a step, so also after an `outsideCyclesStop` whose time is not
used yet; it does not find it inside one of the predictor's functions. A
meter notes, for each thread, the cycles the one clock ran over, each as
often as a stop added it, and those of the counted calls, as the readings
tell them; it does not look at what the predictor stores.
-/

namespace MemPerf

open Word StepSystem

/-! ## Meters -/

/-- What a thread's time went to since its counters were last cleared. -/
structure Meter where
  /-- The reading of the last `outsideCycleStart`; 0 is no start, as in
  `outsideCyclesStop`. -/
  started : Nat := 0
  /-- The cycles the outside clock ran over. A stop adds the stretch since
  the last start, also when an earlier stop has done so. -/
  ran : Multiset Nat := 0
  /-- The cycles of the counted calls. -/
  called : Multiset Nat := 0
  /-- The reading before the real function of the call in progress. -/
  call : Option Nat := none

namespace Meter

/-- Neither clock forgets when it was started. -/
def clock (m : Meter) : ClockEvent → Meter
  | .start r => { m with started := r }
  | .stop r => { m with ran := m.ran + if m.started = 0 then 0 else Multiset.Ico m.started r }
  | .clear => { m with ran := 0, called := 0 }

def clocks (m : Meter) (events : List ClockEvent) : Meter := events.foldl clock m

def callBegin (m : Meter) (before : Nat) : Meter := { m with call := some before }

/-- A call counts if its class is replaced, unless its length is abnormal. -/
def callEnd (m : Meter) (replaced : Bool) (before after : Nat) : Meter :=
  { m with
    call := none
    called := m.called +
      if replaced ∧ after - before ≤ abnormalValue then Multiset.Ico before after else 0 }

/-- The clock's cycles, in 64 bits. -/
def time (m : Meter) : Nat := wrap 64 m.ran.card

/-- The clock stood still inside counted calls no longer than it ran
outside them, with `2 ^ 64` cycles lost for each time its sum wrapped. -/
def Covered (m : Meter) : Prop :=
  (m.called - m.ran).card + 2 ^ 64 * (m.ran.card / 2 ^ 64) ≤ (m.ran - m.called).card

/-- Adding the time of the clock to `acc` does not carry past `2 ^ 64`,
or the carry stays when the calls are taken off again. -/
def CarryStays (m : Meter) (acc : Nat) : Prop :=
  acc + m.time < 2 ^ 64 ∨ 2 ^ 64 ≤ acc + (m.time - m.called.card)

/-- What `threadEnd` needs of the thread it ends: some time, if its slot
is divided by, and calls that are covered. -/
def EndsThread (m : Meter) (index : Nat) : Prop :=
  m.Covered ∧ (index ≠ 0 → ¬ 2 ^ 64 ∣ m.ran.card)

/-- What `stopSerial` needs of the thread that calls it. -/
def EndsStage (m : Meter) (p : Predictor) : Prop :=
  m.Covered ∧ m.CarryStays p.replacedCriticalCycle ∧ m.CarryStays p.replacedCriticalCycleDepend

/-- The thread has run, if its slot is divided by, and its time is a
64-bit value. -/
def FitsThread (m : Meter) (index : Nat) : Prop :=
  m.ran.card < 2 ^ 64 ∧ (index ≠ 0 → 0 < m.ran.card)

/-- The totals with the thread's time are 64-bit values. -/
def FitsStage (m : Meter) (p : Predictor) : Prop :=
  p.replacedCriticalCycle + m.ran.card < 2 ^ 64 ∧
    p.replacedCriticalCycleDepend + m.ran.card < 2 ^ 64

instance (m : Meter) : Decidable m.Covered := inferInstanceAs (Decidable (_ ≤ _))

instance (m : Meter) (index : Nat) : Decidable (m.EndsThread index) :=
  inferInstanceAs (Decidable (_ ∧ (_ → _)))

instance (m : Meter) (index : Nat) : Decidable (m.FitsThread index) :=
  inferInstanceAs (Decidable (_ ∧ (_ → _)))

end Meter

/-! ## What must not happen -/

/-- `acc += outsideCycle; acc -= totalFunctionCycles;` does not underflow. -/
def PredictorLocal.Subtracts (l : PredictorLocal) (acc : Nat) : Prop :=
  l.totalFunctionCycles ≤ wrap 64 (acc + l.outsideCycle)

namespace Predictor

/-- `threadEnd` divides by something, and subtracts no more than there is. -/
def ThreadEndSafe (p : Predictor) (index : Nat) (l : PredictorLocal) : Prop :=
  l.totalFunctionCycles ≤ l.outsideCycle ∧ l.Subtracts (p.threadReplacedCycle index) ∧
    (p.threadEnd index l).isSome

def StopSerialSafe (p : Predictor) (l : PredictorLocal) : Prop :=
  l.totalFunctionCycles ≤ l.outsideCycle ∧ l.Subtracts p.replacedCriticalCycle ∧
    l.Subtracts p.replacedCriticalCycleDepend

end Predictor

namespace Process

/-- `thread` where the action of a thread calls `threadEnd` and `stage`
where it calls `stopSerial`, each of the `outsideCyclesStop` before it and
the signals behind that. -/
def AtEnds (p : Process) (thread stage : ClockStop → Prop) : Action → Prop
  | .threadExit stop => thread stop
  | .joinTest stop _ _ => p.fromParallelToSerial → thread stop
  | .createTest stop _ => p.fromSerialToParallel → stage stop
  | .exitHandler stop => stage stop
  | .createAdd | .createReal | .startThread _ | .call .. | .joinReal _ | .joinSub => True

/-- The calls of `threadEnd` and `stopSerial` are safe. -/
def SafeAt (p : Process) (th : Thread) : Action → Prop :=
  p.AtEnds (fun stop => p.predictor.ThreadEndSafe th.runningThreadIndex
      (th.predictor.stopClock stop))
    fun stop => p.predictor.StopSerialSafe (th.predictor.stopClock stop)

/-- The same calls, by what the thread's meter shows then. -/
def MeteredAt (p : Process) (th : Thread) (m : Meter) : Action → Prop :=
  p.AtEnds (fun stop => (m.clocks stop.events).EndsThread th.runningThreadIndex)
    fun stop => (m.clocks stop.events).EndsStage p.predictor

/-- The same calls, when no call was disturbed. -/
def FitsAt (p : Process) (th : Thread) (m : Meter) : Action → Prop :=
  p.AtEnds (fun stop => (m.clocks stop.events).FitsThread th.runningThreadIndex)
    fun stop => (m.clocks stop.events).FitsStage p.predictor

/-! ## Steps -/

/-- The meter of the thread that takes the action; that of a thread that
starts is new. -/
def meter (p : Process) (m : Meter) : Action → Meter
  | .startThread start => Meter.clocks {} (p.clockEvents (.startThread start))
  | a => m.clocks (p.clockEvents a)

end Process

/-- The process, the last clock reading, and the meters. -/
structure Metered where
  process : Process
  now : Nat
  meters : Tid → Meter

namespace Metered

inductive Event where
  /-- Any action but a whole call. -/
  | process (a : Process.Action)
  /-- The reading before the real function. -/
  | callBegin (before : Nat)
  /-- The reading after it, and `updateAllocatingInfoToPredictor`. -/
  | callEnd (type after : Nat)
  | sample (stop start : Nat)
deriving DecidableEq, Repr

/-- The process and the meter of thread `t` after its event. -/
def moves (w : Metered) (t : Tid) : Event → Option (Process × Meter)
  | .process (.call ..) => none
  | .process a => (w.process.step (t, a)).map fun p => (p, w.process.meter (w.meters t) a)
  | .callBegin before =>
      if (w.process.live? t).isSome ∧ (w.meters t).call = none then
        some (w.process, (w.meters t).callBegin before)
      else none
  | .callEnd type after =>
      match w.process.live? t, (w.meters t).call with
      | some th, some before =>
          (w.process.act t th (.call type before after)).map fun p =>
            (p, (w.meters t).callEnd (w.process.predictor.replacedFunctionCycles type ≠ 0)
              before after)
      | _, _ => none
  | .sample stop start =>
      (w.process.live? t).map fun th =>
        (w.process.sampleHandler t th stop start,
          (w.meters t).clocks (signalEvents [(stop, start)]))

/-- The clock readings of an event, in their order. -/
def eventReadings (w : Metered) : Event → List Nat
  | .process a => readings (w.process.clockEvents a)
  | .callBegin before => [before]
  | .callEnd _ after => [after]
  | .sample stop start => [stop, start]

def step (w : Metered) (i : Tid × Event) : Option Metered :=
  (w.moves i.1 i.2).map fun (p, m) =>
    { process := p
      now := (w.eventReadings i.2).getLastD w.now
      meters := Function.update w.meters i.1 m }

/-- The readings of the event do not decrease, and are 64-bit values. -/
def ClockRuns (w : Metered) (e : Event) : Prop := MemPerf.ClockRuns w.now (w.eventReadings e)

instance (w : Metered) (e : Event) : Decidable (w.ClockRuns e) :=
  inferInstanceAs (Decidable (MemPerf.ClockRuns _ _))

/-- No signal finds thread `t` inside a tracked call, and it changes no
stage inside one. -/
def Calm (w : Metered) (t : Tid) : Event → Prop
  | .sample .. => (w.meters t).call = none
  | .process (.createTest ..) => w.process.fromSerialToParallel → (w.meters t).call = none
  | .process (.joinTest ..) => w.process.fromParallelToSerial → (w.meters t).call = none
  | _ => True

instance (w : Metered) (t : Tid) : (e : Event) → Decidable (w.Calm t e)
  | .sample .. => inferInstanceAs (Decidable (_ = none))
  | .process (.createTest ..) | .process (.joinTest ..) =>
      inferInstanceAs (Decidable (_ → _ = none))
  | .callBegin _ | .callEnd .. | .process .createAdd | .process .createReal
  | .process (.startThread _) | .process (.call ..) | .process (.threadExit _)
  | .process (.joinReal _) | .process .joinSub | .process (.exitHandler _) => isTrue trivial

def initial (info : PredictorInfo) (now : Nat) : Metered where
  process := Process.initial info now
  now := now
  meters := Function.update (fun _ => {}) .main (Meter.clocks {} [.clear, .start now])

/-- A run of the profiled process, at clock readings that do not decrease. -/
abbrev Runs (info : PredictorInfo) (now : Nat) (past : List (Tid × Event)) (w : Metered) : Prop :=
  Run step (fun _ w i => w.ClockRuns i.2) (initial info now) past w

/-- One in which nothing disturbs a tracked call. -/
abbrev CalmRuns (info : PredictorInfo) (now : Nat) (past : List (Tid × Event)) (w : Metered) :
    Prop :=
  Run step (fun _ w i => w.ClockRuns i.2 ∧ w.Calm i.1 i.2) (initial info now) past w

/-- What `Run.ofChecked` follows. -/
def checked (w : Metered) (i : Tid × Event) : Option Metered :=
  if w.ClockRuns i.2 then w.step i else none

def calmChecked (w : Metered) (i : Tid × Event) : Option Metered :=
  if w.ClockRuns i.2 ∧ w.Calm i.1 i.2 then w.step i else none

end Metered

end MemPerf
