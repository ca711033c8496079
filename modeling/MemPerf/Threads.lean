import MemPerf.Predictor
import Mathlib.Algebra.BigOperators.Group.List.Basic

/-!
# The threads of the profiled process

`xthreadx.cpp` and the counters of `threadlocalstatus.cpp`, as steps of
the process: `thread_create` is the increment of the counter, the test
(with the stage change) and the real create; `thread_join` is the real
join, the decrement and the test. Steps of different threads interleave
freely. The real create and join succeed; a join returns once its
thread has ended, and a thread is joined once.

A step carries the clock readings it takes. The signals of `sampleHandler`
find a thread between its steps (`live?`), or inside a step, between two of
the calls it makes; those are among the readings of the step. `none` is a
step that is not enabled, or one that leaves the process in undefined state: a create or
a start past the arrays of `MAX_THREAD_NUMBER` elements, or the division
by zero of `threadEnd`.
-/

namespace MemPerf

open Word

/-! ## Readings -/

/-- The reading of an `outsideCyclesStop`, and those of the signals that come
before the time is used. -/
structure ClockStop where
  reading : Nat
  signals : List (Nat × Nat) := []
deriving DecidableEq, Repr

/-- The readings of the signals before an `outsideCycleStart`, since the
thread's counters were cleared, and its own. -/
structure ClockStart where
  signals : List (Nat × Nat) := []
  reading : Nat
deriving DecidableEq, Repr

instance (n : Nat) : OfNat ClockStop n := ⟨{ reading := n }⟩

instance (n : Nat) : OfNat ClockStart n := ⟨{ reading := n }⟩

namespace PredictorLocal

variable (l : PredictorLocal)

def stopClock (stop : ClockStop) : PredictorLocal :=
  (l.outsideCyclesStop stop.reading).sampleHandlers stop.signals

def startClock (start : ClockStart) : PredictorLocal :=
  (l.sampleHandlers start.signals).outsideCycleStart start.reading

@[simp] theorem stopClock_numOfFunctions (stop : ClockStop) :
    (l.stopClock stop).numOfFunctions = l.numOfFunctions :=
  (sampleHandlers_fields ..).1

@[simp] theorem stopClock_totalFunctionCycles (stop : ClockStop) :
    (l.stopClock stop).totalFunctionCycles = l.totalFunctionCycles :=
  (sampleHandlers_fields ..).2

@[simp] theorem startClock_numOfFunctions (start : ClockStart) :
    (l.startClock start).numOfFunctions = l.numOfFunctions :=
  (sampleHandlers_fields ..).1

@[simp] theorem startClock_totalFunctionCycles (start : ClockStart) :
    (l.startClock start).totalFunctionCycles = l.totalFunctionCycles :=
  (sampleHandlers_fields ..).2

end PredictorLocal

/-! ## The process -/

/-- Where a thread is, between the steps of its functions. -/
inductive Pc where
  /-- `pthread_create` has made it; `startThread` has not run yet. -/
  | created
  | running
  /-- In `thread_create`, before the test of `fromSerialToParallel`. -/
  | createTest
  /-- In `thread_create`, before the real create. -/
  | createReal
  /-- In `thread_join`, before `subARunningThread`. -/
  | joinSub
  /-- In `thread_join`, before the test of `fromParallelToSerial`. -/
  | joinTest
  | ended
deriving DecidableEq, Repr

/-- Between `startThread` and `threadExit`. -/
def Pc.Live (pc : Pc) : Prop := pc ≠ .created ∧ pc ≠ .ended

instance : DecidablePred Pc.Live := fun pc => inferInstanceAs (Decidable (pc ≠ _ ∧ pc ≠ _))

structure Thread where
  pc : Pc := .created
  runningThreadIndex : Nat := 0
  joined : Bool := false
  predictor : PredictorLocal := {}

/-- A thread that has not started has read no clock. -/
def Thread.Unstarted (th : Thread) : Prop := th.pc = .created → th.predictor.outsideStartCycle = 0

/-- The main thread, and the others in the order of their creation. -/
inductive Tid where
  | main
  | child (n : Nat)
deriving DecidableEq, Repr

inductive StageCall where
  | stopSerial
  | stopParallel
deriving DecidableEq, Repr

structure Process where
  totalNumOfThread : Nat := 0
  totalNumOfRunningThread : Nat := 0
  /-- `XThreadMemory::idx`. -/
  xthreadIdx : Nat := 0
  predictor : Predictor
  main : Thread := { pc := .running }
  children : List Thread := []
  /-- `exit` has been called. -/
  exited : Bool := false
  /-- The calls of `stopSerial` and `stopParallel` so far and the threads
  that made them; no code reads it. -/
  stageCalls : List (StageCall × Tid) := []

namespace Process

def thread? (p : Process) : Tid → Option Thread
  | .main => some p.main
  | .child n => p.children[n]?

def setThread (p : Process) (t : Tid) (th : Thread) : Process :=
  match t with
  | .main => { p with main := th }
  | .child n => { p with children := p.children.set n th }

section setThread

variable (p : Process) (t : Tid) (th : Thread)

@[simp] theorem setThread_totalNumOfThread :
    (p.setThread t th).totalNumOfThread = p.totalNumOfThread := by cases t <;> rfl

@[simp] theorem setThread_totalNumOfRunningThread :
    (p.setThread t th).totalNumOfRunningThread = p.totalNumOfRunningThread := by cases t <;> rfl

@[simp] theorem setThread_xthreadIdx : (p.setThread t th).xthreadIdx = p.xthreadIdx := by
  cases t <;> rfl

@[simp] theorem setThread_predictor : (p.setThread t th).predictor = p.predictor := by
  cases t <;> rfl

@[simp] theorem setThread_stageCalls : (p.setThread t th).stageCalls = p.stageCalls := by
  cases t <;> rfl

@[simp] theorem setThread_exited : (p.setThread t th).exited = p.exited := by
  cases t <;> rfl

@[simp] theorem setThread_length : (p.setThread t th).children.length = p.children.length := by
  cases t <;> simp [setThread]

variable {p t th} in
theorem thread_setThread_of_ne {t' : Tid} (h : t' ≠ t) :
    (p.setThread t' th).thread? t = p.thread? t := by
  cases t with
  | main =>
      cases t' with
      | main => exact absurd rfl h
      | child k => rfl
  | child n =>
      cases t' with
      | main => rfl
      | child k =>
          have hkn : k ≠ n := fun heq => h (by rw [heq])
          simp [setThread, thread?, hkn]

end setThread

/-- Something that holds of every thread. -/
def AllThreads (P : Thread → Prop) (p : Process) : Prop :=
  P p.main ∧ ∀ th ∈ p.children, P th

theorem AllThreads.of_thread {P : Thread → Prop} {p : Process} {t : Tid} {th : Thread}
    (h : p.AllThreads P) (hth : p.thread? t = some th) : P th := by
  cases t with
  | main => exact Option.some.inj hth ▸ h.1
  | child n => exact h.2 th (List.mem_of_getElem? hth)

theorem AllThreads.setThread {P : Thread → Prop} {p : Process} {t : Tid} {th : Thread}
    (h : p.AllThreads P) (hth : P th) : (p.setThread t th).AllThreads P := by
  cases t with
  | main => exact ⟨hth, h.2⟩
  | child n =>
      refine ⟨h.1, fun child hmem => ?_⟩
      rcases List.mem_or_eq_of_mem_set hmem with hold | rfl
      · exact h.2 child hold
      · exact hth

/-! ## Counters -/

def addARunningThread (p : Process) : Process :=
  { p with totalNumOfRunningThread := wrap 16 (p.totalNumOfRunningThread + 1) }

def subARunningThread (p : Process) : Process :=
  { p with totalNumOfRunningThread := wsub 16 p.totalNumOfRunningThread 1 }

def fromSerialToParallel (p : Process) : Bool := p.totalNumOfRunningThread == 2

def fromParallelToSerial (p : Process) : Bool := p.totalNumOfRunningThread == 1

def isCurrentlyParallelThread (p : Process) : Bool := p.totalNumOfRunningThread > 1

/-! ## Stage changes -/

/-- `Predictor::stopSerial`, called by `t` on its thread-local `l`. -/
def stopSerial (p : Process) (t : Tid) (l : PredictorLocal) : Process × PredictorLocal :=
  let (predictor, l) := p.predictor.stopSerial p.totalNumOfThread l
  ({ p with predictor, stageCalls := p.stageCalls ++ [(StageCall.stopSerial, t)] }, l)

def stopParallel (p : Process) (t : Tid) (l : PredictorLocal) : Process × PredictorLocal :=
  let (predictor, l) := p.predictor.stopParallel p.totalNumOfThread l
  ({ p with predictor, stageCalls := p.stageCalls ++ [(StageCall.stopParallel, t)] }, l)

/-- `threadEnd` on the thread's own slot. -/
def threadEnd (p : Process) (th : Thread) : Option Process :=
  (p.predictor.threadEnd th.runningThreadIndex th.predictor).map fun predictor =>
    { p with predictor }

/-- The test of `thread_create` by thread `t`. -/
def serialTest (p : Process) (t : Tid) (th : Thread) (stop : ClockStop) (start : ClockStart) :
    Process :=
  if p.fromSerialToParallel then
    let (p, l) := p.stopSerial t (th.predictor.stopClock stop)
    p.setThread t { th with pc := .createReal, predictor := l.startClock start }
  else p.setThread t { th with pc := .createReal }

/-- The test of `thread_join` by thread `t`; `ended` are the signals between
`threadEnd` and `stopParallel`. -/
def parallelTest (p : Process) (t : Tid) (th : Thread) (stop : ClockStop)
    (ended : List (Nat × Nat)) (start : ClockStart) : Option Process :=
  if p.fromParallelToSerial then
    let th := { th with predictor := th.predictor.stopClock stop }
    (p.threadEnd th).map fun p =>
      let (p, l) := p.stopParallel t (th.predictor.sampleHandlers ended)
      p.setThread t { th with pc := .running, predictor := l.startClock start }
  else some (p.setThread t { th with pc := .running })

/-- `xthreadMalloc` and the real create, by thread `t`. -/
def createReal (p : Process) (t : Tid) (th : Thread) : Option Process :=
  if p.xthreadIdx < maxThreadNumber then
    let p := p.setThread t { th with pc := .running }
    some { p with xthreadIdx := p.xthreadIdx + 1, children := p.children ++ [{}] }
  else none

/-- `startThread` up to the call of the thread's routine; the signals are
those from `initPMU2` on. -/
def startThread (p : Process) (t : Tid) (th : Thread) (start : ClockStart) : Option Process :=
  if p.totalNumOfThread < maxThreadNumber then
    let p := p.setThread t { th with
      pc := .running
      runningThreadIndex := p.totalNumOfThread
      predictor := th.predictor.threadInit.startClock start }
    some { p with totalNumOfThread := p.totalNumOfThread + 1 }
  else none

def threadExit (p : Process) (t : Tid) (th : Thread) (stop : ClockStop) : Option Process :=
  let th := { th with pc := .ended, predictor := th.predictor.stopClock stop }
  (p.threadEnd th).map fun p => p.setThread t th

/-- The real join of child `n` by thread `t` returns. -/
def joinReal (p : Process) (t : Tid) (th : Thread) (n : Nat) : Option Process :=
  match p.children[n]? with
  | some child =>
      if child.pc = .ended ∧ child.joined = false then
        some ((p.setThread (.child n) { child with joined := true }).setThread t
          { th with pc := .joinSub })
      else none
  | none => none

/-- `exitHandler`, on the thread that calls `exit`. -/
def exitHandler (p : Process) (t : Tid) (th : Thread) (stop : ClockStop) : Process :=
  let (p, l) := p.stopSerial t (th.predictor.stopClock stop)
  { p.setThread t { th with predictor := l } with exited := true }

/-- The thread `t`, while it runs the program. -/
def live? (p : Process) (t : Tid) : Option Thread :=
  if p.exited then none else (p.thread? t).filter fun th => th.pc.Live

def sampleHandler (p : Process) (t : Tid) (th : Thread) (stop start : Nat) : Process :=
  p.setThread t { th with predictor := th.predictor.sampleHandler stop start }

/-! ## Steps -/

inductive Action where
  /-- `addARunningThread` of `thread_create`. -/
  | createAdd
  | createTest (stop : ClockStop) (start : ClockStart)
  | createReal
  | startThread (start : ClockStart)
  /-- A tracked allocation call of a prediction class, with the readings
  around the real function. -/
  | call (type before after : Nat)
  | threadExit (stop : ClockStop)
  | joinReal (n : Nat)
  /-- `subARunningThread` of `thread_join`. -/
  | joinSub
  | joinTest (stop : ClockStop) (ended : List (Nat × Nat)) (start : ClockStart)
  | exitHandler (stop : ClockStop)
deriving DecidableEq, Repr

/-- Where a thread must be to take the action. -/
def Action.pc : Action → Pc
  | .createAdd | .call .. | .threadExit _ | .joinReal _ | .exitHandler _ => .running
  | .createTest .. => .createTest
  | .createReal => .createReal
  | .startThread _ => .created
  | .joinSub => .joinSub
  | .joinTest .. => .joinTest

/-- What the action of thread `t`, whose state is `th`, does. -/
def act (p : Process) (t : Tid) (th : Thread) : Action → Option Process
  | .createAdd => some (p.addARunningThread.setThread t { th with pc := .createTest })
  | .createTest stop start => some (p.serialTest t th stop start)
  | .createReal => p.createReal t th
  | .startThread start => p.startThread t th start
  | .call type before after =>
      if type < numOfAllocationType then
        some (p.setThread t { th with
          predictor := th.predictor.countCall p.predictor.replacedFunctionCycles type
            (cyclesInRealFunction before after) })
      else none
  | .threadExit stop => if t = .main then none else p.threadExit t th stop
  | .joinReal n => p.joinReal t th n
  | .joinSub => some (p.subARunningThread.setThread t { th with pc := .joinTest })
  | .joinTest stop ended start => p.parallelTest t th stop ended start
  | .exitHandler stop => some (p.exitHandler t th stop)

def step (p : Process) (i : Tid × Action) : Option Process :=
  if p.exited then none
  else
    match p.thread? i.1 with
    | some th => if th.pc = i.2.pc then p.act i.1 th i.2 else none
    | none => none

/-- `libmallocprof_main` up to the program's `main`. -/
def initial (info : PredictorInfo) (now : Nat) : Process :=
  let p : Process := { predictor := Predictor.globalInit { toPredictorInfo := info } }
  let p := p.addARunningThread
  { p with
    main := { p.main with
      runningThreadIndex := p.totalNumOfThread
      predictor := p.main.predictor.threadInit.outsideCycleStart now }
    totalNumOfThread := p.totalNumOfThread + 1 }

/-! ## What a step does -/

variable {p p' : Process} {t : Tid} {th : Thread} {a : Action}

/-- A step is an action of a thread that is at the right place. -/
theorem step_cases (h : p.step (t, a) = some p') :
    p.exited = false ∧ ∃ th, p.thread? t = some th ∧ th.pc = a.pc ∧ p.act t th a = some p' := by
  unfold step at h
  split at h
  · cases h
  · next hexit =>
      split at h
      · next th hth =>
          split at h
          · next hpc => exact ⟨by simpa using hexit, th, hth, hpc, h⟩
          · cases h
      · cases h

theorem threadEnd_cases (h : p.threadEnd th = some p') :
    ∃ predictor, p.predictor.threadEnd th.runningThreadIndex th.predictor = some predictor ∧
      p' = { p with predictor } := by
  obtain ⟨predictor, hend, rfl⟩ := Option.map_eq_some_iff.mp h
  exact ⟨predictor, hend, rfl⟩

theorem createReal_cases (h : p.createReal t th = some p') :
    p.xthreadIdx < maxThreadNumber ∧
      p' = { p.setThread t { th with pc := .running } with
        xthreadIdx := p.xthreadIdx + 1
        children := (p.setThread t { th with pc := .running }).children ++ [{}] } := by
  unfold createReal at h
  split at h
  · next hidx => exact ⟨hidx, by simpa using h.symm⟩
  · cases h

theorem startThread_cases {start : ClockStart} (h : p.startThread t th start = some p') :
    p.totalNumOfThread < maxThreadNumber ∧
      p' = { p.setThread t { th with
          pc := .running
          runningThreadIndex := p.totalNumOfThread
          predictor := th.predictor.threadInit.startClock start } with
        totalNumOfThread := p.totalNumOfThread + 1 } := by
  unfold startThread at h
  split at h
  · next hidx => exact ⟨hidx, by simpa using h.symm⟩
  · cases h

theorem joinReal_cases {n : Nat} (h : p.joinReal t th n = some p') :
    ∃ child, p.children[n]? = some child ∧ child.pc = .ended ∧ child.joined = false ∧
      p' = (p.setThread (.child n) { child with joined := true }).setThread t
        { th with pc := .joinSub } := by
  unfold joinReal at h
  split at h
  · next child hchild =>
      split at h
      · next hended => exact ⟨child, hchild, hended.1, hended.2, by simpa using h.symm⟩
      · cases h
  · cases h

/-- The thread that joins is not the one it joins. -/
theorem joinReal_ne {n : Nat} {child : Thread} (hth : p.thread? t = some th)
    (hpc : th.pc = .running) (hchild : p.children[n]? = some child) (hended : child.pc = .ended) :
    Tid.child n ≠ t := by
  rintro rfl
  obtain rfl : child = th := Option.some.inj (hchild.symm.trans hth)
  rw [hended] at hpc
  cases hpc

theorem threadExit_cases {stop : ClockStop} (h : p.threadExit t th stop = some p') :
    ∃ predictor, p.predictor.threadEnd th.runningThreadIndex (th.predictor.stopClock stop)
        = some predictor ∧
      p' = { p with predictor }.setThread t { th with
        pc := .ended, predictor := th.predictor.stopClock stop } := by
  obtain ⟨p1, hend, rfl⟩ := Option.map_eq_some_iff.mp h
  obtain ⟨predictor, hp, rfl⟩ := threadEnd_cases hend
  exact ⟨predictor, hp, rfl⟩

theorem parallelTest_cases {stop : ClockStop} {ended : List (Nat × Nat)} {start : ClockStart}
    (h : p.parallelTest t th stop ended start = some p') :
    p.totalNumOfRunningThread ≠ 1 ∧ p' = p.setThread t { th with pc := .running } ∨
    p.totalNumOfRunningThread = 1 ∧ ∃ predictor,
      p.predictor.threadEnd th.runningThreadIndex (th.predictor.stopClock stop)
        = some predictor ∧
      p' = { p with
          predictor := (predictor.stopParallel p.totalNumOfThread
            ((th.predictor.stopClock stop).sampleHandlers ended)).1
          stageCalls := p.stageCalls ++ [(StageCall.stopParallel, t)] }.setThread t { th with
        pc := .running
        predictor := (predictor.stopParallel p.totalNumOfThread
          ((th.predictor.stopClock stop).sampleHandlers ended)).2.startClock start } := by
  unfold parallelTest at h
  split at h
  · next hone =>
      obtain ⟨p1, hend, rfl⟩ := Option.map_eq_some_iff.mp h
      obtain ⟨predictor, hp, rfl⟩ := threadEnd_cases hend
      exact .inr ⟨by simpa [fromParallelToSerial] using hone, predictor, hp, rfl⟩
  · next hone => exact .inl ⟨by simpa [fromParallelToSerial] using hone, by simpa using h.symm⟩

variable (p t th) in
theorem serialTest_cases (stop : ClockStop) (start : ClockStart) :
    p.totalNumOfRunningThread ≠ 2 ∧
      p.serialTest t th stop start = p.setThread t { th with pc := .createReal } ∨
    p.totalNumOfRunningThread = 2 ∧
      p.serialTest t th stop start = { p with
          predictor := (p.predictor.stopSerial p.totalNumOfThread
            (th.predictor.stopClock stop)).1
          stageCalls := p.stageCalls ++ [(StageCall.stopSerial, t)] }.setThread t { th with
        pc := .createReal
        predictor := (p.predictor.stopSerial p.totalNumOfThread
          (th.predictor.stopClock stop)).2.startClock start } := by
  unfold serialTest
  split
  · next htwo => exact .inr ⟨by simpa [fromSerialToParallel] using htwo, rfl⟩
  · next htwo => exact .inl ⟨by simpa [fromSerialToParallel] using htwo, rfl⟩

theorem live?_cases (h : p.live? t = some th) :
    p.exited = false ∧ p.thread? t = some th ∧ th.pc.Live := by
  unfold live? at h
  split at h
  · cases h
  · next hexit =>
      obtain ⟨hth, hlive⟩ := Option.filter_eq_some_iff.mp h
      exact ⟨by simpa using hexit, hth, by simpa using hlive⟩

/-! ## Threads that have not started -/

theorem step_unstarted (h : p.step (t, a) = some p') (hp : p.AllThreads Thread.Unstarted) :
    p'.AllThreads Thread.Unstarted := by
  obtain ⟨-, th, hth, hpc, hact⟩ := step_cases h
  -- a step leaves its thread somewhere else than before its start
  have hmoved : ∀ th' : Thread, th'.pc ≠ .created → th'.Unstarted := fun _ hne hcreated =>
    absurd hcreated hne
  cases a with
  | createAdd | joinSub =>
      cases hact
      have hcount (n : Nat) : { p with totalNumOfRunningThread := n }.AllThreads Thread.Unstarted :=
        ⟨hp.1, hp.2⟩
      exact (hcount _).setThread (hmoved _ (by simp))
  | createTest stop start =>
      cases hact
      rcases serialTest_cases p t th stop start with ⟨-, heq⟩ | ⟨-, heq⟩
      · rw [heq]; exact hp.setThread (hmoved _ (by simp))
      · rw [heq]; exact AllThreads.setThread ⟨hp.1, hp.2⟩ (hmoved _ (by simp))
  | createReal =>
      obtain ⟨-, rfl⟩ := createReal_cases hact
      obtain ⟨hmain, hchildren⟩ :
          (p.setThread t { th with pc := .running }).AllThreads Thread.Unstarted :=
        hp.setThread (hmoved _ (by simp))
      refine ⟨hmain, fun child hmem => ?_⟩
      rcases List.mem_append.mp hmem with hold | hnew
      · exact hchildren child hold
      · obtain rfl := List.mem_singleton.mp hnew
        exact fun _ => rfl
  | startThread start =>
      obtain ⟨-, rfl⟩ := startThread_cases hact
      have hset : (p.setThread t { th with
          pc := .running
          runningThreadIndex := p.totalNumOfThread
          predictor := th.predictor.threadInit.startClock start }).AllThreads Thread.Unstarted :=
        hp.setThread (hmoved _ (by simp))
      exact ⟨hset.1, hset.2⟩
  | call type before after =>
      simp only [act] at hact
      split at hact
      · cases hact
        exact hp.setThread (hmoved _ (by simp [hpc, Action.pc]))
      · cases hact
  | threadExit stop =>
      simp only [act] at hact
      split at hact
      · cases hact
      · obtain ⟨predictor, -, rfl⟩ := threadExit_cases hact
        exact AllThreads.setThread ⟨hp.1, hp.2⟩ (hmoved _ (by simp))
  | joinReal n =>
      obtain ⟨child, hchild, hended, -, rfl⟩ := joinReal_cases hact
      refine AllThreads.setThread (hp.setThread (hmoved _ ?_)) (hmoved _ (by simp))
      simp [hended]
  | joinTest stop ended start =>
      rcases parallelTest_cases hact with ⟨-, rfl⟩ | ⟨-, predictor, -, rfl⟩
      · exact hp.setThread (hmoved _ (by simp))
      · exact AllThreads.setThread ⟨hp.1, hp.2⟩ (hmoved _ (by simp))
  | exitHandler stop =>
      cases hact
      have hset : ({ p with
          predictor := (p.predictor.stopSerial p.totalNumOfThread (th.predictor.stopClock stop)).1
          stageCalls := p.stageCalls ++ [(StageCall.stopSerial, t)] }.setThread t { th with
            predictor := (p.predictor.stopSerial p.totalNumOfThread
              (th.predictor.stopClock stop)).2 }).AllThreads Thread.Unstarted :=
        AllThreads.setThread ⟨hp.1, hp.2⟩ (hmoved _ (by simp [hpc, Action.pc]))
      exact ⟨hset.1, hset.2⟩

theorem sampleHandler_unstarted {stop start : Nat} (hlive : th.pc.Live)
    (hp : p.AllThreads Thread.Unstarted) :
    (p.sampleHandler t th stop start).AllThreads Thread.Unstarted :=
  hp.setThread fun hcreated => absurd hcreated hlive.1

end Process

end MemPerf
