import MemPerf.StageControl
import MemPerf.Lib.Run

/-!
# Stages alternate

Under every interleaving of the threads' steps the calls of `stopSerial`
and `stopParallel` alternate, starting with `stopSerial`; the main thread
makes all of them, and it makes one for each time the counter goes from
1 to 2 or from 2 to 1, at its next test.
-/

namespace MemPerf

open Word StepSystem

namespace Process

variable {p p' : Process} {t : Tid} {th : Thread} {a : Action}

/-! ## Every step follows the control -/

/-- The control is sound, and every child has its slot. -/
structure Sound (p : Process) : Prop where
  control : p.control.Sound
  slots : p.children.length = p.xthreadIdx
  slots_le : p.xthreadIdx ≤ maxThreadNumber

/-- Two for every child and one for the main thread, so the 16-bit
counter does not wrap. -/
theorem Sound.running_range (hp : p.Sound) :
    0 < p.totalNumOfRunningThread ∧ p.totalNumOfRunningThread + 1 < 2 ^ 16 := by
  have hcount := hp.control.counter
  have hle := hp.control.busy_le_unjoined
  have hlen : p.control.unjoined ≤ p.children.length := by
    have h1 := Tally.tally_le_length (f := fun child : Pc × Bool => if child.2 then 0 else 1)
      (l := p.control.children) fun child _ => by split <;> omega
    simpa [Process.control, Control.unjoined] using h1
  have hmain : p.control.main.busy ≤ 1 := by cases p.control.main <;> decide
  have hslots := hp.slots
  have hslots' := hp.slots_le
  have hrunning : p.control.running = p.totalNumOfRunningThread := rfl
  simp only [maxThreadNumber] at hslots'
  omega

theorem Sound.step_control (hp : p.Sound) (h : p.step (t, a) = some p') :
    p.control.move t a.move = some p'.control :=
  Process.step_control h hp.running_range.1 hp.running_range.2

/-- Only a real create takes a slot. -/
theorem step_slots (h : p.step (t, a) = some p') :
    p'.children.length = p.children.length ∧ p'.xthreadIdx = p.xthreadIdx ∨
    p.xthreadIdx < maxThreadNumber ∧ p'.children.length = p.children.length + 1 ∧
      p'.xthreadIdx = p.xthreadIdx + 1 := by
  obtain ⟨-, th, hth, hpc, hact⟩ := step_cases h
  cases a with
  | createAdd | joinSub =>
      cases hact
      simp [addARunningThread, subARunningThread]
  | createTest stop start =>
      cases hact
      rcases serialTest_cases p t th stop start with ⟨-, heq⟩ | ⟨-, heq⟩
        <;> simp [heq]
  | createReal =>
      obtain ⟨hidx, rfl⟩ := createReal_cases hact
      exact .inr ⟨hidx, by simp, rfl⟩
  | startThread start =>
      obtain ⟨-, rfl⟩ := startThread_cases hact
      simp
  | call type before after =>
      simp only [act] at hact
      split at hact
      · cases hact; simp
      · cases hact
  | threadExit stop =>
      simp only [act] at hact
      split at hact
      · cases hact
      · obtain ⟨predictor, -, rfl⟩ := threadExit_cases hact
        simp
  | joinReal n =>
      obtain ⟨child, -, -, -, rfl⟩ := joinReal_cases hact
      simp
  | joinTest stop ended start =>
      rcases parallelTest_cases hact with ⟨-, rfl⟩ | ⟨-, predictor, -, rfl⟩ <;> simp
  | exitHandler stop =>
      cases hact
      exact .inl ⟨setThread_length .., setThread_xthreadIdx ..⟩

theorem Sound.step (hp : p.Sound) (h : p.step (t, a) = some p') : p'.Sound := by
  refine ⟨hp.control.move (hp.step_control h), ?_, ?_⟩
  · rcases step_slots h with ⟨h1, h2⟩ | ⟨-, h1, h2⟩
    · rw [h1, h2, hp.slots]
    · rw [h1, h2, hp.slots]
  · rcases step_slots h with ⟨-, h2⟩ | ⟨h1, -, h2⟩
    · exact h2 ▸ hp.slots_le
    · omega

theorem Sound.sampleHandler {stop start : Nat} (hp : p.Sound) (hth : p.thread? t = some th) :
    (p.sampleHandler t th stop start).Sound where
  control := by rw [sampleHandler_control hth]; exact hp.control
  slots := by simpa [Process.sampleHandler] using hp.slots
  slots_le := by simpa [Process.sampleHandler] using hp.slots_le

theorem sound_initial (info : PredictorInfo) (now : Nat) : (initial info now).Sound where
  control := {
    counter := rfl
    joined_ended := fun child h => by cases h
    main_started := fun h => by cases h
    main_running := fun h => by cases h }
  slots := rfl
  slots_le := Nat.zero_le _

def Action.isExit : Action → Bool
  | .exitHandler _ => true
  | _ => false

theorem step_exited (h : p.step (t, a) = some p') : p'.exited = a.isExit := by
  obtain ⟨hexit, th, hth, hpc, hact⟩ := step_cases h
  cases a with
  | createAdd | joinSub =>
      cases hact
      simpa [Action.isExit, addARunningThread, subARunningThread] using hexit
  | createTest stop start =>
      cases hact
      rcases serialTest_cases p t th stop start with ⟨-, heq⟩ | ⟨-, heq⟩
        <;> simpa [heq, Action.isExit] using hexit
  | createReal =>
      obtain ⟨-, rfl⟩ := createReal_cases hact
      simpa [Action.isExit] using hexit
  | startThread start =>
      obtain ⟨-, rfl⟩ := startThread_cases hact
      simpa [Action.isExit] using hexit
  | call type before after =>
      simp only [act] at hact
      split at hact
      · cases hact; simpa [Action.isExit] using hexit
      · cases hact
  | threadExit stop =>
      simp only [act] at hact
      split at hact
      · cases hact
      · obtain ⟨predictor, -, rfl⟩ := threadExit_cases hact
        simpa [Action.isExit] using hexit
  | joinReal n =>
      obtain ⟨child, -, -, -, rfl⟩ := joinReal_cases hact
      simpa [Action.isExit] using hexit
  | joinTest stop ended start =>
      rcases parallelTest_cases hact with ⟨-, rfl⟩ | ⟨-, predictor, -, rfl⟩
        <;> simpa [Action.isExit] using hexit
  | exitHandler stop =>
      cases hact
      rfl

/-- A step calls what the control says, and nothing else. -/
theorem step_stageCalls (h : p.step (t, a) = some p') (hexit : a.isExit = false) :
    p'.stageCalls = p.stageCalls ++ (p.control.stageCall a.move).toList.map (·, t) := by
  obtain ⟨-, th, hth, hpc, hact⟩ := step_cases h
  have hrunning : p.control.running = p.totalNumOfRunningThread := rfl
  cases a with
  | createAdd | joinSub =>
      cases hact
      simp [Action.move, Control.stageCall, addARunningThread, subARunningThread]
  | createTest stop start =>
      cases hact
      rcases serialTest_cases p t th stop start with ⟨htwo, heq⟩ | ⟨htwo, heq⟩
        <;> simp [heq, Action.move, Control.stageCall, hrunning, htwo]
  | createReal =>
      obtain ⟨-, rfl⟩ := createReal_cases hact
      simp [Action.move, Control.stageCall]
  | startThread start =>
      obtain ⟨-, rfl⟩ := startThread_cases hact
      simp [Action.move, Control.stageCall]
  | call type before after =>
      simp only [act] at hact
      split at hact
      · cases hact; simp [Action.move, Control.stageCall]
      · cases hact
  | threadExit stop =>
      simp only [act] at hact
      split at hact
      · cases hact
      · obtain ⟨predictor, -, rfl⟩ := threadExit_cases hact
        simp [Action.move, Control.stageCall]
  | joinReal n =>
      obtain ⟨child, -, -, -, rfl⟩ := joinReal_cases hact
      simp [Action.move, Control.stageCall]
  | joinTest stop ended start =>
      rcases parallelTest_cases hact with ⟨hone, rfl⟩ | ⟨hone, predictor, -, rfl⟩
        <;> simp [Action.move, Control.stageCall, hrunning, hone]
  | exitHandler stop => cases hexit

end Process

/-! ## Watching the counter -/

/-- The crossings of the counter between one and two, and the threads
whose steps made them, next to the process. -/
structure Observed where
  process : Process
  crossings : List (StageCall × Tid) := []

/-- The counter goes from 1 to 2, or from 2 to 1. -/
def Process.crossing (p p' : Process) : Option StageCall :=
  if p.totalNumOfRunningThread = 1 ∧ p'.totalNumOfRunningThread = 2 then some .stopSerial
  else if p.totalNumOfRunningThread = 2 ∧ p'.totalNumOfRunningThread = 1 then some .stopParallel
  else none

namespace Observed

def step (o : Observed) (i : Tid × Process.Action) : Option Observed :=
  (o.process.step i).map fun p =>
    { process := p, crossings := o.crossings ++ (o.process.crossing p).toList.map (·, i.1) }

/-- No thread calls `exit`. -/
def NoExit (_ : List (Tid × Process.Action)) (_ : Observed) (i : Tid × Process.Action) : Prop :=
  i.2.isExit = false

/-- The `n`-th stage change of a program. -/
def stage (n : Nat) : StageCall := if n % 2 = 0 then .stopSerial else .stopParallel

/-- The calls alternate, the main thread makes them, and they are the
crossings of the counter, but for one the main thread has made and not
tested yet. -/
structure Alternates (o : Observed) : Prop where
  alternating : o.process.stageCalls.map Prod.fst
    = (List.range o.process.stageCalls.length).map stage
  by_main : ∀ call ∈ o.process.stageCalls, call.2 = .main
  at_crossings : o.crossings = o.process.stageCalls ∨
    o.crossings = o.process.stageCalls ++ [(.stopSerial, .main)] ∧
      o.process.main.pc = .createTest ∨
    o.crossings = o.process.stageCalls ++ [(.stopParallel, .main)] ∧
      o.process.main.pc = .joinTest

/-- What carries the alternation through a run. -/
structure Follows (o : Observed) : Prop where
  sound : o.process.Sound
  kinds : o.crossings.map Prod.fst = (List.range o.crossings.length).map stage
  phase : o.crossings.length % 2 = if o.process.totalNumOfRunningThread = 1 then 0 else 1
  by_main : ∀ crossing ∈ o.crossings, crossing.2 = .main
  calls : o.crossings
    = o.process.stageCalls ++ o.process.control.pending.toList.map (·, .main)

variable {o o' : Observed} {t : Tid} {a : Process.Action}

theorem Follows.alternates (ho : o.Follows) : o.Alternates := by
  have hkinds := ho.kinds
  have hmain := ho.by_main
  rw [ho.calls] at hkinds hmain
  refine ⟨?_, fun call hcall => hmain call (List.mem_append_left _ hcall), ?_⟩
  · have htake := congrArg (List.take o.process.stageCalls.length) hkinds
    simpa [← List.map_take, List.take_range] using htake
  · rw [ho.calls]
    rcases Control.pending_cases o.process.control with hp | ⟨hp, hpc⟩ | ⟨hp, hpc⟩
    · exact .inl (by simp [hp])
    · exact .inr (.inl ⟨by simp [hp], hpc⟩)
    · exact .inr (.inr ⟨by simp [hp], hpc⟩)

theorem Follows.initial (info : PredictorInfo) (now : Nat) :
    Follows { process := Process.initial info now } :=
  ⟨Process.sound_initial info now, rfl, rfl, fun _ h => (List.not_mem_nil h).elim, rfl⟩

/-- A crossing is the next stage change, and flips the phase. -/
theorem Follows.crossing_kind (ho : o.Follows) {p : Process}
    (h : o.process.control.move t a.move = some p.control) (crossings : List (StageCall × Tid))
    (hx : crossings = o.crossings ++ (o.process.crossing p).toList.map (·, t)) :
    crossings.map Prod.fst = (List.range crossings.length).map stage ∧
      crossings.length % 2 = if p.totalNumOfRunningThread = 1 then 0 else 1 := by
  have hphase := ho.phase
  obtain ⟨hpos, hpos', hup, hdown⟩ := ho.sound.control.move_running h
  simp only [Process.control] at hpos hpos' hup hdown
  subst hx
  unfold Process.crossing
  split
  · next hserial =>
      rw [if_pos hserial.1] at hphase
      have hstage : stage o.crossings.length = .stopSerial := if_pos hphase
      simp [List.range_succ, ho.kinds, hstage, hserial.2]
      omega
  · next hserial =>
      split
      · next hparallel =>
          rw [if_neg (by omega)] at hphase
          have hstage : stage o.crossings.length = .stopParallel := if_neg (by omega)
          simp [List.range_succ, ho.kinds, hstage, hparallel.2]
          omega
      · next hparallel =>
          simp only [Option.toList_none, List.map_nil, List.append_nil]
          refine ⟨ho.kinds, hphase.trans ?_⟩
          split <;> split <;> omega

theorem Follows.step (ho : o.Follows) (hexit : a.isExit = false)
    (h : o.step (t, a) = some o') : o'.Follows := by
  obtain ⟨p, hp, rfl⟩ := Option.map_eq_some_iff.mp h
  have hmove := ho.sound.step_control hp
  have hcalls := Process.step_stageCalls hp hexit
  obtain ⟨hkinds, hphase⟩ := ho.crossing_kind hmove _ rfl
  have hsound := ho.sound.step hp
  cases t with
  | main =>
      have hmain := ho.sound.control.main_calls hmove
      refine ⟨hsound, hkinds, hphase, fun crossing hmem => ?_, ?_⟩
      · rcases List.mem_append.mp hmem with hold | hnew
        · exact ho.by_main crossing hold
        · obtain ⟨-, -, rfl⟩ := List.mem_map.mp hnew
          rfl
      · have hx : o.process.crossing p = Control.crossing o.process.control p.control := rfl
        dsimp only
        rw [hx, ho.calls, hcalls, List.append_assoc, List.append_assoc, ← List.map_append, hmain,
          List.map_append]
  | child n =>
      obtain ⟨hpend, hpend', hcross, hcall⟩ := ho.sound.control.child_quiet hmove
      have hx : o.process.crossing p = none := hcross
      refine ⟨hsound, hkinds, hphase, ?_, ?_⟩
      · simpa [hx] using ho.by_main
      · simp [hx, hcalls, hcall, hpend', ho.calls, hpend]

end Observed

/-- **Stage changes alternate**, under every interleaving in which no
thread exits the program. -/
theorem stages_alternate {info : PredictorInfo} {now : Nat}
    {past : List (Tid × Process.Action)} {o : Observed}
    (h : Run Observed.step Observed.NoExit { process := Process.initial info now } past o) :
    o.Alternates :=
  (h.invariant Observed.Follows (.initial info now)
    fun _ _ i _ ho hexit hstep => ho.step (t := i.1) (a := i.2) hexit hstep).alternates

/-- The main thread creates a child and joins it after it has ended. -/
theorem stages_alternate_one_child :
    ∃ past o, Run Observed.step Observed.NoExit { process := Process.initial {} 1 } past o ∧
      o.process.stageCalls = [(.stopSerial, .main), (.stopParallel, .main)] ∧ o.Alternates := by
  let acts : List (Tid × Process.Action) :=
    [(.main, .createAdd), (.main, .createTest 5 6), (.main, .createReal),
      (.child 0, .startThread 7), (.child 0, .threadExit 9), (.main, .joinReal 0),
      (.main, .joinSub), (.main, .joinTest 10 [] 11)]
  have hcalls : ((acts.foldlM Observed.step { process := Process.initial {} 1 }).map
      fun o => o.process.stageCalls) = some [(.stopSerial, .main), (.stopParallel, .main)] := by
    decide +kernel
  obtain ⟨o, ho, hnum⟩ := Option.map_eq_some_iff.mp hcalls
  have hrun : Run Observed.step Observed.NoExit { process := Process.initial {} 1 } acts o := by
    have hno : ∀ i ∈ acts, i.2.isExit = false := by decide
    exact Run.ofFoldlM (fun i hi past o => hno i hi) ho
  exact ⟨acts, o, hrun, hnum, stages_alternate hrun⟩

end MemPerf
