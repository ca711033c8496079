import MemPerf.StageControl
import MemPerf.Lib.Run
import MemPerf.Lib.Tally

/-!
# Calls that may fail

`thread_create` and `thread_join` as whole calls, one after another, where
the real create and the real join of each may fail. The counter moves
before the create and after the join whatever these return.

`RealThreads` is what the counter is meant to say: how many created
threads are not joined yet, and which stage changes that number calls for.
-/

namespace MemPerf

open StepSystem Word Tally

namespace Process

/-! ## Whole calls -/

/-- The real create of thread `t` fails: `xthreadMalloc` is done already. -/
def createFails (p : Process) (t : Tid) : Option Process :=
  match p.thread? t with
  | some th =>
      if th.pc = .createReal ∧ p.xthreadIdx < maxThreadNumber then
        some { p.setThread t { th with pc := .running } with xthreadIdx := p.xthreadIdx + 1 }
      else none
  | none => none

/-- The real join of thread `t` fails. -/
def joinFails (p : Process) (t : Tid) : Option Process :=
  match p.thread? t with
  | some th => if th.pc = .running then some (p.setThread t { th with pc := .joinSub }) else none
  | none => none

/-- The readings are those around a stage change. -/
def threadCreate (p : Process) (t : Tid) (succeeds : Bool) (stop : ClockStop)
    (start : ClockStart) : Option Process := do
  let p ← p.step (t, .createAdd)
  let p ← p.step (t, .createTest stop start)
  if succeeds then p.step (t, .createReal) else p.createFails t

def threadJoin (p : Process) (t : Tid) (n : Nat) (succeeds : Bool) (stop : ClockStop)
    (ended : List (Nat × Nat)) (start : ClockStart) : Option Process := do
  let p ← (if succeeds then p.step (t, .joinReal n) else p.joinFails t)
  let p ← p.step (t, .joinSub)
  p.step (t, .joinTest stop ended start)

end Process

/-- The calls, and what the threads do between them. -/
inductive ThreadCall where
  | threadCreate (t : Tid) (succeeds : Bool) (stop : ClockStop) (start : ClockStart)
  | threadJoin (t : Tid) (n : Nat) (succeeds : Bool) (stop : ClockStop) (ended : List (Nat × Nat))
      (start : ClockStart)
  | startThread (t : Tid) (start : ClockStart)
  | call (t : Tid) (type before after : Nat)
  | threadExit (t : Tid) (stop : ClockStop)
deriving DecidableEq, Repr

/-- The real create or join of the call returns 0. -/
def ThreadCall.succeeds : ThreadCall → Bool
  | .threadCreate _ succeeds _ _ => succeeds
  | .threadJoin _ _ succeeds _ _ _ => succeeds
  | .startThread .. | .call .. | .threadExit .. => true

namespace Process

def callStep (p : Process) : ThreadCall → Option Process
  | .threadCreate t succeeds stop start => p.threadCreate t succeeds stop start
  | .threadJoin t n succeeds stop ended start => p.threadJoin t n succeeds stop ended start
  | .startThread t start => p.step (t, .startThread start)
  | .call t type before after => p.step (t, .call type before after)
  | .threadExit t stop => p.step (t, .threadExit stop)

end Process

/-! ## The threads there are -/

/-- The created threads that are not joined, and the stage changes so far. -/
structure RealThreads where
  unjoined : Nat := 0
  stageCalls : List (StageCall × Tid) := []
deriving DecidableEq, Repr

namespace RealThreads

/-- A stage ends when the first child is created and when the last one is
joined; a call that fails changes nothing. -/
def next (r : RealThreads) : ThreadCall → RealThreads
  | .threadCreate t true _ _ =>
      { unjoined := r.unjoined + 1
        stageCalls := if r.unjoined = 0 then r.stageCalls ++ [(.stopSerial, t)] else r.stageCalls }
  | .threadJoin t _ true _ _ _ =>
      { unjoined := r.unjoined - 1
        stageCalls :=
          if r.unjoined = 1 then r.stageCalls ++ [(.stopParallel, t)] else r.stageCalls }
  | _ => r

/-- After these calls, oldest first. -/
def after (past : List ThreadCall) : RealThreads := past.foldl next {}

theorem after_snoc (past : List ThreadCall) (c : ThreadCall) :
    after (past ++ [c]) = (after past).next c := by
  rw [after, after, List.foldl_append]
  rfl

end RealThreads

/-! ## What the counter sees -/

/-- The part of the process that the calls count. -/
structure ThreadCounts where
  running : Nat
  unjoined : Nat
  descriptors : Nat
  stageCalls : List (StageCall × Tid)

namespace ThreadCounts

open Process (Action)

def effect (c : ThreadCounts) (t : Tid) : Action → Option ThreadCounts
  | .createAdd => some { c with running := wrap 16 (c.running + 1) }
  | .createTest .. =>
      some { c with
        stageCalls := if c.running = 2 then c.stageCalls ++ [(.stopSerial, t)] else c.stageCalls }
  | .createReal =>
      if c.descriptors < maxThreadNumber then
        some { c with unjoined := c.unjoined + 1, descriptors := c.descriptors + 1 }
      else none
  | .joinReal _ => if c.unjoined = 0 then none else some { c with unjoined := c.unjoined - 1 }
  | .joinSub => some { c with running := wsub 16 c.running 1 }
  | .joinTest .. =>
      some { c with
        stageCalls := if c.running = 1 then c.stageCalls ++ [(.stopParallel, t)] else c.stageCalls }
  | .exitHandler _ => some { c with stageCalls := c.stageCalls ++ [(.stopSerial, t)] }
  | .startThread _ | .call .. | .threadExit _ => some c

/-- A whole call. -/
def call (c : ThreadCounts) : ThreadCall → Option ThreadCounts
  | .threadCreate t succeeds _ _ =>
      if c.descriptors < maxThreadNumber then
        let running := wrap 16 (c.running + 1)
        some {
          running
          unjoined := if succeeds then c.unjoined + 1 else c.unjoined
          descriptors := c.descriptors + 1
          stageCalls := if running = 2 then c.stageCalls ++ [(.stopSerial, t)] else c.stageCalls }
      else none
  | .threadJoin t _ succeeds _ _ _ =>
      if succeeds = true ∧ c.unjoined = 0 then none
      else
        let running := wsub 16 c.running 1
        some { c with
          running
          unjoined := if succeeds then c.unjoined - 1 else c.unjoined
          stageCalls := if running = 1 then c.stageCalls ++ [(.stopParallel, t)] else c.stageCalls }
  | .startThread .. | .call .. | .threadExit .. => some c

/-- Descriptors are not given back, so they bound the counter. -/
structure Bounded (c : ThreadCounts) : Prop where
  unjoined_le : c.unjoined ≤ c.descriptors
  descriptors_le : c.descriptors ≤ maxThreadNumber

end ThreadCounts

namespace Process

variable {p p' : Process} {t : Tid} {th th' : Thread} {a : Action}

/-- The created threads that are not joined. -/
def unjoined (p : Process) : Nat := tally (fun th => if th.joined then 0 else 1) p.children

def counts (p : Process) : ThreadCounts where
  running := p.totalNumOfRunningThread
  unjoined := p.unjoined
  descriptors := p.xthreadIdx
  stageCalls := p.stageCalls

@[simp] theorem counts_running : p.counts.running = p.totalNumOfRunningThread := rfl
@[simp] theorem counts_unjoined : p.counts.unjoined = p.unjoined := rfl
@[simp] theorem counts_descriptors : p.counts.descriptors = p.xthreadIdx := rfl
theorem unjoined_setThread (h : p.thread? t = some th) (hj : th'.joined = th.joined) :
    (p.setThread t th').unjoined = p.unjoined := by
  cases t with
  | main => rfl
  | child n =>
      have hn : p.children[n]? = some th := h
      have hset : p.children.set n th' = p.children.modify n fun _ => th' := by
        simpa using map_set_eq_modify (f := id) (g := fun _ => th') hn rfl
      have hsum := tally_modify (fun th : Thread => if th.joined then 0 else 1) (fun _ => th') hn
      simp only [unjoined, setThread, hset, hj] at hsum ⊢
      omega

/-- Where a thread is does not count. -/
theorem counts_setThread (h : p.thread? t = some th) (hj : th'.joined = th.joined) :
    (p.setThread t th').counts = p.counts := by
  simp only [counts, setThread_totalNumOfRunningThread, setThread_xthreadIdx,
    setThread_stageCalls, unjoined_setThread h hj]

theorem joinReal_counts {n : Nat} (hth : p.thread? t = some th) (hpc : th.pc = .running)
    (h : p.joinReal t th n = some p') : ∃ q : Process, q.thread? t = some th ∧
      p' = q.setThread t { th with pc := .joinSub } ∧
      q.counts = { p.counts with unjoined := p.unjoined - 1 } ∧ 0 < p.unjoined := by
  obtain ⟨child, hchild, hended, hjoined, rfl⟩ := joinReal_cases h
  have hne := joinReal_ne hth hpc hchild hended
  have hset : p.children.set n { child with joined := true } =
      p.children.modify n fun _ => { child with joined := true } := by
    simpa using map_set_eq_modify (f := id) (g := fun _ => { child with joined := true }) hchild rfl
  have hsum := tally_modify (fun th : Thread => if th.joined then 0 else 1)
    (fun _ => { child with joined := true }) hchild
  rw [← hset, if_neg (by simp [hjoined]), if_pos rfl] at hsum
  refine ⟨p.setThread (.child n) { child with joined := true },
    (thread_setThread_of_ne hne).trans hth, rfl, ?_, ?_⟩
  · simp only [counts, setThread, unjoined]
    congr 1
    omega
  · simp only [unjoined]
    omega

theorem thread_running (running : Nat) (t : Tid) :
    { p with totalNumOfRunningThread := running }.thread? t = p.thread? t := by
  cases t <;> rfl

theorem counts_withRunning (running : Nat) :
    { p with totalNumOfRunningThread := running }.counts = { p.counts with running } := rfl

/-- A step of the process is a step of its counts. -/
theorem step_counts (h : p.step (t, a) = some p') : p.counts.effect t a = some p'.counts := by
  obtain ⟨-, th, hth, hpc, hact⟩ := step_cases h
  have hstage : ∀ (predictor : Predictor) (calls : List (StageCall × Tid)),
      { p with predictor, stageCalls := calls }.thread? t = some th := by
    intro predictor calls
    cases t <;> exact hth
  cases a with
  | createAdd =>
      cases hact
      rw [addARunningThread, counts_setThread ((thread_running _ _).trans hth) (by rfl),
        ThreadCounts.effect, counts_running]
      exact congrArg some (counts_withRunning _).symm
  | createTest stop start =>
      cases hact
      rcases serialTest_cases p t th stop start with ⟨hne, heq⟩ | ⟨htwo, heq⟩
      · rw [heq, counts_setThread hth (by rfl), ThreadCounts.effect, counts_running, if_neg hne]
        rfl
      · rw [heq, counts_setThread (hstage _ _) (by rfl), ThreadCounts.effect, counts_running,
          if_pos htwo]
        rfl
  | createReal =>
      obtain ⟨hidx, rfl⟩ := createReal_cases hact
      have hsame : (p.setThread t { th with pc := .running }).unjoined = p.unjoined :=
        unjoined_setThread hth rfl
      rw [ThreadCounts.effect, counts_descriptors, if_pos hidx]
      simp only [counts, unjoined, tally_append] at hsame ⊢
      rw [hsame]
      simp
  | startThread start =>
      obtain ⟨-, rfl⟩ := startThread_cases hact
      have hcounts : (p.setThread t { th with
          pc := .running
          runningThreadIndex := p.totalNumOfThread
          predictor := th.predictor.threadInit.startClock start }).counts = p.counts :=
        counts_setThread hth rfl
      exact congrArg some hcounts.symm
  | call type before after =>
      simp only [act] at hact
      split at hact
      · cases hact
        rw [counts_setThread hth (by rfl)]
        rfl
      · cases hact
  | threadExit stop =>
      simp only [act] at hact
      split at hact
      · cases hact
      · obtain ⟨predictor, -, rfl⟩ := threadExit_cases hact
        rw [counts_setThread (hstage predictor p.stageCalls) (by rfl)]
        rfl
  | joinReal n =>
      obtain ⟨q, hq, rfl, hcounts, hpos⟩ := joinReal_counts hth hpc hact
      rw [counts_setThread hq (by rfl), hcounts, ThreadCounts.effect, counts_unjoined,
        if_neg hpos.ne']
  | joinSub =>
      cases hact
      rw [subARunningThread, counts_setThread ((thread_running _ _).trans hth) (by rfl),
        ThreadCounts.effect, counts_running]
      exact congrArg some (counts_withRunning _).symm
  | joinTest stop ended start =>
      rcases parallelTest_cases hact with ⟨hne, rfl⟩ | ⟨hone, predictor, -, rfl⟩
      · rw [counts_setThread hth (by rfl), ThreadCounts.effect, counts_running, if_neg hne]
        rfl
      · rw [counts_setThread (hstage _ _) (by rfl), ThreadCounts.effect, counts_running,
          if_pos hone]
        rfl
  | exitHandler stop =>
      cases hact
      have hcounts := hstage
        (p.predictor.stopSerial p.totalNumOfThread (th.predictor.stopClock stop)).1
        (p.stageCalls ++ [(.stopSerial, t)])
      rw [exitHandler]
      exact congrArg some (counts_setThread hcounts (by rfl)).symm

theorem createFails_counts (h : p.createFails t = some p') :
    p.xthreadIdx < maxThreadNumber ∧
      p'.counts = { p.counts with descriptors := p.xthreadIdx + 1 } := by
  unfold createFails at h
  split at h
  · next th hth =>
      split at h
      · next hidx =>
          cases h
          have hcounts : (p.setThread t { th with pc := .running }).counts = p.counts :=
            counts_setThread hth rfl
          refine ⟨hidx.2, ?_⟩
          rw [← hcounts]
          rfl
      · cases h
  · cases h

theorem joinFails_counts (h : p.joinFails t = some p') : p'.counts = p.counts := by
  unfold joinFails at h
  split at h
  · next th hth =>
      split at h
      · cases h
        exact counts_setThread hth rfl
      · cases h
  · cases h

theorem threadCreate_counts {succeeds : Bool} {stop : ClockStop} {start : ClockStart}
    (h : p.threadCreate t succeeds stop start = some p') :
    p.counts.call (.threadCreate t succeeds stop start) = some p'.counts := by
  obtain ⟨p₁, hadd, h⟩ := Option.bind_eq_some_iff.mp h
  obtain ⟨p₂, htest, h⟩ := Option.bind_eq_some_iff.mp h
  have h₁ := Option.some.inj (step_counts hadd)
  have h₂ := Option.some.inj (step_counts htest)
  rw [← h₁] at h₂
  cases succeeds with
  | true =>
      have h₃ := step_counts h
      rw [← h₂, ThreadCounts.effect] at h₃
      rw [← h₃]
      rfl
  | false =>
      obtain ⟨hidx, h₃⟩ := createFails_counts h
      rw [← counts_descriptors, ← h₂] at hidx
      rw [h₃, ← counts_descriptors, ← h₂, ThreadCounts.call, if_pos hidx]
      rfl

theorem threadJoin_counts {n : Nat} {succeeds : Bool} {stop : ClockStop}
    {ended : List (Nat × Nat)} {start : ClockStart}
    (h : p.threadJoin t n succeeds stop ended start = some p') :
    p.counts.call (.threadJoin t n succeeds stop ended start) = some p'.counts := by
  obtain ⟨p₁, hjoin, h⟩ := Option.bind_eq_some_iff.mp h
  obtain ⟨p₂, hsub, htest⟩ := Option.bind_eq_some_iff.mp h
  have h₂ := Option.some.inj (step_counts hsub)
  have h₃ := Option.some.inj (step_counts htest)
  rw [← h₃, ← h₂]
  cases succeeds with
  | true =>
      have h₁ := step_counts hjoin
      simp only [ThreadCounts.effect] at h₁
      split at h₁
      · cases h₁
      · next hpos =>
          rw [ThreadCounts.call, if_neg fun hno => hpos hno.2, ← Option.some.inj h₁]
          rfl
  | false =>
      rw [joinFails_counts hjoin]
      rfl

/-- A whole call of the process is a whole call of its counts. -/
theorem callStep_counts {i : ThreadCall} (h : p.callStep i = some p') :
    p.counts.call i = some p'.counts := by
  cases i with
  | threadCreate t succeeds stop start => exact threadCreate_counts h
  | threadJoin t n succeeds stop ended start => exact threadJoin_counts h
  | startThread t start => exact step_counts h
  | call t type before after => exact step_counts h
  | threadExit t stop => exact step_counts h

end Process

/-! ## Which calls the counter survives -/

namespace ThreadCounts

variable {c c' : ThreadCounts} {i : ThreadCall} {r : RealThreads}

theorem Bounded.call (hb : c.Bounded) (h : c.call i = some c') : c'.Bounded := by
  obtain ⟨hle, hmax⟩ := hb
  cases i with
  | threadCreate t succeeds stop start =>
      simp only [ThreadCounts.call] at h
      split at h
      · next hidx =>
          cases h
          refine ⟨?_, hidx⟩
          dsimp only
          split <;> omega
      · cases h
  | threadJoin t n succeeds stop ended start =>
      simp only [ThreadCounts.call] at h
      split at h
      · cases h
      · obtain rfl := Option.some.inj h
        refine ⟨?_, hmax⟩
        dsimp only
        split <;> omega
  | startThread t start => cases h; exact ⟨hle, hmax⟩
  | call t type before after => cases h; exact ⟨hle, hmax⟩
  | threadExit t stop => cases h; exact ⟨hle, hmax⟩

/-- The children of the process are the ones there really are, whatever
fails. -/
theorem call_unjoined (hu : c.unjoined = r.unjoined) (h : c.call i = some c') :
    c'.unjoined = (r.next i).unjoined := by
  cases i with
  | threadCreate t succeeds stop start =>
      simp only [ThreadCounts.call] at h
      split at h
      · cases h
        cases succeeds with
        | true => exact congrArg (· + 1) hu
        | false => exact hu
      · cases h
  | threadJoin t n succeeds stop ended start =>
      simp only [ThreadCounts.call] at h
      split at h
      · cases h
      · obtain rfl := Option.some.inj h
        cases succeeds with
        | true => exact congrArg (· - 1) hu
        | false => exact hu
  | startThread t start => cases h; exact hu
  | call t type before after => cases h; exact hu
  | threadExit t stop => cases h; exact hu

/-- The counter and the stage changes are the ones the real threads call for. -/
structure Agrees (c : ThreadCounts) (r : RealThreads) : Prop where
  running : c.running = 1 + r.unjoined
  stageCalls : c.stageCalls = r.stageCalls

/-- From a counter that is right, the next call leaves a right one exactly
if its real create or join succeeds. -/
theorem Agrees.call_iff (ha : c.Agrees r) (hb : c.Bounded) (hu : c.unjoined = r.unjoined)
    (h : c.call i = some c') : c'.Agrees (r.next i) ↔ i.succeeds = true := by
  obtain ⟨hrunning, hstage⟩ := ha
  obtain ⟨hle, hmax⟩ := hb
  have hsmall : r.unjoined ≤ maxThreadNumber := by omega
  simp only [maxThreadNumber] at hsmall
  have hadd : wrap 16 (c.running + 1) = 2 + r.unjoined := by
    rw [wrap_of_lt (by omega), hrunning]
    omega
  have hsub : wsub 16 c.running 1 = r.unjoined := by
    rw [wsub_of_le (by omega) (by omega), hrunning]
    omega
  cases i with
  | threadCreate t succeeds stop start =>
      simp only [ThreadCounts.call] at h
      split at h
      · cases h
        rw [hadd]
        cases succeeds with
        | true =>
            refine iff_of_true ⟨?_, ?_⟩ rfl
            · simp only [RealThreads.next]
              omega
            · simp only [RealThreads.next, hstage]
              exact if_congr (by omega) rfl rfl
        | false =>
            refine iff_of_false (fun hno => ?_) (by simp [ThreadCall.succeeds])
            have hcount : 2 + r.unjoined = 1 + r.unjoined := hno.running
            omega
      · cases h
  | threadJoin t n succeeds stop ended start =>
      simp only [ThreadCounts.call] at h
      split at h
      · cases h
      · next hjoinable =>
          obtain rfl := Option.some.inj h
          rw [hsub]
          cases succeeds with
          | true =>
              have hpos : c.unjoined ≠ 0 := fun hzero => hjoinable ⟨rfl, hzero⟩
              refine iff_of_true ⟨?_, ?_⟩ rfl
              · simp only [RealThreads.next]
                omega
              · simp only [RealThreads.next, hstage]
          | false =>
              refine iff_of_false (fun hno => ?_) (by simp [ThreadCall.succeeds])
              have hcount : r.unjoined = 1 + r.unjoined := hno.running
              omega
  | startThread t start => cases h; exact iff_of_true ⟨hrunning, hstage⟩ rfl
  | call t type before after => cases h; exact iff_of_true ⟨hrunning, hstage⟩ rfl
  | threadExit t stop => cases h; exact iff_of_true ⟨hrunning, hstage⟩ rfl

end ThreadCounts

namespace Process

/-- The counter is one more than the unjoined threads, the three tests say
what it says, and the stage changed when that number called for it. -/
structure Reflects (r : RealThreads) (p : Process) : Prop where
  running : p.totalNumOfRunningThread = 1 + r.unjoined
  unjoined : p.unjoined = r.unjoined
  parallel : p.isCurrentlyParallelThread = true ↔ 1 < 1 + r.unjoined
  toParallel : p.fromSerialToParallel = true ↔ 1 + r.unjoined = 2
  toSerial : p.fromParallelToSerial = true ↔ 1 + r.unjoined = 1
  stageCalls : p.stageCalls = r.stageCalls

variable {p p' : Process} {info : PredictorInfo} {now : Nat} {past : List ThreadCall}
  {i : ThreadCall} {r : RealThreads}

theorem reflects_iff (hu : p.unjoined = r.unjoined) : p.Reflects r ↔ p.counts.Agrees r := by
  constructor
  · exact fun h => ⟨h.running, h.stageCalls⟩
  · rintro ⟨hrunning, hstage⟩
    rw [counts_running] at hrunning
    refine ⟨hrunning, hu, ?_, ?_, ?_, hstage⟩
    · simp [isCurrentlyParallelThread, hrunning]
    · simp [fromSerialToParallel, hrunning]
    · simp [fromParallelToSerial, hrunning]

/-- What holds in every run, whatever fails. -/
theorem run_counts (h : Run callStep (fun _ _ _ => True) (initial info now) past p) :
    p.counts.Bounded ∧ p.unjoined = (RealThreads.after past).unjoined := by
  refine h.inv (fun past p => p.counts.Bounded ∧ p.unjoined = (RealThreads.after past).unjoined)
    ⟨⟨Nat.le_refl 0, Nat.zero_le _⟩, rfl⟩ ?_
  rintro past p i p' - ⟨hb, hu⟩ - hstep
  have hcall := callStep_counts hstep
  rw [RealThreads.after_snoc]
  exact ⟨hb.call hcall, ThreadCounts.call_unjoined hu hcall⟩

theorem initial_reflects : (initial info now).Reflects {} :=
  (reflects_iff rfl).mpr ⟨rfl, rfl⟩

/-- One more call of a run. -/
theorem Reflects.call_iff (h : Run callStep (fun _ _ _ => True) (initial info now) past p)
    (hr : p.Reflects (RealThreads.after past)) (hstep : p.callStep i = some p') :
    p'.Reflects (RealThreads.after (past ++ [i])) ↔ i.succeeds = true := by
  obtain ⟨hb, hu⟩ := run_counts h
  have hu' := (run_counts (h.snoc trivial hstep)).2
  rw [reflects_iff hu', RealThreads.after_snoc]
  exact ((reflects_iff hu).mp hr).call_iff hb hu (callStep_counts hstep)

/-- Every state of the run is reflected in the counter. -/
def ReflectsThroughout (info : PredictorInfo) (now : Nat) (past : List ThreadCall) : Prop :=
  ∀ front p, front <+: past → Run callStep (fun _ _ _ => True) (initial info now) front p →
    p.Reflects (RealThreads.after front)

/-- A run reflects its threads throughout if and only if every real create
and join of it succeeds. -/
theorem reflects_throughout_iff
    (h : Run callStep (fun _ _ _ => True) (initial info now) past p) :
    ReflectsThroughout info now past ↔ ∀ i ∈ past, i.succeeds = true := by
  constructor
  · intro hall
    induction h with
    | nil => simp
    | @snoc past p i p' hrun _ hstep ih =>
        have hfront := fun front q hfirst =>
          hall front q (List.IsPrefix.trans hfirst (List.prefix_append past [i]))
        have hlast := hall _ p' (List.prefix_refl _) (hrun.snoc trivial hstep)
        have hi := (Reflects.call_iff hrun (hfront past p (List.prefix_refl _) hrun) hstep).mp hlast
        intro j hj
        rcases List.mem_append.mp hj with hold | hnew
        · exact ih hfront j hold
        · rw [List.mem_singleton.mp hnew, hi]
  · rintro hsucceeds front q hfirst hrun
    have hrun' := hrun.withInputs fun i hi => hsucceeds i (hfirst.subset hi)
    refine hrun'.inv (fun past p => p.Reflects (RealThreads.after past)) initial_reflects ?_
    rintro past p i p' hpast hr ⟨hi, -⟩ hstep
    have hpast' := hpast.weaken fun _ _ _ _ => trivial
    exact (Reflects.call_iff hpast' hr hstep).mpr hi

/-- The first create succeeds. -/
theorem reflects_throughout_one_child :
    ∃ p, Run callStep (fun _ _ _ => True) (initial {} 1) [.threadCreate .main true 5 6] p ∧
      p.stageCalls = [(.stopSerial, .main)] ∧
      ReflectsThroughout {} 1 [.threadCreate .main true 5 6] := by
  have hstages : ((initial {} 1).callStep (.threadCreate .main true 5 6)).map Process.stageCalls =
      some [(.stopSerial, .main)] := by
    decide +kernel
  obtain ⟨p, hp, hnum⟩ := Option.map_eq_some_iff.mp hstages
  have hrun : Run callStep (fun _ _ _ => True) (initial {} 1) [.threadCreate .main true 5 6] p :=
    Run.nil.snoc trivial hp
  exact ⟨p, hrun, hnum, (reflects_throughout_iff hrun).mpr (by decide)⟩

/-- The first create fails: no thread but the main one, and still the
serial stage is over. -/
theorem failed_create_counted :
    ∃ p, Run callStep (fun _ _ _ => True) (initial {} 1) [.threadCreate .main false 5 6] p ∧
      p.children.length = 0 ∧ p.totalNumOfRunningThread = 2 ∧
      p.stageCalls = [(.stopSerial, .main)] ∧
      ¬ ReflectsThroughout {} 1 [.threadCreate .main false 5 6] := by
  have hstep : ((initial {} 1).callStep (.threadCreate .main false 5 6)).map
      (fun p => (p.children.length, p.totalNumOfRunningThread, p.stageCalls)) =
      some (0, 2, [(.stopSerial, .main)]) := by
    decide +kernel
  obtain ⟨p, hp, hfields⟩ := Option.map_eq_some_iff.mp hstep
  obtain ⟨hchildren, hrunning, hstages⟩ : p.children.length = 0 ∧
      p.totalNumOfRunningThread = 2 ∧ p.stageCalls = [(.stopSerial, .main)] := by
    simpa using hfields
  have hrun : Run callStep (fun _ _ _ => True) (initial {} 1)
      [.threadCreate .main false 5 6] p := Run.nil.snoc trivial hp
  refine ⟨p, hrun, hchildren, hrunning, hstages, fun hall => ?_⟩
  have hcount := (hall _ p (List.prefix_refl _) hrun).running
  rw [hrunning] at hcount
  cases hcount

end Process

end MemPerf
