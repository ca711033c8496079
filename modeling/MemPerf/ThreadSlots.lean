import MemPerf.ThreadMeters

/-!
# Every thread its own slots

What one step of a thread does to the slots and the totals: nothing, or
it ends a stage, or the thread starts or ends. All other threads keep
their times, and its own follow the clock events of the step. Hence live
threads have different slots, and these stay empty until `threadEnd` fills
them.
-/

namespace MemPerf

open Word

/-! ## The predictor's slots -/

namespace Predictor

variable {p p' : Predictor} {l : PredictorLocal} {index total i : Nat}

/-- Nothing is in the slots of the thread. -/
def EmptySlots (p : Predictor) (index : Nat) : Prop :=
  p.threadCycle index = 0 ∧ p.threadReplacedCycle index = 0

/-- The predicted totals are 64-bit values. -/
def TotalsFit (p : Predictor) : Prop :=
  p.replacedCriticalCycle < 2 ^ 64 ∧ p.replacedCriticalCycleDepend < 2 ^ 64

theorem threadEnd_totals (h : p.threadEnd index l = some p') :
    p'.replacedCriticalCycle = p.replacedCriticalCycle ∧
      p'.replacedCriticalCycleDepend = p.replacedCriticalCycleDepend := by
  simp only [threadEnd] at h
  split at h
  · cases h; exact ⟨rfl, rfl⟩
  · split at h
    · cases h
    · split at h <;> cases h <;> exact ⟨rfl, rfl⟩

theorem cleanStageData_slots : (i < total → (p.cleanStageData total).EmptySlots i) ∧
    (p.EmptySlots i → (p.cleanStageData total).EmptySlots i) := by
  simp only [cleanStageData, EmptySlots]
  constructor
  · intro hi; simp [hi]
  · intro h; simp [h.1, h.2]

theorem threadEnd_others (h : p.threadEnd index l = some p') (hi : i ≠ index)
    (hempty : p.EmptySlots i) : p'.EmptySlots i := by
  obtain ⟨-, -, hcycle, hreplaced⟩ := threadEnd_slots h
  refine ⟨?_, ?_⟩
  · rw [hcycle, Function.update_of_ne hi, hempty.1]
  · rw [hreplaced, Function.update_of_ne hi, hempty.2]

theorem addReplaced_lt (l : PredictorLocal) (replaced : Nat → Nat) (acc : Nat) :
    l.addReplaced replaced acc < 2 ^ 64 := addProducts_lt _ _ _ (wsub_lt ..)

theorem stopSerial_fit (l : PredictorLocal) : (p.stopSerial total l).1.TotalsFit :=
  ⟨addReplaced_lt .., addReplaced_lt ..⟩

theorem stopParallel_fit (l : PredictorLocal) : (p.stopParallel total l).1.TotalsFit :=
  ⟨wrap_lt .., wrap_lt ..⟩

end Predictor

/-! ## A thread's own clock -/

namespace PredictorLocal

variable (l : PredictorLocal)

def clock (l : PredictorLocal) : ClockEvent → PredictorLocal
  | .start r => l.outsideCycleStart r
  | .stop r => l.outsideCyclesStop r
  | .clear => l.threadInit

def clocks (events : List ClockEvent) : PredictorLocal := events.foldl clock l

@[simp] theorem clocks_nil : l.clocks [] = l := rfl

@[simp] theorem clocks_cons (event : ClockEvent) (events : List ClockEvent) :
    l.clocks (event :: events) = (l.clock event).clocks events := rfl

@[simp] theorem clocks_append (events events' : List ClockEvent) :
    l.clocks (events ++ events') = (l.clocks events).clocks events' := List.foldl_append

@[simp] theorem clock_clear : l.clock .clear = l.threadInit := rfl

@[simp] theorem clocks_signals (signals : List (Nat × Nat)) :
    l.clocks (signalEvents signals) = l.sampleHandlers signals := by
  induction signals generalizing l with
  | nil => rfl
  | cons signal signals ih => exact ih (l.sampleHandler signal.1 signal.2)

@[simp] theorem clocks_stopClock (stop : ClockStop) : l.clocks stop.events = l.stopClock stop :=
  clocks_signals ..

@[simp] theorem clocks_startClock (start : ClockStart) :
    l.clocks start.events = l.startClock start := by
  rw [ClockStart.events, clocks_append, clocks_signals]
  rfl

end PredictorLocal

/-! ## What a step leaves and what it does -/

namespace Process

/-- Thread `t` lives only if it did before, with the same slots. -/
def KeepsThread (p p' : Process) (t : Tid) : Prop :=
  ∀ th', p'.thread? t = some th' → th'.pc.Live →
    ∃ th, p.thread? t = some th ∧ th.pc.Live ∧ th'.runningThreadIndex = th.runningThreadIndex

/-- And with the same times. -/
def KeepsTimes (p p' : Process) (t : Tid) : Prop :=
  ∀ th', p'.thread? t = some th' → th'.pc.Live →
    ∃ th, p.thread? t = some th ∧ th.pc.Live ∧ th'.runningThreadIndex = th.runningThreadIndex ∧
      th'.predictor = th.predictor

variable {p p' : Process} {t t' : Tid} {th th' : Thread} {a : Action}

theorem KeepsTimes.thread (h : p.KeepsTimes p' t) : p.KeepsThread p' t := by
  intro th' hth' hlive
  obtain ⟨th, hth, hl, hindex, -⟩ := h th' hth' hlive
  exact ⟨th, hth, hl, hindex⟩

theorem KeepsTimes.of_eq (h : p'.thread? t = p.thread? t) : p.KeepsTimes p' t :=
  fun th' hth' hlive => ⟨th', h ▸ hth', hlive, rfl, rfl⟩

theorem thread?_setThread_self (h : (p.setThread t th).thread? t = some th') : th' = th := by
  cases t with
  | main => exact (Option.some.inj h).symm
  | child n =>
      have hn : (p.children.set n th)[n]? = some th' := h
      rw [List.getElem?_set_self'] at hn
      cases hold : p.children[n]? with
      | none => rw [hold] at hn; cases hn
      | some child => rw [hold] at hn; exact (Option.some.inj hn).symm

theorem thread?_counted (p : Process) (t : Tid) (n : Nat) :
    { p with totalNumOfRunningThread := n }.thread? t = p.thread? t := by
  cases t <;> rfl

theorem step_keepsTimes (h : p.step (t, a) = some p') (hne : t ≠ t') : p.KeepsTimes p' t' := by
  obtain ⟨-, th, hth, hpc, hact⟩ := step_cases h
  cases a with
  | createAdd =>
      cases hact
      exact .of_eq ((thread_setThread_of_ne hne).trans (thread?_counted p t' _))
  | joinSub =>
      cases hact
      exact .of_eq ((thread_setThread_of_ne hne).trans (thread?_counted p t' _))
  | createTest stop start =>
      cases hact
      rcases serialTest_cases p t th stop start with ⟨-, heq⟩ | ⟨-, heq⟩ <;> rw [heq]
      · exact .of_eq (thread_setThread_of_ne hne)
      · exact .of_eq (thread_setThread_of_ne hne)
  | createReal =>
      obtain ⟨-, rfl⟩ := createReal_cases hact
      intro th' hth' hlive
      have hold : (p.setThread t { th with pc := .running }).thread? t' = p.thread? t' :=
        thread_setThread_of_ne hne
      cases t' with
      | main => exact ⟨th', hold ▸ hth', hlive, rfl, rfl⟩
      | child n =>
          -- the new child has not started
          have hnth : ((p.setThread t { th with pc := .running }).children ++ [({} : Thread)])[n]?
              = some th' := hth'
          rw [List.getElem?_append] at hnth
          split at hnth
          · exact ⟨th', hold ▸ hnth, hlive, rfl, rfl⟩
          · have hnew := List.eq_of_mem_singleton (List.mem_of_getElem? hnth)
            exact absurd (by rw [hnew]) hlive.1
  | startThread start =>
      obtain ⟨-, rfl⟩ := startThread_cases hact
      exact .of_eq (thread_setThread_of_ne hne)
  | call type before after =>
      simp only [act] at hact
      split at hact
      · cases hact
        exact .of_eq (thread_setThread_of_ne hne)
      · cases hact
  | threadExit stop =>
      simp only [act] at hact
      split at hact
      · cases hact
      · obtain ⟨predictor, -, rfl⟩ := threadExit_cases hact
        exact .of_eq (thread_setThread_of_ne hne)
  | joinReal n =>
      obtain ⟨child, hchild, hended, -, rfl⟩ := joinReal_cases hact
      by_cases hn : Tid.child n = t'
      · -- a joined thread has ended
        subst hn
        intro th' hth' hlive
        rw [thread_setThread_of_ne hne] at hth'
        rw [thread?_setThread_self hth'] at hlive
        exact absurd hended hlive.2
      · exact .of_eq ((thread_setThread_of_ne hne).trans (thread_setThread_of_ne hn))
  | joinTest stop ended start =>
      rcases parallelTest_cases hact with ⟨-, rfl⟩ | ⟨-, predictor, -, rfl⟩
      · exact .of_eq (thread_setThread_of_ne hne)
      · exact .of_eq (thread_setThread_of_ne hne)
  | exitHandler stop =>
      cases hact
      exact .of_eq (thread_setThread_of_ne hne)

/-- A thread's own times follow the clock events of its step. -/
theorem step_clocks (h : p.step (t, a) = some p') (hth : p.thread? t = some th)
    (hcall : ∀ type before after, a ≠ .call type before after) (hth' : p'.thread? t = some th') :
    th'.predictor = th.predictor.clocks (p.clockEvents a) := by
  obtain ⟨-, th0, hth0, hpc, hact⟩ := step_cases h
  obtain rfl : th = th0 := Option.some.inj (hth.symm.trans hth0)
  cases a with
  | createAdd | joinSub =>
      cases hact
      rw [thread?_setThread_self hth']
      rfl
  | createTest stop start =>
      cases hact
      rcases serialTest_cases p t th stop start with ⟨htwo, heq⟩ | ⟨htwo, heq⟩
      · rw [heq] at hth'
        rw [thread?_setThread_self hth']
        simp [clockEvents, fromSerialToParallel, htwo]
      · rw [heq] at hth'
        rw [thread?_setThread_self hth']
        simp [clockEvents, fromSerialToParallel, htwo, Predictor.stopSerial]
  | createReal =>
      obtain ⟨-, rfl⟩ := createReal_cases hact
      cases t with
      | main => rw [← Option.some.inj hth']; rfl
      | child n =>
          have hlen := (List.getElem?_eq_some_iff.mp hth).1
          have hnth : ((p.setThread (.child n) { th with pc := .running }).children
              ++ [({} : Thread)])[n]? = some th' := hth'
          rw [List.getElem?_append_left (by simpa using hlen)] at hnth
          rw [thread?_setThread_self (t := .child n) hnth]
          rfl
  | startThread start =>
      obtain ⟨-, rfl⟩ := startThread_cases hact
      have hown : (p.setThread t { th with
          pc := .running
          runningThreadIndex := p.totalNumOfThread
          predictor := th.predictor.threadInit.startClock start }).thread? t = some th' :=
        hth'
      rw [thread?_setThread_self hown]
      simp [clockEvents]
  | call type before after => exact absurd rfl (hcall type before after)
  | threadExit stop =>
      simp only [act] at hact
      split at hact
      · cases hact
      · obtain ⟨predictor, -, rfl⟩ := threadExit_cases hact
        rw [thread?_setThread_self hth']
        simp [clockEvents]
  | joinReal n =>
      obtain ⟨child, -, -, -, rfl⟩ := joinReal_cases hact
      rw [thread?_setThread_self hth']
      rfl
  | joinTest stop ended start =>
      rcases parallelTest_cases hact with ⟨hone, rfl⟩ | ⟨hone, predictor, -, rfl⟩
      · rw [thread?_setThread_self hth']
        simp [clockEvents, fromParallelToSerial, hone]
      · rw [thread?_setThread_self hth']
        simp [clockEvents, fromParallelToSerial, hone, Predictor.stopParallel]
  | exitHandler stop =>
      cases hact
      have hown : ({ p with
          predictor := (p.predictor.stopSerial p.totalNumOfThread (th.predictor.stopClock stop)).1
          stageCalls := p.stageCalls ++ [(StageCall.stopSerial, t)] }.setThread t { th with
            predictor := (p.predictor.stopSerial p.totalNumOfThread
              (th.predictor.stopClock stop)).2 }).thread? t = some th' := by
        cases t <;> exact hth'
      rw [thread?_setThread_self hown]
      simp [clockEvents, Predictor.stopSerial]

/-- What a step of thread `t` does to the slots. -/
inductive Effect (p : Process) (t : Tid) (th : Thread) (p' : Process) : Prop
  | quiet (kept : p.KeepsThread p' t) (predictor : p'.predictor = p.predictor)
      (total : p'.totalNumOfThread = p.totalNumOfThread)
  /-- The thread ends a stage. -/
  | stage (live : th.pc.Live)
      (own : ∀ th', p'.thread? t = some th' → th'.runningThreadIndex = th.runningThreadIndex)
      (total : p'.totalNumOfThread = p.totalNumOfThread)
      (cleared : ∀ i < p.totalNumOfThread, p'.predictor.EmptySlots i)
      (others : ∀ i, i ≠ th.runningThreadIndex → p.predictor.EmptySlots i →
        p'.predictor.EmptySlots i)
      (fit : p'.predictor.TotalsFit)
  | start (own : ∀ th', p'.thread? t = some th' → th'.runningThreadIndex = p.totalNumOfThread)
      (total : p'.totalNumOfThread = p.totalNumOfThread + 1)
      (predictor : p'.predictor = p.predictor)
  | ends (live : th.pc.Live) (own : ∀ th', p'.thread? t = some th' → ¬ th'.pc.Live)
      (total : p'.totalNumOfThread = p.totalNumOfThread)
      (others : ∀ i, i ≠ th.runningThreadIndex → p.predictor.EmptySlots i →
        p'.predictor.EmptySlots i)
      (fit : p.predictor.TotalsFit → p'.predictor.TotalsFit)

theorem KeepsThread.setThread {q : Process} (hth : p.thread? t = some th) (hlive : th.pc.Live)
    (hindex : th'.runningThreadIndex = th.runningThreadIndex) :
    p.KeepsThread (q.setThread t th') t := by
  intro th'' hth'' _
  rw [thread?_setThread_self hth'']
  exact ⟨th, hth, hlive, hindex⟩

theorem step_effect (h : p.step (t, a) = some p') (hth : p.thread? t = some th)
    (hcall : ∀ type before after, a ≠ .call type before after) (hexit : p'.exited = false) :
    p.Effect t th p' := by
  obtain ⟨-, th', hth', hpc, hact⟩ := step_cases h
  obtain rfl : th = th' := Option.some.inj (hth.symm.trans hth')
  have hlive : (∀ start, a ≠ .startThread start) → th.pc.Live := fun ha => by
    rw [hpc]
    exact Action.live_pc ha
  cases a with
  | createAdd =>
      cases hact
      exact .quiet (.setThread hth (hlive (by simp)) rfl) (by simp [addARunningThread])
        (by simp [addARunningThread])
  | joinSub =>
      cases hact
      exact .quiet (.setThread hth (hlive (by simp)) rfl) (by simp [subARunningThread])
        (by simp [subARunningThread])
  | createTest stop start =>
      cases hact
      have hl := hlive (by simp)
      rcases serialTest_cases p t th stop start with ⟨-, heq⟩ | ⟨-, heq⟩ <;> rw [heq]
      · exact .quiet (.setThread hth hl rfl) (by simp) (by simp)
      · refine .stage hl (fun th' hth' => ?_) (by simp) (fun i hi => ?_)
          (fun i _ hempty => ?_) ?_
        · rw [thread?_setThread_self hth']
        · rw [setThread_predictor]
          exact Predictor.cleanStageData_slots.1 hi
        · rw [setThread_predictor]
          exact Predictor.cleanStageData_slots.2 hempty
        · rw [setThread_predictor]
          exact Predictor.stopSerial_fit _
  | createReal =>
      obtain ⟨-, rfl⟩ := createReal_cases hact
      have hl := hlive (by simp)
      have hmove : p.KeepsThread (p.setThread t { th with pc := .running }) t :=
        .setThread hth hl rfl
      refine .quiet (fun th' hth' hlive' => ?_) (by simp) (by simp)
      cases t with
      | main => exact hmove th' hth' hlive'
      | child n =>
          have hlen := (List.getElem?_eq_some_iff.mp hth).1
          have hnth : ((p.setThread (.child n) { th with pc := .running }).children
              ++ [({} : Thread)])[n]? = some th' := hth'
          rw [List.getElem?_append_left (by simpa using hlen)] at hnth
          exact hmove th' hnth hlive'
  | startThread start =>
      obtain ⟨-, rfl⟩ := startThread_cases hact
      refine .start (fun th' hth' => ?_) (by simp) (by simp)
      have hown : (p.setThread t { th with
          pc := .running
          runningThreadIndex := p.totalNumOfThread
          predictor := th.predictor.threadInit.startClock start }).thread? t = some th' :=
        hth'
      rw [thread?_setThread_self hown]
  | call type before after => exact absurd rfl (hcall type before after)
  | threadExit stop =>
      simp only [act] at hact
      split at hact
      · cases hact
      · obtain ⟨predictor, hend, rfl⟩ := threadExit_cases hact
        refine .ends (hlive (by simp)) (fun th' hth' => ?_) (by simp)
          (fun i hi hempty => ?_) (fun hfit => ?_)
        · rw [thread?_setThread_self hth']
          exact fun hlive => hlive.2 rfl
        · rw [setThread_predictor]
          exact Predictor.threadEnd_others hend hi hempty
        · rw [setThread_predictor]
          obtain ⟨h1, h2⟩ := Predictor.threadEnd_totals hend
          exact ⟨h1 ▸ hfit.1, h2 ▸ hfit.2⟩
  | joinReal n =>
      obtain ⟨child, hchild, hended, -, rfl⟩ := joinReal_cases hact
      exact .quiet (.setThread hth (hlive (by simp)) rfl) (by simp) (by simp)
  | joinTest stop ended start =>
      have hl := hlive (by simp)
      rcases parallelTest_cases hact with ⟨-, rfl⟩ | ⟨-, predictor, hend, rfl⟩
      · exact .quiet (.setThread hth hl rfl) (by simp) (by simp)
      · refine .stage hl (fun th' hth' => ?_) (by simp) (fun i hi => ?_)
          (fun i hi hempty => ?_) ?_
        · rw [thread?_setThread_self hth']
        · rw [setThread_predictor]
          exact Predictor.cleanStageData_slots.1 hi
        · have hother : predictor.EmptySlots i := Predictor.threadEnd_others hend hi hempty
          rw [setThread_predictor]
          exact Predictor.cleanStageData_slots.2 hother
        · rw [setThread_predictor]
          exact Predictor.stopParallel_fit ((th.predictor.stopClock stop).sampleHandlers ended)
  | exitHandler stop =>
      cases hact
      cases hexit

/-! ## The slots over a run -/

/-- Live threads have slots of their own, and nothing is in them, or in
the slots past the threads so far. -/
structure OwnSlots (p : Process) : Prop where
  index_lt : ∀ t th, p.thread? t = some th → th.pc.Live →
    th.runningThreadIndex < p.totalNumOfThread
  apart : ∀ t t' th th', p.thread? t = some th → p.thread? t' = some th' → th.pc.Live →
    th'.pc.Live → th.runningThreadIndex = th'.runningThreadIndex → t = t'
  empty : ∀ t th, p.thread? t = some th → th.pc.Live →
    p.predictor.EmptySlots th.runningThreadIndex
  fresh : ∀ i, p.totalNumOfThread ≤ i → p.predictor.EmptySlots i

/-- The index is a live thread's, or no thread's yet. -/
def Reserved (p : Process) (i : Nat) : Prop :=
  (∃ t th, p.thread? t = some th ∧ th.pc.Live ∧ th.runningThreadIndex = i) ∨
    p.totalNumOfThread ≤ i

theorem OwnSlots.kept (hp : p.OwnSlots) (hkept : ∀ t, p.KeepsThread p' t)
    (htotal : p'.totalNumOfThread = p.totalNumOfThread)
    (hempty : ∀ i, p'.Reserved i → p.predictor.EmptySlots i → p'.predictor.EmptySlots i) :
    p'.OwnSlots where
  index_lt t th' hth' hlive' := by
    obtain ⟨th, hth, hlive, hindex⟩ := hkept t th' hth' hlive'
    rw [hindex, htotal]
    exact hp.index_lt t th hth hlive
  apart t1 t2 th1' th2' hth1' hth2' hlive1' hlive2' hsame := by
    obtain ⟨th1, hth1, hlive1, hindex1⟩ := hkept t1 th1' hth1' hlive1'
    obtain ⟨th2, hth2, hlive2, hindex2⟩ := hkept t2 th2' hth2' hlive2'
    rw [hindex1, hindex2] at hsame
    exact hp.apart t1 t2 th1 th2 hth1 hth2 hlive1 hlive2 hsame
  empty t th' hth' hlive' := by
    obtain ⟨th, hth, hlive, hindex⟩ := hkept t th' hth' hlive'
    refine hempty _ (.inl ⟨t, th', hth', hlive', rfl⟩) ?_
    rw [hindex]
    exact hp.empty t th hth hlive
  fresh i hi := hempty i (.inr hi) (hp.fresh i (htotal ▸ hi))

theorem OwnSlots.step (hp : p.OwnSlots) (h : p.step (t, a) = some p')
    (hth : p.thread? t = some th) (heffect : p.Effect t th p') : p'.OwnSlots := by
  have hother : ∀ t', t ≠ t' → p.KeepsThread p' t' := fun t' hne => (step_keepsTimes h hne).thread
  -- all threads, when the one that steps keeps its slots too
  have hall : p.KeepsThread p' t → ∀ t', p.KeepsThread p' t' := fun hown t' => by
    by_cases hne : t = t'
    · exact hne ▸ hown
    · exact hother t' hne
  cases heffect with
  | quiet kept predictor total =>
      exact hp.kept (hall kept) total fun i _ hi => predictor ▸ hi
  | stage live own total cleared others fit =>
      refine hp.kept (hall fun th' hth' _ => ⟨th, hth, live, own th' hth'⟩) total
        fun i _ hi => ?_
      by_cases hi' : i < p.totalNumOfThread
      · exact cleared i hi'
      · have hindex := hp.index_lt t th hth live
        exact others i (by omega) hi
  | start own total predictor =>
      have hold : ∀ t' th', t ≠ t' → p'.thread? t' = some th' → th'.pc.Live →
          th'.runningThreadIndex < p.totalNumOfThread ∧
            p.predictor.EmptySlots th'.runningThreadIndex := by
        intro t' th' hne hth' hlive'
        obtain ⟨th0, hth0, hlive0, hindex⟩ := hother t' hne th' hth' hlive'
        rw [hindex]
        exact ⟨hp.index_lt t' th0 hth0 hlive0, hp.empty t' th0 hth0 hlive0⟩
      refine ⟨fun t' th' hth' hlive' => ?_, fun t1 t2 th1 th2 hth1 hth2 hl1 hl2 hsame => ?_,
        fun t' th' hth' hlive' => ?_, fun i hi => ?_⟩
      · by_cases hne : t = t'
        · subst hne
          rw [own th' hth']
          omega
        · have := (hold t' th' hne hth' hlive').1
          omega
      · by_cases hne1 : t = t1 <;> by_cases hne2 : t = t2
        · rw [← hne1, hne2]
        · -- the new index is past all others
          subst hne1
          have := (hold t2 th2 hne2 hth2 hl2).1
          rw [← hsame, own th1 hth1] at this
          omega
        · subst hne2
          have := (hold t1 th1 hne1 hth1 hl1).1
          rw [hsame, own th2 hth2] at this
          omega
        · obtain ⟨th1', hth1', hl1', hindex1⟩ := hother t1 hne1 th1 hth1 hl1
          obtain ⟨th2', hth2', hl2', hindex2⟩ := hother t2 hne2 th2 hth2 hl2
          rw [hindex1, hindex2] at hsame
          exact hp.apart t1 t2 th1' th2' hth1' hth2' hl1' hl2' hsame
      · rw [predictor]
        by_cases hne : t = t'
        · subst hne
          rw [own th' hth']
          exact hp.fresh _ le_rfl
        · exact (hold t' th' hne hth' hlive').2
      · rw [predictor]
        exact hp.fresh i (by omega)
  | ends live own total others fit =>
      -- only the slots of the thread that ends fill, and it is gone
      refine hp.kept (hall fun th' hth' hlive' => absurd hlive' (own th' hth')) total
        fun i huse hi => others i ?_ hi
      rintro rfl
      rcases huse with ⟨t', th', hth', hlive', hsame⟩ | hfresh
      · have hne : t ≠ t' := by
          rintro rfl
          exact own th' hth' hlive'
        obtain ⟨th0, hth0, hlive0, hindex⟩ := hother t' hne th' hth' hlive'
        exact hne (hp.apart t t' th th0 hth hth0 live hlive0 (hsame.symm.trans hindex))
      · have hindex := hp.index_lt t th hth live
        omega

end Process

end MemPerf
