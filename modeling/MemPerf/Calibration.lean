import MemPerf.Threads
import MemPerf.Lib.Run

/-!
# Calibration of the predictor

When every counted call takes exactly the cycles its class is replaced
with, the prediction changes nothing: the predicted critical cycles are
the measured ones after every stage. What a thread has counted is kept
as one congruence, that its `totalFunctionCycles` is the number of its
calls times their replacements modulo `2 ^ 64`; then every predicted
total moves like the measured one.
-/

namespace MemPerf

open Word StepSystem

/-! ## One thread -/

namespace PredictorLocal

variable {l : PredictorLocal} {replaced : Nat → Nat} {type cycles now : Nat}

/-- The counted calls took what they are replaced with. -/
def Calibrated (replaced : Nat → Nat) (l : PredictorLocal) : Prop :=
  l.totalFunctionCycles ≡ l.replacedCycles replaced [MOD 2 ^ 64]

/-- A predicted total then grows like a measured one. -/
theorem Calibrated.addReplaced (h : l.Calibrated replaced) (acc : Nat) :
    l.addReplaced replaced acc = wrap 64 (acc + l.outsideCycle) := by
  refine eq_of_modEq (addProducts_lt _ _ _ (wsub_lt ..)) (wrap_lt ..) ?_
  let total := wrap 64 (acc + l.outsideCycle)
  calc l.addReplaced replaced acc
      ≡ wsub 64 total l.totalFunctionCycles + l.replacedCycles replaced [MOD 2 ^ 64] :=
        addProducts_modEq ..
    _ ≡ wsub 64 total l.totalFunctionCycles + l.totalFunctionCycles [MOD 2 ^ 64] :=
        h.symm.add_left _
    _ ≡ total [MOD 2 ^ 64] := wsub_add_modEq ..

theorem calibrated_threadInit : l.threadInit.Calibrated replaced := by
  simp [Calibrated, threadInit, replacedCycles, Nat.ModEq.refl]

theorem Calibrated.congr {l' : PredictorLocal} (h : l.Calibrated replaced)
    (hnum : l'.numOfFunctions = l.numOfFunctions)
    (htotal : l'.totalFunctionCycles = l.totalFunctionCycles) : l'.Calibrated replaced := by
  unfold Calibrated replacedCycles
  rw [hnum, htotal]
  exact h

theorem Calibrated.stopClock (h : l.Calibrated replaced) (stop : ClockStop) :
    (l.stopClock stop).Calibrated replaced :=
  h.congr (stopClock_numOfFunctions ..) (stopClock_totalFunctionCycles ..)

theorem Calibrated.startClock (h : l.Calibrated replaced) (start : ClockStart) :
    (l.startClock start).Calibrated replaced :=
  h.congr (startClock_numOfFunctions ..) (startClock_totalFunctionCycles ..)

theorem Calibrated.countCall (h : l.Calibrated replaced) (htype : type < numOfAllocationType)
    (hexact : replaced type ≠ 0 → cycles = replaced type ∧ l.numOfFunctions type + 1 < 2 ^ 32) :
    (l.countCall replaced type cycles).Calibrated replaced := by
  by_cases hr : replaced type = 0
  · simpa [PredictorLocal.countCall, hr] using h
  · obtain ⟨rfl, hfew⟩ := hexact hr
    unfold Calibrated
    rw [replacedCycles_countCall htype hr hfew]
    simp only [PredictorLocal.countCall, ne_eq, hr, not_false_eq_true, if_true]
    exact (wrap_modEq ..).trans (h.add_right _)

end PredictorLocal

/-! ## The stages -/

namespace Predictor

variable {info : PredictorInfo} {p p' : Predictor} {l : PredictorLocal}
  {index totalNumOfThread : Nat}

/-- The predicted totals are the measured ones. -/
structure Balanced (info : PredictorInfo) (p : Predictor) : Prop where
  table : p.toPredictorInfo = info
  critical : p.replacedCriticalCycle = p.criticalCycle
  criticalDepend : p.replacedCriticalCycleDepend = p.criticalCycleDepend
  slots : p.threadReplacedCycle = p.threadCycle

theorem Balanced.addReplaced (h : p.Balanced info) (hl : l.Calibrated info.replacedFunctionCycles)
    (acc : Nat) : l.addReplaced p.replacedFunctionCycles acc = wrap 64 (acc + l.outsideCycle) := by
  rw [h.table]
  exact hl.addReplaced acc

theorem Balanced.cleanStageData (h : p.Balanced info) :
    (p.cleanStageData totalNumOfThread).Balanced info :=
  ⟨h.table, h.critical, h.criticalDepend, by simp only [Predictor.cleanStageData, h.slots]⟩

theorem Balanced.addThread (h : p.Balanced info) (hl : l.Calibrated info.replacedFunctionCycles) :
    (p.addThread index l).Balanced info :=
  ⟨h.table, h.critical, h.criticalDepend,
    by simp only [Predictor.addThread, h.slots, h.addReplaced hl]⟩

theorem Balanced.threadEnd (h : p.Balanced info) (hl : l.Calibrated info.replacedFunctionCycles)
    (hend : p.threadEnd index l = some p') : p'.Balanced info := by
  have hadd : (p.addThread index l).Balanced info := h.addThread hl
  simp only [Predictor.threadEnd] at hend
  split at hend
  · cases hend; exact hadd
  · split at hend
    · cases hend
    · split at hend <;> cases hend <;>
        exact ⟨hadd.table, hadd.critical, hadd.criticalDepend, hadd.slots⟩

theorem Balanced.stopSerial (h : p.Balanced info) (hl : l.Calibrated info.replacedFunctionCycles) :
    (p.stopSerial totalNumOfThread l).1.Balanced info :=
  Balanced.cleanStageData ⟨h.table, by simp only [h.addReplaced hl, h.critical],
    by simp only [h.addReplaced hl, h.criticalDepend], h.slots⟩

/-- Each round of the loop keeps the predicted maxima at the measured. -/
theorem Balanced.maxThread (h : p.Balanced info) {acc : StageCycles}
    (hacc : acc.replaced = acc.cycle ∧ acc.replacedDepend = acc.cycleDepend) :
    (p.maxThread acc index).replaced = (p.maxThread acc index).cycle ∧
      (p.maxThread acc index).replacedDepend = (p.maxThread acc index).cycleDepend := by
  simp only [Predictor.maxThread, h.slots]
  split
  · split <;> simp [hacc]
  · exact hacc

theorem Balanced.stageCycles (h : p.Balanced info) (totalNumOfThread : Nat) :
    (p.stageCycles totalNumOfThread).replaced = (p.stageCycles totalNumOfThread).cycle ∧
      (p.stageCycles totalNumOfThread).replacedDepend
        = (p.stageCycles totalNumOfThread).cycleDepend := by
  unfold Predictor.stageCycles
  generalize List.range' 1 (totalNumOfThread - 1) = indices
  suffices hfold : ∀ acc : StageCycles,
      acc.replaced = acc.cycle ∧ acc.replacedDepend = acc.cycleDepend →
      (indices.foldl p.maxThread acc).replaced = (indices.foldl p.maxThread acc).cycle ∧
      (indices.foldl p.maxThread acc).replacedDepend
        = (indices.foldl p.maxThread acc).cycleDepend from hfold {} ⟨rfl, rfl⟩
  induction indices with
  | nil => exact fun acc hacc => hacc
  | cons i indices ih => exact fun acc hacc => ih _ (h.maxThread hacc)

theorem Balanced.stopParallel (h : p.Balanced info) :
    (p.stopParallel totalNumOfThread l).1.Balanced info := by
  obtain ⟨hr, hrd⟩ := h.stageCycles totalNumOfThread
  exact Balanced.cleanStageData ⟨h.table, by simp only [hr, h.critical],
    by simp only [hrd, h.criticalDepend], h.slots⟩

end Predictor

/-! ## Runs -/

namespace Process

variable {info : PredictorInfo} {p p' : Process} {t : Tid} {th : Thread} {a : Action} {now : Nat}

/-- The totals agree, and so does what each thread has counted. -/
structure Calibrated (info : PredictorInfo) (p : Process) : Prop where
  balanced : p.predictor.Balanced info
  threads : p.AllThreads fun th => th.predictor.Calibrated info.replacedFunctionCycles

theorem calibrated_initial (info : PredictorInfo) (now : Nat) :
    (initial info now).Calibrated info where
  balanced := ⟨rfl, rfl, rfl, rfl⟩
  threads :=
    ⟨PredictorLocal.calibrated_threadInit (l := {}), fun _ h => (List.not_mem_nil h).elim⟩

/-- A thread moves on with a calibrated count, and maybe the totals. -/
theorem Calibrated.change (hp : p.Calibrated info) {predictor : Predictor}
    (hbalanced : predictor.Balanced info)
    (hth : th.predictor.Calibrated info.replacedFunctionCycles)
    (stageCalls : List (StageCall × Tid)) :
    Calibrated info ({ p with predictor, stageCalls }.setThread t th) where
  balanced := by rw [setThread_predictor]; exact hbalanced
  threads := AllThreads.setThread ⟨hp.threads.1, hp.threads.2⟩ hth

theorem Calibrated.setThread (hp : p.Calibrated info)
    (hth : th.predictor.Calibrated info.replacedFunctionCycles) :
    (p.setThread t th).Calibrated info :=
  hp.change hp.balanced hth p.stageCalls

theorem Calibrated.step (hp : p.Calibrated info) (h : p.step (t, a) = some p')
    (hcall : ∀ type before after th, a = .call type before after → p.thread? t = some th →
      info.replacedFunctionCycles type ≠ 0 →
      cyclesInRealFunction before after = info.replacedFunctionCycles type ∧
        th.predictor.numOfFunctions type + 1 < 2 ^ 32) : p'.Calibrated info := by
  obtain ⟨-, th, hth, -, hact⟩ := step_cases h
  have hl := hp.threads.of_thread hth
  cases a with
  | createAdd | joinSub =>
      cases hact
      have hcount (n : Nat) : Calibrated info { p with totalNumOfRunningThread := n } :=
        ⟨hp.balanced, hp.threads⟩
      exact (hcount _).setThread hl
  | createTest stop start =>
      cases hact
      rcases serialTest_cases p t th stop start with ⟨-, heq⟩ | ⟨-, heq⟩
      · rw [heq]; exact hp.setThread hl
      · rw [heq]
        refine hp.change ?_ ?_ _
        · exact hp.balanced.stopSerial (hl.stopClock stop)
        · exact PredictorLocal.calibrated_threadInit.startClock start
  | createReal =>
      obtain ⟨-, rfl⟩ := createReal_cases hact
      obtain ⟨hbal, hmain, hchildren⟩ :
          Calibrated info (p.setThread t { th with pc := .running }) :=
        hp.setThread hl
      refine ⟨hbal, hmain, fun child hmem => ?_⟩
      rcases List.mem_append.mp hmem with hold | hnew
      · exact hchildren child hold
      · obtain rfl := List.mem_singleton.mp hnew
        exact PredictorLocal.calibrated_threadInit (l := {})
  | startThread start =>
      obtain ⟨-, rfl⟩ := startThread_cases hact
      obtain ⟨hbal, hthreads⟩ : Calibrated info (p.setThread t { th with
          pc := .running
          runningThreadIndex := p.totalNumOfThread
          predictor := th.predictor.threadInit.startClock start }) :=
        hp.setThread (PredictorLocal.calibrated_threadInit.startClock start)
      exact ⟨hbal, hthreads⟩
  | call type before after =>
      simp only [act] at hact
      split at hact
      · next htype =>
          cases hact
          refine hp.setThread ?_
          rw [hp.balanced.table]
          exact hl.countCall htype fun hr => hcall type before after th rfl hth hr
      · cases hact
  | threadExit stop =>
      simp only [act] at hact
      split at hact
      · cases hact
      · obtain ⟨predictor, hend, rfl⟩ := threadExit_cases hact
        refine hp.change ?_ ?_ p.stageCalls
        · exact hp.balanced.threadEnd (hl.stopClock stop) hend
        · exact hl.stopClock stop
  | joinReal n =>
      obtain ⟨child, hchild, -, -, rfl⟩ := joinReal_cases hact
      have hc := hp.threads.of_thread (t := .child n) hchild
      have hjoined : Calibrated info (p.setThread (.child n) { child with joined := true }) :=
        hp.setThread hc
      exact hjoined.setThread hl
  | joinTest stop ended start =>
      rcases parallelTest_cases hact with ⟨-, rfl⟩ | ⟨-, predictor, hend, rfl⟩
      · exact hp.setThread hl
      · refine hp.change ?_ ?_ _
        · exact (hp.balanced.threadEnd (hl.stopClock stop) hend).stopParallel
        · exact PredictorLocal.calibrated_threadInit.startClock start
  | exitHandler stop =>
      cases hact
      have hbalanced : (p.predictor.stopSerial p.totalNumOfThread
          (th.predictor.stopClock stop)).1.Balanced info :=
        hp.balanced.stopSerial (hl.stopClock stop)
      let th' : Thread := { th with predictor := (th.predictor.stopClock stop).threadInit }
      have hth' : th'.predictor.Calibrated info.replacedFunctionCycles :=
        PredictorLocal.calibrated_threadInit
      obtain ⟨hbal, hthreads⟩ := hp.change (t := t) hbalanced hth'
        (p.stageCalls ++ [(.stopSerial, t)])
      exact ⟨hbal, hthreads⟩

/-- A counted call takes the cycles its class is replaced with, and the
32-bit count of its class does not wrap. -/
def ExactCall (p : Process) (i : Tid × Action) : Prop :=
  match i.2 with
  | .call type before after =>
      p.predictor.replacedFunctionCycles type ≠ 0 →
        wsub 64 after before = p.predictor.replacedFunctionCycles type ∧
        ∀ th ∈ p.thread? i.1, th.predictor.numOfFunctions type + 1 < 2 ^ 32
  | _ => True

instance (p : Process) : (i : Tid × Action) → Decidable (ExactCall p i)
  | (t, .call type before after) => inferInstanceAs (Decidable
      (p.predictor.replacedFunctionCycles type ≠ 0 →
        wsub 64 after before = p.predictor.replacedFunctionCycles type ∧
        ∀ th ∈ p.thread? t, th.predictor.numOfFunctions type + 1 < 2 ^ 32))
  | (_, .createAdd) | (_, .createTest ..) | (_, .createReal) | (_, .startThread _)
  | (_, .threadExit _) | (_, .joinReal _) | (_, .joinSub) | (_, .joinTest ..)
  | (_, .exitHandler _) => isTrue trivial

/-- The class of the call is not replaced with an outlier. -/
def NormalCall (p : Process) (i : Tid × Action) : Prop :=
  match i.2 with
  | .call type _ _ => p.predictor.replacedFunctionCycles type ≤ abnormalValue
  | _ => True

instance (p : Process) : (i : Tid × Action) → Decidable (NormalCall p i)
  | (_, .call type _ _) =>
      inferInstanceAs (Decidable (p.predictor.replacedFunctionCycles type ≤ abnormalValue))
  | (_, .createAdd) | (_, .createTest ..) | (_, .createReal) | (_, .startThread _)
  | (_, .threadExit _) | (_, .joinReal _) | (_, .joinSub) | (_, .joinTest ..)
  | (_, .exitHandler _) => isTrue trivial

/-- The predicted critical cycles are the measured ones. -/
def PredictsMeasured (p : Process) : Prop :=
  p.predictor.replacedCriticalCycle = p.predictor.criticalCycle ∧
    p.predictor.replacedCriticalCycleDepend = p.predictor.criticalCycleDepend

theorem Calibrated.predictsMeasured (hp : p.Calibrated info) : p.PredictsMeasured :=
  ⟨hp.balanced.critical, hp.balanced.criticalDepend⟩

theorem Calibrated.step_exact (hp : p.Calibrated info) (hexact : ExactCall p (t, a))
    (hnormal : NormalCall p (t, a)) (h : p.step (t, a) = some p') : p'.Calibrated info := by
  refine hp.step h ?_
  rintro type before after th rfl hth hr
  have htable : p.predictor.replacedFunctionCycles = info.replacedFunctionCycles := by
    rw [hp.balanced.table]
  obtain ⟨hcycles, hfew⟩ := hexact (by rw [htable]; exact hr)
  have hle : p.predictor.replacedFunctionCycles type ≤ abnormalValue := hnormal
  rw [htable] at hcycles hle
  refine ⟨?_, hfew th hth⟩
  -- the reading is not taken for an outlier
  rw [cyclesInRealFunction, hcycles, if_neg (Nat.not_lt.mpr hle)]

end Process

/-- **Calibration**: if every counted call takes what it is replaced
with, and its replacement is no outlier, the prediction is the measured
value; with an empty table it is on every run. -/
theorem predictor_calibrated (info : PredictorInfo) (now : Nat) :
    (∀ past p, Run Process.step (fun _ p i => p.ExactCall i ∧ p.NormalCall i)
      (Process.initial info now) past p → p.PredictsMeasured) ∧
    ((∀ type, info.replacedFunctionCycles type = 0) → ∀ past p,
      Run Process.step (fun _ _ _ => True) (Process.initial info now) past p →
      p.PredictsMeasured) := by
  refine ⟨fun past p h => ?_, fun hzero past p h => ?_⟩
  · have hcal := h.invariant (Process.Calibrated info) (Process.calibrated_initial info now)
      fun _ _ i _ hp hg hstep => hp.step_exact (t := i.1) (a := i.2) hg.1 hg.2 hstep
    exact hcal.predictsMeasured
  · have hcal := h.invariant (Process.Calibrated info) (Process.calibrated_initial info now)
      fun _ _ i _ hp _ hstep => hp.step (t := i.1) (a := i.2) hstep
        fun type _ _ _ _ _ hr => absurd (hzero type) hr
    exact hcal.predictsMeasured

/-- A thread that spends 300 cycles in a call of the replaced class 5. -/
theorem predictor_calibrated_one_child :
    ∃ past p, Run Process.step (fun _ p i => p.ExactCall i ∧ p.NormalCall i)
        (Process.initial { replacedFunctionCycles := fun type => if type = 5 then 300 else 0 } 1)
        past p ∧ p.predictor.criticalCycle = 995 ∧ p.PredictsMeasured := by
  let info : PredictorInfo :=
    { replacedFunctionCycles := fun type => if type = 5 then 300 else 0 }
  let acts : List (Tid × Process.Action) :=
    [(.main, .createAdd), (.main, .createTest 101 102), (.main, .createReal),
      (.child 0, .startThread 105), (.child 0, .call 5 200 500), (.child 0, .threadExit 1000),
      (.main, .joinReal 0), (.main, .joinSub), (.main, .joinTest 1010 [] 1011)]
  let exactStep : Process → Tid × Process.Action → Option Process :=
    fun p i => if p.ExactCall i ∧ p.NormalCall i then p.step i else none
  have hcritical : ((acts.foldlM exactStep (Process.initial info 1)).map fun p =>
      p.predictor.criticalCycle) = some 995 := by decide +kernel
  obtain ⟨p, hp, hnum⟩ := Option.map_eq_some_iff.mp hcritical
  have hrun : Run Process.step (fun _ p i => p.ExactCall i ∧ p.NormalCall i)
      (Process.initial info 1) acts p := Run.ofChecked hp
  exact ⟨acts, p, hrun, hnum, (predictor_calibrated info 1).1 acts p hrun⟩

/-- A class replaced with 200000000 cycles: a call that takes as long is
taken for an outlier and counted with no cycles. -/
theorem outlier_not_calibrated :
    ¬ ∀ (info : PredictorInfo) (now : Nat) past p,
      Run Process.step (fun _ p i => p.ExactCall i) (Process.initial info now) past p →
      p.PredictsMeasured := by
  intro hclaim
  let info : PredictorInfo := { replacedFunctionCycles := fun _ => 200000000 }
  let acts : List (Tid × Process.Action) :=
    [(.main, .call 0 100 200000100), (.main, .createAdd), (.main, .createTest 300000001 300000002)]
  let exactStep : Process → Tid × Process.Action → Option Process :=
    fun p i => if p.ExactCall i then p.step i else none
  have hcritical : ((acts.foldlM exactStep (Process.initial info 1)).map fun p =>
      (p.predictor.criticalCycle, p.predictor.replacedCriticalCycle))
        = some (300000000, 500000000) := by decide +kernel
  obtain ⟨p, hp, hnum⟩ := Option.map_eq_some_iff.mp hcritical
  simp only [Prod.mk.injEq] at hnum
  have hrun : Run Process.step (fun _ p i => p.ExactCall i) (Process.initial info 1) acts p :=
    Run.ofChecked hp
  have habs := (hclaim info 1 acts p hrun).1
  rw [hnum.1, hnum.2] at habs
  exact absurd habs (by decide)

end MemPerf
