import MemPerf.Values
import MemPerf.Lib.Word
import Mathlib.Logic.Function.Basic
import Mathlib.Algebra.BigOperators.Group.Finset.Piecewise

/-!
# The predictor

`predictor.cpp`: every thread sums up the cycles it spends between
`outsideCycleStart` and `outsideCyclesStop` and counts its allocation
calls by class; the stages of the program are then added up into the
critical cycles, once as measured and once with every call of a class
replaced by that class's cycles from the info file.

Cycle counts are 64-bit and wrap. `rdtscp` readings are arguments.
-/

namespace MemPerf

open Word

/-- `NUM_OF_ALLOCATIONTYPEFOROUTPUTDATA`. -/
@[simp] abbrev numOfAllocationType : Nat := 24

/-- The `thread_local` variables of `Predictor`. -/
structure PredictorLocal where
  numOfFunctions : Nat → Nat := fun _ => 0
  totalFunctionCycles : Nat := 0
  outsideStartCycle : Nat := 0
  outsideStopCycle : Nat := 0
  outsideCycle : Nat := 0

/-- What `readPredictorInfoFile` reads. -/
structure PredictorInfo where
  replacedFunctionCycles : Nat → Nat := fun _ => 0
  replacedMiddleObjectThreshold : Nat := 0
  replacedLargeObjectThreshold : Nat := 0

/-- The static variables of `Predictor`. -/
structure Predictor extends PredictorInfo where
  criticalCycle : Nat := 0
  replacedCriticalCycle : Nat := 0
  criticalCycleDepend : Nat := 0
  replacedCriticalCycleDepend : Nat := 0
  threadCycle : Nat → Nat := fun _ => 0
  threadReplacedCycle : Nat → Nat := fun _ => 0
  lastThreadDepend : Bool := false
  lastThreadIndex : Nat := 0

/-! ## The thread's own time -/

namespace PredictorLocal

/-- The part of `globalInit` and `threadInit` that clears the thread's
counters, and of `cleanStageData` after a stage. -/
def threadInit (l : PredictorLocal) : PredictorLocal :=
  { l with numOfFunctions := fun _ => 0, totalFunctionCycles := 0, outsideCycle := 0 }

def outsideCycleStart (l : PredictorLocal) (now : Nat) : PredictorLocal :=
  { l with outsideStartCycle := now }

def outsideCyclesStop (l : PredictorLocal) (now : Nat) : PredictorLocal :=
  { l with
    outsideStopCycle := now
    outsideCycle :=
      if now > l.outsideStartCycle ∧ l.outsideStartCycle ≠ 0 then
        wrap 64 (l.outsideCycle + (now - l.outsideStartCycle))
      else l.outsideCycle }

/-- `sampleHandler`, for a signal with `POLL_HUP`: the clock stands still in it. -/
def sampleHandler (l : PredictorLocal) (stop start : Nat) : PredictorLocal :=
  (l.outsideCyclesStop stop).outsideCycleStart start

/-- Signals one after another, with the two readings of each. -/
def sampleHandlers (l : PredictorLocal) (signals : List (Nat × Nat)) : PredictorLocal :=
  signals.foldl (fun l signal => l.sampleHandler signal.1 signal.2) l

/-- The second half of `updateAllocatingInfoToPredictor`: a call of class
`type` that spent `cycles` in the real function. -/
def countCall (l : PredictorLocal) (replaced : Nat → Nat) (type cycles : Nat) : PredictorLocal :=
  if replaced type ≠ 0 then
    { l with
      numOfFunctions :=
        Function.update l.numOfFunctions type (wrap 32 (l.numOfFunctions type + 1))
      totalFunctionCycles := wrap 64 (l.totalFunctionCycles + cycles) }
  else l

theorem sampleHandlers_fields (l : PredictorLocal) (signals : List (Nat × Nat)) :
    (l.sampleHandlers signals).numOfFunctions = l.numOfFunctions ∧
      (l.sampleHandlers signals).totalFunctionCycles = l.totalFunctionCycles := by
  induction signals generalizing l with
  | nil => exact ⟨rfl, rfl⟩
  | cons signal signals ih => exact ih (l.sampleHandler signal.1 signal.2)

/-- The cycles the counted calls would take with the replaced functions. -/
def replacedCycles (l : PredictorLocal) (replaced : Nat → Nat) : Nat :=
  ∑ type ∈ Finset.range numOfAllocationType, l.numOfFunctions type * replaced type

/-- One more call of a class adds its replacement once. -/
theorem replacedCycles_countCall {l : PredictorLocal} {replaced : Nat → Nat} {type cycles : Nat}
    (htype : type < numOfAllocationType) (hr : replaced type ≠ 0)
    (hfew : l.numOfFunctions type + 1 < 2 ^ 32) :
    (l.countCall replaced type cycles).replacedCycles replaced
      = l.replacedCycles replaced + replaced type := by
  have hterm : ∀ i, (l.countCall replaced type cycles).numOfFunctions i * replaced i
      = l.numOfFunctions i * replaced i + if i = type then replaced i else 0 := by
    intro i
    rw [countCall, if_pos hr, wrap_of_lt hfew]
    by_cases hi : i = type
    · subst hi
      simp [Nat.add_mul]
    · simp [hi]
  simp only [replacedCycles, hterm, Finset.sum_add_distrib]
  rw [Finset.sum_ite_eq' _ type, if_pos (Finset.mem_range.mpr htype)]

/-- `acc += outsideCycle; acc -= totalFunctionCycles;` and the loop over
the allocation types: what both `threadEnd` and `stopSerial` do to a
predicted total. -/
def addReplaced (l : PredictorLocal) (replaced : Nat → Nat) (acc : Nat) : Nat :=
  addProducts 64 l.numOfFunctions replaced numOfAllocationType
    (wsub 64 (wrap 64 (acc + l.outsideCycle)) l.totalFunctionCycles)

end PredictorLocal

/-- `cyclesInRealFunction`, from the readings around the real function. -/
def cyclesInRealFunction (before after : Nat) : Nat :=
  if wsub 64 after before > abnormalValue then 0 else wsub 64 after before

/-- The flag is `ProgramStatus::hasMiddleObjectThreshold()`. -/
def PredictorInfo.getObjectSizeTypeForPrediction (info : PredictorInfo)
    (hasMiddleObjectThreshold : Bool) (size : Nat) : ObjectSizeType :=
  if size > info.replacedLargeObjectThreshold then .large
  else if hasMiddleObjectThreshold ∧ size ≥ info.replacedMiddleObjectThreshold then .medium
  else .small

/-! ## Stages -/

namespace Predictor

/-- The part of `globalInit` after the info file is read. -/
def globalInit (p : Predictor) : Predictor :=
  { p with
    criticalCycle := 0
    replacedCriticalCycle := 0
    criticalCycleDepend := 0
    replacedCriticalCycleDepend := 0 }

/-- The slots of the threads started so far; the caller's own counters
are cleared by `PredictorLocal.threadInit`. -/
def cleanStageData (p : Predictor) (totalNumOfThread : Nat) : Predictor :=
  { p with
    threadCycle := fun i => if i < totalNumOfThread then 0 else p.threadCycle i
    threadReplacedCycle := fun i => if i < totalNumOfThread then 0 else p.threadReplacedCycle i }

/-- The slots of a thread that ends. -/
def addThread (p : Predictor) (index : Nat) (l : PredictorLocal) : Predictor :=
  { p with
    threadCycle :=
      Function.update p.threadCycle index (wrap 64 (p.threadCycle index + l.outsideCycle))
    threadReplacedCycle :=
      Function.update p.threadReplacedCycle index
        (l.addReplaced p.replacedFunctionCycles (p.threadReplacedCycle index)) }

/-- `none` is the division by zero of a thread without cycles. -/
def threadEnd (p : Predictor) (index : Nat) (l : PredictorLocal) : Option Predictor :=
  let p := p.addThread index l
  if index = 0 then some p
  else if p.threadCycle index = 0 then none
  else if wrap 64 (l.totalFunctionCycles * 100) / p.threadCycle index < 2 then
    some { p with lastThreadIndex := index, lastThreadDepend := true }
  else some { p with lastThreadDepend := false }

def stopSerial (p : Predictor) (totalNumOfThread : Nat) (l : PredictorLocal) :
    Predictor × PredictorLocal :=
  let p := { p with
    criticalCycle := wrap 64 (p.criticalCycle + l.outsideCycle)
    criticalCycleDepend := wrap 64 (p.criticalCycleDepend + l.outsideCycle)
    replacedCriticalCycle := l.addReplaced p.replacedFunctionCycles p.replacedCriticalCycle
    replacedCriticalCycleDepend :=
      l.addReplaced p.replacedFunctionCycles p.replacedCriticalCycleDepend }
  (p.cleanStageData totalNumOfThread, l.threadInit)

/-- The four stage totals of `stopParallel`. -/
structure StageCycles where
  cycle : Nat := 0
  replaced : Nat := 0
  cycleDepend : Nat := 0
  replacedDepend : Nat := 0

/-- One round of the loop of `stopParallel`. -/
def maxThread (p : Predictor) (acc : StageCycles) (index : Nat) : StageCycles :=
  if p.threadCycle index ≠ 0 ∧ p.threadReplacedCycle index ≠ 0 then
    let acc := { acc with
      cycle := max acc.cycle (p.threadCycle index)
      replaced := max acc.replaced (p.threadReplacedCycle index) }
    if p.lastThreadDepend ∧ index ≠ p.lastThreadIndex then
      { acc with
        cycleDepend := max acc.cycleDepend (p.threadCycle index)
        replacedDepend := max acc.replacedDepend (p.threadReplacedCycle index) }
    else acc
  else acc

/-- `for(index = 1; index < totalNumOfThread; ++index)`. -/
def stageCycles (p : Predictor) (totalNumOfThread : Nat) : StageCycles :=
  (List.range' 1 (totalNumOfThread - 1)).foldl p.maxThread {}

def stopParallel (p : Predictor) (totalNumOfThread : Nat) (l : PredictorLocal) :
    Predictor × PredictorLocal :=
  let stage := p.stageCycles totalNumOfThread
  let p := { p with
    criticalCycle := wrap 64 (p.criticalCycle + stage.cycle)
    criticalCycleDepend := wrap 64 (p.criticalCycleDepend + stage.cycleDepend)
    replacedCriticalCycle := wrap 64 (p.replacedCriticalCycle + stage.replaced)
    replacedCriticalCycleDepend :=
      wrap 64 (p.replacedCriticalCycleDepend + stage.replacedDepend) }
  (p.cleanStageData totalNumOfThread, l.threadInit)

end Predictor

end MemPerf
