import MemPerf.Lib.Nesting
import MemPerf.Lib.Run
import MemPerf.Lib.Tally
import MemPerf.PredictionClass

/-!
# Critical sections of the allocator

While a thread is inside a sampled allocation call, the lock functions tell
`AllocatingStatus` of the locks the allocator gets and gives back. From the
first lock to the last one the thread is in a critical section. When the call
is over its counters are added to those of the thread, under the type of the
call; a call for less than 64 KB stands for twenty, so it is added twenty
times.

The call of the real function has its events here: locks, system calls and
the clock. What comes between the clock and the end of the call has them as
well: a new peak of the memory usage is recorded under a mutex, and the mutex
functions are the profiler's own. The perf counters and the lock profile
(`overviewLockData`, the queue and `lockUsage`) are left out, and so is what
is told to the shadow memory and the memory usage.
-/

namespace MemPerf.Original

open Word StepSystem Tally Nesting

/-! ## The counters of a call -/

structure CriticalSectionStatusInAllocatingStatus where
  numOfOwningLocks : Nat := 0
  numOfCriticalSections : Nat := 0
  cyclesBeforeCriticalSection : Nat := 0
  cyclesAfterCriticalSection : Nat := 0
  totalCyclesOfCriticalSections : Nat := 0
deriving DecidableEq, Repr

namespace CriticalSectionStatusInAllocatingStatus

variable (c : CriticalSectionStatusInAllocatingStatus)

def checkAndStartRecordingACriticalSection (now : Nat) : CriticalSectionStatusInAllocatingStatus :=
  let numOfOwningLocks := wrap 32 (c.numOfOwningLocks + 1)
  if numOfOwningLocks = 1 then { c with numOfOwningLocks, cyclesBeforeCriticalSection := now }
  else { c with numOfOwningLocks }

def checkAndStopRecordingACriticalSection (now : Nat) : CriticalSectionStatusInAllocatingStatus :=
  let numOfOwningLocks := wsub 32 c.numOfOwningLocks 1
  if numOfOwningLocks = 0 then
    { c with
      numOfOwningLocks
      cyclesAfterCriticalSection := now
      numOfCriticalSections := wrap 32 (c.numOfCriticalSections + 1)
      totalCyclesOfCriticalSections :=
        wrap 64 (c.totalCyclesOfCriticalSections + wsub 64 now c.cyclesBeforeCriticalSection) }
  else { c with numOfOwningLocks }

/-- The locks it owns are not among what is cleaned up. -/
def cleanUp : CriticalSectionStatusInAllocatingStatus :=
  { c with numOfCriticalSections := 0, totalCyclesOfCriticalSections := 0 }

end CriticalSectionStatusInAllocatingStatus

def getObjectSizeType (p : SizeThresholds) (size : Nat) : ObjectSizeType :=
  if size > p.largeObjectThreshold then .large
  else if p.hasMiddleObjectThreshold ∧ size ≥ p.middleObjectThreshold then .medium
  else .small

structure AllocatingType where
  doingAllocation : Bool := false
  objectSizeType : ObjectSizeType := .small
  allocatingFunction : AllocationFunction := .malloc
  objectSize : Nat := 0
  isReusedObject : Bool := false
deriving DecidableEq, Repr

structure AllocatingStatus where
  allocatingType : AllocatingType := {}
  allocationTypeForOutputData : AllocationTypeForOutputData := .serialSmallNewMalloc
  sampledForCountingEvent : Bool := false
  cyclesBeforeRealFunction : Nat := 0
  cyclesAfterRealFunction : Nat := 0
  cyclesInRealFunction : Nat := 0
  cyclesMinus : Nat := 0
  criticalSectionStatus : CriticalSectionStatusInAllocatingStatus := {}
  systemCallData : SystemCallType → SystemCallData := fun _ => {}

namespace AllocatingStatus

variable (a : AllocatingStatus)

/-- `sampled` is the answer of `randomProcessForCountingEvent`, or of the
one for large objects. -/
def updateAllocatingStatusBeforeRealFunction (p : SizeThresholds)
    (allocationFunction : AllocationFunction) (objectSize : Nat) (sampled : Bool) (now : Nat) :
    AllocatingStatus :=
  let objectSize := wrap 32 objectSize
  { a with
    allocatingType := { a.allocatingType with
      allocatingFunction := allocationFunction
      objectSize
      objectSizeType := getObjectSizeType p objectSize
      doingAllocation := true }
    sampledForCountingEvent := sampled
    cyclesBeforeRealFunction := now }

/-- For `FREE`; `objectSize` and `isReusedObject` are what
`MemoryWaste::freeUpdate` has of the object. -/
def updateFreeingStatusBeforeRealFunction (p : SizeThresholds) (objectSize : Nat)
    (isReusedObject sampled : Bool) (now : Nat) : AllocatingStatus :=
  let objectSize := wrap 32 objectSize
  { a with
    allocatingType := { a.allocatingType with
      allocatingFunction := .free
      doingAllocation := true
      objectSize
      objectSizeType := getObjectSizeType p objectSize
      isReusedObject }
    sampledForCountingEvent := sampled
    cyclesBeforeRealFunction := now }

def calculateCycleInRealFunction : AllocatingStatus :=
  let cycles := wsub 64 a.cyclesAfterRealFunction a.cyclesBeforeRealFunction
  { a with
    cyclesInRealFunction := if cycles > a.cyclesMinus then cycles - a.cyclesMinus else 0
    cyclesMinus := 0 }

def removeAbnormalCycleValues : AllocatingStatus :=
  if a.cyclesInRealFunction > abnormalValue then { a with cyclesInRealFunction := 0 } else a

def stopCountCountingEvents (now : Nat) : AllocatingStatus :=
  let a := { a with cyclesAfterRealFunction := now }
  a.calculateCycleInRealFunction.removeAbnormalCycleValues

/-- Behind `stopCountCountingEvents`; `isReusedObject` is what
`MemoryWaste::allocUpdate` has of the object. -/
def updateAllocatingStatusAfterRealFunction (isReusedObject : Bool) : AllocatingStatus :=
  let isReusedObject :=
    if a.allocatingType.allocatingFunction = .malloc
      ∨ a.allocatingType.allocatingFunction = .realloc then isReusedObject
    else a.allocatingType.isReusedObject
  { a with allocatingType := { a.allocatingType with isReusedObject, doingAllocation := false } }

/-- Behind `stopCountCountingEvents`. -/
def updateFreeingStatusAfterRealFunction : AllocatingStatus :=
  { a with allocatingType := { a.allocatingType with doingAllocation := false } }

/-- The branches have one type each for a single thread and for several. -/
def setAllocationTypeForOutputData (single : Bool) : AllocatingStatus :=
  let threads (serial parallel : AllocationTypeForOutputData) : AllocationTypeForOutputData :=
    if single then serial else parallel
  { a with
    allocationTypeForOutputData :=
      match a.allocatingType.allocatingFunction with
      | .malloc =>
          match a.allocatingType.objectSizeType with
          | .large => threads .serialLargeMalloc .parallelLargeMalloc
          | .small =>
              if a.allocatingType.isReusedObject then
                threads .serialSmallReusedMalloc .parallelSmallReusedMalloc
              else threads .serialSmallNewMalloc .parallelSmallNewMalloc
          | .medium =>
              if a.allocatingType.isReusedObject then
                threads .serialMediumReusedMalloc .parallelMediumReusedMalloc
              else threads .serialMediumNewMalloc .parallelMediumNewMalloc
      | .free =>
          match a.allocatingType.objectSizeType with
          | .large => threads .serialLargeFree .parallelLargeFree
          | .small => threads .serialSmallFree .parallelSmallFree
          | .medium => threads .serialMediumFree .parallelMediumFree
      | .calloc => threads .serialNormalCalloc .parallelNormalCalloc
      | .realloc => threads .serialNormalRealloc .parallelNormalRealloc
      | .posixMemalign => threads .serialNormalPosixMemalign .parallelNormalPosixMemalign
      | .memalign => threads .serialNormalMemalign .parallelNormalMemalign }

def minusCycles (cycles : Nat) : AllocatingStatus :=
  { a with cyclesMinus := wrap 64 (a.cyclesMinus + cycles) }

def addOneSyscallToSyscallData (type : SystemCallType) (cycles : Nat) : AllocatingStatus :=
  { a with
    systemCallData := Function.update a.systemCallData type
      ((a.systemCallData type).addOneSystemCall cycles) }

/-- A wrapper does more than the real function only here. -/
def Tracked : Prop := a.allocatingType.doingAllocation = true ∧ a.sampledForCountingEvent = true

instance : Decidable a.Tracked := inferInstanceAs (Decidable (_ ∧ _))

/-- `pthread_mutex_lock` and `pthread_spin_lock`, with the lock. -/
def pthreadLock (now : Nat) : AllocatingStatus :=
  if a.Tracked then
    let a := a.minusCycles 120
    { a with
      criticalSectionStatus :=
        a.criticalSectionStatus.checkAndStartRecordingACriticalSection now }
  else a

/-- `pthread_mutex_trylock` and `pthread_spin_trylock`. -/
def pthreadTrylock (result now : Nat) : AllocatingStatus :=
  if a.Tracked then
    let a :=
      if result ≠ 0 then a
      else { a with
        criticalSectionStatus :=
          a.criticalSectionStatus.checkAndStartRecordingACriticalSection now }
    a.minusCycles 120
  else a

def checkAndStopRecordingACriticalSection (now : Nat) : AllocatingStatus :=
  { a with
    criticalSectionStatus := a.criticalSectionStatus.checkAndStopRecordingACriticalSection now }

def pthreadMutexUnlock (now : Nat) : AllocatingStatus :=
  if a.Tracked then a.checkAndStopRecordingACriticalSection now else a

def pthreadSpinUnlock (now : Nat) : AllocatingStatus :=
  if a.Tracked then (a.minusCycles 120).checkAndStopRecordingACriticalSection now else a

/-- `mmap`, `madvise`, `sbrk`, `mprotect`, `munmap` and `mremap`. -/
def systemCall (type : SystemCallType) (timeStart timeStop : Nat) : AllocatingStatus :=
  if a.Tracked then
    (a.minusCycles 120).addOneSyscallToSyscallData type (wsub 64 timeStop timeStart)
  else a

def cleanLockFunctionsInfoInAllocatingStatus : AllocatingStatus :=
  { a with criticalSectionStatus := a.criticalSectionStatus.cleanUp }

def cleanSyscallsInfoInAllocatingStatus : AllocatingStatus :=
  { a with systemCallData := fun _ => {} }

end AllocatingStatus

/-! ## The counters of a thread -/

structure CriticalSectionStatus where
  numOfCriticalSections : Nat := 0
  totalCyclesOfCriticalSections : Nat := 0
deriving DecidableEq, Repr

def CriticalSectionStatus.add (c d : CriticalSectionStatus) : CriticalSectionStatus where
  numOfCriticalSections := wrap 32 (c.numOfCriticalSections + d.numOfCriticalSections)
  totalCyclesOfCriticalSections :=
    wrap 64 (c.totalCyclesOfCriticalSections + d.totalCyclesOfCriticalSections)

structure ThreadLocalStatus where
  numOfFunctions : AllocationTypeForOutputData → Nat := fun _ => 0
  numOfSampledCountingFunctions : AllocationTypeForOutputData → Nat := fun _ => 0
  cycles : AllocationTypeForOutputData → Nat := fun _ => 0
  criticalSectionStatus : AllocationTypeForOutputData → CriticalSectionStatus := fun _ => {}
  systemCallData : SystemCallType → AllocationTypeForOutputData → SystemCallData := fun _ _ => {}

namespace ThreadLocalStatus

variable (l : ThreadLocalStatus) (a : AllocatingStatus)

def addUpCriticalSectionData : ThreadLocalStatus :=
  let type := a.allocationTypeForOutputData
  { l with
    criticalSectionStatus := Function.update l.criticalSectionStatus type
      ((l.criticalSectionStatus type).add
        { numOfCriticalSections := a.criticalSectionStatus.numOfCriticalSections
          totalCyclesOfCriticalSections :=
            a.criticalSectionStatus.totalCyclesOfCriticalSections }) }

def addUpSyscallsInfo : ThreadLocalStatus :=
  let type := a.allocationTypeForOutputData
  { l with
    systemCallData := fun systemCallType =>
      Function.update (l.systemCallData systemCallType) type
        ((l.systemCallData systemCallType type).add (a.systemCallData systemCallType)) }

def addUpOtherFunctionsInfo : ThreadLocalStatus :=
  (l.addUpCriticalSectionData a).addUpSyscallsInfo a

def addUpCountingEvents : ThreadLocalStatus :=
  let type := a.allocationTypeForOutputData
  { l with
    numOfSampledCountingFunctions := Function.update l.numOfSampledCountingFunctions type
      (wrap 32 (l.numOfSampledCountingFunctions type + 1))
    cycles := Function.update l.cycles type (wrap 64 (l.cycles type + a.cyclesInRealFunction)) }

/-- The body of the loop in `updateAllocatingInfoToThreadLocalData`. -/
def addUp : ThreadLocalStatus := (l.addUpOtherFunctionsInfo a).addUpCountingEvents a

end ThreadLocalStatus

/-- What a thread has of all this. In a call, `stopped` says that it is
behind `stopCountCountingEvents`. -/
structure CallMeter where
  allocating : AllocatingStatus := {}
  threadLocal : ThreadLocalStatus := {}
  stopped : Bool := false

/-- `64*ONE_KB`. -/
@[simp] abbrev largeObject : Nat := 65536

namespace CallMeter

variable (m : CallMeter)

def updateAllocatingInfoToThreadLocalData (single : Bool) : CallMeter :=
  let a := m.allocating.setAllocationTypeForOutputData single
  let type := a.allocationTypeForOutputData
  let l := { m.threadLocal with
    numOfFunctions := Function.update m.threadLocal.numOfFunctions type
      (wrap 32 (m.threadLocal.numOfFunctions type + 1)) }
  if a.sampledForCountingEvent then
    let times := if a.allocatingType.objectSize < largeObject then 20 else 1
    { m with
      allocating := a.cleanLockFunctionsInfoInAllocatingStatus.cleanSyscallsInfoInAllocatingStatus
      threadLocal := (fun l => l.addUp a)^[times] l }
  else { m with allocating := a, threadLocal := l }

end CallMeter

/-- What happens in a thread. A call of an allocation function inside another
one goes to the real function and is no event. -/
inductive CallEvent where
  | allocate (allocationFunction : AllocationFunction) (objectSize : Nat) (sampled : Bool)
      (now : Nat)
  | free (objectSize : Nat) (isReusedObject sampled : Bool) (now : Nat)
  | lock (now : Nat)
  | trylock (result now : Nat)
  | mutexUnlock (now : Nat)
  | spinUnlock (now : Nat)
  | systemCall (type : SystemCallType) (timeStart timeStop : Nat)
  | stop (now : Nat)
  | done (isReusedObject single : Bool)
deriving DecidableEq, Repr

namespace CallMeter

variable (m : CallMeter)

/-- The tail of `yymalloc` and the others, and of `yyfree`. -/
def done (isReusedObject single : Bool) : CallMeter :=
  let allocating :=
    if m.allocating.allocatingType.allocatingFunction = .free then
      m.allocating.updateFreeingStatusAfterRealFunction
    else m.allocating.updateAllocatingStatusAfterRealFunction isReusedObject
  { m with allocating, stopped := false }.updateAllocatingInfoToThreadLocalData single

def step (p : SizeThresholds) : CallEvent → Option CallMeter
  | .allocate allocationFunction objectSize sampled now =>
      if m.allocating.allocatingType.doingAllocation ∨ allocationFunction = .free then none
      else some { m with
        allocating := m.allocating.updateAllocatingStatusBeforeRealFunction p allocationFunction
          objectSize sampled now }
  | .free objectSize isReusedObject sampled now =>
      if m.allocating.allocatingType.doingAllocation then none
      else some { m with
        allocating := m.allocating.updateFreeingStatusBeforeRealFunction p objectSize
          isReusedObject sampled now }
  | .lock now => some { m with allocating := m.allocating.pthreadLock now }
  | .trylock result now => some { m with allocating := m.allocating.pthreadTrylock result now }
  | .mutexUnlock now => some { m with allocating := m.allocating.pthreadMutexUnlock now }
  | .spinUnlock now => some { m with allocating := m.allocating.pthreadSpinUnlock now }
  | .systemCall type timeStart timeStop =>
      some { m with allocating := m.allocating.systemCall type timeStart timeStop }
  | .stop now =>
      if m.allocating.allocatingType.doingAllocation ∧ ¬m.stopped then
        some { m with allocating := m.allocating.stopCountCountingEvents now, stopped := true }
      else none
  | .done isReusedObject single =>
      if m.allocating.allocatingType.doingAllocation ∧ m.stopped then
        some (m.done isReusedObject single)
      else none

end CallMeter

/-- Everything is the thread's own. -/
abbrev CallMeters : Type := Nat → CallMeter

namespace CallMeters

def init : CallMeters := fun _ => {}

def step (p : SizeThresholds) (s : CallMeters) (i : Nat × CallEvent) : Option CallMeters :=
  ((s i.1).step p i.2).map (Function.update s i.1)

end CallMeters

end MemPerf.Original
