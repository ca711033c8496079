import MemPerf.Predictor
import MemPerf.Lib.HashRefs

/-!
# The status of the call in progress

`AllocatingStatus` and the parts of `ThreadLocalStatus` it adds to: what a
thread records while it is inside a tracked allocation call (the locks and
system calls the allocator uses), and what it does with the record when
the call is over. Everything here is `thread_local`.

The arrays over allocation types that belong together are one array of
records. `lockUsage` takes its entries from a mapping of 8 GB that is not
modelled; a thread that fills it does not come back from the insertion.
-/

namespace MemPerf

open Word Chained

inductive LockType where
  | mutex
  | spin
  | mutexTry
  | spinTry
deriving DecidableEq, Repr

inductive SystemCallType where
  | mmap
  | madvise
  | sbrk
  | mprotect
  | munmap
  | mremap
deriving DecidableEq, Repr

/-- `LENGTH_OF_QUEUE`. -/
@[simp] abbrev lengthOfQueue : Nat := 1000

/-- `MAX_LOCK_NUM`. -/
@[simp] abbrev maxLockNum : Nat := 512

theorem maxLockNum_pos : 0 < maxLockNum := by decide

/-! ## Counters -/

/-- Two 32-bit counters and a 64-bit sum. -/
@[ext] structure LockCounts where
  numOfCalls : Nat := 0
  numOfCallsWithContentions : Nat := 0
  cycles : Nat := 0
deriving DecidableEq, Repr

namespace LockCounts

def addAContention (c : LockCounts) : LockCounts :=
  { c with numOfCallsWithContentions := wrap 32 (c.numOfCallsWithContentions + 1) }

def addCallAndCycles (c : LockCounts) (numOfCalls cycles : Nat) : LockCounts :=
  { c with
    numOfCalls := wrap 32 (c.numOfCalls + numOfCalls)
    cycles := wrap 64 (c.cycles + cycles) }

/-- The three `+=`. -/
def addUp (c d : LockCounts) : LockCounts where
  numOfCalls := wrap 32 (c.numOfCalls + d.numOfCalls)
  numOfCallsWithContentions := wrap 32 (c.numOfCallsWithContentions + d.numOfCallsWithContentions)
  cycles := wrap 64 (c.cycles + d.cycles)

end LockCounts

@[ext] structure SystemCallData where
  num : Nat := 0
  cycles : Nat := 0
deriving DecidableEq, Repr

def SystemCallData.add (d e : SystemCallData) : SystemCallData where
  num := wrap 32 (d.num + e.num)
  cycles := wrap 64 (d.cycles + e.cycles)

def SystemCallData.addOneSystemCall (d : SystemCallData) (cycles : Nat) : SystemCallData :=
  d.add { num := 1, cycles }

structure OverviewLockDataInAllocatingStatus where
  numOfLocks : Nat := 0
  counts : LockCounts := {}
deriving DecidableEq, Repr

/-- The counts by allocation type. -/
structure OverviewLockData where
  numOfLocks : Nat := 0
  counts : Nat → LockCounts := fun _ => {}

structure DetailLockData where
  lockType : LockType
  counts : Nat → LockCounts := fun _ => {}

def DetailLockData.newDetailLockData (lockType : LockType) : DetailLockData := { lockType }

/-! ## The queue of locks -/

structure DetailLockDataInAllocatingStatus where
  counts : LockCounts := {}
  addressOfHashLockData : Option Ref := none
deriving DecidableEq, Repr

/-- The slot `queueTail` is that of the current lock. -/
structure QueueOfDetailLockData where
  queueTail : Int := -1
  queue : Nat → DetailLockDataInAllocatingStatus := fun _ => {}

namespace QueueOfDetailLockData

variable (q : QueueOfDetailLockData)

def setTail (slot : DetailLockDataInAllocatingStatus) : QueueOfDetailLockData :=
  { q with queue := Function.update q.queue q.queueTail.toNat slot }

/-- The slot the queue is writing to. No lock function reads it before
`writingNewDataInTheQueue` has moved the tail off `-1`. -/
def tail : DetailLockDataInAllocatingStatus := q.queue q.queueTail.toNat

/-- A full queue is left as it is. -/
def writingNewDataInTheQueue (addressOfHashLockData : Ref) : QueueOfDetailLockData :=
  if q.queueTail < (lengthOfQueue - 1 : Nat) then
    let q := { q with queueTail := q.queueTail + 1 }
    q.setTail { q.tail with addressOfHashLockData := some addressOfHashLockData }
  else q

def addAContention : QueueOfDetailLockData :=
  q.setTail { q.tail with counts := q.tail.counts.addAContention }

def addCallAndCycles (numOfCalls cycles : Nat) : QueueOfDetailLockData :=
  q.setTail { q.tail with counts := q.tail.counts.addCallAndCycles numOfCalls cycles }

/-- The `memset` reaches as far as the queue was used. -/
def cleanUpQueue : QueueOfDetailLockData where
  queueTail := -1
  queue index := if (index : Int) < q.queueTail + 1 then {} else q.queue index

end QueueOfDetailLockData

/-- `+=` of a slot's counts to the entry it points to. -/
def DetailLockDataInAllocatingStatus.writingIntoAddress (slot : DetailLockDataInAllocatingStatus)
    (type : Nat) (m : HashMap Nat DetailLockData) : HashMap Nat DetailLockData :=
  match slot.addressOfHashLockData with
  | some r => m.write r fun d =>
      { d with counts := Function.update d.counts type ((d.counts type).addUp slot.counts) }
  | none => m

def QueueOfDetailLockData.writingIntoHashTable (q : QueueOfDetailLockData) (type : Nat)
    (m : HashMap Nat DetailLockData) : HashMap Nat DetailLockData :=
  (List.range (q.queueTail + 1).toNat).foldl
    (fun m index => (q.queue index).writingIntoAddress type m) m

/-! ## The thread's record -/

structure AllocatingType where
  doingAllocation : Bool := false
  objectSizeType : ObjectSizeType := .small
  objectSizeTypeForPrediction : ObjectSizeType := .small
  allocatingFunction : AllocationFunction := .malloc
  objectSize : Nat := 0
  isReuse : Bool := false
deriving DecidableEq, Repr

structure AllocatingStatus where
  allocatingType : AllocatingType := {}
  allocationTypeForOutputData : Nat := 0
  allocationTypeForPrediction : Nat := 0
  sampledForCountingEvent : Bool := false
  cyclesInRealFunction : Nat := 0
  nowRunningLockType : LockType := .mutex
  queueOfDetailLockData : QueueOfDetailLockData := {}
  overviewLockData : LockType → OverviewLockDataInAllocatingStatus := fun _ => {}
  systemCallData : SystemCallType → SystemCallData := fun _ => {}

structure ThreadLocalStatus where
  numOfSampledCountingFunctions : Nat → Nat := fun _ => 0
  cycles : Nat → Nat := fun _ => 0
  overviewLockData : LockType → OverviewLockData := fun _ => {}
  systemCallData : SystemCallType → Nat → SystemCallData := fun _ _ => {}

/-- The thresholds of `ProgramStatus`. -/
structure SizeThresholds where
  middleObjectThreshold : Nat := 0
  largeObjectThreshold : Nat := 0

namespace SizeThresholds

variable (p : SizeThresholds)

def hasMiddleObjectThreshold : Bool :=
  0 < p.middleObjectThreshold ∧ p.middleObjectThreshold < p.largeObjectThreshold

def getObjectSizeType (size : Nat) : ObjectSizeType :=
  if size > p.largeObjectThreshold then .large
  else if p.middleObjectThreshold ≠ 0 ∧ size ≥ p.middleObjectThreshold then .medium
  else .small

end SizeThresholds

/-- `HashFuncs::hashAddr`. -/
def hashAddr (address : Nat) : Nat := address >>> 7

/-- What a thread holds of all this. -/
structure CallRecorder where
  allocating : AllocatingStatus := {}
  threadLocal : ThreadLocalStatus := {}
  lockUsage : HashMap Nat DetailLockData := HashMap.init hashAddr maxLockNum maxLockNum_pos
  predictor : PredictorLocal := {}

namespace CallRecorder

variable (s : CallRecorder)

/-! ## Lock and system calls inside the real function -/

def recordANewLock (lockType : LockType) : CallRecorder :=
  { s with
    allocating.overviewLockData := Function.update s.allocating.overviewLockData lockType
      { s.allocating.overviewLockData lockType with
        numOfLocks := wrap 32 ((s.allocating.overviewLockData lockType).numOfLocks + 1) } }

/-- The entry of the lock, made if `lockUsage` does not have one. -/
def findOrInsert (lockType : LockType) (lock : Nat) : CallRecorder × Ref :=
  match s.lockUsage.ref? lock with
  | some r => (s, r)
  | none =>
      ({ s with lockUsage := s.lockUsage.insert lock (.newDetailLockData lockType) }.recordANewLock
        lockType, s.lockUsage.nextRef lock)

def initForWritingOneLockData (lockType : LockType) (r : Ref) : CallRecorder :=
  { s with
    allocating.nowRunningLockType := lockType
    allocating.queueOfDetailLockData :=
      s.allocating.queueOfDetailLockData.writingNewDataInTheQueue r }

/-- A change of the overview of the type of the lock being used. -/
def updateOverview (f : LockCounts → LockCounts) : CallRecorder :=
  { s with
    allocating.overviewLockData :=
      Function.update s.allocating.overviewLockData s.allocating.nowRunningLockType
        { s.allocating.overviewLockData s.allocating.nowRunningLockType with
          counts := f (s.allocating.overviewLockData s.allocating.nowRunningLockType).counts } }

def recordALockContention : CallRecorder :=
  let s := s.updateOverview LockCounts.addAContention
  { s with allocating.queueOfDetailLockData := s.allocating.queueOfDetailLockData.addAContention }

def recordLockCallAndCycles (numOfCalls cycles : Nat) : CallRecorder :=
  let s := s.updateOverview (·.addCallAndCycles numOfCalls cycles)
  { s with
    allocating.queueOfDetailLockData :=
      s.allocating.queueOfDetailLockData.addCallAndCycles numOfCalls cycles }

def addOneSyscallToSyscallData (type : SystemCallType) (cycles : Nat) : CallRecorder :=
  { s with
    allocating.systemCallData :=
      Function.update s.allocating.systemCallData type
        ((s.allocating.systemCallData type).addOneSystemCall cycles) }

end CallRecorder

/-- An interposed lock call: its type, the lock, whether it is contended,
and the readings around the real function. -/
structure LockCall where
  lockType : LockType
  lock : Nat
  contended : Bool
  timeStart : Nat
  timeStop : Nat
deriving DecidableEq, Repr

namespace LockCall

def cycles (c : LockCall) : Nat := wsub 64 c.timeStop c.timeStart

/-- `pthread_mutex_lock`: the lock word is not 0 before the call. -/
def pthreadMutexLock (lock word timeStart timeStop : Nat) : LockCall :=
  { lockType := .mutex, lock, contended := decide (word ≠ 0), timeStart, timeStop }

/-- `pthread_spin_lock`: the lock word is not 1 before the call. -/
def pthreadSpinLock (lock word timeStart timeStop : Nat) : LockCall :=
  { lockType := .spin, lock, contended := decide (word ≠ 1), timeStart, timeStop }

/-- `pthread_spin_trylock`: the real function's result is not 0. -/
def pthreadSpinTrylock (lock : Nat) (result : Int) (timeStart timeStop : Nat) : LockCall :=
  { lockType := .spinTry, lock, contended := decide (result ≠ 0), timeStart, timeStop }

def pthreadMutexTrylock (lock : Nat) (result : Int) (timeStart timeStop : Nat) : LockCall :=
  { lockType := .mutexTry, lock, contended := decide (result ≠ 0), timeStart, timeStop }

end LockCall

namespace CallRecorder

variable (s : CallRecorder)

def outsideTrackedAllocation : Bool := !s.allocating.allocatingType.doingAllocation

/-- What the four lock functions record. -/
def lockCall (c : LockCall) : CallRecorder :=
  if s.outsideTrackedAllocation ∨ ¬ s.allocating.sampledForCountingEvent then s
  else
    let (s, r) := s.findOrInsert c.lockType c.lock
    let s := s.initForWritingOneLockData c.lockType r
    let s := if c.contended then s.recordALockContention else s
    s.recordLockCallAndCycles 1 c.cycles

def systemCall (type : SystemCallType) (timeStart timeStop : Nat) : CallRecorder :=
  if s.outsideTrackedAllocation ∨ ¬ s.allocating.sampledForCountingEvent then s
  else s.addOneSyscallToSyscallData type (wsub 64 timeStop timeStart)

end CallRecorder

/-- What the allocator calls while the real function runs. -/
inductive AllocatorEvent where
  | lock (c : LockCall)
  | system (type : SystemCallType) (timeStart timeStop : Nat)
deriving DecidableEq, Repr

def CallRecorder.event (s : CallRecorder) : AllocatorEvent → CallRecorder
  | .lock c => s.lockCall c
  | .system type timeStart timeStop => s.systemCall type timeStart timeStop

/-! ## Before and after the real function -/

namespace AllocatingStatus

variable (a : AllocatingStatus)

def updateAllocatingTypeBeforeRealFunction (allocationFunction : AllocationFunction)
    (objectSize : Nat) : AllocatingStatus :=
  { a with allocatingType := { a.allocatingType with
      allocatingFunction := allocationFunction
      objectSize := wrap 32 objectSize
      doingAllocation := true } }

def updateFreeingTypeBeforeRealFunction (allocationFunction : AllocationFunction) :
    AllocatingStatus :=
  { a with allocatingType := { a.allocatingType with
      allocatingFunction := allocationFunction
      doingAllocation := true } }

/-- `objStat` is the size `ObjTable::freeUpdate` finds, if any. -/
def updateMemoryStatusBeforeFree (objStat : Option Nat) : AllocatingStatus :=
  match objStat with
  | some size => { a with allocatingType.objectSize := wrap 32 size }
  | none => a

def updateAllocatingStatusBeforeRealFunction (allocationFunction : AllocationFunction)
    (objectSize : Nat) (sampled : Bool) : AllocatingStatus :=
  { a.updateAllocatingTypeBeforeRealFunction allocationFunction objectSize with
    sampledForCountingEvent := sampled }

def updateFreeingStatusBeforeRealFunction (allocationFunction : AllocationFunction)
    (objStat : Option Nat) (sampled : Bool) : AllocatingStatus :=
  let a := (a.updateFreeingTypeBeforeRealFunction allocationFunction).updateMemoryStatusBeforeFree
    objStat
  if allocationFunction = .free then { a with sampledForCountingEvent := sampled } else a

/-- `isReuse` is the answer of `ObjTable::allocUpdate`. -/
def updateAllocatingStatusAfterRealFunction (before after : Nat) (isReuse : Bool) :
    AllocatingStatus :=
  let a := { a with cyclesInRealFunction := MemPerf.cyclesInRealFunction before after }
  let a := if a.allocatingType.allocatingFunction = .malloc ∨
      a.allocatingType.allocatingFunction = .realloc then
    { a with allocatingType.isReuse := isReuse }
  else a
  { a with allocatingType.doingAllocation := false }

def updateFreeingStatusAfterRealFunction (before after : Nat) : AllocatingStatus :=
  { a with
    cyclesInRealFunction := MemPerf.cyclesInRealFunction before after
    allocatingType.doingAllocation := false }

/-! ## The class of the call -/

/-- `AllocationTypeForOutputData` is one byte. -/
def toAllocationType (x : Int) : Nat := (x % 256).toNat

/-- The class of a call by its size type; the two callers pass different
size types, and both ask `objectSizeType` whether the object is large. -/
def allocationType (parallel : Bool) (sizeType : ObjectSizeType) : Nat :=
  match a.allocatingType.allocatingFunction with
  | .malloc =>
      parallel.toNat * 5 + sizeType.toNat * 2 +
        (decide (a.allocatingType.objectSizeType ≠ .large) && a.allocatingType.isReuse).toNat
  | .free => 10 + parallel.toNat * 3 + sizeType.toNat
  | .calloc => 16 + parallel.toNat
  | .realloc => 18 + parallel.toNat
  | .posixMemalign => 20 + parallel.toNat
  | .memalign => 22 + parallel.toNat

def setAllocationTypeForOutputData (parallel : Bool) : AllocatingStatus :=
  { a with
    allocationTypeForOutputData := a.allocationType parallel a.allocatingType.objectSizeType }

def setAllocationTypeForPredictionRaw (parallel : Bool) : AllocatingStatus :=
  { a with
    allocationTypeForPrediction :=
      a.allocationType parallel a.allocatingType.objectSizeTypeForPrediction }

/-- Only `malloc` and `free` change a class whose size types differ. -/
def setAllocationTypeForPrediction : AllocatingStatus :=
  let real := a.allocatingType.objectSizeType.toNat
  let predicted := a.allocatingType.objectSizeTypeForPrediction.toNat
  if real = predicted then { a with allocationTypeForPrediction := a.allocationTypeForOutputData }
  else if real > predicted then
    match a.allocatingType.allocatingFunction with
    | .malloc =>
        { a with allocationTypeForPrediction :=
            toAllocationType (a.allocationTypeForOutputData - (real - predicted : Int) * 2) }
    | .free =>
        { a with allocationTypeForPrediction :=
            toAllocationType (a.allocationTypeForOutputData - (real - predicted : Int)) }
    | _ => a
  else
    match a.allocatingType.allocatingFunction with
    | .malloc =>
        { a with allocationTypeForPrediction :=
            toAllocationType (a.allocationTypeForOutputData + (predicted - real : Int) * 2) }
    | .free =>
        { a with allocationTypeForPrediction :=
            toAllocationType (a.allocationTypeForOutputData + (predicted - real : Int)) }
    | _ => a

/-- `cleanLockFunctionsInfoInAllocatingStatus`. -/
def cleanLockFunctionsInfo : AllocatingStatus :=
  { a with
    overviewLockData := fun _ => {}
    queueOfDetailLockData := a.queueOfDetailLockData.cleanUpQueue }

end AllocatingStatus

/-! ## Adding up -/

namespace CallRecorder

variable (s : CallRecorder)

def addUpOverviewLockDataToThreadLocalData : CallRecorder :=
  { s with
    threadLocal.overviewLockData := fun lockType =>
      let total := s.threadLocal.overviewLockData lockType
      let current := s.allocating.overviewLockData lockType
      { numOfLocks := wrap 32 (total.numOfLocks + current.numOfLocks)
        counts := Function.update total.counts s.allocating.allocationTypeForOutputData
          ((total.counts s.allocating.allocationTypeForOutputData).addUp current.counts) } }

def addUpDetailLockDataToHashTable : CallRecorder :=
  { s with
    lockUsage := s.allocating.queueOfDetailLockData.writingIntoHashTable
      s.allocating.allocationTypeForOutputData s.lockUsage }

def addUpSyscallsInfoToThreadLocalData : CallRecorder :=
  { s with
    threadLocal.systemCallData := fun syscallType =>
      let total := s.threadLocal.systemCallData syscallType
      Function.update total s.allocating.allocationTypeForOutputData
        ((total s.allocating.allocationTypeForOutputData).add
          (s.allocating.systemCallData syscallType)) }

def addUpCountingEventsToThreadLocalData : CallRecorder :=
  let type := s.allocating.allocationTypeForOutputData
  { s with
    threadLocal.numOfSampledCountingFunctions :=
      Function.update s.threadLocal.numOfSampledCountingFunctions type
        (wrap 32 (s.threadLocal.numOfSampledCountingFunctions type + 1))
    threadLocal.cycles :=
      Function.update s.threadLocal.cycles type
        (wrap 64 (s.threadLocal.cycles type + s.allocating.cyclesInRealFunction)) }

/-- `parallel` is `ThreadLocalStatus::isCurrentlyParallelThread()`. -/
def updateAllocatingInfoToThreadLocalData (p : SizeThresholds) (parallel : Bool) : CallRecorder :=
  if s.allocating.sampledForCountingEvent then
    let s := { s with
      allocating.allocatingType.objectSizeType :=
        p.getObjectSizeType s.allocating.allocatingType.objectSize }
    let s := { s with allocating := s.allocating.setAllocationTypeForOutputData parallel }
    let s := s.addUpOverviewLockDataToThreadLocalData.addUpDetailLockDataToHashTable
    let s := s.addUpSyscallsInfoToThreadLocalData.addUpCountingEventsToThreadLocalData
    { s with
      allocating := { s.allocating.cleanLockFunctionsInfo with systemCallData := fun _ => {} } }
  else s

def updateAllocatingInfoToPredictor (p : SizeThresholds) (info : PredictorInfo) (parallel : Bool) :
    CallRecorder :=
  let s := { s with
    allocating.allocatingType.objectSizeTypeForPrediction :=
      info.getObjectSizeTypeForPrediction p.hasMiddleObjectThreshold
        s.allocating.allocatingType.objectSize }
  let s := { s with
    allocating :=
      if s.allocating.sampledForCountingEvent then s.allocating.setAllocationTypeForPrediction
      else s.allocating.setAllocationTypeForPredictionRaw parallel }
  { s with
    predictor := s.predictor.countCall info.replacedFunctionCycles
      s.allocating.allocationTypeForPrediction s.allocating.cyclesInRealFunction }

end CallRecorder

/-! ## Whole calls -/

/-- The tracked calls, with what `ObjTable` answers about an address that
is freed. -/
inductive TrackedFunction where
  | malloc (size : Nat)
  | calloc (nelem elsize : Nat)
  | free (objStat : Option Nat)
  /-- Of a null pointer, or of an address `objStat` is about. -/
  | realloc (objStat : Option (Option Nat)) (size : Nat)
  | posixMemalign (size : Nat)
  | memalign (size : Nat)
deriving DecidableEq, Repr

structure TrackedCall where
  function : TrackedFunction
  /-- `randomProcessForCountingEvent()`. -/
  sampled : Bool
  parallel : Bool
  /-- The answer of `ObjTable::allocUpdate`. -/
  isReuse : Bool
  cyclesBeforeRealFunction : Nat
  cyclesAfterRealFunction : Nat
  events : List AllocatorEvent
deriving DecidableEq, Repr

namespace AllocatingStatus

variable (a : AllocatingStatus)

def beforeRealFunction (sampled : Bool) : TrackedFunction → AllocatingStatus
  | .malloc size => a.updateAllocatingStatusBeforeRealFunction .malloc size sampled
  | .calloc nelem elsize =>
      a.updateAllocatingStatusBeforeRealFunction .calloc (nelem * elsize) sampled
  | .free objStat => a.updateFreeingStatusBeforeRealFunction .free objStat sampled
  | .realloc none size => a.updateAllocatingStatusBeforeRealFunction .realloc size sampled
  | .realloc (some objStat) size =>
      (a.updateFreeingStatusBeforeRealFunction .realloc objStat sampled)
        |>.updateAllocatingStatusBeforeRealFunction .realloc size sampled
  | .posixMemalign size => a.updateAllocatingStatusBeforeRealFunction .posixMemalign size sampled
  | .memalign size => a.updateAllocatingStatusBeforeRealFunction .memalign size sampled

def afterRealFunction (c : TrackedCall) : AllocatingStatus :=
  match c.function with
  | .free _ =>
      a.updateFreeingStatusAfterRealFunction c.cyclesBeforeRealFunction c.cyclesAfterRealFunction
  | _ => a.updateAllocatingStatusAfterRealFunction c.cyclesBeforeRealFunction
      c.cyclesAfterRealFunction c.isReuse

end AllocatingStatus

namespace CallRecorder

variable (s : CallRecorder)

/-- A tracked call up to the real function's return. -/
def realFunction (c : TrackedCall) : CallRecorder :=
  let s := { s with allocating := s.allocating.beforeRealFunction c.sampled c.function }
  let s := c.events.foldl event s
  { s with allocating := s.allocating.afterRealFunction c }

def trackedCall (p : SizeThresholds) (info : PredictorInfo) (c : TrackedCall) : CallRecorder :=
  ((s.realFunction c).updateAllocatingInfoToThreadLocalData p c.parallel)
    |>.updateAllocatingInfoToPredictor p info c.parallel

end CallRecorder

end MemPerf
