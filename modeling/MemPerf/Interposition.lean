import MemPerf.Lib.Word
import MemPerf.Values

/-!
# The interposed functions: which way a call goes

`yymalloc` and its siblings look at the calling thread's state and at the
pointer they are given, and then do one of five things. The buffer they
use before the profiler is initialised is a static array of 2 GB with a
pointer that only moves up.
-/

namespace MemPerf

open Word

/-- `PROFILER_MEMORY_SIZE`. -/
@[simp] abbrev profilerMemorySize : Nat := 2 * oneGb

/-- `startPointer` is the address of the array. -/
structure ProfilerMemory where
  startPointer : Nat
  initialized : Bool := false
  objectNum : Nat := 0
  endPointer : Nat := 0
  overheadPointer : Nat := 0
deriving DecidableEq, Repr

namespace ProfilerMemory

variable (m : ProfilerMemory)

/-- `initialize()`. -/
def init : ProfilerMemory :=
  { m with
    endPointer := wrap 64 (m.startPointer + profilerMemorySize)
    overheadPointer := m.startPointer
    initialized := true }

def checkAndInitialize : ProfilerMemory := if m.initialized then m else m.init

def getASpaceFromMemory (size : Nat) : ProfilerMemory :=
  { m with
    overheadPointer := wrap 64 (m.overheadPointer + size)
    objectNum := wrap 32 (m.objectNum + 1) }

def newObjectAddr (size : Nat) : Nat := wsub 64 m.overheadPointer size

/-- There is no test of the bound. -/
def mallocWithoutLock (size : Nat) : ProfilerMemory × Nat :=
  let m := m.checkAndInitialize.getASpaceFromMemory size
  (m, m.newObjectAddr size)

/-- `endPointer` itself counts as inside. -/
def inMemory (addr : Nat) : Bool := m.startPointer ≤ addr ∧ addr ≤ m.endPointer

/-- Nothing is freed. -/
def ifInProfilerMemoryThenFree (addr : Nat) : ProfilerMemory × Bool :=
  let m := m.checkAndInitialize
  (m, m.inMemory addr)

variable {m : ProfilerMemory} {size : Nat}

@[simp] theorem checkAndInitialize_startPointer :
    m.checkAndInitialize.startPointer = m.startPointer := by
  unfold checkAndInitialize
  split <;> rfl

theorem checkAndInitialize_initialized : m.checkAndInitialize.initialized = true := by
  unfold checkAndInitialize
  split
  · assumption
  · rfl

@[simp] theorem checkAndInitialize_idem :
    m.checkAndInitialize.checkAndInitialize = m.checkAndInitialize := by
  rw [checkAndInitialize, if_pos checkAndInitialize_initialized]

theorem getASpaceFromMemory_checked :
    (m.checkAndInitialize.getASpaceFromMemory size).checkAndInitialize =
      m.checkAndInitialize.getASpaceFromMemory size :=
  if_pos (checkAndInitialize_initialized (m := m))

/-- An allocation that stays below `2 ^ 64` takes the next bytes. -/
theorem mallocWithoutLock_eq (h : m.checkAndInitialize.overheadPointer + size < 2 ^ 64) :
    (m.mallocWithoutLock size).2 = m.checkAndInitialize.overheadPointer ∧
      (m.mallocWithoutLock size).1.checkAndInitialize.overheadPointer =
        m.checkAndInitialize.overheadPointer + size := by
  have hoverhead : (m.checkAndInitialize.getASpaceFromMemory size).overheadPointer =
      m.checkAndInitialize.overheadPointer + size := wrap_of_lt h
  refine ⟨?_, ?_⟩
  · rw [mallocWithoutLock, newObjectAddr, hoverhead, wsub_of_le (Nat.le_add_left _ _) h,
      Nat.add_sub_cancel]
  · rw [mallocWithoutLock, getASpaceFromMemory_checked, hoverhead]

theorem mallocWithoutLock_endPointer :
    (m.mallocWithoutLock size).1.checkAndInitialize.endPointer =
      m.checkAndInitialize.endPointer := by
  rw [mallocWithoutLock, getASpaceFromMemory_checked, getASpaceFromMemory]

theorem mallocWithoutLock_startPointer :
    (m.mallocWithoutLock size).1.startPointer = m.startPointer :=
  checkAndInitialize_startPointer

end ProfilerMemory

/-- What the interposed functions ask about the calling thread. -/
structure CallerStatus where
  runningThreadIndex : Nat
  profilerInitialized : Bool
  conclusionHasStarted : Bool
  doingAllocation : Bool
deriving DecidableEq, Repr

/-- What is done with a call. -/
inductive Route where
  /-- Return at once. -/
  | nothing
  /-- `MyMalloc::malloc`. -/
  | myMalloc
  /-- A `realloc` of profiler memory: `RealX::malloc`. -/
  | realMalloc
  /-- The real function. -/
  | real
  /-- The real function, recorded. -/
  | tracked
deriving DecidableEq, Repr

namespace CallerStatus

variable (c : CallerStatus)

def profilerNotInitialized : Bool := !c.profilerInitialized

def outsideTrackedAllocation : Bool := !c.doingAllocation

/-- The first two tests that `yymalloc`, `yycalloc` and `yymemalign` share. -/
def allocationRoute : Route :=
  if c.runningThreadIndex = 0 ∧ c.profilerNotInitialized then .myMalloc
  else if ¬ c.outsideTrackedAllocation ∨ c.conclusionHasStarted then .real
  else .tracked

def yymalloc (sz : Nat) : Route := if sz = 0 then .nothing else c.allocationRoute

/-- The product is a `size_t`. -/
def yycalloc (nelem elsize : Nat) : Route :=
  if wrap 64 (nelem * elsize) = 0 then .nothing else c.allocationRoute

def yymemalign (size : Nat) : Route := if size = 0 then .nothing else c.allocationRoute

def yyposixMemalign (size : Nat) : Route :=
  if size = 0 then .nothing
  else if ¬ c.outsideTrackedAllocation ∨ c.profilerNotInitialized ∨ c.conclusionHasStarted then
    .real
  else .tracked

/-- The flag is `MyMalloc::ifInProfilerMemoryThenFree(ptr)`; a null pointer
does not get here. -/
def yyfree (inProfilerMemory : Bool) : Route :=
  if inProfilerMemory ∨ c.profilerNotInitialized then .nothing
  else if ¬ c.outsideTrackedAllocation ∨ c.conclusionHasStarted then .real
  else .tracked

def yyrealloc (inProfilerMemory : Bool) : Route :=
  if c.runningThreadIndex = 0 ∧ c.profilerNotInitialized then .myMalloc
  else if inProfilerMemory then .realMalloc
  else if ¬ c.outsideTrackedAllocation ∨ c.conclusionHasStarted then .real
  else .tracked

end CallerStatus

end MemPerf
