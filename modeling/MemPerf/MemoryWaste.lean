import MemPerf.Backtrace
import MemPerf.ClassTable
import MemPerf.Lib.Rows
import MemPerf.Lib.Run

/-!
# Objects and their waste

`MemoryWaste` of the `MEMORY` build: the table of objects and the counters
per thread and size class that `allocUpdate` and `freeUpdate` keep beside
it. The calls of all threads are interleaved, each call as one step.

The counter arrays are flattened, a row a thread. They have
`MAX_THREAD_NUMBER` rows; the test that a new thread still has one is
commented out in `getARunningThreadIndex`, so a thread beyond the last row
has no successor state here.
-/

namespace MemPerf.Temp

open Chained Rows Word StepSystem

@[simp] abbrev pagesize : Nat := 4096

/-- `MAX_OBJ_NUM` -/
@[simp] abbrev maxObjNum : Nat := 4194304

/-- `MAX_THREAD_NUMBER` -/
@[simp] abbrev maxThreadNumber : Nat := 1024

/-! ## Objects -/

structure ObjectStatus where
  allocated : Bool := false
  mark : Bool := false
  callKey : Nat := 0
  tid : Nat := 0
  sizeClassSizeAndIndex : SizeClassSizeAndIndex
  maxTouchedBytes : Nat := 0
deriving DecidableEq, Repr

namespace ObjectStatus

/-- The index of the object's class. -/
abbrev classIndex (status : ObjectStatus) : Nat := status.sizeClassSizeAndIndex.classSizeIndex

def internalFragment (status : ObjectStatus) : Nat :=
  let k := status.sizeClassSizeAndIndex
  let unusedPageSize := wsub 32 k.classSize status.maxTouchedBytes / pagesize * pagesize
  wsub 64 (wsub 64 k.classSize unusedPageSize) k.size

def newObjectStatus (sizeClassSizeAndIndex : SizeClassSizeAndIndex) (maxTouchBytes : Nat) :
    ObjectStatus :=
  { sizeClassSizeAndIndex, maxTouchedBytes := maxTouchBytes }

/-- An address reused for another size: its class is exchanged, the mark of
the highest byte touched is clipped to the class and raised to the size. -/
def resize (status : ObjectStatus) (k : SizeClassSizeAndIndex) (size : Nat) : ObjectStatus :=
  let clipped :=
    if k.classSize < status.maxTouchedBytes then k.classSize else status.maxTouchedBytes
  { status with
    sizeClassSizeAndIndex := k
    maxTouchedBytes := if clipped < size then size else clipped }

/-- What the tail of `allocUpdate` writes into the entry. -/
def allocate (status : ObjectStatus) (thread callsiteKey : Nat) : ObjectStatus :=
  { status with callKey := callsiteKey, allocated := true, tid := thread }

end ObjectStatus

/-! ## Counters -/

structure MemoryWasteStatus where
  internalFragment : Nat → Int := fun _ => 0
  numOfAllocatedObjects : Nat → Int := fun _ => 0
  numOfFreelistObjects : Nat → Int := fun _ => 0
  numOfNewAllocations : Nat → Nat := fun _ => 0
  numOfReusedAllocations : Nat → Nat := fun _ => 0
  numOfFree : Nat → Nat := fun _ => 0
  blowupFlag : Nat → Int := fun _ => 0

namespace ProgramStatus

/-- `MemoryWasteStatus::arrayIndex` -/
abbrev arrayIndex (p : ProgramStatus) (threadIndex classSizeIndex : Nat) : Nat :=
  index p.numberOfClassSizes threadIndex classSizeIndex

end ProgramStatus

namespace MemoryWasteStatus

variable (c : MemoryWasteStatus) (i : Nat)

def countNew : MemoryWasteStatus :=
  { c with numOfNewAllocations := incAt c.numOfNewAllocations i }

def countReused : MemoryWasteStatus :=
  { c with
    numOfFreelistObjects := addAt 32 c.numOfFreelistObjects i (-1)
    numOfReusedAllocations := incAt c.numOfReusedAllocations i }

/-- What both branches of `allocUpdate` count, of the entry as they leave it. -/
def countAlloc (status : ObjectStatus) : MemoryWasteStatus :=
  { c with
    internalFragment := addAt 64 c.internalFragment i status.internalFragment
    numOfAllocatedObjects := addAt 32 c.numOfAllocatedObjects i 1
    blowupFlag :=
      if 0 < c.blowupFlag status.classIndex then addAt 64 c.blowupFlag status.classIndex (-1)
      else c.blowupFlag }

def countFree (status : ObjectStatus) : MemoryWasteStatus :=
  { c with
    internalFragment := addAt 64 c.internalFragment i (-status.internalFragment)
    numOfFree := incAt c.numOfFree i
    numOfAllocatedObjects := addAt 32 c.numOfAllocatedObjects i (-1)
    numOfFreelistObjects := addAt 32 c.numOfFreelistObjects i 1
    blowupFlag := addAt 64 c.blowupFlag status.classIndex 1 }

end MemoryWasteStatus

structure MemoryWaste where
  objStatusMap : HashMap Nat ObjectStatus
  currentStatus : MemoryWasteStatus := {}
  recordStatus : MemoryWasteStatus := {}
  /-- thread-local -/
  cacheForGetClassSizeAndIndex : Nat → SizeClassSizeAndIndex := fun _ => {}
  totalNumOfThread : Nat := 0
  minAddr : Nat := 2 ^ 64 - 1
  maxAddr : Nat := 0
  backtrace : Backtrace

namespace MemoryWaste

/-- `MemoryWaste::initialize`, with whatever call sites are already known. -/
def init (backtrace : Backtrace) : MemoryWaste :=
  { objStatusMap := HashMap.init (fun address => address >>> 7) maxObjNum (by decide), backtrace }

def getClassSizeAndIndex (p : ProgramStatus) (s : MemoryWaste) (thread size : Nat) :
    Option (SizeClassSizeAndIndex × MemoryWaste) :=
  (p.getClassSizeAndIndex (s.cacheForGetClassSizeAndIndex thread) size).map fun (k, cache) =>
    (k, { s with cacheForGetClassSizeAndIndex :=
            Function.update s.cacheForGetClassSizeAndIndex thread cache })

/-- `allocUpdate` at an address the table does not hold. -/
def allocNew (p : ProgramStatus) (s : MemoryWaste) (thread size address callsiteKey : Nat) :
    Option MemoryWaste := do
  let (k, s) ← s.getClassSizeAndIndex p thread size
  let i := p.arrayIndex thread k.classSizeIndex
  let status := ObjectStatus.newObjectStatus k size
  return { s with
    objStatusMap := s.objStatusMap.insert address (status.allocate thread callsiteKey)
    minAddr := min s.minAddr address
    maxAddr := max s.maxAddr address
    currentStatus := (s.currentStatus.countNew i).countAlloc i status }

/-- `allocUpdate` at an address whose entry is `old`. -/
def allocReused (p : ProgramStatus) (s : MemoryWaste) (thread size address callsiteKey : Nat)
    (old : ObjectStatus) : Option MemoryWaste := do
  let (status, s) ←
    if old.sizeClassSizeAndIndex.size = size then some (old, s)
    else (s.getClassSizeAndIndex p thread size).map fun (k, s) => (old.resize k size, s)
  let i := p.arrayIndex thread status.classIndex
  return { s with
    objStatusMap := s.objStatusMap.modify address fun _ => status.allocate thread callsiteKey
    currentStatus := (s.currentStatus.countReused i).countAlloc i status }

/-- Whether the address was reused, and the state afterwards. -/
def allocUpdate (p : ProgramStatus) (s : MemoryWaste) (thread size address callsiteKey : Nat) :
    Option (Bool × MemoryWaste) :=
  match s.objStatusMap.find address with
  | none => (s.allocNew p thread size address callsiteKey).map fun s => (false, s)
  | some old => (s.allocReused p thread size address callsiteKey old).map fun s => (true, s)

/-- The entry the freed address has, if it was allocated, and the state
afterwards. -/
def freeUpdate (p : ProgramStatus) (s : MemoryWaste) (thread address : Nat) :
    Option ObjectStatus × MemoryWaste :=
  match s.objStatusMap.find address with
  | none => (none, s)
  | some status =>
      if status.allocated = false then (none, s)
      else
        let i := p.arrayIndex thread status.classIndex
        let freed := { status with allocated := false }
        (some freed, { s with
          objStatusMap := s.objStatusMap.modify address fun _ => freed
          currentStatus := s.currentStatus.countFree i status
          backtrace := s.backtrace.subMem status.callKey status.sizeClassSizeAndIndex.size })

/-- `getARunningThreadIndex`, of a thread that has a row in the arrays. -/
def newThread (s : MemoryWaste) : Option MemoryWaste :=
  if s.totalNumOfThread < maxThreadNumber then
    some { s with totalNumOfThread := s.totalNumOfThread + 1 }
  else none

/-! ## The calls as steps -/

inductive Call where
  | allocUpdate (thread size address callsiteKey : Nat)
  | freeUpdate (thread address : Nat)
  | newThread
deriving DecidableEq, Repr

def step (p : ProgramStatus) (s : MemoryWaste) : Call → Option MemoryWaste
  | .allocUpdate thread size address callsiteKey =>
      (s.allocUpdate p thread size address callsiteKey).map Prod.snd
  | .freeUpdate thread address => some (s.freeUpdate p thread address).2
  | .newThread => s.newThread

/-! ## What a call can do -/

/-- What `allocUpdate` makes of the entry `old` it finds, and the class
cache afterwards. -/
def Reuses (p : ProgramStatus) (cache : SizeClassSizeAndIndex) (size : Nat)
    (old status : ObjectStatus) (cache' : SizeClassSizeAndIndex) : Prop :=
  (old.sizeClassSizeAndIndex.size = size ∧ status = old ∧ cache' = cache) ∨
  (old.sizeClassSizeAndIndex.size ≠ size ∧ ∃ k,
    p.getClassSizeAndIndex cache size = some (k, cache') ∧ status = old.resize k size)

/-- The state after a new address was counted. -/
def afterNew (p : ProgramStatus) (s : MemoryWaste) (thread address callsiteKey : Nat)
    (status : ObjectStatus) (cache : SizeClassSizeAndIndex) : MemoryWaste :=
  let i := p.arrayIndex thread status.classIndex
  { s with
    objStatusMap := s.objStatusMap.insert address (status.allocate thread callsiteKey)
    minAddr := min s.minAddr address
    maxAddr := max s.maxAddr address
    cacheForGetClassSizeAndIndex := Function.update s.cacheForGetClassSizeAndIndex thread cache
    currentStatus := (s.currentStatus.countNew i).countAlloc i status }

/-- The state after a reused address was counted. -/
def afterReuse (p : ProgramStatus) (s : MemoryWaste) (thread address callsiteKey : Nat)
    (status : ObjectStatus) (cache : SizeClassSizeAndIndex) : MemoryWaste :=
  let i := p.arrayIndex thread status.classIndex
  { s with
    objStatusMap := s.objStatusMap.modify address fun _ => status.allocate thread callsiteKey
    cacheForGetClassSizeAndIndex := Function.update s.cacheForGetClassSizeAndIndex thread cache
    currentStatus := (s.currentStatus.countReused i).countAlloc i status }

/-- The state after an allocated address was freed. -/
def afterFree (p : ProgramStatus) (s : MemoryWaste) (thread address : Nat)
    (status : ObjectStatus) : MemoryWaste :=
  { s with
    objStatusMap := s.objStatusMap.modify address fun _ => { status with allocated := false }
    currentStatus := s.currentStatus.countFree (p.arrayIndex thread status.classIndex) status
    backtrace := s.backtrace.subMem status.callKey status.sizeClassSizeAndIndex.size }

variable {p : ProgramStatus} {s s' : MemoryWaste}

theorem alloc_cases {thread size address callsiteKey : Nat}
    (h : s.step p (.allocUpdate thread size address callsiteKey) = some s') :
    (∃ k cache, s.objStatusMap.find address = none ∧
      p.getClassSizeAndIndex (s.cacheForGetClassSizeAndIndex thread) size = some (k, cache) ∧
      s' = s.afterNew p thread address callsiteKey (.newObjectStatus k size) cache) ∨
    (∃ old status cache, s.objStatusMap.find address = some old ∧
      Reuses p (s.cacheForGetClassSizeAndIndex thread) size old status cache ∧
      s' = s.afterReuse p thread address callsiteKey status cache) := by
  obtain ⟨⟨reused, t⟩, halloc, rfl⟩ := Option.map_eq_some_iff.mp h
  cases hf : s.objStatusMap.find address with
  | none =>
      simp only [allocUpdate, hf, allocNew, getClassSizeAndIndex] at halloc
      cases hk : p.getClassSizeAndIndex (s.cacheForGetClassSizeAndIndex thread) size with
      | none => simp [hk] at halloc
      | some kc =>
          simp only [hk] at halloc
          obtain ⟨-, rfl⟩ : false = reused ∧ _ = t := by simpa using halloc
          exact .inl ⟨kc.1, kc.2, rfl, rfl, rfl⟩
  | some old =>
      right
      simp only [allocUpdate, hf, allocReused] at halloc
      split at halloc
      · next hsize =>
          obtain ⟨-, rfl⟩ : true = reused ∧ _ = t := by simpa using halloc
          refine ⟨old, old, s.cacheForGetClassSizeAndIndex thread, rfl, .inl ⟨hsize, rfl, rfl⟩, ?_⟩
          simp [afterReuse]
      · next hsize =>
          simp only [getClassSizeAndIndex] at halloc
          cases hk : p.getClassSizeAndIndex (s.cacheForGetClassSizeAndIndex thread) size with
          | none => simp [hk] at halloc
          | some kc =>
              simp only [hk] at halloc
              obtain ⟨-, rfl⟩ : true = reused ∧ _ = t := by simpa using halloc
              exact ⟨old, old.resize kc.1 size, kc.2, rfl, .inr ⟨hsize, kc.1, hk, rfl⟩, rfl⟩

theorem free_cases {thread address : Nat} (h : s.step p (.freeUpdate thread address) = some s') :
    s' = s ∨ ∃ status, s.objStatusMap.find address = some status ∧ status.allocated = true ∧
      s' = s.afterFree p thread address status := by
  obtain rfl : (s.freeUpdate p thread address).2 = s' := by simpa [step] using h
  unfold freeUpdate
  split
  · exact .inl rfl
  · next status hf =>
      split
      · exact .inl rfl
      · next halloc => exact .inr ⟨status, hf, by simpa using halloc, rfl⟩

theorem newThread_cases (h : s.step p .newThread = some s') :
    s.totalNumOfThread < maxThreadNumber ∧
      s' = { s with totalNumOfThread := s.totalNumOfThread + 1 } := by
  simp only [step, newThread] at h
  split at h
  · next hlt => exact ⟨hlt, by simpa using h.symm⟩
  · cases h

end MemoryWaste

end MemPerf.Temp
