import MemPerf.Lib.Search
import MemPerf.ShadowEntry

/-!
# The shadow memory operations

`mallocUpdateObject`, `freeUpdateObject`, `cleanupPages` and
`doMemoryAccess`, with the two tables they feed. Each call is one atomic
step; `none` is the `abort()` of an exhausted cache map.

Allocation and free walk the object's pages and lines the same way (a
first partial unit, whole units, a last partial unit) and differ in what
they do to each, so there is one page walk (`walkPages`) and one line
walk (`walkCacheLines`) with those actions as parameters. A loop
`while(size >= UNIT) { ..; size -= UNIT; }` is a recursion on the number
`size / UNIT` of its rounds and leaves `size % UNIT`.
-/

namespace MemPerf

open Word Search

/-! ## The conflict table -/

namespace ConflictData

/-- The unconditional part of `addMiss`. -/
def countMiss (setId : Nat) (d : ConflictData) : ConflictData :=
  { d with
    totalMisses := wrap 32 (d.totalMisses + 1)
    missesPerSet := Function.update d.missesPerSet setId (wrap 32 (d.missesPerSet setId + 1)) }

/-- The critical section of `addMiss`. -/
def appendCme (setId current : Nat) (d : ConflictData) : ConflictData :=
  { d with
    cme := Function.update d.cme d.numOfCme (some current)
    setOfCme := Function.update d.setOfCme d.numOfCme setId
    numOfCme := wrap 8 (d.numOfCme + 1)
    numOfCmePerSet :=
      Function.update d.numOfCmePerSet setId (wrap 8 (d.numOfCmePerSet setId + 1)) }

/-- `addr`'s cache set. -/
def setIdOf (addr : Nat) : Nat := (addr &&& 0xfff) >>> 6

/-- The 5-percent test, in 32-bit arithmetic, and the two flags. -/
def wantsCme (d : ConflictData) (setId : Nat) (e : CacheMapEntry) : Bool :=
  decide (50 ≤ d.totalMisses) && decide (d.totalMisses ≤ wrap 32 (d.missesPerSet setId * 20))
    && !e.conflict && !e.coherency

/-- Room in the table and in the set, tested before and again after
taking the lock. -/
def hasRoom (d : ConflictData) (setId : Nat) (e : CacheMapEntry) : Bool :=
  decide (d.numOfCme < cmeMax) && decide (d.numOfCmePerSet setId < 16) && !e.conflict

def addMiss (addr current : Nat) (d : ConflictData) (e : CacheMapEntry) :
    ConflictData × CacheMapEntry :=
  let setId := setIdOf addr
  let d := d.countMiss setId
  if d.wantsCme setId e then
    if d.hasRoom setId e then
      (d.appendCme setId current, { e with misses := e.misses ||| 0x80#8 })
    else (d, e)
  else (d, e)

/-- Two key slots in which 0 is an empty one. -/
def recordCallKey (callKey : Nat) (keys : Nat × Nat) : Nat × Nat :=
  if keys.1 ≠ 0 then
    if keys.1 ≠ callKey ∧ keys.2 = 0 then (keys.1, callKey) else keys
  else (callKey, keys.2)

def checkObj (current callKey : Nat) (d : ConflictData) : ConflictData :=
  let i := firstIndex d.numOfCme fun i => d.cme i == some current
  let set := d.setOfCme i
  { d with
    objNumPerSet := Function.update d.objNumPerSet set (wrap 8 (d.objNumPerSet set + 1))
    callKeyPerSet :=
      Function.update d.callKeyPerSet set (recordCallKey callKey (d.callKeyPerSet set)) }

end ConflictData

/-! ## The coherency table -/

namespace CoherencyData

/-- `allocateTid` and `callKey` after the free of an object of `tid`. -/
def recordOwner (tid callKey : Nat) (d : CoherencyData) : CoherencyData :=
  if d.allocateTid.1 ≠ 0 then
    { d with
      allocateTid :=
        if d.allocateTid.1 ≠ tid ∧ d.allocateTid.2 = 0 then (d.allocateTid.1, tid)
        else d.allocateTid
      callKey :=
        if d.callKey.1 ≠ callKey ∧ d.callKey.2 = 0 then (d.callKey.1, callKey)
        else d.callKey }
  else
    { d with allocateTid := (tid, d.allocateTid.2), callKey := (callKey, d.callKey.2) }

/-- One row of `tidsPerWord` after a miss of `tid`. -/
def recordTid (tid : Nat) (row : Nat → Nat) : Nat → Nat :=
  let j := firstIndex 16 fun j => row j == 0 || row j == tid
  if j < 16 ∧ row j ≠ tid then Function.update row j tid else row

def recordWord (wordIndex tid : Nat) (d : CoherencyData) : CoherencyData :=
  { d with
    tidsPerWord :=
      Function.update d.tidsPerWord wordIndex (recordTid tid (d.tidsPerWord wordIndex)) }

end CoherencyData

namespace ShadowMemory

def modifyCoherency (s : ShadowMemory) (i : Nat) (f : CoherencyData → CoherencyData) :
    ShadowMemory :=
  { s with coherencyCaches := Function.update s.coherencyCaches i (f (s.coherencyCaches i)) }

def setConflictData (s : ShadowMemory) (d : ConflictData) : ShadowMemory :=
  { s with conflictData := d }

/-- The index search for a line's slot in `coherencyCaches`. -/
def coherencyIndex (s : ShadowMemory) (current : Nat) : Nat :=
  firstIndex s.numOfCoherencyCaches fun i => (s.coherencyCaches i).cme == some current

/-! ## Lazily allocated line tables -/

def doCacheMapBumpPointer (s : ShadowMemory) : Option (ShadowMemory × Nat) :=
  let curPtrValue := s.cacheMapBumpPtr
  if s.cacheMapBumpPtr + numCachelinesPerPage ≥ maxCacheMapEntries then none
  else some ({ s with cacheMapBumpPtr := s.cacheMapBumpPtr + numCachelinesPerPage }, curPtrValue)

/-- `getCacheMapEntry(true)`. -/
def getCacheMapEntry (s : ShadowMemory) (range index : Nat) : Option (ShadowMemory × Nat) :=
  match (s.pageMap range index).cacheMapEntry with
  | some table => some (s, table)
  | none => do
      let (s, table) ← s.doCacheMapBumpPointer
      some (s.modifyPage range index fun e => { e with cacheMapEntry := some table }, table)

/-! ## The page walk -/

/-- The `while` loop over whole pages: after `current`, `n` pages are
rewritten by `whole`. -/
def wholePages (whole : PageMapEntry → PageMapEntry) (range : Nat) :
    Nat → Nat → ShadowMemory → ShadowMemory
  | 0, _, s => s
  | n + 1, current, s =>
      wholePages whole range n (current + 1) (s.modifyPage range (current + 1) whole)

def walkPages (part : Nat → PageMapEntry → PageMapEntry) (whole : PageMapEntry → PageMapEntry)
    (uintaddr range pageIndex size : Nat) (s : ShadowMemory) : ShadowMemory :=
  let firstPageOffset := uintaddr &&& pagesizeMask
  let curPageBytes := min (pagesize - firstPageOffset) size
  let s := s.modifyPage range pageIndex (part curPageBytes)
  let size := size - curPageBytes
  let s := wholePages whole range (size / pagesize) pageIndex s
  if size % pagesize > 0 then
    s.modifyPage range (pageIndex + size / pagesize + 1) (part (size % pagesize))
  else s

def mallocUpdatePages (uintaddr range pageIndex size : Nat) (s : ShadowMemory) : ShadowMemory :=
  s.walkPages .addUsedBytes .setFull uintaddr range pageIndex size

def freeUpdatePages (uintaddr range pageIndex size : Nat) (s : ShadowMemory) : ShadowMemory :=
  s.walkPages .subUsedBytes .setEmpty uintaddr range pageIndex size

/-! ## The line walk -/

/-- `targetPage` (as a page index), `current` and `cache_index`. -/
structure LineCursor where
  targetPage : Nat
  current : Nat
  cacheIndex : Nat

/-- The step to the next line, across a page end if need be. -/
def nextLine (range : Nat) (s : ShadowMemory) (w : LineCursor) :
    Option (ShadowMemory × LineCursor) :=
  if w.cacheIndex = numCachelinesPerPage then do
    let (s, table) ← s.getCacheMapEntry range (w.targetPage + 1)
    some (s, { targetPage := w.targetPage + 1, current := table, cacheIndex := 0 })
  else some (s, { w with current := w.current + 1 })

/-- The `while` loop over whole lines. -/
def wholeLines (whole : Nat → ShadowMemory → ShadowMemory) (range : Nat) :
    Nat → ShadowMemory → LineCursor → Option (ShadowMemory × LineCursor)
  | 0, s, w => some (s, w)
  | n + 1, s, w => do
      let (s, w) ← nextLine range s w
      wholeLines whole range n (whole w.current s) { w with cacheIndex := w.cacheIndex + 1 }

def walkCacheLines (part : Nat → Nat → ShadowMemory → ShadowMemory)
    (whole : Nat → ShadowMemory → ShadowMemory)
    (range pageIndex cacheIndex firstCacheLineOffset size : Nat) (s : ShadowMemory) :
    Option ShadowMemory := do
  let (s, table) ← s.getCacheMapEntry range pageIndex
  let current := table + cacheIndex
  let curCacheLineBytes := min (cachelineSize - firstCacheLineOffset) size
  let s := part curCacheLineBytes current s
  let sizeRemain := size - curCacheLineBytes
  let (s, w) ← wholeLines whole range (sizeRemain / cachelineSize) s
    { targetPage := pageIndex, current := current, cacheIndex := cacheIndex + 1 }
  if sizeRemain % cachelineSize > 0 then do
    let (s, w) ← nextLine range s w
    some (part (sizeRemain % cachelineSize) w.current s)
  else some s

/-- What an allocation does to a line: `part` of it, or `whole`. -/
def mallocPartLine (numBytes current : Nat) (s : ShadowMemory) : ShadowMemory :=
  s.modifyLine current (.addUsedBytes numBytes)

def mallocWholeLine (current : Nat) (s : ShadowMemory) : ShadowMemory :=
  s.modifyLine current .setFull

def mallocUpdateCacheLines (range pageIndex cacheIndex firstCacheLineOffset size : Nat)
    (s : ShadowMemory) : Option ShadowMemory :=
  s.walkCacheLines mallocPartLine mallocWholeLine range pageIndex cacheIndex
    firstCacheLineOffset size

/-- What a free does to the first and the last, partial line. -/
def freePartLine (objStat : ObjStat) (numBytes current : Nat) (s : ShadowMemory) :
    ShadowMemory :=
  let s := s.modifyLine current (.subUsedBytes numBytes)
  -- check conflict
  let s := if (s.cacheMap current).conflict then
      s.setConflictData (s.conflictData.checkObj current objStat.callKey)
    else s
  -- check coherency
  if (s.cacheMap current).coherency then
    s.modifyCoherency (s.coherencyIndex current) (.recordOwner objStat.tid objStat.callKey)
  else s

/-- What a free does to a whole line after the first: the conflict flag
is cleared, the coherency flag is not looked at. -/
def freeWholeLine (objStat : ObjStat) (current : Nat) (s : ShadowMemory) : ShadowMemory :=
  let s := if (s.cacheMap current).conflict then
      (s.setConflictData (s.conflictData.checkObj current objStat.callKey)).modifyLine current
        fun e => { e with misses := e.misses &&& 0x7f#8 }
    else s
  s.modifyLine current .setEmpty

def freeUpdateCacheLines (range pageIndex cacheIndex firstCacheLineOffset : Nat)
    (objStat : ObjStat) (s : ShadowMemory) : Option ShadowMemory :=
  s.walkCacheLines (freePartLine objStat) (freeWholeLine objStat) range pageIndex cacheIndex
    firstCacheLineOffset objStat.size

/-! ## The four operations -/

def mallocUpdateObject (address size : Nat) (s : ShadowMemory) : Option ShadowMemory :=
  if size = 0 then some s
  else
    let (firstPageRange, firstPageIdx) := getPageIndex address
    if firstPageRange = numAddressRange then some s
    else
      let s := s.mallocUpdatePages address firstPageRange firstPageIdx size
      let firstCacheLineOffset := address &&& cachelineSizeMask
      let curCacheLineIdx := (address &&& pagesizeMask) >>> log2CachelineSize
      s.mallocUpdateCacheLines firstPageRange firstPageIdx curCacheLineIdx
        firstCacheLineOffset size

def freeUpdateObject (address : Nat) (objStat : ObjStat) (s : ShadowMemory) :
    Option ShadowMemory :=
  if objStat.size = 0 then some s
  else
    let (firstPageRange, firstPageIdx) := getPageIndex address
    if firstPageRange = numAddressRange then some s
    else
      let s := s.freeUpdatePages address firstPageRange firstPageIdx objStat.size
      let firstCacheLineOffset := address &&& cachelineSizeMask
      let curCacheLineIdx := (address &&& pagesizeMask) >>> log2CachelineSize
      s.freeUpdateCacheLines firstPageRange firstPageIdx curCacheLineIdx
        firstCacheLineOffset objStat

/-- `PageMapEntry::clear`: the page's line table is zeroed by `memset`. -/
def clear (s : ShadowMemory) (range index : Nat) : ShadowMemory :=
  let s := match (s.pageMap range index).cacheMapEntry with
    | some table =>
        { s with
          cacheMap := fun c =>
            if table ≤ c ∧ c < table + numCachelinesPerPage then {} else s.cacheMap c }
    | none => s
  s.modifyPage range index fun e => { e with numUsedBytes := 0 }

/-- The `while(length)` loop over `n` pages. -/
def clearPages (range : Nat) : Nat → Nat → ShadowMemory → ShadowMemory
  | 0, _, s => s
  | n + 1, current, s => clearPages range n (current + 1) (s.clear range current)

/-- `cleanupPages` does not test the range it found. -/
def cleanupPages (uintaddr length : Nat) (s : ShadowMemory) : ShadowMemory :=
  let (firstPageRange, firstPageIdx) := getPageIndex uintaddr
  clearPages firstPageRange (alignup length pagesize / pagesize) firstPageIdx s

/-- The line a sampled address is counted for, with its page entry. -/
def sampledLine (s : ShadowMemory) (uintaddr : Nat) : Option (PageMapEntry × Nat) :=
  let (pageRange, pageIdx) := getPageIndex uintaddr
  if pageRange = numAddressRange then none
  else
    let cacheIdx := (uintaddr &&& pagesizeMask) >>> log2CachelineSize
    let pme := s.pageMap pageRange pageIdx
    if pme.getUsedBytes = 0 then none
    else
      match pme.cacheMapEntry with
      | none => none
      | some table =>
          if (s.cacheMap (table + cacheIdx)).getUsedBytes = 0 then none
          else some (pme, table + cacheIdx)

/-- The word of its line an address falls into. -/
def wordIndexOf (uintaddr : Nat) : Nat := (uintaddr &&& cachelineSizeMask) >>> 3

/-- The coherency half of `doMemoryAccess`, on a line with entry `e`. -/
def recordCoherency (tid uintaddr current : Nat) (s : ShadowMemory) : ShadowMemory :=
  let e := s.cacheMap current
  if 5 ≤ (e.misses &&& 0x3f#8).toNat then
    if e.coherency then
      s.modifyCoherency (s.coherencyIndex current) fun d =>
        ({ d with misses := wrap 16 (d.misses + 1) }).recordWord (wordIndexOf uintaddr) tid
    else if s.numOfCoherencyCaches < coherencyCachesMax then
      let i := s.numOfCoherencyCaches
      let s := { s with numOfCoherencyCaches := wrap 8 (s.numOfCoherencyCaches + 1) }
      let s := s.modifyLine current fun e => { e with misses := e.misses ||| 0x40#8 }
      s.modifyCoherency i fun d =>
        ({ d with cme := some current, misses := 5 }).recordWord (wordIndexOf uintaddr) tid
    else s
  else s.modifyLine current fun e => { e with misses := e.misses + 1 }

/-- `conflictData.addMiss(uintaddr, current)`. -/
def addMiss (uintaddr current : Nat) (s : ShadowMemory) : ShadowMemory :=
  let (conflictData, e) := s.conflictData.addMiss uintaddr current (s.cacheMap current)
  (s.setConflictData conflictData).modifyLine current fun _ => e

/-- The `if(miss)` block of `doMemoryAccess`. -/
def recordMiss (tid uintaddr current : Nat) (s : ShadowMemory) : ShadowMemory :=
  (s.addMiss uintaddr current).recordCoherency tid uintaddr current

def doMemoryAccess (tid uintaddr : Nat) (miss : Bool) (s : ShadowMemory) : ShadowMemory :=
  match s.sampledLine uintaddr with
  | none => s
  | some (pme, current) =>
      let s := { s with
        friendlinessStatus := Function.update s.friendlinessStatus tid
          ((s.friendlinessStatus tid).recordANewSampling (s.cacheMap current).getUsedBytes
            pme.getUsedBytes) }
      if miss then s.recordMiss tid uintaddr current else s

end ShadowMemory

/-! ## Steps -/

/-- One atomic call into the shadow memory. -/
inductive ShadowOp where
  | mallocUpdateObject (address size : Nat)
  | freeUpdateObject (address : Nat) (objStat : ObjStat)
  | cleanupPages (uintaddr length : Nat)
  | doMemoryAccess (tid uintaddr : Nat) (miss : Bool)
deriving DecidableEq, Repr

def ShadowMemory.step (s : ShadowMemory) : ShadowOp → Option ShadowMemory
  | .mallocUpdateObject address size => s.mallocUpdateObject address size
  | .freeUpdateObject address objStat => s.freeUpdateObject address objStat
  | .cleanupPages uintaddr length => some (s.cleanupPages uintaddr length)
  | .doMemoryAccess tid uintaddr miss => some (s.doMemoryAccess tid uintaddr miss)

end MemPerf
