import MemPerf.Lib.Run
import MemPerf.ShadowEntry

/-!
# The megabyte map of the original tree

In the original tree a page entry is found in two steps. `megaMap` has a
slot for every megabyte of the address space; a used slot holds the place
of a table of 256 page entries in the page map. Tables are made when a
megabyte is first asked for, by bumping a pointer through the page map,
so neighbouring megabytes may have tables anywhere. A `PageMapEntry *` is
an index into the page map, a `CacheMapEntry *` one into the cache map.

Three functions walk over the pages of a region. They look the first
entry up and then step from page to page (`nextPage`): to the next entry,
or to the table of the next megabyte when the page index is 0 again. The
index is a `uint8_t` in `updatePages` and in `updateCacheLines`; in
`cleanupPages` it is an `unsigned`.

A `PageWalk` also notes the entries in the order in which they are used.
`none` is an abort, or an access outside of the maps.
-/

namespace MemPerf.Original

open Word StepSystem

@[simp] abbrev oneMb : Nat := 1048576
@[simp] abbrev megabyteMask : Nat := oneMb - 1
@[simp] abbrev log2MegabyteSize : Nat := 20
@[simp] abbrev numPagesPerMegabyte : Nat := 256
@[simp] abbrev numMegabyteMapEntries : Nat := 134217728

/-- `PAGE_MAP_SIZE / sizeof(PageMapEntry)`: entries have 16 bytes. -/
@[simp] abbrev maxPageMapEntries : Nat := 64 * oneGb / 16

/-- `CACHE_MAP_SIZE / sizeof(CacheMapEntry)`: entries have 8 bytes. -/
@[simp] abbrev maxCacheMapEntries : Nat := 64 * oneGb / 8

/-! ## Entries -/

inductive FalseSharingType where
  | object
  | active
  | passive
deriving DecidableEq, Repr

structure CacheMapEntry where
  falseSharingStatus : Bool × Bool := (false, false)
  numUsedBytes : Int := 0
  lastAFThreadIndex : Nat := 0
deriving DecidableEq, Repr

namespace CacheMapEntry

def addUsedBytes (numBytes : Nat) (e : CacheMapEntry) : CacheMapEntry :=
  { e with numUsedBytes := swrap 8 (e.numUsedBytes + numBytes) }

def subUsedBytes (numBytes : Nat) (e : CacheMapEntry) : CacheMapEntry :=
  { e with numUsedBytes := swrap 8 (e.numUsedBytes - numBytes) }

def setFull (e : CacheMapEntry) : CacheMapEntry := { e with numUsedBytes := cachelineSize }

def setEmpty (e : CacheMapEntry) : CacheMapEntry := { e with numUsedBytes := 0 }

def setFS (falseSharingType : FalseSharingType) (e : CacheMapEntry) : CacheMapEntry :=
  { e with
    falseSharingStatus := match falseSharingType with
      | .object => (false, false)
      | .active => (true, false)
      | .passive => (false, true) }

def getFS (e : CacheMapEntry) : FalseSharingType :=
  match e.falseSharingStatus with
  | (false, false) => .object
  | (true, false) => .active
  | _ => .passive

/-- `getThreadIndex` for a running thread's index. -/
def getThreadIndex (runningThreadIndex : Nat) : Nat := runningThreadIndex &&& 15 ||| 16

/-- The last thread to allocate or free here, and the type of sharing if
it was another one. -/
def recordThread (runningThreadIndex : Nat) (falseSharingType : FalseSharingType)
    (e : CacheMapEntry) : CacheMapEntry :=
  let threadIndex := getThreadIndex runningThreadIndex
  let e := if e.lastAFThreadIndex ≠ threadIndex ∧ 16 ≤ e.lastAFThreadIndex then
      e.setFS falseSharingType
    else e
  { e with lastAFThreadIndex := threadIndex }

def updateCache (runningThreadIndex : Nat) (isFree : Bool) (numBytes : Nat)
    (e : CacheMapEntry) : CacheMapEntry :=
  if isFree then
    let e := e.subUsedBytes numBytes
    if e.getFS = .active ∨ e.getFS = .object then e.recordThread runningThreadIndex .passive else e
  else
    let e := e.addUsedBytes numBytes
    if e.getFS = .object then e.recordThread runningThreadIndex .active else e

end CacheMapEntry

structure PageMapEntry where
  touched : Bool := false
  numUsedBytes : Int := 0
  cacheMapEntry : Option Nat := none
deriving DecidableEq, Repr

namespace PageMapEntry

def addUsedBytes (numBytes : Nat) (e : PageMapEntry) : PageMapEntry :=
  { e with numUsedBytes := swrap 16 (e.numUsedBytes + numBytes) }

def subUsedBytes (numBytes : Nat) (e : PageMapEntry) : PageMapEntry :=
  { e with numUsedBytes := swrap 16 (e.numUsedBytes - numBytes) }

def setFull (e : PageMapEntry) : PageMapEntry := { e with numUsedBytes := pagesize }

def setEmpty (e : PageMapEntry) : PageMapEntry := { e with numUsedBytes := 0 }

def setTouched (e : PageMapEntry) : PageMapEntry := { e with touched := true }

end PageMapEntry

/-! ## The maps and their tables -/

structure ShadowMemory where
  megaMap : Nat → Option Nat := fun _ => none
  pageMap : Nat → PageMapEntry := fun _ => {}
  pageMapBumpPtr : Nat := 0
  cacheMap : Nat → CacheMapEntry := fun _ => {}
  cacheMapBumpPtr : Nat := 0

namespace ShadowMemory

/-- `*current` rewritten in place, for a page entry. -/
def modifyPage (s : ShadowMemory) (current : Nat) (f : PageMapEntry → PageMapEntry) :
    ShadowMemory :=
  { s with pageMap := Function.update s.pageMap current (f (s.pageMap current)) }

/-- `*current` rewritten in place, for a line entry. -/
def modifyLine (s : ShadowMemory) (current : Nat) (f : CacheMapEntry → CacheMapEntry) :
    ShadowMemory :=
  { s with cacheMap := Function.update s.cacheMap current (f (s.cacheMap current)) }

def doPageMapBumpPointer (s : ShadowMemory) : Option (ShadowMemory × Nat) :=
  let curPtrValue := s.pageMapBumpPtr
  if s.pageMapBumpPtr + numPagesPerMegabyte ≥ maxPageMapEntries then none
  else some ({ s with pageMapBumpPtr := s.pageMapBumpPtr + numPagesPerMegabyte }, curPtrValue)

def doCacheMapBumpPointer (s : ShadowMemory) : Option (ShadowMemory × Nat) :=
  let curPtrValue := s.cacheMapBumpPtr
  if s.cacheMapBumpPtr + numCachelinesPerPage ≥ maxCacheMapEntries then none
  else some ({ s with cacheMapBumpPtr := s.cacheMapBumpPtr + numCachelinesPerPage }, curPtrValue)

/-- `*getMegaMapEntry(mega_index)`: the table of the megabyte. -/
def getMegaMapEntry (s : ShadowMemory) (megaIndex : Nat) : Option (ShadowMemory × Nat) :=
  if megaIndex ≥ numMegabyteMapEntries then none
  else
    match s.megaMap megaIndex with
    | some table => some (s, table)
    | none => do
        let (s, table) ← s.doPageMapBumpPointer
        some ({ s with megaMap := Function.update s.megaMap megaIndex (some table) }, table)

/-- `getCacheMapEntry(true)` of the page entry `page`. -/
def getCacheMapEntry (s : ShadowMemory) (page : Nat) : Option (ShadowMemory × Nat) :=
  match (s.pageMap page).cacheMapEntry with
  | some table => some (s, table)
  | none => do
      let (s, table) ← s.doCacheMapBumpPointer
      some (s.modifyPage page fun e => { e with cacheMapEntry := some table }, table)

/-- The megabyte of an address, its page there, and its line in the page. -/
def megaIndexOf (uintaddr : Nat) : Nat := uintaddr >>> log2MegabyteSize

def pageIndexOf (uintaddr : Nat) : Nat := (uintaddr &&& megabyteMask) >>> log2Pagesize

def cacheIndexOf (uintaddr : Nat) : Nat := (uintaddr &&& pagesizeMask) >>> log2CachelineSize

/-- `getPageMapEntry(void *)` -/
def getPageMapEntry (s : ShadowMemory) (address : Nat) : Option (ShadowMemory × Nat) :=
  if megaIndexOf address > numMegabyteMapEntries then none
  else do
    let (s, table) ← s.getMegaMapEntry (megaIndexOf address)
    some (s, table + pageIndexOf address)

end ShadowMemory

/-! ## Walking -/

/-- `mega_index`, `page_index` and `current`, or `targetPage`. -/
structure PageCursor where
  megaIndex : Nat
  pageIndex : Nat
  current : Nat
deriving DecidableEq, Repr

/-- `page_index++` for an index of `w` bits. -/
def PageCursor.incr (w : Nat) (c : PageCursor) : PageCursor :=
  { c with pageIndex := wrap w (c.pageIndex + 1) }

/-- The page entry after `current`, once the index was incremented. -/
def ShadowMemory.nextPage (s : ShadowMemory) (c : PageCursor) :
    Option (ShadowMemory × PageCursor) :=
  if c.pageIndex = 0 then do
    let (s, table) ← s.getMegaMapEntry (c.megaIndex + 1)
    some (s, { c with megaIndex := c.megaIndex + 1, current := table })
  else some (s, { c with current := c.current + 1 })

/-- The shadow, `numNewPagesTouched` or `numTouchedPages`, and the page
entries used so far. -/
structure PageWalk where
  shadow : ShadowMemory
  numPages : Nat := 0
  visited : List Nat := []

namespace PageWalk

/-- What `updatePages` does to an entry: its bytes change, and if they are
allocated it is touched. -/
def updatePage (isFree : Bool) (bytes : PageMapEntry → PageMapEntry) (current : Nat)
    (w : PageWalk) : Option PageWalk :=
  if current < maxPageMapEntries then
    let w := { w with
      shadow := w.shadow.modifyPage current bytes
      visited := w.visited ++ [current] }
    if isFree || (w.shadow.pageMap current).touched then some w
    else some { w with
      shadow := w.shadow.modifyPage current .setTouched
      numPages := wrap 32 (w.numPages + 1) }
  else none

/-- The first or the last page. -/
def partBytes (isFree : Bool) (numBytes : Nat) : PageMapEntry → PageMapEntry :=
  if isFree then .subUsedBytes numBytes else .addUsedBytes numBytes

def wholeBytes (isFree : Bool) : PageMapEntry → PageMapEntry :=
  if isFree then .setEmpty else .setFull

/-- The `while(size >= PAGESIZE)` loop, for `n` pages. -/
def wholePages (isFree : Bool) : Nat → PageWalk → PageCursor → Option (PageWalk × PageCursor)
  | 0, w, c => some (w, c)
  | n + 1, w, c => do
      let (s, c) ← w.shadow.nextPage c
      let w ← updatePage isFree (wholeBytes isFree) c.current { w with shadow := s }
      wholePages isFree n w (c.incr 8)

/-- `targetPage->getCacheMapEntry(true)` -/
def lineTable (targetPage : Nat) (w : PageWalk) : Option (PageWalk × Nat) :=
  if targetPage < maxPageMapEntries then do
    let (s, table) ← w.shadow.getCacheMapEntry targetPage
    some ({ w with shadow := s, visited := w.visited ++ [targetPage] }, table)
  else none

/-- `current` and `cache_index`, with the cursor of `targetPage`. -/
structure LineCursor where
  page : PageCursor
  current : Nat
  cacheIndex : Nat

/-- The line after `current`. -/
def nextLine (w : PageWalk) (c : LineCursor) : Option (PageWalk × LineCursor) :=
  if c.cacheIndex = numCachelinesPerPage then do
    let (s, page) ← w.shadow.nextPage (c.page.incr 8)
    let (w, table) ← lineTable page.current { w with shadow := s }
    some (w, { page := page, current := table, cacheIndex := 0 })
  else some (w, { c with current := c.current + 1 })

def modifyLine (current : Nat) (f : CacheMapEntry → CacheMapEntry) (w : PageWalk) : PageWalk :=
  { w with shadow := w.shadow.modifyLine current f }

/-- The `while(size_remain >= CACHELINE_SIZE)` loop, for `n` lines. -/
def wholeLines (isFree : Bool) : Nat → PageWalk → LineCursor → Option (PageWalk × LineCursor)
  | 0, w, c => some (w, c)
  | n + 1, w, c => do
      let (w, c) ← w.nextLine c
      wholeLines isFree n (w.modifyLine c.current (if isFree then .setEmpty else .setFull))
        { c with cacheIndex := c.cacheIndex + 1 }

/-- `PageMapEntry::clear`: the page's lines are zeroed by `memset`. -/
def clear (current : Nat) (s : ShadowMemory) : ShadowMemory :=
  let s := match (s.pageMap current).cacheMapEntry with
    | some table =>
        { s with
          cacheMap := fun c =>
            if table ≤ c ∧ c < table + numCachelinesPerPage then {} else s.cacheMap c }
    | none => s
  s.modifyPage current fun e => { e with touched := false, numUsedBytes := 0 }

/-- What `cleanupPages` does to an entry. -/
def cleanupPage (current : Nat) (w : PageWalk) : Option PageWalk :=
  if current < maxPageMapEntries then
    let w := { w with visited := w.visited ++ [current] }
    if (w.shadow.pageMap current).touched then
      some { w with shadow := clear current w.shadow, numPages := wrap 32 (w.numPages + 1) }
    else some w
  else none

/-- The `while(length)` loop, for `n` pages. The cursor moves on after the
last page as well. -/
def cleanPages : Nat → PageWalk → PageCursor → Option PageWalk
  | 0, w, _ => some w
  | n + 1, w, c => do
      let w ← cleanupPage c.current w
      let (s, c) ← w.shadow.nextPage (c.incr 32)
      cleanPages n { w with shadow := s } c

end PageWalk

namespace ShadowMemory

open PageWalk

/-! ## The operations -/

def updatePages (uintaddr megaIndex pageIndex size : Nat) (isFree : Bool) (s : ShadowMemory) :
    Option PageWalk := do
  let firstPageOffset := uintaddr &&& pagesizeMask
  let curPageBytes := min (pagesize - firstPageOffset) size
  let (s, table) ← s.getMegaMapEntry megaIndex
  let current := table + pageIndex
  let w ← updatePage isFree (partBytes isFree curPageBytes) current { shadow := s }
  let size := size - curPageBytes
  let (w, c) ← wholePages isFree (size / pagesize) w
    ({ megaIndex, pageIndex, current : PageCursor }.incr 8)
  if size % pagesize > 0 then do
    let (s, c) ← w.shadow.nextPage c
    updatePage isFree (partBytes isFree (size % pagesize)) c.current { w with shadow := s }
  else some w

/-- `PageMapEntry::updateCacheLines`, called by the thread with the given
index. -/
def updateCacheLines (runningThreadIndex megaIndex pageIndex cacheIndex firstCacheLineOffset
    size : Nat) (isFree : Bool) (s : ShadowMemory) : Option PageWalk := do
  let (s, table) ← s.getMegaMapEntry megaIndex
  let targetPage := table + pageIndex
  let (w, lines) ← lineTable targetPage { shadow := s }
  let current := lines + cacheIndex
  let curCacheLineBytes := min (cachelineSize - firstCacheLineOffset) size
  let w := w.modifyLine current (.updateCache runningThreadIndex isFree curCacheLineBytes)
  let sizeRemain := size - curCacheLineBytes
  let (w, c) ← wholeLines isFree (sizeRemain / cachelineSize) w
    { page := { megaIndex, pageIndex, current := targetPage }, current
      cacheIndex := cacheIndex + 1 }
  if sizeRemain % cachelineSize > 0 then do
    let (w, c) ← w.nextLine c
    some (w.modifyLine c.current
      (.updateCache runningThreadIndex isFree (sizeRemain % cachelineSize)))
  else some w

/-- The return value, and the walk. -/
def cleanupPages (uintaddr length : Nat) (s : ShadowMemory) : Option (Nat × PageWalk) := do
  let length := alignup length pagesize
  let (s, table) ← s.getMegaMapEntry (megaIndexOf uintaddr)
  let w ← cleanPages (length / pagesize) { shadow := s }
    { megaIndex := megaIndexOf uintaddr
      pageIndex := pageIndexOf uintaddr
      current := table + pageIndexOf uintaddr }
  some (wrap 32 (w.numPages * pagesize), w)

/-- The return value, and the state afterwards. -/
def updateObject (runningThreadIndex address size : Nat) (isFree : Bool) (s : ShadowMemory) :
    Option (Nat × ShadowMemory) :=
  if address = 0 ∨ size = 0 then some (0, s)
  else if megaIndexOf address > numMegabyteMapEntries then none
  else do
    let pages ← s.updatePages address (megaIndexOf address) (pageIndexOf address) size isFree
    let lines ← pages.shadow.updateCacheLines runningThreadIndex (megaIndexOf address)
      (pageIndexOf address) (cacheIndexOf address) (address &&& cachelineSizeMask) size isFree
    some (wrap 32 (pages.numPages * pagesize), lines.shadow)

end ShadowMemory

/-! ## Steps -/

/-- A call into the shadow memory. The two halves of `updateObject` are
steps of their own, since other threads' calls may come between them. -/
inductive ShadowOp where
  | updatePages (address size : Nat) (isFree : Bool)
  | updateCacheLines (runningThreadIndex address size : Nat) (isFree : Bool)
  | cleanupPages (uintaddr length : Nat)
  | getPageMapEntry (address : Nat)
deriving DecidableEq, Repr

def ShadowMemory.step (s : ShadowMemory) : ShadowOp → Option ShadowMemory
  | .updatePages address size isFree =>
      (s.updatePages address (megaIndexOf address) (pageIndexOf address) size isFree).map
        PageWalk.shadow
  | .updateCacheLines runningThreadIndex address size isFree =>
      (s.updateCacheLines runningThreadIndex (megaIndexOf address) (pageIndexOf address)
        (cacheIndexOf address) (address &&& cachelineSizeMask) size isFree).map PageWalk.shadow
  | .cleanupPages uintaddr length => (s.cleanupPages uintaddr length).map fun r => r.2.shadow
  | .getPageMapEntry address => (s.getPageMapEntry address).map Prod.fst

/-- A call of `updateObject` is a call of each of its halves. -/
theorem ShadowMemory.updateObject_steps {s s' : ShadowMemory} {tid address size r : Nat}
    {isFree : Bool} (h : s.updateObject tid address size isFree = some (r, s')) :
    s' = s ∨ ∃ t, s.step (.updatePages address size isFree) = some t
      ∧ t.step (.updateCacheLines tid address size isFree) = some s' := by
  unfold updateObject at h
  split at h
  · cases h
    exact Or.inl rfl
  · split at h
    · cases h
    · obtain ⟨pages, hpages, h⟩ := Option.bind_eq_some_iff.mp h
      obtain ⟨lines, hlines, h⟩ := Option.bind_eq_some_iff.mp h
      cases h
      refine Or.inr ⟨pages.shadow, ?_, ?_⟩
      · rw [step, hpages]
        rfl
      · rw [step, hlines]
        rfl

end MemPerf.Original
