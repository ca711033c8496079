import Mathlib.Logic.Function.Basic
import Mathlib.Data.List.Basic
import Mathlib.Tactic.IntervalCases
import MemPerf.Lib.Word
import MemPerf.Values

/-!
# The shadow memory: entries, tables, address lookup

Every page of the profiled heap has a `PageMapEntry`, found by address
range and page index; a page gets its 64 `CacheMapEntry`s lazily, by
bumping a pointer through one big cache map. A `CacheMapEntry *` is
therefore modelled as an index into that map, and a null pointer as
`none`.

Two global tables refer to cache-line entries: `ConflictData` and
`coherencyCaches`. Arrays are functions of the index, so an access past
the end is visible as one; thread indices stay below `maxThreadNumber`
(the arrays they index have that length), so a `short` index and its
copy in a `uint16_t` slot are the same number.
-/

namespace MemPerf

open Word

/-! ## Entries -/

/-- One 64-byte line. `misses` packs the conflict flag (`0x80`), the
coherency flag (`0x40`) and a six-bit miss counter. -/
structure CacheMapEntry where
  misses : BitVec 8 := 0
  numUsedBytes : Int := 0
deriving DecidableEq, Repr

namespace CacheMapEntry

/-- `misses & 0x80`: the line is in the conflict table. -/
def conflict (e : CacheMapEntry) : Bool := e.misses &&& 0x80#8 != 0#8

/-- `misses & 0x40`: the line is in the coherency table. -/
def coherency (e : CacheMapEntry) : Bool := e.misses &&& 0x40#8 != 0#8

def addUsedBytes (numBytes : Nat) (e : CacheMapEntry) : CacheMapEntry :=
  { e with numUsedBytes := swrap 8 (e.numUsedBytes + numBytes) }

def subUsedBytes (numBytes : Nat) (e : CacheMapEntry) : CacheMapEntry :=
  { e with numUsedBytes := swrap 8 (e.numUsedBytes - numBytes) }

def setFull (e : CacheMapEntry) : CacheMapEntry := { e with numUsedBytes := cachelineSize }

def setEmpty (e : CacheMapEntry) : CacheMapEntry := { e with numUsedBytes := 0 }

def getUsedBytes (e : CacheMapEntry) : Int :=
  if e.numUsedBytes > cachelineSize then cachelineSize
  else if e.numUsedBytes < 0 then 0
  else e.numUsedBytes

end CacheMapEntry

structure PageMapEntry where
  numUsedBytes : Int := 0
  cacheMapEntry : Option Nat := none
deriving DecidableEq, Repr

namespace PageMapEntry

def addUsedBytes (numBytes : Nat) (e : PageMapEntry) : PageMapEntry :=
  { e with numUsedBytes := swrap 16 (e.numUsedBytes + numBytes) }

def subUsedBytes (numBytes : Nat) (e : PageMapEntry) : PageMapEntry :=
  { e with numUsedBytes := swrap 16 (e.numUsedBytes - numBytes) }

def setFull (e : PageMapEntry) : PageMapEntry := { e with numUsedBytes := pagesize }

def setEmpty (e : PageMapEntry) : PageMapEntry := { e with numUsedBytes := 0 }

def getUsedBytes (e : PageMapEntry) : Int :=
  if e.numUsedBytes > pagesize then pagesize
  else if e.numUsedBytes < 0 then 0
  else e.numUsedBytes

end PageMapEntry

/-- What the object table knows of an object. -/
structure ObjStat where
  callKey : Nat
  tid : Nat
  size : Nat
deriving DecidableEq, Repr

/-! ## The two tables -/

structure ConflictData where
  numOfCme : Nat := 0
  setOfCme : Nat → Nat := fun _ => 0
  numOfCmePerSet : Nat → Nat := fun _ => 0
  objNumPerSet : Nat → Nat := fun _ => 0
  callKeyPerSet : Nat → Nat × Nat := fun _ => (0, 0)
  totalMisses : Nat := 0
  missesPerSet : Nat → Nat := fun _ => 0
  cme : Nat → Option Nat := fun _ => none

structure CoherencyData where
  callKey : Nat × Nat := (0, 0)
  misses : Nat := 0
  allocateTid : Nat × Nat := (0, 0)
  tidsPerWord : Nat → Nat → Nat := fun _ _ => 0
  cme : Option Nat := none

/-- Sampling totals of one thread. -/
structure FriendlinessStatus where
  numOfSampling : Nat := 0
  totalMemoryUsageOfSampledPages : Nat := 0
  totalMemoryUsageOfSampledCacheLines : Nat := 0
deriving DecidableEq, Repr

def FriendlinessStatus.recordANewSampling (memoryUsageOfCacheLine memoryUsageOfPage : Int)
    (f : FriendlinessStatus) : FriendlinessStatus :=
  { numOfSampling := wrap 32 (f.numOfSampling + 1)
    totalMemoryUsageOfSampledCacheLines :=
      wrap 64 (f.totalMemoryUsageOfSampledCacheLines + memoryUsageOfCacheLine.toNat)
    totalMemoryUsageOfSampledPages :=
      wrap 64 (f.totalMemoryUsageOfSampledPages + memoryUsageOfPage.toNat) }

/-! ## The shadow state -/

structure ShadowMemory where
  pageMap : Nat → Nat → PageMapEntry := fun _ _ => {}
  cacheMap : Nat → CacheMapEntry := fun _ => {}
  cacheMapBumpPtr : Nat := 0
  conflictData : ConflictData := {}
  numOfCoherencyCaches : Nat := 0
  coherencyCaches : Nat → CoherencyData := fun _ => {}
  friendlinessStatus : Nat → FriendlinessStatus := fun _ => {}

namespace ShadowMemory

/-- `*getPageMapEntry(range, index)` rewritten in place. -/
def modifyPage (s : ShadowMemory) (range index : Nat)
    (f : PageMapEntry → PageMapEntry) : ShadowMemory :=
  { s with
    pageMap := fun r i =>
      if r = range ∧ i = index then f (s.pageMap r i) else s.pageMap r i }

/-- `*current` rewritten in place, for a cache-line pointer `current`. -/
def modifyLine (s : ShadowMemory) (current : Nat)
    (f : CacheMapEntry → CacheMapEntry) : ShadowMemory :=
  { s with cacheMap := Function.update s.cacheMap current (f (s.cacheMap current)) }

section simpLemmas

variable (s : ShadowMemory) (range index current : Nat)
  (f : PageMapEntry → PageMapEntry) (g : CacheMapEntry → CacheMapEntry)

theorem modifyPage_pageMap (r i : Nat) : (s.modifyPage range index f).pageMap r i =
    if r = range ∧ i = index then f (s.pageMap r i) else s.pageMap r i := rfl

@[simp] theorem modifyPage_pageMap_self :
    (s.modifyPage range index f).pageMap range index = f (s.pageMap range index) := by
  simp [modifyPage]

@[simp] theorem modifyPage_cacheMap : (s.modifyPage range index f).cacheMap = s.cacheMap := rfl

@[simp] theorem modifyPage_cacheMapBumpPtr :
    (s.modifyPage range index f).cacheMapBumpPtr = s.cacheMapBumpPtr := rfl

@[simp] theorem modifyPage_conflictData :
    (s.modifyPage range index f).conflictData = s.conflictData := rfl

@[simp] theorem modifyPage_numOfCoherencyCaches :
    (s.modifyPage range index f).numOfCoherencyCaches = s.numOfCoherencyCaches := rfl

@[simp] theorem modifyPage_coherencyCaches :
    (s.modifyPage range index f).coherencyCaches = s.coherencyCaches := rfl

@[simp] theorem modifyLine_pageMap : (s.modifyLine current g).pageMap = s.pageMap := rfl

@[simp] theorem modifyLine_cacheMapBumpPtr :
    (s.modifyLine current g).cacheMapBumpPtr = s.cacheMapBumpPtr := rfl

@[simp] theorem modifyLine_cacheMap_self :
    (s.modifyLine current g).cacheMap current = g (s.cacheMap current) := by
  simp [modifyLine]

theorem modifyLine_cacheMap_of_ne {c : Nat} (h : c ≠ current) :
    (s.modifyLine current g).cacheMap c = s.cacheMap c := by
  simp [modifyLine, h]

@[simp] theorem modifyLine_conflictData :
    (s.modifyLine current g).conflictData = s.conflictData := rfl

@[simp] theorem modifyLine_numOfCoherencyCaches :
    (s.modifyLine current g).numOfCoherencyCaches = s.numOfCoherencyCaches := rfl

@[simp] theorem modifyLine_coherencyCaches :
    (s.modifyLine current g).coherencyCaches = s.coherencyCaches := rfl

end simpLemmas

end ShadowMemory

/-! ## From addresses to page entries -/

/-- `ShadowMemory::addressRanges`. -/
def addressRanges : List Nat :=
  [0x80000000000, 0x10000000000, 0xa0000000000, 0x120000000000, 0x140000000000,
   0x560000000000, 0x7f0000000000, 0x550000000000]

/-- The loop of `getPageIndex` from range `i` on; `index` is what the
caller's variable holds so far. -/
def getPageIndexFrom (addr : Nat) : List Nat → Nat → Nat → Nat × Nat
  | [], i, index => (i, index)
  | base :: rest, i, index =>
      if base ≤ addr then
        if (addr - base) >>> log2Pagesize ≤ maxPageMapEntries then
          (i, (addr - base) >>> log2Pagesize)
        else getPageIndexFrom addr rest (i + 1) ((addr - base) >>> log2Pagesize)
      else getPageIndexFrom addr rest (i + 1) index

/-- Range and page index of an address; the range is `numAddressRange`
when there is none. (The caller's index variable is uninitialised: it
reads as 0 here when no range even starts below the address.) -/
def getPageIndex (addr : Nat) : Nat × Nat := getPageIndexFrom addr addressRanges 0 0

/-- The address at which a range starts. -/
def rangeBase (range : Nat) : Nat := addressRanges.getD range 0

theorem getPageIndexFrom_spec (addr : Nat) : ∀ (bases : List Nat) (i index : Nat),
    (getPageIndexFrom addr bases i index).1 ≤ i + bases.length
    ∧ ((getPageIndexFrom addr bases i index).1 < i + bases.length →
        ∃ k base, bases[k]? = some base ∧ (getPageIndexFrom addr bases i index).1 = i + k
          ∧ base ≤ addr ∧ (getPageIndexFrom addr bases i index).2 = (addr - base) / 4096)
  | [], i, index => by simp [getPageIndexFrom]
  | base :: rest, i, index => by
      have hrec : ∀ index', getPageIndexFrom addr (base :: rest) i index
          = getPageIndexFrom addr rest (i + 1) index' →
          (getPageIndexFrom addr (base :: rest) i index).1 ≤ i + (base :: rest).length
          ∧ ((getPageIndexFrom addr (base :: rest) i index).1 < i + (base :: rest).length →
            ∃ k b, (base :: rest)[k]? = some b
              ∧ (getPageIndexFrom addr (base :: rest) i index).1 = i + k
              ∧ b ≤ addr
              ∧ (getPageIndexFrom addr (base :: rest) i index).2 = (addr - b) / 4096) := by
        intro index' heq
        rw [heq]
        obtain ⟨hle, hfound⟩ := getPageIndexFrom_spec addr rest (i + 1) index'
        rw [List.length_cons]
        refine ⟨by omega, fun hlt => ?_⟩
        obtain ⟨k, b, hk, hi, hb, hidx⟩ := hfound (by omega)
        exact ⟨k + 1, b, by simpa using hk, by omega, hb, hidx⟩
      by_cases hbase : base ≤ addr
      · by_cases hidx : (addr - base) >>> log2Pagesize ≤ maxPageMapEntries
        · have heq : getPageIndexFrom addr (base :: rest) i index
              = (i, (addr - base) >>> log2Pagesize) := by
            rw [getPageIndexFrom, if_pos hbase, if_pos hidx]
          rw [heq]
          refine ⟨by simp, fun _ => ⟨0, base, by simp, by simp, hbase, ?_⟩⟩
          exact shiftRight_log2Pagesize _
        · exact hrec _ (by rw [getPageIndexFrom, if_pos hbase, if_neg hidx])
      · exact hrec _ (by rw [getPageIndexFrom, if_neg hbase])

theorem getPageIndex_range_le (addr : Nat) : (getPageIndex addr).1 ≤ numAddressRange :=
  (getPageIndexFrom_spec addr addressRanges 0 0).1

/-- A found range contains the address, and the index counts its pages. -/
theorem getPageIndex_found {addr range index : Nat} (h : getPageIndex addr = (range, index))
    (hr : range < numAddressRange) :
    rangeBase range ≤ addr ∧ index = (addr - rangeBase range) / 4096 := by
  have hspec := (getPageIndexFrom_spec addr addressRanges 0 0).2
  rw [show getPageIndexFrom addr addressRanges 0 0 = (range, index) from h] at hspec
  obtain ⟨k, base, hk, hrk, hb, hidx⟩ := hspec (by simpa [addressRanges] using hr)
  have hbase : rangeBase range = base := by
    rw [rangeBase, List.getD_eq_getElem?_getD, show range = k by simpa using hrk, hk]
    rfl
  exact ⟨hbase ▸ hb, hbase ▸ hidx⟩

/-- Every range starts at a page boundary. -/
theorem rangeBase_aligned (range : Nat) : 4096 ∣ rangeBase range := by
  by_cases h : range < 8
  · interval_cases range <;> decide
  · rw [rangeBase, List.getD_eq_getElem?_getD,
      List.getElem?_eq_none (by simpa [addressRanges] using h)]
    exact dvd_zero _

theorem getPageIndexFrom_page (a : Nat) : ∀ (bases : List Nat) (i index : Nat),
    (∀ b ∈ bases, 4096 ∣ b) →
    getPageIndexFrom (a / 4096 * 4096) bases i index = getPageIndexFrom a bases i index
  | [], _, _, _ => rfl
  | base :: rest, i, index, hal => by
      obtain ⟨k, hk⟩ := hal base (List.mem_cons_self ..)
      have hrest := fun i index =>
        getPageIndexFrom_page a rest i index fun b hb => hal b (List.mem_cons_of_mem _ hb)
      have hle : base ≤ a / 4096 * 4096 ↔ base ≤ a := by omega
      have hshift : (a / 4096 * 4096 - base) >>> log2Pagesize = (a - base) >>> log2Pagesize := by
        rw [shiftRight_log2Pagesize, shiftRight_log2Pagesize]
        omega
      simp only [getPageIndexFrom, hshift, hrest, hle]

/-- All bytes of a page resolve alike. -/
theorem getPageIndex_page (a : Nat) : getPageIndex (a / 4096 * 4096) = getPageIndex a :=
  getPageIndexFrom_page a _ _ _ (by decide)

/-- The page of an address that resolves, from its range and index. -/
theorem getPageIndex_address {a r i : Nat} (h : getPageIndex a = (r, i))
    (hr : r < numAddressRange) : a / 4096 * 4096 = rangeBase r + 4096 * i := by
  obtain ⟨hb, hi⟩ := getPageIndex_found h hr
  obtain ⟨k, hk⟩ := rangeBase_aligned r
  omega

/-- An address in some range, in the coordinates of its range. -/
theorem getPageIndex_start {a r i : Nat} (h : getPageIndex a = (r, i))
    (hr : r ≠ numAddressRange) :
    r < numAddressRange ∧ a = rangeBase r + 4096 * i + a % 4096 := by
  have hlt : r < numAddressRange := by
    have hle := getPageIndex_range_le a
    rw [h] at hle
    exact Nat.lt_of_le_of_ne hle hr
  have hpage := getPageIndex_address h hlt
  exact ⟨hlt, by omega⟩

end MemPerf
