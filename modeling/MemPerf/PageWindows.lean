import MemPerf.ShadowChecked

/-!
# The page walk and the page lookup

`mallocUpdateObject`, `freeUpdateObject` and `cleanupPages` look the
first page up and reach the others by incrementing the pointer. That is
the entry of the page's own address as long as the lookup would stay in
the same range. The eight ranges overlap and are searched in order, so
the pages a range answers for, with an index inside its map, are an
interval: its `window`. The walk and the lookup agree just when the
pages of the call lie in one window (`pages_right_iff`).

They part where an object crosses a window's end, on the one page past
each map that the `<=` of the lookup lets through, and in
`cleanupPages`, which does not test the range it was given.
-/

namespace MemPerf

/-! ## The windows -/

/-- Pages `lo ≤ p < hi`, by page number. -/
structure PageWindow where
  lo : Nat
  hi : Nat
deriving DecidableEq, Repr

/-- The pages that are looked up in a range and have an index below
`maxPageMapEntries` there. -/
def window : Nat → PageWindow
  | 0 => ⟨0x80000000, 0x280000000⟩
  | 1 => ⟨0x10000000, 0x80000000⟩
  | 2 => ⟨0x280000001, 0x2a0000000⟩
  | 3 => ⟨0x2a0000001, 0x320000000⟩
  | 4 => ⟨0x320000001, 0x340000000⟩
  | 5 => ⟨0x560000000, 0x760000000⟩
  | 6 => ⟨0x7f0000000, 0x9f0000000⟩
  | 7 => ⟨0x550000000, 0x560000000⟩
  | _ => ⟨0, 0⟩

/-- The lookup of `page` ends at entry `index` of the range's map. -/
def RightEntry (page range index : Nat) : Prop :=
  getPageIndex page = (range, index) ∧ range < numAddressRange ∧ index < maxPageMapEntries

instance (page range index : Nat) : Decidable (RightEntry page range index) :=
  inferInstanceAs (Decidable (_ ∧ _))

/-- One round of the lookup, for a page address. -/
theorem getPageIndexFrom_cons (p base : Nat) (rest : List Nat) (i index : Nat) :
    getPageIndexFrom (p * 4096) (base * 4096 :: rest) i index =
      if base ≤ p ∧ p ≤ base + maxPageMapEntries then (i, p - base)
      else getPageIndexFrom (p * 4096) rest (i + 1) (if base ≤ p then p - base else index) := by
  have hle : base * 4096 ≤ p * 4096 ↔ base ≤ p := by omega
  have hshift : (p * 4096 - base * 4096) >>> log2Pagesize = p - base := by
    rw [shiftRight_log2Pagesize, ← Nat.sub_mul]
    exact Nat.mul_div_cancel _ (by decide)
  rw [getPageIndexFrom, hshift]
  simp only [hle]
  by_cases hbase : base ≤ p
  · rw [if_pos hbase, if_pos hbase]
    have hmap : p - base ≤ maxPageMapEntries ↔ base ≤ p ∧ p ≤ base + maxPageMapEntries := by omega
    simp only [hmap]
  · rw [if_neg hbase, if_neg hbase, if_neg fun h => hbase h.1]

theorem getPageIndex_cases (p : Nat) : ∃ index, getPageIndex (p * 4096) =
    if 0x80000000 ≤ p ∧ p ≤ 0x280000000 then (0, p - 0x80000000)
    else if 0x10000000 ≤ p ∧ p ≤ 0x210000000 then (1, p - 0x10000000)
    else if 0xa0000000 ≤ p ∧ p ≤ 0x2a0000000 then (2, p - 0xa0000000)
    else if 0x120000000 ≤ p ∧ p ≤ 0x320000000 then (3, p - 0x120000000)
    else if 0x140000000 ≤ p ∧ p ≤ 0x340000000 then (4, p - 0x140000000)
    else if 0x560000000 ≤ p ∧ p ≤ 0x760000000 then (5, p - 0x560000000)
    else if 0x7f0000000 ≤ p ∧ p ≤ 0x9f0000000 then (6, p - 0x7f0000000)
    else if 0x550000000 ≤ p ∧ p ≤ 0x750000000 then (7, p - 0x550000000)
    else (8, index) := by
  have hbases : addressRanges = [0x80000000 * 4096, 0x10000000 * 4096, 0xa0000000 * 4096,
    0x120000000 * 4096, 0x140000000 * 4096, 0x560000000 * 4096, 0x7f0000000 * 4096,
    0x550000000 * 4096] := rfl
  rw [getPageIndex, hbases]
  simp only [getPageIndexFrom_cons]
  exact ⟨_, rfl⟩

/-- **The windows are right**: entry `(r, i)` is the right one of page `p`
if `p` is in the window of `r` and `i` counts from the range's start. -/
theorem rightEntry_iff (p r i : Nat) :
    RightEntry (p * 4096) r i ↔
      (window r).lo ≤ p ∧ p < (window r).hi ∧ rangeBase r / 4096 + i = p := by
  obtain ⟨index, hindex⟩ := getPageIndex_cases p
  rw [RightEntry, hindex]
  constructor
  · rintro ⟨hpage, hr, hi⟩
    simp only [maxPageMapEntries, oneGb, numAddressRange] at hr hi
    split_ifs at hpage <;> cases hpage <;>
      simp only [window, rangeBase, addressRanges, List.getD_cons_zero, List.getD_cons_succ] <;>
      omega
  · rintro ⟨hlo, hhi, hi⟩
    have hr : r < 8 := by
      by_contra hr
      have hnone : (window r).hi = 0 := by
        unfold window
        split <;> first | omega | rfl
      omega
    simp only [maxPageMapEntries, oneGb, numAddressRange]
    interval_cases r <;>
      simp only [window, rangeBase, addressRanges, List.getD_cons_zero, List.getD_cons_succ]
        at hlo hhi hi <;>
      (repeat rw [if_neg (by omega)]) <;>
      rw [if_pos (by omega)] <;>
      exact ⟨Prod.ext rfl (by simp only; omega), by decide, by omega⟩

/-! ## The pages of a call -/

/-- The address of the `k`-th page after that of `uintaddr`, in 64 bits. -/
def pageAddress (uintaddr k : Nat) : Nat := (uintaddr / 4096 + k) * 4096 % 2 ^ 64

/-- `n` pages from that of `uintaddr` on lie in one window. -/
def OneWindow (uintaddr n : Nat) : Prop :=
  ∃ r < numAddressRange, (window r).lo ≤ uintaddr / 4096 ∧ uintaddr / 4096 + n ≤ (window r).hi

instance (uintaddr n : Nat) : Decidable (OneWindow uintaddr n) :=
  inferInstanceAs (Decidable (∃ r < numAddressRange, _))

/-- The number of pages that `size` bytes from `uintaddr` on touch. -/
def pagesOf (uintaddr size : Nat) : Nat := (uintaddr % 4096 + size + 4095) / 4096

theorem window_hi_le (r : Nat) : (window r).hi ≤ 0x9f0000000 := by
  unfold window
  split <;> decide

theorem pageAddress_of_lt {uintaddr k : Nat} (h : uintaddr / 4096 + k < 2 ^ 52) :
    pageAddress uintaddr k = (uintaddr / 4096 + k) * 4096 :=
  Nat.mod_eq_of_lt (by omega)

/-- An address whose range was found is a proper one. -/
theorem page_lt_of_found {uintaddr : Nat} (h : (getPageIndex uintaddr).1 ≠ numAddressRange) :
    uintaddr / 4096 < 2 ^ 52 - 1 := by
  rw [← getPageIndex_page] at h
  obtain ⟨index, hindex⟩ := getPageIndex_cases (uintaddr / 4096)
  rw [hindex] at h
  split_ifs at h
  all_goals first | omega | exact absurd rfl h

/-- **The pages of a call have the entries that the walk takes for them
just when they lie in one window.** -/
theorem rightEntries_iff {uintaddr n r i : Nat} (hn : 0 < n)
    (hlook : getPageIndex uintaddr = (r, i)) :
    (∀ k < n, RightEntry (pageAddress uintaddr k) r (i + k)) ↔ OneWindow uintaddr n := by
  constructor
  · intro h
    have hfirst := h 0 hn
    have hr : r < numAddressRange := hfirst.2.1
    have hlt : uintaddr / 4096 < 2 ^ 52 - 1 :=
      page_lt_of_found (by rw [hlook]; exact Nat.ne_of_lt hr)
    rw [pageAddress_of_lt (by omega), rightEntry_iff] at hfirst
    obtain ⟨hlo, hhi, -⟩ := hfirst
    refine ⟨r, hr, hlo, ?_⟩
    by_contra hout
    -- the page at the window's end is a page of the call
    have hend := window_hi_le r
    have hlast := h ((window r).hi - uintaddr / 4096) (by omega)
    rw [pageAddress_of_lt (by omega), rightEntry_iff] at hlast
    omega
  · rintro ⟨r', hr', hlo, hhi⟩ k hk
    have hend := window_hi_le r'
    have hstart : rangeBase r' / 4096 ≤ (window r').lo := by
      simp only [numAddressRange] at hr'
      interval_cases r' <;> decide
    have hright : RightEntry (uintaddr / 4096 * 4096) r'
        (uintaddr / 4096 - rangeBase r' / 4096) :=
      (rightEntry_iff ..).mpr ⟨hlo, by omega, by omega⟩
    have hpair := hright.1
    rw [getPageIndex_page, hlook] at hpair
    obtain ⟨rfl, rfl⟩ := Prod.mk.inj hpair
    rw [pageAddress_of_lt (by omega), rightEntry_iff]
    exact ⟨by omega, by omega, by omega⟩

/-! ## Checked operations -/

namespace ShadowMemory

section checked

variable (right : Nat → Prop) [DecidablePred right]

def modifyPageChecked (range index : Nat) (f : PageMapEntry → PageMapEntry) (s : ShadowMemory) :
    Except Fault ShadowMemory :=
  if right index then .ok (s.modifyPage range index f) else .error .wrongEntry

def getCacheMapEntryChecked (range : Nat) (s : ShadowMemory) (index : Nat) :
    Except Fault (ShadowMemory × Nat) :=
  if right index then orAbort (s.getCacheMapEntry range index) else .error .wrongEntry

def wholePagesChecked (whole : PageMapEntry → PageMapEntry) (range : Nat) :
    Nat → Nat → ShadowMemory → Except Fault ShadowMemory
  | 0, _, s => .ok s
  | n + 1, current, s => do
      let s ← s.modifyPageChecked right range (current + 1) whole
      wholePagesChecked whole range n (current + 1) s

def walkPagesChecked (part : Nat → PageMapEntry → PageMapEntry)
    (whole : PageMapEntry → PageMapEntry) (uintaddr range pageIndex size : Nat)
    (s : ShadowMemory) : Except Fault ShadowMemory := do
  let firstPageOffset := uintaddr &&& pagesizeMask
  let curPageBytes := min (pagesize - firstPageOffset) size
  let s ← s.modifyPageChecked right range pageIndex (part curPageBytes)
  let size := size - curPageBytes
  let s ← s.wholePagesChecked right whole range (size / pagesize) pageIndex
  if size % pagesize > 0 then
    s.modifyPageChecked right range (pageIndex + size / pagesize + 1) (part (size % pagesize))
  else .ok s

def clearPagesChecked (range : Nat) : Nat → Nat → ShadowMemory → Except Fault ShadowMemory
  | 0, _, s => .ok s
  | n + 1, current, s =>
      if right current then clearPagesChecked range n (current + 1) (s.clear range current)
      else .error .wrongEntry

end checked

/-- A walk from the entry of `uintaddr` is right to be at entry `index`
of the same map: it is that of the page as far from the first. -/
def RightFrom (uintaddr index : Nat) : Prop :=
  RightEntry (pageAddress uintaddr (index - (getPageIndex uintaddr).2))
    (getPageIndex uintaddr).1 index

instance (uintaddr : Nat) : DecidablePred (RightFrom uintaddr) :=
  fun _ => inferInstanceAs (Decidable (RightEntry _ _ _))

def mallocUpdateObjectPagesChecked (address size : Nat) (s : ShadowMemory) :
    Except Fault ShadowMemory :=
  if size = 0 then .ok s
  else
    let (firstPageRange, firstPageIdx) := getPageIndex address
    if firstPageRange = numAddressRange then .ok s
    else do
      let s ← s.walkPagesChecked (RightFrom address) .addUsedBytes .setFull address firstPageRange
        firstPageIdx size
      let firstCacheLineOffset := address &&& cachelineSizeMask
      let curCacheLineIdx := (address &&& pagesizeMask) >>> log2CachelineSize
      s.walkCacheLinesChecked (getCacheMapEntryChecked (RightFrom address) firstPageRange)
        (fun n c s => .ok (mallocPartLine n c s)) (fun c s => .ok (mallocWholeLine c s))
        firstPageIdx curCacheLineIdx firstCacheLineOffset size

def freeUpdateObjectPagesChecked (address : Nat) (objStat : ObjStat) (s : ShadowMemory) :
    Except Fault ShadowMemory :=
  if objStat.size = 0 then .ok s
  else
    let (firstPageRange, firstPageIdx) := getPageIndex address
    if firstPageRange = numAddressRange then .ok s
    else do
      let s ← s.walkPagesChecked (RightFrom address) .subUsedBytes .setEmpty address firstPageRange
        firstPageIdx objStat.size
      let firstCacheLineOffset := address &&& cachelineSizeMask
      let curCacheLineIdx := (address &&& pagesizeMask) >>> log2CachelineSize
      s.walkCacheLinesChecked (getCacheMapEntryChecked (RightFrom address) firstPageRange)
        (fun n c s => .ok (freePartLine objStat n c s)) (fun c s => .ok (freeWholeLine objStat c s))
        firstPageIdx curCacheLineIdx firstCacheLineOffset objStat.size

def cleanupPagesChecked (uintaddr length : Nat) (s : ShadowMemory) : Except Fault ShadowMemory :=
  let (firstPageRange, firstPageIdx) := getPageIndex uintaddr
  s.clearPagesChecked (RightFrom uintaddr) firstPageRange
    (alignup length pagesize / pagesize) firstPageIdx

/-! ## When the checks pass -/

section passes

variable {right : Nat → Prop} [DecidablePred right]

theorem forall_lt_succ_shift {P : Nat → Prop} {n first : Nat} :
    (∀ k < n + 1, P (first + k)) ↔ P first ∧ ∀ k < n, P (first + 1 + k) := by
  constructor
  · intro h
    refine ⟨h 0 (Nat.succ_pos n), fun k hk => ?_⟩
    rw [Nat.add_assoc, Nat.add_comm 1 k]
    exact h (k + 1) (Nat.succ_lt_succ hk)
  · rintro ⟨h0, h⟩ k hk
    rcases k with _ | k
    · exact h0
    · rw [Nat.add_comm k 1, ← Nat.add_assoc]
      exact h k (Nat.lt_of_succ_lt_succ hk)

theorem wholePagesChecked_eq (whole : PageMapEntry → PageMapEntry) (range : Nat) :
    ∀ (n current : Nat) (s : ShadowMemory), wholePagesChecked right whole range n current s
      = if ∀ k < n, right (current + 1 + k) then .ok (wholePages whole range n current s)
        else .error .wrongEntry
  | 0, _, _ => by
      rw [if_pos fun k hk => absurd hk (Nat.not_lt_zero k)]
      rfl
  | n + 1, current, s => by
      rw [wholePagesChecked, modifyPageChecked, wholePages]
      simp only [forall_lt_succ_shift]
      by_cases hnext : right (current + 1)
      · rw [if_pos hnext]
        simp only [bind, Except.bind, wholePagesChecked_eq whole range n, hnext, true_and]
      · rw [if_neg hnext, if_neg fun h => hnext h.1]
        rfl

theorem clearPagesChecked_eq (range : Nat) :
    ∀ (n current : Nat) (s : ShadowMemory), clearPagesChecked right range n current s
      = if ∀ k < n, right (current + k) then .ok (clearPages range n current s)
        else .error .wrongEntry
  | 0, _, _ => by
      rw [if_pos fun k hk => absurd hk (Nat.not_lt_zero k)]
      rfl
  | n + 1, current, s => by
      rw [clearPagesChecked, clearPages]
      simp only [forall_lt_succ_shift]
      by_cases hnext : right current
      · simp only [hnext, if_true, true_and, clearPagesChecked_eq range n]
      · rw [if_neg hnext, if_neg fun h => hnext h.1]

theorem walkPagesChecked_eq (part : Nat → PageMapEntry → PageMapEntry)
    (whole : PageMapEntry → PageMapEntry) {uintaddr size : Nat} (range idx : Nat)
    (hsize : 0 < size) (s : ShadowMemory) :
    s.walkPagesChecked right part whole uintaddr range idx size
      = if ∀ k < pagesOf uintaddr size, right (idx + k) then
          .ok (s.walkPages part whole uintaddr range idx size)
        else .error .wrongEntry := by
  have hoff : uintaddr &&& pagesizeMask = uintaddr % 4096 := and_pagesizeMask uintaddr
  simp only [walkPagesChecked, walkPages, modifyPageChecked, wholePagesChecked_eq, hoff, pagesize]
  have hpages : pagesOf uintaddr size
      = (size - min (4096 - uintaddr % 4096) size) / 4096
        + (if (size - min (4096 - uintaddr % 4096) size) % 4096 > 0 then 1 else 0) + 1 := by
    unfold pagesOf
    split <;> omega
  rw [hpages]
  generalize min (4096 - uintaddr % 4096) size = first
  generalize (size - first) / 4096 = n
  generalize (size - first) % 4096 = rest
  simp only [forall_lt_succ_shift]
  by_cases hfirst : right idx
  · simp only [hfirst, if_true, true_and, bind, Except.bind]
    by_cases hrest : rest > 0
    · simp only [hrest, if_true, Nat.forall_lt_succ_right]
      rw [Nat.add_right_comm idx n 1]
      by_cases hwhole : ∀ k < n, right (idx + 1 + k)
      · by_cases hlast : right (idx + 1 + n)
        · rw [if_pos hwhole, if_pos ⟨hwhole, hlast⟩]
          simp only [hlast, if_true]
        · rw [if_pos hwhole, if_neg fun h => hlast h.2]
          simp only [hlast, if_false]
      · rw [if_neg hwhole, if_neg fun h => hwhole h.1]
    · simp only [hrest, if_false, Nat.add_zero]
      by_cases hwhole : ∀ k < n, right (idx + 1 + k)
      · rw [if_pos hwhole]
      · rw [if_neg hwhole]
  · rw [if_neg hfirst, if_neg fun h => hfirst h.1]
    rfl

/-- The line walk asks for the tables of the call's pages only. -/
theorem walkCacheLinesChecked_pages {part : Nat → Nat → ShadowMemory → ShadowMemory}
    {whole : Nat → ShadowMemory → ShadowMemory} {uintaddr size : Nat} (range idx : Nat)
    (hsize : 0 < size) (hright : ∀ k < pagesOf uintaddr size, right (idx + k))
    (s : ShadowMemory) :
    s.walkCacheLinesChecked (getCacheMapEntryChecked right range) (fun n c s => .ok (part n c s))
        (fun c s => .ok (whole c s)) idx ((uintaddr &&& pagesizeMask) >>> log2CachelineSize)
        (uintaddr &&& cachelineSizeMask) size
      = orAbort (s.walkCacheLines part whole range idx
        ((uintaddr &&& pagesizeMask) >>> log2CachelineSize) (uintaddr &&& cachelineSizeMask)
        size) := by
  have hci : (uintaddr &&& pagesizeMask) >>> log2CachelineSize = uintaddr % 4096 / 64 := by
    rw [shiftRight_log2CachelineSize, and_pagesizeMask]
  have hoff : uintaddr &&& cachelineSizeMask = uintaddr % 64 := and_cachelineSizeMask uintaddr
  rw [hci, hoff]
  have hpart : ActsPart (fun _ => True) part fun n c s => .ok (part n c s) :=
    fun _ _ _ _ => ⟨trivial, rfl⟩
  have hwhole : ActsWhole (fun _ => True) whole fun c s => .ok (whole c s) :=
    fun _ _ _ => ⟨trivial, rfl⟩
  refine (walkCacheLinesChecked_eq hpart hwhole trivial fun i hi hlt s _ => ⟨?_, ?_⟩).1
  · simp only [cachelineSize] at hlt
    have hpage : i = idx + (i - idx) := by omega
    have hin : i - idx < pagesOf uintaddr size := by
      unfold pagesOf
      omega
    rw [getCacheMapEntryChecked, if_pos (hpage ▸ hright _ hin)]
  · exact fun _ _ _ => trivial

end passes

/-- The two walks of an object are the checked ones just when its pages
lie in one window: the page walk visits them all first. -/
theorem walksChecked_iff (part : Nat → PageMapEntry → PageMapEntry)
    (whole : PageMapEntry → PageMapEntry) (linePart : Nat → Nat → ShadowMemory → ShadowMemory)
    (lineWhole : Nat → ShadowMemory → ShadowMemory) {address size r i : Nat} (hsize : 0 < size)
    (hlook : getPageIndex address = (r, i)) (s : ShadowMemory) :
    (do
      let s ← s.walkPagesChecked (RightFrom address) part whole address r i size
      s.walkCacheLinesChecked (getCacheMapEntryChecked (RightFrom address) r)
        (fun n c s => .ok (linePart n c s)) (fun c s => .ok (lineWhole c s)) i
        ((address &&& pagesizeMask) >>> log2CachelineSize) (address &&& cachelineSizeMask) size)
      = orAbort ((s.walkPages part whole address r i size).walkCacheLines linePart lineWhole r i
          ((address &&& pagesizeMask) >>> log2CachelineSize) (address &&& cachelineSizeMask) size)
    ↔ OneWindow address (pagesOf address size) := by
  have hpages : 0 < pagesOf address size := by
    unfold pagesOf
    omega
  have hright : (∀ k < pagesOf address size, RightFrom address (i + k))
      ↔ OneWindow address (pagesOf address size) := by
    rw [← rightEntries_iff hpages hlook]
    simp only [RightFrom, hlook, Nat.add_sub_cancel_left]
  rw [walkPagesChecked_eq part whole r i hsize, ← hright]
  by_cases hall : ∀ k < pagesOf address size, RightFrom address (i + k)
  · rw [if_pos hall]
    exact iff_of_true (walkCacheLinesChecked_pages r i hsize hall _) hall
  · rw [if_neg hall]
    exact iff_of_false (fun h => orAbort_ne_wrongEntry _ h.symm) hall

/-- An empty object, or one outside the shadow, passes the checks unseen. -/
theorem guarded_iff {size r : Nat} {s : ShadowMemory} {checked : Except Fault ShadowMemory}
    {walked : Option ShadowMemory} {right : Prop}
    (h : 0 < size → (checked = orAbort walked ↔ right)) :
    (if size = 0 then .ok s else if r = numAddressRange then .ok s else checked)
        = orAbort (if size = 0 then some s else if r = numAddressRange then some s else walked)
      ↔ size = 0 ∨ r = numAddressRange ∨ right := by
  by_cases hsize : size = 0
  · rw [if_pos hsize, if_pos hsize]
    exact iff_of_true rfl (Or.inl hsize)
  · rw [if_neg hsize, if_neg hsize]
    by_cases hr : r = numAddressRange
    · rw [if_pos hr, if_pos hr]
      exact iff_of_true rfl (Or.inr (Or.inl hr))
    · rw [if_neg hr, if_neg hr]
      refine (h (Nat.pos_of_ne_zero hsize)).trans ?_
      exact ⟨fun h => Or.inr (Or.inr h), fun h => (h.resolve_left hsize).resolve_left hr⟩

theorem mallocUpdateObjectPagesChecked_iff (address size : Nat) (s : ShadowMemory) :
    s.mallocUpdateObjectPagesChecked address size
        = orAbort (s.mallocUpdateObject address size) ↔
      size = 0 ∨ (getPageIndex address).1 = numAddressRange
        ∨ OneWindow address (pagesOf address size) := by
  rcases hlook : getPageIndex address with ⟨r, i⟩
  simp only [mallocUpdateObjectPagesChecked, mallocUpdateObject, hlook, mallocUpdatePages,
    mallocUpdateCacheLines]
  exact guarded_iff fun hsize =>
    walksChecked_iff .addUsedBytes .setFull mallocPartLine mallocWholeLine hsize hlook s

theorem freeUpdateObjectPagesChecked_iff (address : Nat) (objStat : ObjStat) (s : ShadowMemory) :
    s.freeUpdateObjectPagesChecked address objStat
        = orAbort (s.freeUpdateObject address objStat) ↔
      objStat.size = 0 ∨ (getPageIndex address).1 = numAddressRange
        ∨ OneWindow address (pagesOf address objStat.size) := by
  rcases hlook : getPageIndex address with ⟨r, i⟩
  simp only [freeUpdateObjectPagesChecked, freeUpdateObject, hlook, freeUpdatePages,
    freeUpdateCacheLines]
  exact guarded_iff fun hsize =>
    walksChecked_iff .subUsedBytes .setEmpty (freePartLine objStat) (freeWholeLine objStat) hsize
      hlook s

theorem cleanupPagesChecked_iff (uintaddr length : Nat) (s : ShadowMemory) :
    s.cleanupPagesChecked uintaddr length = .ok (s.cleanupPages uintaddr length) ↔
      alignup length pagesize / pagesize = 0
        ∨ OneWindow uintaddr (alignup length pagesize / pagesize) := by
  rcases hlook : getPageIndex uintaddr with ⟨r, i⟩
  simp only [cleanupPagesChecked, cleanupPages, hlook, clearPagesChecked_eq, RightFrom,
    Nat.add_sub_cancel_left]
  rcases Nat.eq_zero_or_pos (alignup length pagesize / pagesize) with hn | hn
  · rw [hn, if_pos fun k hk => absurd hk (Nat.not_lt_zero k)]
    exact iff_of_true rfl (Or.inl rfl)
  · rw [← rightEntries_iff hn hlook]
    split
    · next hall => exact iff_of_true rfl (Or.inr hall)
    · next hall => exact iff_of_false (fun h => by cases h) fun h => hall (h.resolve_left hn.ne')

/-- Every page entry the call uses is the right one, and without a range
for the start it changes nothing. -/
def PagesRight (s : ShadowMemory) (address : Nat) (checked : Except Fault ShadowMemory)
    (result : Option ShadowMemory) : Prop :=
  checked = orAbort result ∧ ((getPageIndex address).1 = numAddressRange → result = some s)

/-- **The walks use the right page entries** just when the call has
nothing to do or its pages lie in one window; `cleanupPages` is not
excused by a failed lookup. -/
theorem pages_right_iff (s : ShadowMemory) :
    (∀ address size, PagesRight s address (s.mallocUpdateObjectPagesChecked address size)
        (s.mallocUpdateObject address size) ↔
      size = 0 ∨ (getPageIndex address).1 = numAddressRange
        ∨ OneWindow address (pagesOf address size))
    ∧ (∀ address objStat, PagesRight s address (s.freeUpdateObjectPagesChecked address objStat)
        (s.freeUpdateObject address objStat) ↔
      objStat.size = 0 ∨ (getPageIndex address).1 = numAddressRange
        ∨ OneWindow address (pagesOf address objStat.size))
    ∧ ∀ uintaddr length, PagesRight s uintaddr (s.cleanupPagesChecked uintaddr length)
        (some (s.cleanupPages uintaddr length)) ↔
      alignup length pagesize / pagesize = 0
        ∨ OneWindow uintaddr (alignup length pagesize / pagesize) := by
  refine ⟨fun address size => ?_, fun address objStat => ?_, fun uintaddr length => ?_⟩
  · rw [PagesRight, mallocUpdateObjectPagesChecked_iff]
    refine and_iff_left_of_imp fun _ hnone => ?_
    simp only [mallocUpdateObject, hnone, if_true, ite_self]
  · rw [PagesRight, freeUpdateObjectPagesChecked_iff]
    refine and_iff_left_of_imp fun _ hnone => ?_
    simp only [freeUpdateObject, hnone, if_true, ite_self]
  · rw [PagesRight, orAbort, cleanupPagesChecked_iff]
    refine and_iff_left_of_imp fun hright hnone => ?_
    rcases hlook : getPageIndex uintaddr with ⟨r, i⟩
    simp only [hlook] at hnone
    rcases Nat.eq_zero_or_pos (alignup length pagesize / pagesize) with hn | hn
    · simp only [cleanupPages, hlook, hn, clearPages]
    · have hfirst := (rightEntries_iff hn hlook).mpr (hright.resolve_left hn.ne') 0 hn
      exact absurd hnone (Nat.ne_of_lt hfirst.2.1)

/-- A page in no range is cleaned up all the same, and the second page of
an object at the start of range 0 has its entry there, not in range 1. -/
theorem pages_wrong_at_window_ends :
    ¬ PagesRight {} 0x400000 (({} : ShadowMemory).cleanupPagesChecked 0x400000 4096)
        (some (({} : ShadowMemory).cleanupPages 0x400000 4096))
    ∧ ¬ PagesRight {} 0x7fffffff000
        (({} : ShadowMemory).mallocUpdateObjectPagesChecked 0x7fffffff000 8192)
        (({} : ShadowMemory).mallocUpdateObject 0x7fffffff000 8192) := by
  constructor
  · intro h
    exact absurd ((cleanupPagesChecked_iff 0x400000 4096 {}).mp h.1) (by decide +kernel)
  · intro h
    exact absurd ((mallocUpdateObjectPagesChecked_iff 0x7fffffff000 8192 {}).mp h.1)
      (by decide +kernel)

end ShadowMemory

end MemPerf
