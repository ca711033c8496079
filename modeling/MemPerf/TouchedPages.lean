import MemPerf.MemoryWaste
import MemPerf.ShadowAccounting

/-!
# Touched pages

The shadow memory of the `MEMORY` build. A page entry carries one more
flag, set when an allocation first reaches the page and taken off when the
page is cleaned; `mallocUpdateObject` and `cleanupPages` return the bytes
of the pages whose flag they change, and these returns are added to and
subtracted from `totalMemoryUsage`. What else the entries, the lines and
the two tables hold is as in the other build.
-/

namespace MemPerf.Temp

open Word StepSystem Coverage

/-- `touched` are the page entries, by range and index, whose flag is set. -/
structure ShadowMemory extends MemPerf.ShadowMemory where
  touched : Finset (Nat × Nat) := ∅

namespace ShadowMemory

def modifyPage (s : ShadowMemory) (range index : Nat) (f : PageMapEntry → PageMapEntry) :
    ShadowMemory :=
  { s with toShadowMemory := s.toShadowMemory.modifyPage range index f }

/-- `if(!current->isTouched()) { current->setTouched(); touchedPages++; }` -/
def touch (s : ShadowMemory) (range index touchedPages : Nat) : ShadowMemory × Nat :=
  if (range, index) ∈ s.touched then (s, touchedPages)
  else ({ s with touched := insert (range, index) s.touched }, touchedPages + 1)

/-- The `while` loop over whole pages. -/
def fullPages (range : Nat) : Nat → Nat → ShadowMemory → Nat → ShadowMemory × Nat
  | 0, _, s, touchedPages => (s, touchedPages)
  | n + 1, current, s, touchedPages =>
      let (s, touchedPages) :=
        (s.modifyPage range (current + 1) .setFull).touch range (current + 1) touchedPages
      fullPages range n (current + 1) s touchedPages

/-- The flag of the last, partial page is not looked at. -/
def mallocUpdatePages (s : ShadowMemory) (uintaddr range pageIndex size : Nat) :
    ShadowMemory × Nat :=
  let firstPageOffset := uintaddr &&& pagesizeMask
  let curPageBytes := min (pagesize - firstPageOffset) size
  let s := s.modifyPage range pageIndex (.addUsedBytes curPageBytes)
  let size := size - curPageBytes
  let (s, touchedPages) := s.touch range pageIndex 0
  let (s, touchedPages) := fullPages range (size / pagesize) pageIndex s touchedPages
  let s :=
    if size % pagesize > 0 then
      s.modifyPage range (pageIndex + size / pagesize + 1) (.addUsedBytes (size % pagesize))
    else s
  (s, wrap 32 (touchedPages * pagesize))

/-- The return value and the state afterwards. -/
def mallocUpdateObject (s : ShadowMemory) (address size : Nat) : Option (Nat × ShadowMemory) :=
  if size = 0 then some (0, s)
  else
    let (firstPageRange, firstPageIdx) := getPageIndex address
    if firstPageRange = numAddressRange then some (0, s)
    else do
      let (s, touchedPageSize) := s.mallocUpdatePages address firstPageRange firstPageIdx size
      let firstCacheLineOffset := address &&& cachelineSizeMask
      let curCacheLineIdx := (address &&& pagesizeMask) >>> log2CachelineSize
      let lines ← s.toShadowMemory.mallocUpdateCacheLines firstPageRange firstPageIdx
        curCacheLineIdx firstCacheLineOffset size
      some (touchedPageSize, { s with toShadowMemory := lines })

/-- What a free reads of an entry. -/
def objStat (objStat : ObjectStatus) : ObjStat :=
  { callKey := objStat.callKey, tid := objStat.tid, size := objStat.sizeClassSizeAndIndex.size }

def freeUpdateObject (s : ShadowMemory) (address : Nat) (status : ObjectStatus) :
    Option ShadowMemory :=
  (s.toShadowMemory.freeUpdateObject address (objStat status)).map fun pages =>
    { s with toShadowMemory := pages }

/-- `PageMapEntry::clear` -/
def clear (s : ShadowMemory) (range index : Nat) : ShadowMemory :=
  { s with
    toShadowMemory := s.toShadowMemory.clear range index
    touched := s.touched.erase (range, index) }

/-- The `while(length)` loop over `n` pages: the flag is read after
`current++`. -/
def clearPages (range : Nat) : Nat → Nat → ShadowMemory → Nat → ShadowMemory × Nat
  | 0, _, s, freedPageNum => (s, freedPageNum)
  | n + 1, current, s, freedPageNum =>
      let s := s.clear range current
      let freedPageNum :=
        if (range, current + 1) ∈ s.touched then freedPageNum + 1 else freedPageNum
      clearPages range n (current + 1) s freedPageNum

/-- The return value and the state afterwards. -/
def cleanupPages (s : ShadowMemory) (uintaddr length : Nat) : Nat × ShadowMemory :=
  let (firstPageRange, firstPageIdx) := getPageIndex uintaddr
  let (s, freedPageNum) :=
    clearPages firstPageRange (alignup length pagesize / pagesize) firstPageIdx s 0
  (wrap 32 (freedPageNum * pagesize), s)

end ShadowMemory

/-! ## Steps -/

inductive ShadowOp where
  | mallocUpdateObject (address size : Nat)
  | freeUpdateObject (address : Nat) (status : ObjectStatus)
  | cleanupPages (uintaddr length : Nat)
deriving DecidableEq, Repr

/-- The shadow with the sum of what was returned so far. -/
structure TouchedLedger where
  shadow : ShadowMemory := {}
  totalMemoryUsage : Int := 0

namespace TouchedLedger

def step (s : TouchedLedger) : ShadowOp → Option TouchedLedger
  | .mallocUpdateObject address size =>
      (s.shadow.mallocUpdateObject address size).map fun (touchedPageSize, shadow) =>
        { shadow, totalMemoryUsage := s.totalMemoryUsage + touchedPageSize }
  | .freeUpdateObject address status =>
      (s.shadow.freeUpdateObject address status).map fun shadow => { s with shadow }
  | .cleanupPages uintaddr length =>
      let (freedPageSize, shadow) := s.shadow.cleanupPages uintaddr length
      some { shadow, totalMemoryUsage := s.totalMemoryUsage - freedPageSize }

end TouchedLedger

/-! ## What the operations do to the flags -/

namespace ShadowMemory

/-- The entries of `n` pages from `index` on. -/
def pages (range index n : Nat) : Finset (Nat × Nat) := {range} ×ˢ Finset.Ico index (index + n)

theorem mem_pages {range index n r i : Nat} :
    (r, i) ∈ pages range index n ↔ r = range ∧ index ≤ i ∧ i < index + n := by
  simp only [pages, Finset.mem_product, Finset.mem_singleton, Finset.mem_Ico]

@[simp] theorem pages_zero (range index : Nat) : pages range index 0 = ∅ := by
  simp [pages]

theorem pages_succ (range index n : Nat) :
    pages range index (n + 1) = insert (range, index) (pages range (index + 1) n) := by
  ext ⟨r, i⟩
  simp only [Finset.mem_insert, mem_pages, Prod.mk.injEq]
  omega

theorem pages_succ_last (range index n : Nat) :
    pages range index (n + 1) = insert (range, index + n) (pages range index n) := by
  ext ⟨r, i⟩
  simp only [Finset.mem_insert, mem_pages, Prod.mk.injEq]
  omega

@[simp] theorem card_pages (range index n : Nat) : (pages range index n).card = n := by
  simp [pages]

variable {s : ShadowMemory} {range index : Nat}

@[simp] theorem modifyPage_touched (f : PageMapEntry → PageMapEntry) :
    (s.modifyPage range index f).touched = s.touched := rfl

/-- The number of pages counted is the number of flags set. -/
theorem touch_spec (s : ShadowMemory) (range index touchedPages : Nat) :
    (s.touch range index touchedPages).1.touched = insert (range, index) s.touched ∧
    (s.touch range index touchedPages).2 + s.touched.card =
      touchedPages + (s.touch range index touchedPages).1.touched.card := by
  unfold touch
  split
  · next hin => exact ⟨(Finset.insert_eq_self.mpr hin).symm, rfl⟩
  · next hout =>
      refine ⟨rfl, ?_⟩
      simp only [Finset.card_insert_of_notMem hout]
      omega

theorem fullPages_spec (range : Nat) : ∀ (n current : Nat) (s : ShadowMemory) (touchedPages : Nat),
    (fullPages range n current s touchedPages).1.touched =
      s.touched ∪ pages range (current + 1) n ∧
    (fullPages range n current s touchedPages).2 + s.touched.card =
      touchedPages + (fullPages range n current s touchedPages).1.touched.card := by
  intro n
  induction n with
  | zero => simp [fullPages]
  | succ n ih =>
      intro current s touchedPages
      rw [fullPages]
      obtain ⟨htouched, hcount⟩ := touch_spec (s.modifyPage range (current + 1) .setFull) range
        (current + 1) touchedPages
      simp only [modifyPage_touched] at htouched hcount
      generalize (s.modifyPage range (current + 1) .setFull).touch range (current + 1)
        touchedPages = t at htouched hcount
      obtain ⟨ht, hc⟩ := ih (current + 1) t.1 t.2
      refine ⟨?_, by simp only at hc ⊢; omega⟩
      simp only [ht, htouched, pages_succ]
      rw [Finset.insert_union, Finset.union_insert]

/-- The pages whose flags an allocation sets. -/
def reached (address size : Nat) : Nat := max 1 ((address % 4096 + size) / 4096)

theorem mallocUpdatePages_spec (s : ShadowMemory) (address size range index : Nat) :
    (s.mallocUpdatePages address range index size).1.touched =
      s.touched ∪ pages range index (reached address size) ∧
    (s.mallocUpdatePages address range index size).2 =
      wrap 32 ((pages range index (reached address size) \ s.touched).card * 4096) := by
  have hoff : address &&& pagesizeMask = address % 4096 := and_pagesizeMask address
  simp only [mallocUpdatePages, hoff, pagesize]
  obtain ⟨htouched, hcount⟩ := touch_spec
    (s.modifyPage range index (.addUsedBytes (min (4096 - address % 4096) size))) range index 0
  simp only [modifyPage_touched] at htouched hcount
  generalize (s.modifyPage range index (.addUsedBytes (min (4096 - address % 4096) size))).touch
    range index 0 = t at htouched hcount
  have hreached : (size - min (4096 - address % 4096) size) / 4096 + 1 = reached address size := by
    unfold reached
    omega
  obtain ⟨ht, hc⟩ := fullPages_spec range ((size - min (4096 - address % 4096) size) / 4096)
    index t.1 t.2
  generalize fullPages range ((size - min (4096 - address % 4096) size) / 4096) index t.1 t.2 = u
    at ht hc
  have hall : u.1.touched = s.touched ∪ pages range index (reached address size) := by
    rw [ht, htouched, ← hreached, pages_succ, Finset.insert_union, Finset.union_insert]
  have hcard : u.2 = (pages range index (reached address size) \ s.touched).card := by
    have hunion := Finset.card_sdiff_add_card (pages range index (reached address size)) s.touched
    rw [Finset.union_comm, ← hall] at hunion
    omega
  refine ⟨?_, by rw [hcard]⟩
  rw [← hall]
  split <;> rfl

@[simp] theorem clear_touched :
    (s.clear range index).touched = s.touched.erase (range, index) := rfl

theorem clearPages_touched (range : Nat) : ∀ (n current : Nat) (s : ShadowMemory)
    (freedPageNum : Nat), (clearPages range n current s freedPageNum).1.touched =
      s.touched \ pages range current n := by
  intro n
  induction n with
  | zero => simp [clearPages]
  | succ n ih =>
      intro current s freedPageNum
      rw [clearPages, ih, clear_touched, pages_succ]
      ext x
      simp only [Finset.mem_sdiff, Finset.mem_erase, Finset.mem_insert]
      tauto

/-- The pages counted are those behind each cleared one. -/
theorem clearPages_count (range : Nat) : ∀ (n current : Nat) (s : ShadowMemory)
    (freedPageNum : Nat), (clearPages range n current s freedPageNum).2 =
      freedPageNum + (s.touched ∩ pages range (current + 1) n).card := by
  intro n
  induction n with
  | zero => simp [clearPages]
  | succ n ih =>
      intro current s freedPageNum
      have hrest : s.touched.erase (range, current) ∩ pages range (current + 1 + 1) n =
          s.touched ∩ pages range (current + 1 + 1) n := by
        ext ⟨r, i⟩
        simp only [Finset.mem_inter, Finset.mem_erase, mem_pages, ne_eq, Prod.mk.injEq]
        constructor
        · rintro ⟨⟨-, hin⟩, hpage⟩
          exact ⟨hin, hpage⟩
        · rintro ⟨hin, hpage⟩
          exact ⟨⟨by omega, hin⟩, hpage⟩
      have hfresh : (range, current + 1) ∉ pages range (current + 1 + 1) n := by
        rw [mem_pages]
        omega
      have hnext : (range, current + 1) ∈ s.touched.erase (range, current) ↔
          (range, current + 1) ∈ s.touched := by
        simp
      rw [clearPages, ih, clear_touched, hrest, if_congr hnext rfl rfl,
        pages_succ range (current + 1)]
      by_cases hin : (range, current + 1) ∈ s.touched
      · rw [Finset.inter_insert_of_mem hin, Finset.card_insert_of_notMem, if_pos hin]
        · omega
        · exact fun h => hfresh (Finset.mem_inter.mp h).2
      · rw [Finset.inter_insert_of_notMem hin, if_neg hin]

theorem cleanupPages_spec (s : ShadowMemory) (uintaddr : Nat) {length : Nat}
    (hlength : length < 2 ^ 32) :
    (s.cleanupPages uintaddr length).2.touched = s.touched \
      pages (getPageIndex uintaddr).1 (getPageIndex uintaddr).2 ((length + 4095) / 4096) ∧
    (s.cleanupPages uintaddr length).1 = wrap 32 ((s.touched ∩ pages (getPageIndex uintaddr).1
      ((getPageIndex uintaddr).2 + 1) ((length + 4095) / 4096)).card * 4096) := by
  have hpages : alignup length pagesize / pagesize = (length + 4095) / 4096 := by
    rw [alignup_pagesize (by omega)]
    exact Nat.mul_div_cancel _ (by decide)
  refine ⟨?_, ?_⟩
  · rw [cleanupPages, hpages]
    exact clearPages_touched ..
  · rw [cleanupPages, hpages]
    simp only [clearPages_count, Nat.zero_add]

/-- Moving `n` pages up by one exchanges the first for the next. -/
theorem card_inter_pages_succ (T : Finset (Nat × Nat)) (range index n : Nat) :
    (T ∩ pages range index n).card + (if (range, index + n) ∈ T then 1 else 0) =
      (T ∩ pages range (index + 1) n).card + if (range, index) ∈ T then 1 else 0 := by
  have hadd : ∀ (x : Nat × Nat) (P : Finset (Nat × Nat)), x ∉ P →
      (T ∩ insert x P).card = (T ∩ P).card + if x ∈ T then 1 else 0 := by
    intro x P hx
    by_cases hin : x ∈ T
    · rw [Finset.inter_insert_of_mem hin, if_pos hin, Finset.card_insert_of_notMem]
      exact fun h => hx (Finset.mem_inter.mp h).2
    · rw [Finset.inter_insert_of_notMem hin, if_neg hin, Nat.add_zero]
  rw [← hadd (range, index) _ (by rw [mem_pages]; omega),
    ← hadd (range, index + n) _ (by rw [mem_pages]; omega), ← pages_succ, ← pages_succ_last]

end ShadowMemory

/-! ## Pages and addresses -/

/-- A byte of the span is on the page. -/
def OnPage (o : Span) (range index : Nat) : Prop :=
  ∃ a, o.Covers a ∧ getPageIndex a = (range, index)

open MemPerf.Temp.ShadowMemory

theorem onPage_iff {o : Span} (h : Resolves o.start o.len) (hlen : 0 < o.len) {r i : Nat} :
    OnPage o r i ↔ (r, i) ∈ pages (getPageIndex o.start).1 (getPageIndex o.start).2
      ((o.start % 4096 + o.len + 4095) / 4096) := by
  obtain ⟨hr, hidx, hbase, -⟩ := h.byte le_rfl (by omega : o.start < o.start + o.len)
  obtain ⟨k, hk⟩ := rangeBase_aligned (getPageIndex o.start).1
  have hi := congrArg Prod.snd hidx
  simp only at hi
  rw [mem_pages, hi]
  constructor
  · rintro ⟨a, ⟨hlo, hhi⟩, ha⟩
    obtain ⟨-, hidxa, hbasea, -⟩ := h.byte hlo hhi
    rw [hidxa] at ha
    obtain ⟨rfl, rfl⟩ := Prod.mk.injEq .. |>.mp ha
    omega
  · rintro ⟨rfl, hlo, hhi⟩
    -- the first byte of the page, or the first byte of the span
    refine ⟨max o.start (rangeBase (getPageIndex o.start).1 + 4096 * i), ⟨by omega, by omega⟩, ?_⟩
    obtain ⟨-, hidxa, -, -⟩ :=
      h.byte (a := max o.start (rangeBase (getPageIndex o.start).1 + 4096 * i))
      (by omega) (by omega)
    rw [hidxa]
    congr 1
    omega

namespace TouchedLedger

/-- Some object allocated on the page since it was last cleaned covers a
byte of it. -/
def TouchedSince (past : List ShadowOp) (range index : Nat) : Prop :=
  ∃ before address size after,
    past = before ++ .mallocUpdateObject address size :: after ∧
    OnPage ⟨address, size⟩ range index ∧
    ∀ uintaddr length, .cleanupPages uintaddr length ∈ after →
      ¬ OnPage (cleanedRegion uintaddr length) range index

theorem touchedSince_snoc {past : List ShadowOp} {op : ShadowOp} {r i : Nat} :
    TouchedSince (past ++ [op]) r i ↔
      (∃ address size, op = .mallocUpdateObject address size ∧ OnPage ⟨address, size⟩ r i) ∨
      (TouchedSince past r i ∧ ∀ uintaddr length, op = .cleanupPages uintaddr length →
        ¬ OnPage (cleanedRegion uintaddr length) r i) := by
  constructor
  · rintro ⟨before, address, size, after, heq, hon, hclean⟩
    rcases List.eq_nil_or_concat after with rfl | ⟨after, last, rfl⟩
    · obtain ⟨-, hop⟩ := List.append_inj' heq rfl
      exact .inl ⟨address, size, by simpa using hop, hon⟩
    · rw [List.concat_eq_append, ← List.cons_append, ← List.append_assoc] at heq
      obtain ⟨rfl, hop⟩ := List.append_inj' heq rfl
      obtain rfl : op = last := by simpa using hop
      refine .inr ⟨⟨before, address, size, after, rfl, hon, fun a n hmem => ?_⟩, fun a n hop => ?_⟩
      · exact hclean a n (by simp [hmem])
      · exact hclean a n (by simp [hop])
  · rintro (⟨address, size, rfl, hon⟩ | ⟨⟨before, address, size, after, rfl, hon, hclean⟩, hlast⟩)
    · exact ⟨past, address, size, [], rfl, hon, fun a n hmem => by cases hmem⟩
    · refine ⟨before, address, size, after ++ [op], by simp, hon, fun a n hmem => ?_⟩
      rcases List.mem_append.mp hmem with hmem | hmem
      · exact hclean a n hmem
      · exact hlast a n (List.mem_singleton.mp hmem).symm

/-- The ledger and the flags are right. -/
structure Balanced (past : List ShadowOp) (s : TouchedLedger) : Prop where
  total : s.totalMemoryUsage = pagesize * s.shadow.touched.card
  flags : ∀ range index, (range, index) ∈ s.shadow.touched ↔ TouchedSince past range index

/-- Byte counts are below `2 ^ 32` and regions inside one address range. -/
def InOneRange : ShadowOp → Prop
  | .mallocUpdateObject address size => size < 2 ^ 32 ∧ Resolves address size
  | .freeUpdateObject _ _ => True
  | .cleanupPages uintaddr length => length < 2 ^ 32 ∧
      Resolves (cleanedRegion uintaddr length).start (cleanedRegion uintaddr length).len

/-- An object that ends inside a later page than it starts on finds that
page touched, and does not touch `2 ^ 20` pages at once; of the first
cleaned page and the page behind the last one both are touched or none, and
not all `2 ^ 20` pages behind a cleaned one are. -/
def Balances (s : TouchedLedger) : ShadowOp → Prop
  | .mallocUpdateObject address size =>
      let range := (getPageIndex address).1
      let index := (getPageIndex address).2
      let bytes := address % pagesize + size
      (bytes ≤ pagesize ∨ pagesize ∣ bytes ∨
        (range, index + bytes / pagesize) ∈ s.shadow.touched) ∧
      (bytes < 2 ^ 32 ∨ ¬ Disjoint (pages range index (2 ^ 20)) s.shadow.touched)
  | .freeUpdateObject _ _ => True
  | .cleanupPages uintaddr length =>
      let range := (getPageIndex uintaddr).1
      let index := (getPageIndex uintaddr).2
      let n := (length + pagesizeMask) / pagesize
      ((range, index) ∈ s.shadow.touched ↔ (range, index + n) ∈ s.shadow.touched) ∧
      ¬ (n = 2 ^ 20 ∧ pages range (index + 1) n ⊆ s.shadow.touched)

variable {past : List ShadowOp} {s s' : TouchedLedger}

/-! ## One step -/

theorem malloc_spec {address size : Nat} (hsize : 0 < size) (hres : Resolves address size)
    (h : s.step (.mallocUpdateObject address size) = some s') :
    let fresh := pages (getPageIndex address).1 (getPageIndex address).2 (reached address size)
    s'.shadow.touched = s.shadow.touched ∪ fresh ∧
    s'.totalMemoryUsage =
      s.totalMemoryUsage + (wrap 32 ((fresh \ s.shadow.touched).card * 4096) : Nat) := by
  obtain ⟨⟨touchedPageSize, shadow⟩, hmalloc, rfl⟩ := Option.map_eq_some_iff.mp h
  have hr : (getPageIndex address).1 < 8 := (hres.byte le_rfl (by omega)).1
  obtain ⟨ht, hc⟩ := mallocUpdatePages_spec s.shadow address size (getPageIndex address).1
    (getPageIndex address).2
  simp only [mallocUpdateObject, if_neg (by omega : ¬ size = 0), numAddressRange,
    if_neg (by omega : ¬ (getPageIndex address).1 = 8)] at hmalloc
  obtain ⟨lines, -, heq⟩ := Option.bind_eq_some_iff.mp hmalloc
  obtain ⟨rfl, rfl⟩ := Prod.mk.injEq .. |>.mp (Option.some.inj heq)
  exact ⟨ht, by rw [hc]⟩

theorem malloc_zero {address : Nat} (h : s.step (.mallocUpdateObject address 0) = some s') :
    s' = s := by
  simpa [step, mallocUpdateObject] using h.symm

theorem free_spec {address : Nat} {status : ObjectStatus}
    (h : s.step (.freeUpdateObject address status) = some s') :
    s'.shadow.touched = s.shadow.touched ∧ s'.totalMemoryUsage = s.totalMemoryUsage := by
  obtain ⟨shadow, hfree, rfl⟩ := Option.map_eq_some_iff.mp h
  obtain ⟨shadowPages, -, rfl⟩ := Option.map_eq_some_iff.mp hfree
  exact ⟨rfl, rfl⟩

theorem cleanup_spec {uintaddr length : Nat} (hlength : length < 2 ^ 32)
    (h : s.step (.cleanupPages uintaddr length) = some s') :
    let n := (length + 4095) / 4096
    let range := (getPageIndex uintaddr).1
    let index := (getPageIndex uintaddr).2
    s'.shadow.touched = s.shadow.touched \ pages range index n ∧
    s'.totalMemoryUsage = s.totalMemoryUsage -
      (wrap 32 ((s.shadow.touched ∩ pages range (index + 1) n).card * 4096) : Nat) := by
  have hstep : some { shadow := (s.shadow.cleanupPages uintaddr length).2
                      totalMemoryUsage := s.totalMemoryUsage -
                        (s.shadow.cleanupPages uintaddr length).1 : TouchedLedger } = some s' := h
  obtain rfl := Option.some.inj hstep
  obtain ⟨ht, hc⟩ := s.shadow.cleanupPages_spec uintaddr hlength
  exact ⟨ht, by rw [hc]⟩

/-- The pages an object lies on, next to those it touches. -/
theorem reached_cases {address size : Nat} (hsize : 0 < size) :
    ((address % 4096 + size ≤ 4096 ∨ 4096 ∣ address % 4096 + size) ∧
      (address % 4096 + size + 4095) / 4096 = reached address size) ∨
    (¬ (address % 4096 + size ≤ 4096 ∨ 4096 ∣ address % 4096 + size) ∧
      (address % 4096 + size + 4095) / 4096 = reached address size + 1 ∧
      reached address size = (address % 4096 + size) / 4096) := by
  unfold reached
  omega

/-- A 32-bit product with the page size, of at most `2 ^ 20` pages. -/
theorem wrap_pages_iff {k : Nat} (hk : k ≤ 2 ^ 20) :
    wrap 32 (k * 4096) = k * 4096 ↔ k ≠ 2 ^ 20 := by
  constructor
  · rintro h rfl
    cases h
  · intro hne
    exact wrap_of_lt (by omega)

/-- `2 ^ 20` pages are touched at once by an object that long, on pages none
of which was touched. -/
theorem card_fresh_iff {T : Finset (Nat × Nat)} {address size range index : Nat}
    (hlt : size < 2 ^ 32) :
    (pages range index (reached address size) \ T).card = 2 ^ 20 ↔
      ¬ (address % 4096 + size < 2 ^ 32 ∨ ¬ Disjoint (pages range index (2 ^ 20)) T) := by
  have hsub := Finset.card_le_card
    (Finset.sdiff_subset (s := pages range index (reached address size)) (t := T))
  rw [card_pages] at hsub
  have hreached : reached address size ≤ 2 ^ 20 ∧
      (reached address size = 2 ^ 20 ↔ ¬ address % 4096 + size < 2 ^ 32) := by
    unfold reached
    omega
  rw [not_or, not_not, ← hreached.2]
  constructor
  · intro hcard
    have hall : reached address size = 2 ^ 20 := by omega
    refine ⟨hall, ?_⟩
    rw [← hall, ← Finset.sdiff_eq_self_iff_disjoint]
    exact Finset.eq_of_subset_of_card_le Finset.sdiff_subset (by rw [card_pages]; omega)
  · rintro ⟨hall, hdisjoint⟩
    rw [hall, Finset.sdiff_eq_self_of_disjoint hdisjoint, card_pages]

theorem Balanced.malloc_total_iff (hb : Balanced past s) {address size : Nat} (hsize : 0 < size)
    (hlt : size < 2 ^ 32) (hres : Resolves address size)
    (h : s.step (.mallocUpdateObject address size) = some s') :
    s'.totalMemoryUsage = pagesize * s'.shadow.touched.card ↔
      (address % 4096 + size < 2 ^ 32 ∨
        ¬ Disjoint (pages (getPageIndex address).1 (getPageIndex address).2 (2 ^ 20))
          s.shadow.touched) := by
  obtain ⟨htouched, htotal⟩ := malloc_spec hsize hres h
  have hfresh := @card_fresh_iff s.shadow.touched address size (getPageIndex address).1
    (getPageIndex address).2 hlt
  generalize hP : pages (getPageIndex address).1 (getPageIndex address).2 (reached address size) = P
    at htouched htotal hfresh
  have hunion := Finset.card_sdiff_add_card P s.shadow.touched
  rw [Finset.union_comm, ← htouched] at hunion
  have hle : (P \ s.shadow.touched).card ≤ 2 ^ 20 := by
    have hsub := Finset.card_le_card (Finset.sdiff_subset (s := P) (t := s.shadow.touched))
    rw [← hP, card_pages, hP] at hsub
    have hreached : reached address size ≤ 2 ^ 20 := by
      unfold reached
      omega
    exact hsub.trans hreached
  calc s'.totalMemoryUsage = pagesize * s'.shadow.touched.card
      ↔ wrap 32 ((P \ s.shadow.touched).card * 4096) = (P \ s.shadow.touched).card * 4096 := by
        rw [htotal, hb.total, ← hunion]
        simp only [pagesize]
        omega
    _ ↔ (P \ s.shadow.touched).card ≠ 2 ^ 20 := wrap_pages_iff hle
    _ ↔ _ := by rw [ne_eq, hfresh, not_not]

theorem Balanced.malloc_flags_iff (hb : Balanced past s) {address size : Nat} (hsize : 0 < size)
    (hres : Resolves address size)
    (h : s.step (.mallocUpdateObject address size) = some s') :
    (∀ r i, (r, i) ∈ s'.shadow.touched ↔
      TouchedSince (past ++ [.mallocUpdateObject address size]) r i) ↔
      (address % 4096 + size ≤ 4096 ∨ 4096 ∣ address % 4096 + size ∨
        ((getPageIndex address).1, (getPageIndex address).2 + (address % 4096 + size) / 4096) ∈
          s.shadow.touched) := by
  obtain ⟨htouched, -⟩ := malloc_spec hsize hres h
  have hsince : ∀ r i, TouchedSince (past ++ [.mallocUpdateObject address size]) r i ↔
      (r, i) ∈ pages (getPageIndex address).1 (getPageIndex address).2
        ((address % 4096 + size + 4095) / 4096) ∨ (r, i) ∈ s.shadow.touched := by
    intro r i
    rw [touchedSince_snoc, ← onPage_iff (o := ⟨address, size⟩) hres hsize, hb.flags]
    simp
  simp only [hsince, htouched, Finset.mem_union]
  generalize (getPageIndex address).1 = range
  generalize (getPageIndex address).2 = index
  rcases @reached_cases address size hsize with ⟨hends, hall⟩ | ⟨hinside, hall, hlast⟩
  · rw [hall, ← or_assoc]
    exact ⟨fun _ => .inl hends, fun _ r i => or_comm⟩
  · rw [hall, pages_succ_last, ← hlast, ← or_assoc]
    constructor
    · intro hiff
      refine .inr (((hiff range _).mpr (.inl (Finset.mem_insert_self ..))).resolve_right ?_)
      rw [mem_pages]
      omega
    · intro hcond r i
      have htouchedLast := hcond.resolve_left hinside
      rw [Finset.mem_insert]
      constructor
      · rintro (hin | hin)
        · exact .inr hin
        · exact .inl (.inr hin)
      · rintro ((heq | hin) | hin)
        · rw [heq]
          exact .inl htouchedLast
        · exact .inr hin
        · exact .inl hin

theorem onPage_cleanedRegion {uintaddr length : Nat}
    (hres : Resolves (cleanedRegion uintaddr length).start (cleanedRegion uintaddr length).len)
    {r i : Nat} : OnPage (cleanedRegion uintaddr length) r i ↔
      (r, i) ∈ pages (getPageIndex uintaddr).1 (getPageIndex uintaddr).2
        ((length + 4095) / 4096) := by
  by_cases hzero : length = 0
  · subst hzero
    simp [OnPage, cleanedRegion, Span.Covers]
  · rw [onPage_iff hres (by simp [cleanedRegion]; omega)]
    simp only [cleanedRegion, pagesizeMask, getPageIndex_page]
    have hpages :
        (uintaddr / 4096 * 4096 % 4096 + (length + (4096 - 1)) / 4096 * 4096 + 4095) / 4096 =
        (length + 4095) / 4096 := by omega
    rw [hpages]

/-- A cleanup takes the right flags off in any case. -/
theorem Balanced.cleanup_flags (hb : Balanced past s) {uintaddr length : Nat}
    (hlt : length < 2 ^ 32)
    (hres : Resolves (cleanedRegion uintaddr length).start (cleanedRegion uintaddr length).len)
    (h : s.step (.cleanupPages uintaddr length) = some s') (r i : Nat) :
    (r, i) ∈ s'.shadow.touched ↔ TouchedSince (past ++ [.cleanupPages uintaddr length]) r i := by
  rw [(cleanup_spec hlt h).1, touchedSince_snoc, Finset.mem_sdiff, hb.flags,
    ← onPage_cleanedRegion hres]
  simp

theorem Balanced.cleanup_total_iff (hb : Balanced past s) {uintaddr length : Nat}
    (hlt : length < 2 ^ 32) (h : s.step (.cleanupPages uintaddr length) = some s') :
    s'.totalMemoryUsage = pagesize * s'.shadow.touched.card ↔
      Balances s (.cleanupPages uintaddr length) := by
  obtain ⟨htouched, htotal⟩ := cleanup_spec hlt h
  simp only [Balances, pagesize, pagesizeMask]
  have hn : (length + 4095) / 4096 ≤ 2 ^ 20 := by omega
  generalize (length + 4095) / 4096 = n at *
  generalize (getPageIndex uintaddr).1 = range at *
  generalize (getPageIndex uintaddr).2 = index at *
  have hshift := card_inter_pages_succ s.shadow.touched range index n
  have hsplit := Finset.card_sdiff_add_card_inter s.shadow.touched (pages range index n)
  rw [← htouched] at hsplit
  -- what is counted, and what should be
  have hcount := Finset.card_le_card
    (@Finset.inter_subset_right _ _ s.shadow.touched (pages range (index + 1) n))
  rw [card_pages] at hcount
  have hfull : (n = 2 ^ 20 ∧ pages range (index + 1) n ⊆ s.shadow.touched) ↔
      (s.shadow.touched ∩ pages range (index + 1) n).card = 2 ^ 20 := by
    constructor
    · rintro ⟨rfl, hsub⟩
      rw [Finset.inter_eq_right.mpr hsub, card_pages]
    · intro hcard
      refine ⟨by omega, ?_⟩
      rw [← Finset.inter_eq_right]
      exact Finset.eq_of_subset_of_card_le Finset.inter_subset_right (by rw [card_pages]; omega)
  rw [hfull]
  have hwrap := wrap_pages_iff (hcount.trans hn)
  have hends : ((range, index) ∈ s.shadow.touched ↔ (range, index + n) ∈ s.shadow.touched) ↔
      (s.shadow.touched ∩ pages range index n).card =
        (s.shadow.touched ∩ pages range (index + 1) n).card := by
    by_cases h0 : (range, index) ∈ s.shadow.touched <;>
      by_cases h1 : (range, index + n) ∈ s.shadow.touched <;> simp [h0, h1] at hshift ⊢ <;> omega
  rw [hends, htotal, hb.total, ← hsplit]
  generalize (s.shadow.touched ∩ pages range (index + 1) n).card = counted at *
  simp only [pagesize]
  by_cases hall : counted = 2 ^ 20
  · -- everything wraps away, although all but one of the pages were touched
    subst hall
    have hzero : wrap 32 (2 ^ 20 * 4096) = 0 := rfl
    have hsome : 0 < (s.shadow.touched ∩ pages range index n).card := by
      split at hshift <;> split at hshift <;> omega
    rw [hzero]
    omega
  · rw [hwrap.mpr hall]
    omega

/-! ## Whole runs -/

/-- From a balanced state a step balances exactly when it meets the
condition. -/
theorem Balanced.step_iff (hb : Balanced past s) {op : ShadowOp} (hop : InOneRange op)
    (h : s.step op = some s') : Balanced (past ++ [op]) s' ↔ Balances s op := by
  cases op with
  | mallocUpdateObject address size =>
      obtain ⟨hlt, hres⟩ := hop
      by_cases hsize : size = 0
      · subst hsize
        obtain rfl := malloc_zero h
        refine iff_of_true ⟨hb.total, fun r i => ?_⟩ ?_
        · rw [touchedSince_snoc, hb.flags]
          simp [OnPage, Span.Covers]
        · simp only [Balances, pagesize]
          omega
      · have hpos : 0 < size := by omega
        have htotal := hb.malloc_total_iff hpos hlt hres h
        have hflags := hb.malloc_flags_iff hpos hres h
        exact ⟨fun h => ⟨hflags.mp h.flags, htotal.mp h.total⟩,
          fun h => ⟨htotal.mpr h.2, hflags.mpr h.1⟩⟩
  | freeUpdateObject address status =>
      obtain ⟨htouched, htotal⟩ := free_spec h
      refine iff_of_true ⟨by rw [htotal, htouched, hb.total], fun r i => ?_⟩ trivial
      rw [htouched, touchedSince_snoc, hb.flags]
      simp
  | cleanupPages uintaddr length =>
      obtain ⟨hlt, hres⟩ := hop
      have htotal := hb.cleanup_total_iff hlt h
      exact ⟨fun h => htotal.mp h.total, fun hm => ⟨htotal.mpr hm, hb.cleanup_flags hlt hres h⟩⟩

theorem balanced_init : Balanced [] {} :=
  ⟨rfl, fun r i => by simp [TouchedSince]⟩

/-- **The ledger equals the touched pages** in every run whose steps meet
the condition. -/
theorem total_memory_balanced
    (h : Run step (fun _ s op => InOneRange op ∧ Balances s op) {} past s) : Balanced past s := by
  refine h.inv Balanced balanced_init ?_
  · rintro past s op s' - hb ⟨hop, hmeets⟩ hs
    exact (hb.step_iff hop hs).mpr hmeets

instance (s : TouchedLedger) : ∀ op, Decidable (Balances s op)
  | .mallocUpdateObject _ _ => inferInstanceAs (Decidable (_ ∧ _))
  | .freeUpdateObject _ _ => inferInstanceAs (Decidable True)
  | .cleanupPages _ _ => inferInstanceAs (Decidable (_ ∧ _))

/-- Three pages at the start of a range. -/
theorem resolves_three_pages {A n : Nat} (hlo : 0x10000000000 ≤ A)
    (hhi : A + n ≤ 0x10000003000) : Resolves A n := by
  refine ⟨1, by decide, fun a ha1 ha2 => ?_⟩
  have hpage : a / 4096 = 0x10000000 ∨ a / 4096 = 0x10000001 ∨ a / 4096 = 0x10000002 := by omega
  rcases hpage with h | h | h
  · exact ⟨0, by decide, by rw [MemPerf.pagesize, h]; decide⟩
  · exact ⟨1, by decide, by rw [MemPerf.pagesize, h]; decide⟩
  · exact ⟨2, by decide, by rw [MemPerf.pagesize, h]; decide⟩

/-- Two objects that end at page ends and share a page; the first page is
cleaned while the one behind it is touched. -/
theorem total_memory_balanced_shared_page :
    let ops : List ShadowOp := [.mallocUpdateObject 0x10000000000 8192,
      .mallocUpdateObject 0x10000001800 6144, .cleanupPages 0x10000000000 100]
    ∃ s, Run step (fun _ s op => InOneRange op ∧ Balances s op) {} ops s ∧
      s.totalMemoryUsage = 8192 ∧ Balanced ops s := by
  intro ops
  let checked : TouchedLedger → ShadowOp → Option TouchedLedger :=
    fun s op => if Balances s op then s.step op else none
  have hvals : ((ops.foldlM checked {}).map fun s => s.totalMemoryUsage) = some 8192 := by
    decide +kernel
  obtain ⟨s, hs, htotal⟩ := Option.map_eq_some_iff.mp hvals
  have hrun : Run step (fun _ s op => Balances s op) {} ops s := Run.ofChecked hs
  have hops : ∀ op ∈ ops, InOneRange op := by
    intro op hop
    simp only [ops, List.mem_cons, List.not_mem_nil, or_false] at hop
    rcases hop with rfl | rfl | rfl
    · exact ⟨by decide, resolves_three_pages (by decide) (by decide)⟩
    · exact ⟨by decide, resolves_three_pages (by decide) (by decide)⟩
    · exact ⟨by decide, resolves_three_pages (by decide) (by decide)⟩
  have hboth := hrun.withInputs hops
  exact ⟨s, hboth, htotal, total_memory_balanced hboth⟩

/-- The last 904 bytes of an object lie on a page that is not flagged. -/
theorem last_page_not_touched :
    ∃ s, Run step (fun _ _ => InOneRange) {} [.mallocUpdateObject 0x10000000000 5000] s ∧
      ¬ Balanced [.mallocUpdateObject 0x10000000000 5000] s := by
  have hstep : (step {} (.mallocUpdateObject 0x10000000000 5000)).isSome = true := by
    decide +kernel
  obtain ⟨s, hs⟩ := Option.isSome_iff_exists.mp hstep
  have hop : InOneRange (.mallocUpdateObject 0x10000000000 5000) :=
    ⟨by decide, resolves_three_pages (by decide) (by decide)⟩
  refine ⟨s, .snoc .nil hop hs, fun hb => ?_⟩
  have hmeets := (balanced_init.step_iff hop hs).mp hb
  exact absurd hmeets (by decide +kernel)

end TouchedLedger

end MemPerf.Temp
