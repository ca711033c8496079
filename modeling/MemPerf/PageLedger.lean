import MemPerf.PageView

/-!
# What the tables count over a run

Runs of the shadow memory against the flat shadow. Each operation on the
tables is the operation on the flat shadow, so is every run
(`tables_flat`), as long as the cleanups in it are safe. What is left is
arithmetic on cells: while objects do not overlap, a page's entry counts
the bytes of the live objects on the page, a line's entry those on the
line (`tables_count_live`).

The two halves of an update come one after the other, and other threads'
calls in between. So at any moment the pages may know of another set of
live objects than the lines do. Each half is one step: the reads and writes
of one count by two threads are not interleaved here.
-/

namespace MemPerf.Original

open Word StepSystem PageWalk Coverage MemPerf.Original.ShadowMemory

/-! ## Calls on the flat shadow -/

/-- The same call. A lookup makes tables only. -/
def FlatShadow.step (s : FlatShadow) : ShadowOp → FlatShadow
  | .updatePages address size isFree => s.updatePages address size isFree
  | .updateCacheLines runningThreadIndex address size isFree =>
      s.updateCacheLines runningThreadIndex address size isFree
  | .cleanupPages uintaddr length => s.cleanupPages (regionPages uintaddr length)
  | .getPageMapEntry _ => s

/-- Updates are of objects with bytes, which `updateObject` checks, and
cleanups are safe. -/
def Proper (s : ShadowMemory) : ShadowOp → Prop
  | .updatePages _ size _ => 0 < size
  | .updateCacheLines _ _ size _ => 0 < size
  | .cleanupPages uintaddr length => InMappedSpace s uintaddr length ∧ CleanupSafe s uintaddr length
  | .getPageMapEntry _ => True

/-- One call. -/
theorem step_flat {s s' : ShadowMemory} {op : ShadowOp} (hs : s.Laid) (hop : Proper s op)
    (h : s.step op = some s') : s'.Laid ∧ s'.flatten = s.flatten.step op := by
  cases op with
  | updatePages address size isFree =>
      obtain ⟨w, hw, rfl⟩ := Option.map_eq_some_iff.mp h
      obtain ⟨hlaid, hflat, -⟩ := updatePages_flat hs hop hw
      exact ⟨hlaid, hflat⟩
  | updateCacheLines tid address size isFree =>
      obtain ⟨w, hw, rfl⟩ := Option.map_eq_some_iff.mp h
      exact updateCacheLines_flat hs hw
  | cleanupPages uintaddr length =>
      obtain ⟨⟨r, w⟩, hw, rfl⟩ := Option.map_eq_some_iff.mp h
      obtain ⟨hlaid, hflat, -⟩ := cleanupPages_flat hs hop.1 hop.2 hw
      exact ⟨hlaid, hflat⟩
  | getPageMapEntry address =>
      obtain ⟨⟨q, e⟩, hget, rfl⟩ := Option.map_eq_some_iff.mp h
      exact hs.getPageMapEntry hget

/-- A cleanup of the two pages around the start of megabyte 5 is safe when
the megabytes' tables are neighbours. -/
theorem proper_cleanup {s : ShadowMemory} (h4 : s.megaMap 4 = some 0) (h5 : s.megaMap 5 = some 256)
    (hstart : (s.getPageMapEntry 0x4ff000).isSome = true)
    (hregion : (lookupPages getPageMapEntry (regionPages 0x4ff000 8192) s).isSome = true) :
    Proper s (.cleanupPages 0x4ff000 8192) := by
  have hpages : (regionPages 0x4ff000 8192).length = 2 := by decide
  refine ⟨⟨hstart, hregion⟩, by rw [hpages]; decide, fun i hi => ?_, ?_⟩
  · rw [hpages] at hi
    obtain rfl : i = 0 := by
      simp only [megabytesOf] at hi
      omega
    show s.tableAfter 4 1 = s.tableAfter 4 0 + 256
    rw [tableAfter, tableAfter, h4, h5]
    rfl
  · rw [hpages]
    exact Nat.lt_of_le_of_lt List.countP_le_length (by decide)

/-! ## Live objects -/

/-- What an update does to the objects in use. -/
def updateLive (address size : Nat) (isFree : Bool) (live : List Span) : List Span :=
  if isFree then live.erase ⟨address, size⟩ else ⟨address, size⟩ :: live

/-- The objects in use, as the pages were told. -/
def ShadowOp.onPages (live : List Span) : ShadowOp → List Span
  | .updatePages address size isFree => updateLive address size isFree live
  | _ => live

/-- The same, as the lines were told. -/
def ShadowOp.onLines (live : List Span) : ShadowOp → List Span
  | .updateCacheLines _ address size isFree => updateLive address size isFree live
  | _ => live

def pageObjects (past : List ShadowOp) : List Span := past.foldl ShadowOp.onPages []

def lineObjects (past : List ShadowOp) : List Span := past.foldl ShadowOp.onLines []

/-- An object is put beside those in use, or is one of them and goes. -/
def Updates (address size : Nat) (isFree : Bool) (live : List Span) : Prop :=
  if isFree then ⟨address, size⟩ ∈ live else ∀ o ∈ live, Span.Apart ⟨address, size⟩ o

/-- No page of the region has a byte of an object in use. -/
def Unused (live : List Span) (uintaddr length : Nat) : Prop :=
  ∀ o ∈ live, ∀ a, o.Covers a → a / 4096 ∉ regionPages uintaddr length

/-- What an allocator keeps to. -/
def Respects (pages lines : List Span) : ShadowOp → Prop
  | .updatePages address size isFree => Updates address size isFree pages
  | .updateCacheLines _ address size isFree => Updates address size isFree lines
  | .cleanupPages uintaddr length => Unused pages uintaddr length ∧ Unused lines uintaddr length
  | .getPageMapEntry _ => True

section update

variable {live : List Span} {address size : Nat} {isFree : Bool}

theorem Updates.pairwise (hop : Updates address size isFree live)
    (hlive : live.Pairwise Span.Apart) :
    (updateLive address size isFree live).Pairwise Span.Apart := by
  cases isFree with
  | true => exact hlive.sublist List.erase_sublist
  | false => exact hlive.cons hop

/-- The cells are changed by part and by whole, in integers of `w` bits. -/
theorem Updates.counts {W w : Nat} {count : Nat → Int} (hop : Updates address size isFree live)
    (hlive : live.Pairwise Span.Apart) (hsize : 0 < size) (hW : 0 < W) (hw : 2 * W < 2 ^ w)
    (h : Counts W live count) :
    Counts W (updateLive address size isFree live) (onSpan W ⟨address, size⟩
      (fun b x => swrap w (if isFree then x - b else x + b)) (fun _ => if isFree then 0 else W)
      count) := by
  cases isFree with
  | true =>
      have hperm := List.perm_cons_erase hop
      have hsym : ∀ {o o' : Span}, o.Apart o' → o'.Apart o := Span.Apart.symm
      exact (h.perm hperm).remove hW hw (hperm.pairwise hlive hsym) hsize
  | false => exact h.add hW hw (hlive.cons hop) hsize

end update

/-! ## What an operation does to the fields -/

namespace FlatShadow

variable (s : FlatShadow) {address size : Nat} {isFree : Bool}

theorem updatePages_numUsedBytes (hsize : 0 < size) (p : Nat) :
    ((s.updatePages address size isFree).pages p).numUsedBytes = onSpan pagesize ⟨address, size⟩
      (fun b x => swrap 16 (if isFree then x - b else x + b))
      (fun _ => if isFree then 0 else pagesize) (fun p => (s.pages p).numUsedBytes) p := by
  refine onSpan_map PageMapEntry.numUsedBytes (fun b e => ?_) (fun e => ?_) s.pages (by decide)
    hsize p
  · cases isFree <;> rfl
  · cases isFree <;> rfl

theorem updateCacheLines_numUsedBytes (runningThreadIndex : Nat) (hsize : 0 < size) (l : Nat) :
    ((s.updateCacheLines runningThreadIndex address size isFree).lines l).numUsedBytes =
      onSpan cachelineSize ⟨address, size⟩
        (fun b x => swrap 8 (if isFree then x - b else x + b))
        (fun _ => if isFree then 0 else cachelineSize) (fun l => (s.lines l).numUsedBytes) l := by
  have hrecord : ∀ (type : FalseSharingType) (e : CacheMapEntry),
      (e.recordThread runningThreadIndex type).numUsedBytes = e.numUsedBytes := by
    intro type e
    unfold CacheMapEntry.recordThread
    simp only
    split <;> rfl
  refine onSpan_map CacheMapEntry.numUsedBytes (fun b e => ?_) (fun e => ?_) s.lines (by decide)
    hsize l
  · unfold CacheMapEntry.updateCache
    cases isFree with
    | true =>
        simp only [if_true]
        split
        · exact hrecord _ _
        · rfl
    | false =>
        simp only [Bool.false_eq_true, if_false]
        split
        · exact hrecord _ _
        · rfl
  · cases isFree <;> rfl

/-- A window has a byte of the object just when its page is one of the
object's. -/
theorem overlap_page_eq_zero_iff {p : Nat} :
    (Span.mk address size).overlap (pagesize * p) pagesize = 0 ↔ p ∉ regionPages address size := by
  rw [mem_regionPages, ← not_iff_not, not_not, ← ne_eq, ← Nat.pos_iff_ne_zero,
    Span.overlap_pos_iff]
  simp only [Span.Covers, pagesize]
  constructor
  · rintro ⟨a, h1, h2, h3, h4⟩
    exact ⟨a, h3, h4, by omega⟩
  · rintro ⟨a, h1, h2, rfl⟩
    exact ⟨a, by omega, by omega, h1, h2⟩

theorem updatePages_touched (hsize : 0 < size) (p : Nat) :
    ((s.updatePages address size isFree).pages p).touched = true ↔
      (s.pages p).touched = true ∨ isFree = false ∧ p ∈ regionPages address size := by
  have hpart : ∀ b e, (touch isFree (partBytes isFree b e)).touched = (!isFree || e.touched) := by
    intro b e
    cases isFree <;> rfl
  have hwhole : ∀ e, (touch isFree (wholeBytes isFree e)).touched = (!isFree || e.touched) := by
    intro e
    cases isFree <;> rfl
  have hcell := onSpan_apply pagesize ⟨address, size⟩
    (fun n e => touch isFree (partBytes isFree n e))
    (fun e => touch isFree (wholeBytes isFree e)) s.pages (by decide) hsize p
  rw [updatePages]
  simp only
  rw [hcell]
  split
  · next hzero =>
      rw [overlap_page_eq_zero_iff] at hzero
      simp [hzero]
  · next hpos =>
      rw [overlap_page_eq_zero_iff, not_not] at hpos
      split
      · rw [hwhole]
        cases isFree <;> simp [hpos]
      · rw [hpart]
        cases isFree <;> simp [hpos]

end FlatShadow

/-! ## The count of every run -/

/-- The entries count the bytes of the objects in use, and their pages are
touched. -/
structure CountsLive (pages lines : List Span) (s : FlatShadow) : Prop where
  apartPages : pages.Pairwise Span.Apart
  apartLines : lines.Pairwise Span.Apart
  countPages : Counts pagesize pages fun p => (s.pages p).numUsedBytes
  countLines : Counts cachelineSize lines fun l => (s.lines l).numUsedBytes
  touched : ∀ o ∈ pages, ∀ a, o.Covers a → (s.pages (a / 4096)).touched = true

namespace CountsLive

variable {pages lines : List Span} {s : FlatShadow}

theorem init : CountsLive [] [] {} where
  apartPages := .nil
  apartLines := .nil
  countPages := .nil
  countLines := .nil
  touched _ ho := absurd ho List.not_mem_nil

theorem updatePages {address size : Nat} {isFree : Bool} (h : CountsLive pages lines s)
    (hsize : 0 < size) (hop : Updates address size isFree pages) :
    CountsLive (updateLive address size isFree pages) lines
      (s.updatePages address size isFree) where
  apartPages := hop.pairwise h.apartPages
  apartLines := h.apartLines
  countPages := by
    have hnew := hop.counts h.apartPages hsize (by decide)
      (show 2 * pagesize < 2 ^ 16 by decide) h.countPages
    exact fun p => (s.updatePages_numUsedBytes hsize p).trans (hnew p)
  countLines := h.countLines
  touched o ho a hcov := by
    rw [s.updatePages_touched hsize]
    by_cases hold : o ∈ pages
    · exact .inl (h.touched o hold a hcov)
    · cases isFree with
      | true => exact absurd (List.mem_of_mem_erase ho) hold
      | false =>
          obtain rfl | ho := List.mem_cons.mp ho
          · exact .inr ⟨rfl, mem_regionPages.mpr ⟨a, hcov.1, hcov.2, rfl⟩⟩
          · exact absurd ho hold

theorem updateCacheLines {runningThreadIndex address size : Nat} {isFree : Bool}
    (h : CountsLive pages lines s) (hsize : 0 < size) (hop : Updates address size isFree lines) :
    CountsLive pages (updateLive address size isFree lines)
      (s.updateCacheLines runningThreadIndex address size isFree) where
  apartPages := h.apartPages
  apartLines := hop.pairwise h.apartLines
  countPages := h.countPages
  countLines := by
    have hnew := hop.counts h.apartLines hsize (by decide)
      (show 2 * cachelineSize < 2 ^ 8 by decide) h.countLines
    exact fun l => (s.updateCacheLines_numUsedBytes runningThreadIndex hsize l).trans (hnew l)
  touched := h.touched

theorem cleanupPages {uintaddr length : Nat} (h : CountsLive pages lines s)
    (hpages : Unused pages uintaddr length) (hlines : Unused lines uintaddr length) :
    CountsLive pages lines (s.cleanupPages (regionPages uintaddr length)) where
  apartPages := h.apartPages
  apartLines := h.apartLines
  countPages := by
    have hclear := h.countPages.clear
      (P := fun p => p ∈ regionPages uintaddr length ∧ (s.pages p).touched = true)
      fun p hp o ho a h1 h2 hcov => hpages o ho a hcov
        (by rw [show a / 4096 = p by simp only [pagesize] at h1 h2; omega]; exact hp.1)
    intro p
    rw [← hclear p, FlatShadow.cleanupPages]
    simp only
    split <;> rfl
  countLines := by
    have hclear := h.countLines.clear
      (P := fun l => l / 64 ∈ regionPages uintaddr length ∧ (s.pages (l / 64)).touched = true)
      fun l hl o ho a h1 h2 hcov => hlines o ho a hcov
        (by rw [show a / 4096 = l / 64 by simp only [cachelineSize] at h1 h2; omega]; exact hl.1)
    intro l
    rw [← hclear l, FlatShadow.cleanupPages]
    simp only
    split <;> rfl
  touched o ho a hcov := by
    have hout := hpages o ho a hcov
    simp only [FlatShadow.cleanupPages, hout, false_and, if_false]
    exact h.touched o ho a hcov

theorem step {op : ShadowOp} {t : ShadowMemory} (h : CountsLive pages lines s)
    (hproper : Proper t op) (hop : Respects pages lines op) :
    CountsLive (op.onPages pages) (op.onLines lines) (s.step op) := by
  cases op with
  | updatePages address size isFree => exact h.updatePages hproper hop
  | updateCacheLines tid address size isFree => exact h.updateCacheLines hproper hop
  | cleanupPages uintaddr length => exact h.cleanupPages hop.1 hop.2
  | getPageMapEntry address => exact h

end CountsLive

/-- The calls of an allocator, with cleanups that are safe. -/
def Permitted (past : List ShadowOp) (s : ShadowMemory) (op : ShadowOp) : Prop :=
  Proper s op ∧ Respects (pageObjects past) (lineObjects past) op

/-! ## An object that is allocated, freed and cleaned up -/

/-- Its two pages lie in two megabytes. -/
def oneObject : List ShadowOp :=
  [.updatePages 0x4ff000 8192 false, .updateCacheLines 1 0x4ff000 8192 false,
    .updatePages 0x4ff000 8192 true, .updateCacheLines 2 0x4ff000 8192 true]

theorem oneObject_run : ∃ s, Run ShadowMemory.step Permitted {}
    (oneObject ++ [.cleanupPages 0x4ff000 8192]) s := by
  have hvals : ((oneObject.foldlM ShadowMemory.step {}).map fun s => (s.megaMap 4, s.megaMap 5,
      (s.getPageMapEntry 0x4ff000).isSome,
      (lookupPages getPageMapEntry (regionPages 0x4ff000 8192) s).isSome,
      (s.step (.cleanupPages 0x4ff000 8192)).isSome))
        = some (some 0, some 256, true, true, true) := by decide +kernel
  obtain ⟨s, hs, hvals⟩ := Option.map_eq_some_iff.mp hvals
  simp only [Prod.mk.injEq] at hvals
  obtain ⟨h4, h5, hstart, hregion, hstep⟩ := hvals
  obtain ⟨s', hs'⟩ := Option.isSome_iff_exists.mp hstep
  simp only [oneObject, List.foldlM_cons, List.foldlM_nil, Option.bind_eq_bind,
    Option.bind_eq_some_iff, Option.pure_def, Option.some.injEq] at hs
  obtain ⟨s₁, h₁, s₂, h₂, s₃, h₃, s₄, h₄, rfl⟩ := hs
  have hnone : Updates 0x4ff000 8192 false [] := fun _ ho => absurd ho List.not_mem_nil
  have hone : Updates 0x4ff000 8192 true [⟨0x4ff000, 8192⟩] := List.mem_singleton_self _
  have hunused : Unused [] 0x4ff000 8192 := fun _ ho => absurd ho List.not_mem_nil
  have hpages : pageObjects oneObject = [] := by decide
  have hlines : lineObjects oneObject = [] := by decide
  have hsize : 0 < 8192 := by decide
  have hrun : Run ShadowMemory.step Permitted {} oneObject s₄ :=
    (((Run.nil.snoc ⟨hsize, hnone⟩ h₁).snoc ⟨hsize, hnone⟩ h₂).snoc ⟨hsize, hone⟩ h₃).snoc
      ⟨hsize, hone⟩ h₄
  refine ⟨s', hrun.snoc ⟨proper_cleanup h4 h5 hstart hregion, ?_⟩ hs'⟩
  rw [hpages, hlines]
  exact ⟨hunused, hunused⟩

/-! ## Runs -/

/-- **A run on the tables is a run on the flat shadow**: where the tables
and the entries of a page lie shows in nothing. -/
theorem tables_flat {past : List ShadowOp} {s : ShadowMemory}
    (h : Run ShadowMemory.step (fun _ s op => Proper s op) {} past s) :
    s.Laid ∧ s.flatten = past.foldl FlatShadow.step {} := by
  refine h.inv (fun past s => s.Laid ∧ s.flatten = past.foldl FlatShadow.step {})
    ⟨laid_init, flatten_init⟩ ?_
  intro past s op s' _ ⟨hlaid, hflat⟩ hop hstep
  obtain ⟨hlaid', hflat'⟩ := step_flat hlaid hop hstep
  refine ⟨hlaid', ?_⟩
  rw [hflat', hflat, List.foldl_append]
  rfl

theorem tables_flat_one_object : ∃ past s, past.length = 5
    ∧ Run ShadowMemory.step (fun _ s op => Proper s op) {} past s
    ∧ s.flatten = past.foldl FlatShadow.step {} := by
  obtain ⟨s, h⟩ := oneObject_run
  have hproper := h.weaken fun _ _ _ hop => hop.1
  exact ⟨_, s, rfl, hproper, (tables_flat hproper).2⟩

theorem countsLive_of_run {past : List ShadowOp} {s : ShadowMemory}
    (h : Run ShadowMemory.step Permitted {} past s) :
    s.Laid ∧ CountsLive (pageObjects past) (lineObjects past) s.flatten := by
  refine h.inv (fun past s => s.Laid ∧ CountsLive (pageObjects past) (lineObjects past) s.flatten)
    ⟨laid_init, flatten_init ▸ CountsLive.init⟩ ?_
  intro past s op s' _ ⟨hlaid, hcounts⟩ ⟨hproper, hop⟩ hstep
  obtain ⟨hlaid', hflat'⟩ := step_flat hlaid hproper hstep
  refine ⟨hlaid', ?_⟩
  rw [hflat', pageObjects, lineObjects, List.foldl_append, List.foldl_append]
  exact hcounts.step hproper hop

/-- **The tables count what is in use**, whatever the order of the calls:
the entry of a page the bytes of the objects on the page, the entry of a
line those on the line; a page without an entry has none, nor has a line. -/
theorem tables_count_live {past : List ShadowOp} {s : ShadowMemory}
    (h : Run ShadowMemory.step Permitted {} past s) :
    (∀ p e, s.entryOf p = some e →
      (s.pageMap e).numUsedBytes = covered (pageObjects past) (4096 * p) 4096)
    ∧ (∀ p, s.entryOf p = none → covered (pageObjects past) (4096 * p) 4096 = 0)
    ∧ (∀ l c, s.lineOf l = some c →
      (s.cacheMap c).numUsedBytes = covered (lineObjects past) (64 * l) 64)
    ∧ ∀ l, s.lineOf l = none → covered (lineObjects past) (64 * l) 64 = 0 := by
  obtain ⟨-, hcounts⟩ := countsLive_of_run h
  refine ⟨fun p e he => ?_, fun p he => ?_, fun l c hl => ?_, fun l hl => ?_⟩
  · have hp := hcounts.countPages p
    simp only [flatten_page he] at hp
    exact hp
  · have hp := hcounts.countPages p
    simp only [flatten, he] at hp
    exact Int.natCast_eq_zero.mp hp.symm
  · have hl' := hcounts.countLines l
    simp only [flatten_line hl] at hl'
    exact hl'
  · have hl' := hcounts.countLines l
    simp only [flatten, hl] at hl'
    exact Int.natCast_eq_zero.mp hl'.symm

theorem tables_count_live_one_object : ∃ past s, past.length = 5
    ∧ Run ShadowMemory.step Permitted {} past s
    ∧ ∀ p e, s.entryOf p = some e →
      (s.pageMap e).numUsedBytes = covered (pageObjects past) (4096 * p) 4096 := by
  obtain ⟨s, h⟩ := oneObject_run
  exact ⟨_, s, rfl, h, (tables_count_live h).1⟩

end MemPerf.Original
