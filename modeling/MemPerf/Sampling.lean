import MemPerf.PageLedger
import MemPerf.PerfRing
import MemPerf.TableGrowth

/-!
# Sampled accesses

`ShadowMemory::doMemoryAccess` is called with the address of every sampled
access. An access to a line with bytes in use is counted in the
`friendlinessStatus` of the thread: how much of the line and of its page is
in use, and for a store, whether another thread has stored to the line
before. A line remembers its last writer and the kinds of sharing that were
recorded for it until its page is cleaned up.

The entry of a line has five fields. Three are those of `CacheMapEntry`,
the two that only sampling uses are kept in a `LineSampling` of their own
under the same index.
-/

namespace MemPerf.Original

open Word StepSystem PageWalk MemPerf.Original.ShadowMemory

/-! ## What is counted -/

/-- `f[i] += n`, in 32 bits. -/
def addAt {ι : Type*} [DecidableEq ι] (f : ι → Nat) (i : ι) (n : Nat) : ι → Nat :=
  Function.update f i (wrap 32 (f i + n))

structure CacheConflictDetector where
  numOfHitForCaches : Nat → Nat := fun _ => 0
  numOfDifferentHitForCaches : Nat → Nat := fun _ => 0
  totalHitIntervalForCaches : Nat → Nat := fun _ => 0
  lastHitTimeForCaches : Nat → Nat := fun _ => 0
  lastHitMegaIndex : Nat → Nat := fun _ => 0
  lastHitPageIndex : Nat → Nat := fun _ => 0

namespace CacheConflictDetector

def hit (megaIndex pageIndex cacheIndex time : Nat) (d : CacheConflictDetector) :
    CacheConflictDetector :=
  let d := { d with numOfHitForCaches := addAt d.numOfHitForCaches cacheIndex 1 }
  let d :=
    if d.lastHitMegaIndex cacheIndex ≠ megaIndex ∨ d.lastHitPageIndex cacheIndex ≠ pageIndex then
      let d :=
        if d.lastHitMegaIndex cacheIndex ≠ 0 ∨ d.lastHitPageIndex cacheIndex ≠ 0 then
          { d with
            numOfDifferentHitForCaches := addAt d.numOfDifferentHitForCaches cacheIndex 1
            totalHitIntervalForCaches := addAt d.totalHitIntervalForCaches cacheIndex
              (wsub 32 time (d.lastHitTimeForCaches cacheIndex)) }
        else d
      { d with
        lastHitMegaIndex := Function.update d.lastHitMegaIndex cacheIndex megaIndex
        lastHitPageIndex := Function.update d.lastHitPageIndex cacheIndex pageIndex }
    else d
  { d with lastHitTimeForCaches := Function.update d.lastHitTimeForCaches cacheIndex time }

/-- The three arrays of counts; where the last hits were is not added. -/
def add (d d' : CacheConflictDetector) : CacheConflictDetector :=
  { d with
    numOfHitForCaches := fun i => wrap 32 (d.numOfHitForCaches i + d'.numOfHitForCaches i)
    numOfDifferentHitForCaches := fun i =>
      wrap 32 (d.numOfDifferentHitForCaches i + d'.numOfDifferentHitForCaches i)
    totalHitIntervalForCaches := fun i =>
      wrap 32 (d.totalHitIntervalForCaches i + d'.totalHitIntervalForCaches i) }

end CacheConflictDetector

structure FriendlinessStatus where
  numOfSampling : Nat := 0
  numOfSampledStoringInstructions : Nat := 0
  numOfSampledCacheLines : Nat := 0
  numOfSampledFalseSharingInstructions : FalseSharingType → Nat := fun _ => 0
  numOfSampledFalseSharingCacheLines : FalseSharingType → Nat := fun _ => 0
  totalMemoryUsageOfSampledPages : Nat := 0
  totalMemoryUsageOfSampledCacheLines : Nat := 0
  cacheConflictDetector : CacheConflictDetector := {}

namespace FriendlinessStatus

def recordANewSampling (memoryUsageOfCacheLine memoryUsageOfPage : Nat) (f : FriendlinessStatus) :
    FriendlinessStatus :=
  { f with
    numOfSampling := wrap 32 (f.numOfSampling + 1)
    totalMemoryUsageOfSampledCacheLines :=
      wrap 64 (f.totalMemoryUsageOfSampledCacheLines + memoryUsageOfCacheLine)
    totalMemoryUsageOfSampledPages :=
      wrap 64 (f.totalMemoryUsageOfSampledPages + memoryUsageOfPage) }

def add (f f' : FriendlinessStatus) : FriendlinessStatus where
  numOfSampling := wrap 32 (f.numOfSampling + f'.numOfSampling)
  totalMemoryUsageOfSampledPages :=
    wrap 64 (f.totalMemoryUsageOfSampledPages + f'.totalMemoryUsageOfSampledPages)
  totalMemoryUsageOfSampledCacheLines :=
    wrap 64 (f.totalMemoryUsageOfSampledCacheLines + f'.totalMemoryUsageOfSampledCacheLines)
  numOfSampledStoringInstructions :=
    wrap 32 (f.numOfSampledStoringInstructions + f'.numOfSampledStoringInstructions)
  numOfSampledCacheLines := wrap 32 (f.numOfSampledCacheLines + f'.numOfSampledCacheLines)
  numOfSampledFalseSharingInstructions type := wrap 32
    (f.numOfSampledFalseSharingInstructions type + f'.numOfSampledFalseSharingInstructions type)
  numOfSampledFalseSharingCacheLines type := wrap 32
    (f.numOfSampledFalseSharingCacheLines type + f'.numOfSampledFalseSharingCacheLines type)
  cacheConflictDetector := f.cacheConflictDetector.add f'.cacheConflictDetector

end FriendlinessStatus

/-! ## doMemoryAccess -/

def CacheMapEntry.getUsedBytes (e : CacheMapEntry) : Nat :=
  if e.numUsedBytes > cachelineSize then cachelineSize
  else if e.numUsedBytes < 0 then 0
  else e.numUsedBytes.toNat

def PageMapEntry.getUsedBytes (e : PageMapEntry) : Nat :=
  if e.numUsedBytes > pagesize then pagesize
  else if e.numUsedBytes < 0 then 0
  else e.numUsedBytes.toNat

/-- The fields of a `CacheMapEntry` that only sampling uses. -/
structure LineSampling where
  falseSharingLineRecorded : FalseSharingType → Bool := fun _ => false
  lastWriterThreadIndex : Nat := 0

/-- The block under `accessType == E_MEM_STORE`, where the line's type of
sharing is `falseSharingType`. -/
def recordStore (threadIndex : Nat) (falseSharingType : FalseSharingType) (line : LineSampling)
    (f : FriendlinessStatus) : LineSampling × FriendlinessStatus :=
  let f := { f with
    numOfSampledStoringInstructions := wrap 32 (f.numOfSampledStoringInstructions + 1) }
  if line.lastWriterThreadIndex ≠ threadIndex ∧ 16 ≤ line.lastWriterThreadIndex then
    let f := { f with
      numOfSampledFalseSharingInstructions :=
        addAt f.numOfSampledFalseSharingInstructions falseSharingType 1 }
    if line.falseSharingLineRecorded falseSharingType then
      ({ line with lastWriterThreadIndex := threadIndex }, f)
    else
      ({ falseSharingLineRecorded :=
          Function.update line.falseSharingLineRecorded falseSharingType true
         lastWriterThreadIndex := threadIndex },
        { f with
          numOfSampledFalseSharingCacheLines :=
            addAt f.numOfSampledFalseSharingCacheLines falseSharingType 1 })
  else ({ line with lastWriterThreadIndex := threadIndex }, f)

/-- `doMemoryAccess` behind its checks: what it does to `*cme` and to
`friendlinessStatus`. -/
def recordAccess (runningThreadIndex uintaddr : Nat) (accessType : MemAccessType)
    (pme : PageMapEntry) (cme : CacheMapEntry) (line : LineSampling) (f : FriendlinessStatus) :
    LineSampling × FriendlinessStatus :=
  let f := { f with
    cacheConflictDetector := f.cacheConflictDetector.hit (megaIndexOf uintaddr)
      (pageIndexOf uintaddr) (cacheIndexOf uintaddr) f.numOfSampling }
  let (line, f) :=
    if line.lastWriterThreadIndex = 0 then
      ({ line with lastWriterThreadIndex := 1 },
        { f with numOfSampledCacheLines := wrap 32 (f.numOfSampledCacheLines + 1) })
    else (line, f)
  let f := f.recordANewSampling cme.getUsedBytes pme.getUsedBytes
  if accessType = .store then
    recordStore (CacheMapEntry.getThreadIndex runningThreadIndex) cme.getFS line f
  else (line, f)

/-- `*pme` and `cme` in `doMemoryAccess`, where it does not return before it
counts the access. -/
def ShadowMemory.sampledLine (s : ShadowMemory) (uintaddr : Nat) : Option (PageMapEntry × Nat) := do
  let table ← s.megaMap (megaIndexOf uintaddr)
  let pme := s.pageMap (table + pageIndexOf uintaddr)
  if !pme.touched then none
  else do
    let lines ← pme.cacheMapEntry
    if pme.getUsedBytes = 0 then none
    else
      let cme := lines + cacheIndexOf uintaddr
      if (s.cacheMap cme).getUsedBytes = 0 then none else some (pme, cme)

/-- The shadow memory, the remaining fields of the entries in its cache
map, and the `friendlinessStatus` of each thread. -/
structure Sampler where
  shadow : ShadowMemory := {}
  lines : Nat → LineSampling := fun _ => {}
  friendlinessStatus : Nat → FriendlinessStatus := fun _ => {}

namespace Sampler

def doMemoryAccess (runningThreadIndex uintaddr : Nat) (accessType : MemAccessType)
    (s : Sampler) : Option Sampler :=
  if uintaddr = 0 ∨ megaIndexOf uintaddr ≥ numMegabyteMapEntries then none
  else
    match s.shadow.sampledLine uintaddr with
    | none => some s
    | some (pme, cme) =>
        let recorded := recordAccess runningThreadIndex uintaddr accessType pme
          (s.shadow.cacheMap cme) (s.lines cme) (s.friendlinessStatus runningThreadIndex)
        some { s with
          lines := Function.update s.lines cme recorded.1
          friendlinessStatus :=
            Function.update s.friendlinessStatus runningThreadIndex recorded.2 }

/-- The `memset` of `PageMapEntry::clear` for one of the entries visited. -/
def zeroed (s : ShadowMemory) (visited : List Nat) (c : Nat) : Bool :=
  visited.any fun e => (s.pageMap e).touched &&
    match (s.pageMap e).cacheMapEntry with
    | some table => decide (table ≤ c ∧ c < table + numCachelinesPerPage)
    | none => false

def cleanupPages (uintaddr length : Nat) (s : Sampler) : Option Sampler := do
  let (_, w) ← s.shadow.cleanupPages uintaddr length
  some { s with
    shadow := w.shadow
    lines := fun c => if zeroed s.shadow w.visited c then {} else s.lines c }

end Sampler

/-- A call into the shadow memory, or the handling of a sample by a thread. -/
inductive SamplerOp where
  | shadow (op : ShadowOp)
  | doMemoryAccess (runningThreadIndex uintaddr : Nat) (accessType : MemAccessType)
deriving DecidableEq, Repr

def Sampler.step (s : Sampler) : SamplerOp → Option Sampler
  | .shadow (.cleanupPages uintaddr length) => s.cleanupPages uintaddr length
  | .shadow op => (s.shadow.step op).map fun shadow => { s with shadow }
  | .doMemoryAccess runningThreadIndex uintaddr accessType =>
      s.doMemoryAccess runningThreadIndex uintaddr accessType

/-! ## The sampler on the flat shadow -/

/-- The sampling fields of each line. -/
structure FlatSampler where
  shadow : FlatShadow := {}
  lines : Nat → LineSampling := fun _ => {}
  friendlinessStatus : Nat → FriendlinessStatus := fun _ => {}

/-- Bytes of the page and of the line of the address are in use. -/
def FlatShadow.Counted (s : FlatShadow) (uintaddr : Nat) : Prop :=
  (s.pages (uintaddr / 4096)).touched = true ∧ (s.pages (uintaddr / 4096)).getUsedBytes ≠ 0
    ∧ (s.lines (uintaddr / 64)).getUsedBytes ≠ 0

instance (s : FlatShadow) (uintaddr : Nat) : Decidable (s.Counted uintaddr) :=
  inferInstanceAs (Decidable (_ ∧ _ ∧ _))

namespace FlatSampler

def doMemoryAccess (runningThreadIndex uintaddr : Nat) (accessType : MemAccessType)
    (s : FlatSampler) : FlatSampler :=
  if s.shadow.Counted uintaddr then
    let recorded := recordAccess runningThreadIndex uintaddr accessType
      (s.shadow.pages (uintaddr / 4096)) (s.shadow.lines (uintaddr / 64))
      (s.lines (uintaddr / 64)) (s.friendlinessStatus runningThreadIndex)
    { s with
      lines := Function.update s.lines (uintaddr / 64) recorded.1
      friendlinessStatus := Function.update s.friendlinessStatus runningThreadIndex recorded.2 }
  else s

/-- A cleanup zeroes the lines of the touched pages. -/
def linesAfter (s : FlatSampler) : ShadowOp → Nat → LineSampling
  | .cleanupPages uintaddr length, l =>
      if l / 64 ∈ regionPages uintaddr length ∧ (s.shadow.pages (l / 64)).touched then {}
      else s.lines l
  | _, l => s.lines l

def step (s : FlatSampler) : SamplerOp → FlatSampler
  | .shadow op => { s with shadow := s.shadow.step op, lines := s.linesAfter op }
  | .doMemoryAccess runningThreadIndex uintaddr accessType =>
      s.doMemoryAccess runningThreadIndex uintaddr accessType

end FlatSampler

namespace Sampler

/-- The sampling fields of a line; they are zero where it has no entry. -/
def lineAt (s : Sampler) (l : Nat) : LineSampling :=
  match s.shadow.lineOf l with
  | some c => s.lines c
  | none => {}

def flatten (s : Sampler) : FlatSampler where
  shadow := s.shadow.flatten
  lines := s.lineAt
  friendlinessStatus := s.friendlinessStatus

/-- `Laid`, for all the fields of an entry. -/
structure Valid (s : Sampler) : Prop where
  laid : s.shadow.Laid
  fresh : ∀ c, s.shadow.cacheMapBumpPtr ≤ c → s.lines c = {}

theorem valid_init : Valid {} := ⟨laid_init, fun _ _ => rfl⟩

variable {s : Sampler}

theorem lineAt_of_lineOf {l c : Nat} (h : s.shadow.lineOf l = some c) :
    s.lineAt l = s.lines c := by
  simp only [lineAt, h]

/-- New tables bring no sampling fields that are not zero. -/
theorem Valid.lineAt_extends (hs : s.Valid) {r : ShadowMemory} (h : Extends s.shadow r) (l : Nat) :
    lineAt { s with shadow := r } l = s.lineAt l := by
  cases hl : s.shadow.lineOf l with
  | some c =>
      rw [lineAt_of_lineOf hl]
      exact lineAt_of_lineOf (h.lineOf hl)
  | none =>
      have hzero : s.lineAt l = {} := by simp only [lineAt, hl]
      rw [hzero]
      cases hr : r.lineOf l with
      | none => simp only [lineAt, hr]
      | some c =>
          rw [lineAt_of_lineOf hr]
          exact hs.fresh c (hs.laid.lineOf_fresh h hl hr)

/-- The fields of one line are written. -/
theorem lineAt_update (hs : s.Valid) {l c : Nat} (hl : s.shadow.lineOf l = some c)
    (x : LineSampling) {f : Nat → FriendlinessStatus} :
    lineAt { s with lines := Function.update s.lines c x, friendlinessStatus := f }
      = Function.update s.lineAt l x := by
  funext k
  by_cases hk : k = l
  · subst hk
    simp only [lineAt, hl, Function.update_self]
  · rw [Function.update_of_ne hk]
    cases hkc : s.shadow.lineOf k with
    | none => simp only [lineAt, hkc]
    | some c' =>
        have hne : c' ≠ c := by
          rintro rfl
          exact hk (hs.laid.lineOf_inj hkc hl)
        simp only [lineAt, hkc, Function.update_of_ne hne]

/-- The table of a line is zeroed just when its page is touched and one of
those cleaned up. -/
theorem zeroed_iff {s : ShadowMemory} {w : PageWalk} {uintaddr length r l c : Nat} (hs : s.Laid)
    (hop : InMappedSpace s uintaddr length ∧ CleanupSafe s uintaddr length)
    (h : s.cleanupPages uintaddr length = some (r, w)) (hl : s.lineOf l = some c) :
    zeroed s w.visited c = true ↔
      l / 64 ∈ regionPages uintaddr length ∧ (s.flatten.pages (l / 64)).touched = true := by
  obtain ⟨s', s₁, table, hm⟩ := mapped_of_inMappedSpace hs.toLayout hop.1
  obtain ⟨hrounds, htables, -⟩ := hop.2
  have hpages := regionPages_range' uintaddr length
  rw [megaIndexOf_eq] at htables
  generalize (regionPages uintaddr length).length = n at hm hrounds htables hpages
  rw [← entries_consecutive_iff] at htables
  obtain ⟨hvisited, -⟩ := cleanupPages_cases hm (by rwa [pagesize] at hrounds) (Nat.le_refl n) h
  have hgrown : Extends s s₁ := .getMegaMapEntry hm.start
  obtain ⟨hlaid₁, -⟩ := hs.getMegaMapEntry hm.start
  obtain ⟨e, he, hl⟩ := Option.bind_eq_some_iff.mp hl
  obtain ⟨t, ht, rfl⟩ := Option.map_eq_some_iff.mp hl
  have he₁ := hgrown.entryOf he
  -- the entries visited are those of the pages
  have hentry : ∀ k < n, table + uintaddr / 4096 % 256 + k = e ↔ uintaddr / 4096 + k = l / 64 := by
    intro k hk
    rcases entryOf_consecutive hm htables hk with hof | ⟨hbehind, hnone⟩
    · constructor
      · rintro rfl
        exact hlaid₁.entryOf_inj hof he₁
      · intro hpage
        exact Option.some.inj (hof.symm.trans (hpage ▸ he₁))
    · constructor
      · rintro rfl
        exact absurd (hlaid₁.entryOf_below he₁) (Nat.not_lt.mpr hbehind)
      · intro hpage
        rw [hpage, he₁] at hnone
        cases hnone
  have htouched : (s.flatten.pages (l / 64)).touched = (s.pageMap e).touched := by
    rw [flatten_page he]
  obtain ⟨i, rfl⟩ := hs.lines_dvd ht
  rw [hpages, htouched, zeroed, List.any_eq_true, hvisited]
  simp only [List.mem_range'_1, Bool.and_eq_true]
  constructor
  · rintro ⟨e', ⟨hlo, hhi⟩, ht', hin⟩
    cases htable : (s.pageMap e').cacheMapEntry with
    | none => simp [htable] at hin
    | some t' =>
        obtain ⟨j, rfl⟩ := hs.lines_dvd htable
        simp only [htable, numCachelinesPerPage, decide_eq_true_eq] at hin
        -- a line lies in one table only
        obtain rfl : i = j := by omega
        obtain rfl := hs.lines_apart ht htable
        have hk : e - (table + uintaddr / 4096 % 256) < n := by omega
        have hpage := (hentry _ hk).mp (by omega)
        exact ⟨⟨by omega, by omega⟩, ht'⟩
  · rintro ⟨⟨hlo, hhi⟩, ht'⟩
    have hk : l / 64 - uintaddr / 4096 < n := by omega
    have heq := (hentry _ hk).mpr (by omega)
    refine ⟨e, ⟨by omega, by omega⟩, ht', ?_⟩
    simp only [ht, numCachelinesPerPage, decide_eq_true_eq]
    omega

/-- A cleanup of the entries is one of the lines. -/
theorem Valid.cleanupPages {s' : Sampler} {uintaddr length : Nat} (hs : s.Valid)
    (hop : InMappedSpace s.shadow uintaddr length ∧ CleanupSafe s.shadow uintaddr length)
    (h : s.cleanupPages uintaddr length = some s') :
    s'.Valid ∧ s'.flatten = s.flatten.step (.shadow (.cleanupPages uintaddr length)) := by
  obtain ⟨⟨r, w⟩, hw, heq⟩ := Option.bind_eq_some_iff.mp h
  cases heq
  obtain ⟨hlaid, hflat, -⟩ := cleanupPages_flat hs.laid hop.1 hop.2 hw
  have hgrown : Extends s.shadow w.shadow := .cleanupPages hw
  refine ⟨⟨hlaid, fun c hc => ?_⟩, ?_⟩
  · simp only
    split
    · rfl
    · exact hs.fresh c (hgrown.cacheBump.trans hc)
  · refine congr (congr (congrArg FlatSampler.mk hflat) (funext fun l => ?_)) rfl
    rw [FlatSampler.linesAfter]
    cases hl : s.shadow.lineOf l with
    | some c =>
        have hiff := zeroed_iff hs.laid hop hw hl
        rw [lineAt_of_lineOf (hgrown.lineOf hl)]
        simp only [flatten, lineAt_of_lineOf hl, hiff]
    | none =>
        have hzero : s.lineAt l = {} := by simp only [lineAt, hl]
        have hnew : ∀ c, w.shadow.lineOf l = some c → s.lines c = {} :=
          fun c hc => hs.fresh c (hs.laid.lineOf_fresh hgrown hl hc)
        simp only [flatten, hzero, ite_self]
        cases hc : w.shadow.lineOf l with
        | none => simp only [lineAt, hc]
        | some c =>
            rw [lineAt_of_lineOf hc]
            simp only [hnew c hc, ite_self]

/-- A call that is not a cleanup. -/
theorem Valid.shadowStep {op : ShadowOp} {r : ShadowMemory} (hs : s.Valid)
    (hop : Proper s.shadow op) (h : s.shadow.step op = some r) :
    Valid { s with shadow := r }
      ∧ flatten { s with shadow := r }
        = { s.flatten with shadow := s.flatten.shadow.step op } := by
  obtain ⟨hlaid, hflat⟩ := step_flat hs.laid hop h
  have hgrown := extends_step h
  refine ⟨⟨hlaid, fun c hc => hs.fresh c (hgrown.cacheBump.trans hc)⟩, ?_⟩
  exact congr (congr (congrArg FlatSampler.mk hflat) (funext (hs.lineAt_extends hgrown))) rfl

/-- What a sample looks at are the entries of its page and its line. -/
theorem sampledLine_spec {s : ShadowMemory} (a : Nat) :
    match s.sampledLine a with
    | none => ¬s.flatten.Counted a
    | some (pme, cme) => s.flatten.Counted a ∧ s.lineOf (a / 64) = some cme
        ∧ s.flatten.pages (a / 4096) = { pme with cacheMapEntry := none } := by
  have hpage : a / 64 / 64 = a / 4096 := by omega
  have hcache : cacheIndexOf a = a / 64 % 64 := by
    rw [cacheIndexOf_eq]
    omega
  rw [sampledLine, megaIndexOf_eq, pageIndexOf_eq, hcache]
  cases htable : s.megaMap (a / 4096 / 256) with
  | none =>
      have hnone : s.entryOf (a / 4096) = none := by
        rw [entryOf, htable]
        rfl
      show ¬s.flatten.Counted a
      intro hcounted
      have htouched := hcounted.1
      simp [ShadowMemory.flatten, hnone] at htouched
  | some table =>
      have hentry := entryOf_of_table htable
      have hpme := flatten_page hentry
      rw [Option.bind_eq_bind, Option.bind_some]
      simp only
      generalize hp : s.pageMap (table + a / 4096 % 256) = pme at hpme ⊢
      have hline : s.lineOf (a / 64) = pme.cacheMapEntry.map (· + a / 64 % 64) := by
        rw [lineOf, hpage, hentry, Option.bind_some, hp]
      by_cases htouched : pme.touched = true
      · rw [htouched, if_neg (by decide)]
        cases hlines : pme.cacheMapEntry with
        | none =>
            rw [hlines, Option.map_none] at hline
            show ¬s.flatten.Counted a
            rintro ⟨-, -, hbytes⟩
            simp [ShadowMemory.flatten, hline, CacheMapEntry.getUsedBytes] at hbytes
        | some t =>
            rw [hlines, Option.map_some] at hline
            rw [Option.bind_some]
            by_cases hused : pme.getUsedBytes = 0
            · rw [if_pos hused]
              rintro ⟨-, hcounted, -⟩
              rw [hpme] at hcounted
              exact hcounted hused
            · rw [if_neg hused]
              by_cases hbytes : (s.cacheMap (t + a / 64 % 64)).getUsedBytes = 0
              · rw [if_pos hbytes]
                rintro ⟨-, -, hcounted⟩
                rw [flatten_line hline] at hcounted
                exact hcounted hbytes
              · rw [if_neg hbytes]
                refine ⟨⟨?_, ?_, ?_⟩, hline, hpme⟩
                · rw [hpme]
                  exact htouched
                · rw [hpme]
                  exact hused
                · rw [flatten_line hline]
                  exact hbytes
      · rw [Bool.not_eq_true] at htouched
        rw [htouched, if_pos (by decide)]
        rintro ⟨hcounted, -, -⟩
        rw [hpme] at hcounted
        exact absurd (hcounted.symm.trans htouched) (by decide)

/-- A sample on the tables is one on the flat shadow. -/
theorem Valid.doMemoryAccess {s' : Sampler} {tid a : Nat} {accessType : MemAccessType}
    (hs : s.Valid) (h : s.doMemoryAccess tid a accessType = some s') :
    s'.Valid ∧ s'.flatten = s.flatten.doMemoryAccess tid a accessType := by
  have hspec := sampledLine_spec (s := s.shadow) a
  unfold Sampler.doMemoryAccess at h
  split at h
  · cases h
  · cases hline : s.shadow.sampledLine a with
    | none =>
        rw [hline] at h hspec
        cases h
        exact ⟨hs, (if_neg hspec).symm⟩
    | some entries =>
        obtain ⟨pme, c⟩ := entries
        rw [hline] at h hspec
        obtain ⟨hcounted, hc, hpme⟩ := hspec
        -- a page's pointer to its lines is not looked at
        have hsame : recordAccess tid a accessType (s.flatten.shadow.pages (a / 4096))
            (s.flatten.shadow.lines (a / 64)) (s.flatten.lines (a / 64))
            (s.friendlinessStatus tid)
            = recordAccess tid a accessType pme (s.shadow.cacheMap c) (s.lines c)
              (s.friendlinessStatus tid) := by
          have hlines : s.flatten.shadow.lines (a / 64) = _ := flatten_line hc
          have hsampling : s.flatten.lines (a / 64) = _ := lineAt_of_lineOf hc
          rw [show s.flatten.shadow.pages (a / 4096) = _ from hpme, hlines, hsampling]
          rfl
        simp only at h
        rw [← hsame] at h
        obtain rfl := Option.some.inj h
        refine ⟨⟨hs.laid, fun c' hc' => ?_⟩, ?_⟩
        · have hne : c' ≠ c := Nat.ne_of_gt ((hs.laid.lineOf_below hc).trans_le hc')
          exact (Function.update_of_ne hne ..).trans (hs.fresh c' hc')
        · rw [FlatSampler.doMemoryAccess,
            if_pos (show s.flatten.shadow.Counted a from hcounted)]
          exact congr (congrArg (FlatSampler.mk _) (lineAt_update hs hc _)) rfl

/-- The calls that may come: a sample may be of any address. -/
def Proper (s : Sampler) : SamplerOp → Prop
  | .shadow op => MemPerf.Original.Proper s.shadow op
  | .doMemoryAccess .. => True

/-- One call. -/
theorem Valid.step {s' : Sampler} {op : SamplerOp} (hs : s.Valid) (hop : s.Proper op)
    (h : s.step op = some s') : s'.Valid ∧ s'.flatten = s.flatten.step op := by
  cases op with
  | doMemoryAccess tid a accessType => exact hs.doMemoryAccess h
  | shadow op =>
      cases op with
      | cleanupPages uintaddr length => exact hs.cleanupPages hop h
      | updatePages address size isFree =>
          obtain ⟨r, hr, rfl⟩ := Option.map_eq_some_iff.mp h
          exact hs.shadowStep hop hr
      | updateCacheLines tid address size isFree =>
          obtain ⟨r, hr, rfl⟩ := Option.map_eq_some_iff.mp h
          exact hs.shadowStep hop hr
      | getPageMapEntry address =>
          obtain ⟨r, hr, rfl⟩ := Option.map_eq_some_iff.mp h
          exact hs.shadowStep hop hr

end Sampler

end MemPerf.Original
