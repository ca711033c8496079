import MemPerf.Lib.Firsts
import MemPerf.Sampling

/-!
# The log of the samples

What the history alone says about the samples. A `Session` follows the
calls: it has the objects in use, as the pages and as the lines were told,
the flat shadow, how many times each page has been zeroed, and a log of the
accesses that hit bytes in use.

The counters of the threads are counts over the log (`Tallies`), and what a
line remembers is what the log says since the line was last zeroed
(`Remembers`). Calls are taken one after the other, in any order.
-/

namespace MemPerf.Original

open Word StepSystem Coverage Firsts Tally MemPerf.Original.ShadowMemory

/-! ## The log -/

/-- An access that is counted: the bytes in use on its page and on its line,
how many times the page had been zeroed, and for a store the type of
sharing, if it shares. -/
structure Sample where
  thread : Nat
  address : Nat
  isStore : Bool
  pageBytes : Nat
  lineBytes : Nat
  epoch : Nat
  sharing : Option FalseSharingType

namespace Sample

def page (x : Sample) : Nat := x.address / 4096

def line (x : Sample) : Nat := x.address / 64

/-- A line, between two times that it is zeroed. -/
def lineKey (x : Sample) : Option (Nat × Nat) := some (x.line, x.epoch)

/-- The same, if the line is shared. -/
def sharedKey (type : FalseSharingType) (x : Sample) : Option (Nat × Nat) :=
  if x.sharing = some type then x.lineKey else none

theorem lineKey_of_sharedKey {type : FalseSharingType} {x : Sample} {k : Nat × Nat}
    (h : x.sharedKey type = some k) : x.lineKey = some k := by
  unfold sharedKey at h
  split at h
  · exact h
  · cases h

end Sample

/-- The last store to the line in the epoch. -/
def lastStore (log : List Sample) (l epoch : Nat) : Option Sample :=
  log.find? fun x => x.isStore && decide (x.lineKey = some (l, epoch))

structure Session where
  pages : List Span := []
  lines : List Span := []
  shadow : FlatShadow := {}
  epoch : Nat → Nat := fun _ => 0
  log : List Sample := []

namespace Session

/-- A store shares the line with the last one, if `getThreadIndex` tells
the two threads apart. -/
def sharing (e : Session) (thread address : Nat) (accessType : MemAccessType) :
    Option FalseSharingType :=
  if accessType = .store then
    (lastStore e.log (address / 64) (e.epoch (address / 64 / 64))).bind fun x =>
      if CacheMapEntry.getThreadIndex x.thread = CacheMapEntry.getThreadIndex thread then none
      else some (e.shadow.lines (address / 64)).getFS
  else none

def sampleOf (e : Session) (thread address : Nat) (accessType : MemAccessType) : Sample where
  thread := thread
  address := address
  isStore := accessType = .store
  pageBytes := covered e.pages (4096 * (address / 4096)) 4096
  lineBytes := covered e.lines (64 * (address / 64)) 64
  epoch := e.epoch (address / 64 / 64)
  sharing := e.sharing thread address accessType

/-- A cleanup zeroes the touched pages of its region. -/
def epochAfter (e : Session) : ShadowOp → Nat → Nat
  | .cleanupPages uintaddr length, p =>
      if p ∈ regionPages uintaddr length ∧ (e.shadow.pages p).touched then e.epoch p + 1
      else e.epoch p
  | _, p => e.epoch p

def step (e : Session) : SamplerOp → Session
  | .shadow op =>
      { e with
        pages := op.onPages e.pages
        lines := op.onLines e.lines
        shadow := e.shadow.step op
        epoch := e.epochAfter op }
  | .doMemoryAccess thread address accessType =>
      let x := e.sampleOf thread address accessType
      if 0 < x.pageBytes ∧ 0 < x.lineBytes then { e with log := x :: e.log } else e

end Session

/-- What is known after the calls. -/
def session (past : List SamplerOp) : Session := past.foldl Session.step {}

/-- The accesses counted, newest first. -/
def samples (past : List SamplerOp) : List Sample := (session past).log

/-- The calls of an allocator, with cleanups that are safe, and any samples. -/
def SamplePermitted (past : List SamplerOp) (s : Sampler) : SamplerOp → Prop
  | .shadow op =>
      Proper s.shadow op ∧ Respects (session past).pages (session past).lines op
  | .doMemoryAccess .. => True

/-! ## What one access does to the counters -/

section recordAccess

variable (thread address : Nat) (accessType : MemAccessType) (pme : PageMapEntry)
  (cme : CacheMapEntry) (line : LineSampling) (f : FriendlinessStatus)

/-- The type of sharing of a store. -/
def sharingOf : Option FalseSharingType :=
  if accessType = .store ∧ line.lastWriterThreadIndex ≠ CacheMapEntry.getThreadIndex thread
      ∧ 16 ≤ line.lastWriterThreadIndex then some cme.getFS
  else none

theorem recordAccess_numOfSampling :
    (recordAccess thread address accessType pme cme line f).2.numOfSampling
      = wrap 32 (f.numOfSampling + 1) := by
  unfold recordAccess recordStore
  simp only
  split_ifs <;> rfl

theorem recordAccess_pages :
    (recordAccess thread address accessType pme cme line f).2.totalMemoryUsageOfSampledPages
      = wrap 64 (f.totalMemoryUsageOfSampledPages + pme.getUsedBytes) := by
  unfold recordAccess recordStore
  simp only
  split_ifs <;> rfl

theorem recordAccess_lines :
    (recordAccess thread address accessType pme cme line f).2.totalMemoryUsageOfSampledCacheLines
      = wrap 64 (f.totalMemoryUsageOfSampledCacheLines + cme.getUsedBytes) := by
  unfold recordAccess recordStore
  simp only
  split_ifs <;> rfl

theorem recordAccess_stores :
    (recordAccess thread address accessType pme cme line f).2.numOfSampledStoringInstructions
      = if accessType = .store then wrap 32 (f.numOfSampledStoringInstructions + 1)
        else f.numOfSampledStoringInstructions := by
  unfold recordAccess recordStore
  simp only
  split_ifs <;> rfl

theorem recordAccess_cacheLines :
    (recordAccess thread address accessType pme cme line f).2.numOfSampledCacheLines
      = if line.lastWriterThreadIndex = 0 then wrap 32 (f.numOfSampledCacheLines + 1)
        else f.numOfSampledCacheLines := by
  unfold recordAccess recordStore
  simp only
  split_ifs <;> rfl

theorem recordAccess_detector :
    (recordAccess thread address accessType pme cme line f).2.cacheConflictDetector
      = f.cacheConflictDetector.hit (megaIndexOf address) (pageIndexOf address)
        (cacheIndexOf address) f.numOfSampling := by
  unfold recordAccess recordStore
  simp only
  split_ifs <;> rfl

/-- An access that shares the line. -/
theorem recordAccess_shared {type : FalseSharingType}
    (h : sharingOf thread accessType cme line = some type) :
    let r := recordAccess thread address accessType pme cme line f
    r.2.numOfSampledFalseSharingInstructions
        = addAt f.numOfSampledFalseSharingInstructions type 1
      ∧ r.2.numOfSampledFalseSharingCacheLines
        = (if line.falseSharingLineRecorded type then f.numOfSampledFalseSharingCacheLines
          else addAt f.numOfSampledFalseSharingCacheLines type 1)
      ∧ r.1.falseSharingLineRecorded = Function.update line.falseSharingLineRecorded type true
      ∧ r.1.lastWriterThreadIndex = CacheMapEntry.getThreadIndex thread := by
  unfold sharingOf at h
  split at h
  · next hshared =>
      obtain rfl := Option.some.inj h
      have hzero : line.lastWriterThreadIndex ≠ 0 := by omega
      simp only [recordAccess, if_neg hzero, if_pos hshared.1, recordStore, if_pos hshared.2]
      split
      · next hrecorded =>
          exact ⟨rfl, rfl, (Function.update_eq_self_iff.mpr hrecorded.symm).symm, rfl⟩
      · exact ⟨rfl, rfl, rfl, rfl⟩
  · cases h

/-- An access that does not. -/
theorem recordAccess_unshared (h : sharingOf thread accessType cme line = none) :
    let r := recordAccess thread address accessType pme cme line f
    r.2.numOfSampledFalseSharingInstructions = f.numOfSampledFalseSharingInstructions
      ∧ r.2.numOfSampledFalseSharingCacheLines = f.numOfSampledFalseSharingCacheLines
      ∧ r.1.falseSharingLineRecorded = line.falseSharingLineRecorded
      ∧ r.1.lastWriterThreadIndex = (if accessType = .store then CacheMapEntry.getThreadIndex thread
        else max 1 line.lastWriterThreadIndex) := by
  unfold sharingOf at h
  split at h
  · cases h
  · next hunshared =>
      by_cases hstore : accessType = .store
      · have hno : ¬(line.lastWriterThreadIndex ≠ CacheMapEntry.getThreadIndex thread
            ∧ 16 ≤ line.lastWriterThreadIndex) := fun hshared => hunshared ⟨hstore, hshared⟩
        by_cases hzero : line.lastWriterThreadIndex = 0
        · have hone : ¬(1 ≠ CacheMapEntry.getThreadIndex thread ∧ 16 ≤ 1) := by omega
          simp only [recordAccess, if_pos hzero, if_pos hstore, recordStore, if_neg hone]
          exact ⟨rfl, rfl, trivial, trivial⟩
        · simp only [recordAccess, if_neg hzero, if_pos hstore, recordStore, if_neg hno]
          exact ⟨rfl, rfl, trivial, trivial⟩
      · by_cases hzero : line.lastWriterThreadIndex = 0
        · simp only [recordAccess, if_pos hzero, if_neg hstore]
          refine ⟨rfl, rfl, trivial, ?_⟩
          omega
        · simp only [recordAccess, if_neg hzero, if_neg hstore]
          refine ⟨rfl, rfl, trivial, ?_⟩
          omega

end recordAccess

/-! ## What a line remembers -/

theorem getThreadIndex_ge (thread : Nat) : 16 ≤ CacheMapEntry.getThreadIndex thread :=
  Nat.right_le_or

/-- The sampling fields of line `l`, when it has been zeroed `epoch` times. -/
structure Remembers (log : List Sample) (l epoch : Nat) (line : LineSampling) : Prop where
  recorded : ∀ type, line.falseSharingLineRecorded type = true ↔
    (l, epoch) ∈ keys (Sample.sharedKey type) log
  writer : line.lastWriterThreadIndex =
    match lastStore log l epoch with
    | some x => CacheMapEntry.getThreadIndex x.thread
    | none => if (l, epoch) ∈ keys Sample.lineKey log then 1 else 0

theorem lastStore_mem {log : List Sample} {l epoch : Nat} {x : Sample}
    (h : lastStore log l epoch = some x) : x ∈ log ∧ x.lineKey = some (l, epoch) := by
  have hx := List.find?_some h
  simp only [Bool.and_eq_true, decide_eq_true_eq] at hx
  exact ⟨List.mem_of_find?_eq_some h, hx.2⟩

namespace Remembers

variable {log : List Sample} {l epoch : Nat} {line : LineSampling}

/-- A line of which the log says nothing. -/
theorem zero (h : ∀ x ∈ log, x.lineKey ≠ some (l, epoch)) : Remembers log l epoch {} := by
  have hkeys : (l, epoch) ∉ keys Sample.lineKey log := by
    rw [mem_keys]
    rintro ⟨x, hx, hkey⟩
    exact h x hx hkey
  refine ⟨fun type => ?_, ?_⟩
  · constructor
    · intro hfalse
      cases hfalse
    · intro hshared
      exact absurd (keys_subset (fun _ _ _ => Sample.lineKey_of_sharedKey) hshared) hkeys
  · cases hlast : lastStore log l epoch with
    | none => exact (if_neg hkeys).symm
    | some x =>
        obtain ⟨hx, hkey⟩ := lastStore_mem hlast
        exact absurd hkey (h x hx)

/-- A line that has been accessed has a writer, or 1. -/
theorem writer_eq_zero_iff (h : Remembers log l epoch line) :
    line.lastWriterThreadIndex = 0 ↔ (l, epoch) ∉ keys Sample.lineKey log := by
  rw [h.writer]
  cases hlast : lastStore log l epoch with
  | none => simp
  | some x =>
      obtain ⟨hx, hkey⟩ := lastStore_mem hlast
      have hge := getThreadIndex_ge x.thread
      have hmem : (l, epoch) ∈ keys Sample.lineKey log := mem_keys.mpr ⟨x, hx, hkey⟩
      constructor
      · intro hzero
        simp only at hzero
        omega
      · exact fun hno => absurd hmem hno

/-- The last writer is another thread just when the last store was. -/
theorem sharingOf (h : Remembers log l epoch line) (thread : Nat) (accessType : MemAccessType)
    (cme : CacheMapEntry) : sharingOf thread accessType cme line =
      if accessType = .store then
        (lastStore log l epoch).bind fun x =>
          if CacheMapEntry.getThreadIndex x.thread = CacheMapEntry.getThreadIndex thread then none
          else some cme.getFS
      else none := by
  unfold MemPerf.Original.sharingOf
  by_cases hstore : accessType = .store
  · rw [if_pos hstore, h.writer]
    cases lastStore log l epoch with
    | none =>
        rw [Option.bind_none, if_neg]
        rintro ⟨-, -, hge⟩
        simp only at hge
        split at hge <;> omega
    | some x =>
        have hge := getThreadIndex_ge x.thread
        by_cases heq : CacheMapEntry.getThreadIndex x.thread = CacheMapEntry.getThreadIndex thread
        · rw [Option.bind_some, if_pos heq, if_neg fun hno => hno.2.1 heq]
        · rw [Option.bind_some, if_neg heq, if_pos ⟨hstore, heq, hge⟩]
  · rw [if_neg hstore, if_neg fun hno => hstore hno.1]

/-- An access to another line. -/
theorem cons_of_ne (h : Remembers log l epoch line) {x : Sample}
    (hx : x.lineKey ≠ some (l, epoch)) : Remembers (x :: log) l epoch line := by
  refine ⟨fun type => ?_, ?_⟩
  · rw [h.recorded, mem_keys_cons]
    exact (or_iff_right fun hkey => hx (Sample.lineKey_of_sharedKey hkey)).symm
  · have hlast : lastStore (x :: log) l epoch = lastStore log l epoch :=
      List.find?_cons_of_neg (by simp [hx])
    rw [h.writer, hlast]
    simp only [mem_keys_cons, hx, false_or]

/-- An access to the line itself. -/
theorem record (h : Remembers log l epoch line) {x : Sample} {accessType : MemAccessType}
    (hkey : x.lineKey = some (l, epoch)) (hstore : x.isStore = decide (accessType = .store))
    {address : Nat} {pme : PageMapEntry} {cme : CacheMapEntry} {f : FriendlinessStatus}
    (hsharing : x.sharing = MemPerf.Original.sharingOf x.thread accessType cme line) :
    Remembers (x :: log) l epoch
      (recordAccess x.thread address accessType pme cme line f).1 := by
  have hmem : (l, epoch) ∈ keys Sample.lineKey (x :: log) := mem_keys_cons.mpr (.inl hkey)
  cases hshared : MemPerf.Original.sharingOf x.thread accessType cme line with
  | none =>
      obtain ⟨-, -, hrecorded, hwriter⟩ :=
        recordAccess_unshared x.thread address accessType pme cme line f hshared
      rw [hshared] at hsharing
      refine ⟨fun type => ?_, ?_⟩
      · rw [hrecorded, h.recorded, mem_keys_cons]
        refine (or_iff_right ?_).symm
        simp [Sample.sharedKey, hsharing]
      · rw [hwriter]
        by_cases hst : accessType = .store
        · have hlast : lastStore (x :: log) l epoch = some x :=
            List.find?_cons_of_pos (by simp [hstore, hst, hkey])
          rw [if_pos hst, hlast]
        · have hlast : lastStore (x :: log) l epoch = lastStore log l epoch :=
            List.find?_cons_of_neg (by simp [hstore, hst])
          rw [if_neg hst, hlast, h.writer]
          cases lastStore log l epoch with
          | none =>
              simp only [if_pos hmem]
              split <;> rfl
          | some y =>
              have hge := getThreadIndex_ge y.thread
              simp only
              omega
  | some type =>
      obtain ⟨-, -, hrecorded, hwriter⟩ :=
        recordAccess_shared x.thread address accessType pme cme line f hshared
      rw [hshared] at hsharing
      refine ⟨fun type' => ?_, ?_⟩
      · rw [hrecorded, mem_keys_cons]
        by_cases htype : type' = type
        · subst htype
          simp [Sample.sharedKey, hsharing, hkey]
        · have hne : x.sharedKey type' ≠ some (l, epoch) := by
            simp [Sample.sharedKey, hsharing, Ne.symm htype]
          rw [Function.update_of_ne htype, h.recorded, or_iff_right hne]
      · have hst : accessType = .store := by
          unfold MemPerf.Original.sharingOf at hshared
          split at hshared
          · next hif => exact hif.1
          · cases hshared
        have hlast : lastStore (x :: log) l epoch = some x :=
          List.find?_cons_of_pos (by simp [hstore, hst, hkey])
        rw [hwriter, hlast]

end Remembers

/-! ## What a thread has counted -/

/-- The counters of thread `t` are counts over the log. -/
structure Tallies (log : List Sample) (t : Nat) (f : FriendlinessStatus) : Prop where
  sampling : f.numOfSampling = ownCount 32 Sample.thread (fun _ => 1) t log
  stores : f.numOfSampledStoringInstructions =
    ownCount 32 Sample.thread (fun x => x.isStore.toNat) t log
  pages : f.totalMemoryUsageOfSampledPages = ownCount 64 Sample.thread Sample.pageBytes t log
  lines : f.totalMemoryUsageOfSampledCacheLines =
    ownCount 64 Sample.thread Sample.lineBytes t log
  cacheLines : f.numOfSampledCacheLines =
    ownCount 32 Sample.thread (fun _ => 1) t (firsts Sample.lineKey log)
  sharedInstructions : ∀ type, f.numOfSampledFalseSharingInstructions type =
    ownCount 32 Sample.thread (fun x => if x.sharing = some type then 1 else 0) t log
  sharedLines : ∀ type, f.numOfSampledFalseSharingCacheLines type =
    ownCount 32 Sample.thread (fun _ => 1) t (firsts (Sample.sharedKey type) log)

namespace Tallies

variable {log : List Sample} {t : Nat} {f : FriendlinessStatus}

theorem init (t : Nat) : Tallies [] t {} :=
  ⟨rfl, rfl, rfl, rfl, rfl, fun _ => rfl, fun _ => rfl⟩

/-- A sample of another thread. -/
theorem cons_of_ne (h : Tallies log t f) {x : Sample} (hx : x.thread ≠ t) :
    Tallies (x :: log) t f where
  sampling := h.sampling.trans (ownCount_cons_of_zero (fun ht => absurd ht hx) log).symm
  stores := h.stores.trans (ownCount_cons_of_zero (fun ht => absurd ht hx) log).symm
  pages := h.pages.trans (ownCount_cons_of_zero (fun ht => absurd ht hx) log).symm
  lines := h.lines.trans (ownCount_cons_of_zero (fun ht => absurd ht hx) log).symm
  cacheLines := h.cacheLines.trans (ownCount_firsts_of_ne _ hx log).symm
  sharedInstructions type :=
    (h.sharedInstructions type).trans (ownCount_cons_of_zero (fun ht => absurd ht hx) log).symm
  sharedLines type := (h.sharedLines type).trans (ownCount_firsts_of_ne _ hx log).symm

/-- A sample of the thread. -/
theorem record {x : Sample} (h : Tallies log x.thread f) {l epoch : Nat} {line : LineSampling}
    (hline : Remembers log l epoch line) (hkey : x.lineKey = some (l, epoch))
    {accessType : MemAccessType} (hstore : x.isStore = decide (accessType = .store))
    {address : Nat} {pme : PageMapEntry} {cme : CacheMapEntry}
    (hpages : pme.getUsedBytes = x.pageBytes) (hlines : cme.getUsedBytes = x.lineBytes)
    (hsharing : x.sharing = sharingOf x.thread accessType cme line) :
    Tallies (x :: log) x.thread
      (recordAccess x.thread address accessType pme cme line f).2 where
  sampling := by
    rw [recordAccess_numOfSampling, h.sampling, ownCount_cons rfl]
  stores := by
    rw [recordAccess_stores, h.stores]
    by_cases hst : accessType = .store
    · rw [if_pos hst, ownCount_cons rfl, hstore, decide_eq_true hst, Bool.toNat_true]
    · rw [if_neg hst, ownCount_cons_of_zero]
      intro _
      rw [hstore, decide_eq_false hst, Bool.toNat_false]
  pages := by
    rw [recordAccess_pages, h.pages, hpages, ownCount_cons rfl]
  lines := by
    rw [recordAccess_lines, h.lines, hlines, ownCount_cons rfl]
  cacheLines := by
    have hfirst : IsFirst Sample.lineKey x log ↔ line.lastWriterThreadIndex = 0 :=
      (isFirst_of_some hkey).trans hline.writer_eq_zero_iff.symm
    rw [recordAccess_cacheLines, h.cacheLines, ownCount_firsts _ rfl]
    simp only [hfirst]
  sharedInstructions type := by
    cases hshared : sharingOf x.thread accessType cme line with
    | none =>
        obtain ⟨hsame, -⟩ :=
          recordAccess_unshared x.thread address accessType pme cme line f hshared
        rw [hsame, h.sharedInstructions, ownCount_cons_of_zero]
        intro _
        rw [hsharing, hshared, if_neg (Option.some_ne_none type).symm]
    | some type' =>
        obtain ⟨hadded, -⟩ := recordAccess_shared x.thread address accessType pme cme line f hshared
        rw [hadded]
        by_cases htype : type = type'
        · subst htype
          rw [addAt, Function.update_self, h.sharedInstructions, ownCount_cons rfl, hsharing,
            hshared, if_pos rfl]
        · rw [addAt, Function.update_of_ne htype, h.sharedInstructions, ownCount_cons_of_zero]
          intro _
          rw [hsharing, hshared, if_neg fun heq => htype (Option.some.inj heq).symm]
  sharedLines type := by
    rw [ownCount_firsts _ rfl]
    cases hshared : sharingOf x.thread accessType cme line with
    | none =>
        obtain ⟨-, hsame, -⟩ :=
          recordAccess_unshared x.thread address accessType pme cme line f hshared
        have hnone : x.sharedKey type = none := by
          rw [Sample.sharedKey, hsharing, hshared, if_neg (Option.some_ne_none type).symm]
        rw [hsame, h.sharedLines, if_neg (not_isFirst_of_none hnone log)]
    | some type' =>
        obtain ⟨-, hadded, -⟩ :=
          recordAccess_shared x.thread address accessType pme cme line f hshared
        rw [hadded]
        by_cases htype : type = type'
        · subst htype
          have hsome : x.sharedKey type = some (l, epoch) := by
            rw [Sample.sharedKey, hsharing, hshared, if_pos rfl, hkey]
          have hfirst : IsFirst (Sample.sharedKey type) x log ↔
              ¬line.falseSharingLineRecorded type = true :=
            (isFirst_of_some hsome).trans (not_congr (hline.recorded type).symm)
          simp only [hfirst, ite_not]
          split
          · exact h.sharedLines type
          · rw [addAt, Function.update_self, h.sharedLines]
        · have hnone : x.sharedKey type = none := by
            rw [Sample.sharedKey, hsharing, hshared,
              if_neg fun heq => htype (Option.some.inj heq).symm]
          rw [if_neg (not_isFirst_of_none hnone log), ← h.sharedLines]
          split
          · rfl
          · rw [addAt, Function.update_of_ne htype]

end Tallies

/-! ## Every run -/

section used

variable {pages lines : List Span} {s : FlatShadow}

theorem CountsLive.page_getUsedBytes (h : CountsLive pages lines s) (p : Nat) :
    (s.pages p).getUsedBytes = covered pages (4096 * p) 4096 := by
  have hcount : (s.pages p).numUsedBytes = _ := h.countPages p
  have hle := covered_le pages (4096 * p) 4096
  unfold PageMapEntry.getUsedBytes
  rw [hcount]
  simp only [pagesize]
  rw [if_neg (by omega), if_neg (by omega), Int.toNat_natCast]

theorem CountsLive.line_getUsedBytes (h : CountsLive pages lines s) (l : Nat) :
    (s.lines l).getUsedBytes = covered lines (64 * l) 64 := by
  have hcount : (s.lines l).numUsedBytes = _ := h.countLines l
  have hle := covered_le lines (64 * l) 64
  unfold CacheMapEntry.getUsedBytes
  rw [hcount]
  simp only [cachelineSize]
  rw [if_neg (by omega), if_neg (by omega), Int.toNat_natCast]

/-- An access is counted just when it hits bytes in use: a page with such
bytes has been touched. -/
theorem CountsLive.counted_iff (h : CountsLive pages lines s) (a : Nat) : s.Counted a ↔
    0 < covered pages (4096 * (a / 4096)) 4096 ∧ 0 < covered lines (64 * (a / 64)) 64 := by
  rw [FlatShadow.Counted, h.page_getUsedBytes, h.line_getUsedBytes, ← Nat.pos_iff_ne_zero,
    ← Nat.pos_iff_ne_zero]
  refine and_iff_right_of_imp fun hused => ?_
  obtain ⟨b, hb⟩ := Finset.card_pos.mp hused.1
  simp only [Finset.mem_filter, Finset.mem_Ico] at hb
  obtain ⟨hwindow, o, ho, hcov⟩ := hb
  have hpage : b / 4096 = a / 4096 := by omega
  exact hpage ▸ h.touched o ho b hcov

end used

/-- What the entries and the counters say is what the history says. -/
structure Records (e : Session) (v : FlatSampler) : Prop where
  shadow : v.shadow = e.shadow
  counts : CountsLive e.pages e.lines e.shadow
  epochs : ∀ x ∈ e.log, x.epoch ≤ e.epoch (x.line / 64)
  lines : ∀ l, Remembers e.log l (e.epoch (l / 64)) (v.lines l)
  status : ∀ t, Tallies e.log t (v.friendlinessStatus t)

namespace Records

variable {e : Session} {v : FlatSampler}

theorem init : Records {} {} where
  shadow := rfl
  counts := .init
  epochs _ hx := absurd hx List.not_mem_nil
  lines _ := .zero fun _ hx => absurd hx List.not_mem_nil
  status t := .init t

/-- A call that is not a cleanup. -/
theorem shadowStep (h : Records e v) {op : ShadowOp} (hepoch : e.epochAfter op = e.epoch)
    (hlines : v.linesAfter op = v.lines)
    (hcounts : CountsLive (op.onPages e.pages) (op.onLines e.lines) (e.shadow.step op)) :
    Records (e.step (.shadow op)) (v.step (.shadow op)) where
  shadow := congrArg (FlatShadow.step · op) h.shadow
  counts := hcounts
  epochs x hx := by
    show x.epoch ≤ e.epochAfter op (x.line / 64)
    rw [hepoch]
    exact h.epochs x hx
  lines l := by
    show Remembers e.log l (e.epochAfter op (l / 64)) (v.linesAfter op l)
    rw [hepoch, hlines]
    exact h.lines l
  status := h.status

/-- A cleanup begins a new epoch for the lines it zeroes. -/
theorem cleanupPages (h : Records e v) {uintaddr length : Nat}
    (hcounts : CountsLive e.pages e.lines
      (e.shadow.step (.cleanupPages uintaddr length))) :
    Records (e.step (.shadow (.cleanupPages uintaddr length)))
      (v.step (.shadow (.cleanupPages uintaddr length))) where
  shadow := congrArg (FlatShadow.step · (.cleanupPages uintaddr length)) h.shadow
  counts := hcounts
  epochs x hx := by
    have hle := h.epochs x hx
    show x.epoch ≤ e.epochAfter (.cleanupPages uintaddr length) (x.line / 64)
    rw [Session.epochAfter]
    split <;> omega
  lines l := by
    show Remembers e.log l (e.epochAfter (.cleanupPages uintaddr length) (l / 64))
      (v.linesAfter (.cleanupPages uintaddr length) l)
    rw [Session.epochAfter, FlatSampler.linesAfter, h.shadow]
    split
    · refine .zero fun x hx hkey => ?_
      obtain ⟨rfl, hepoch⟩ := Prod.mk.inj (Option.some.inj hkey)
      have hle := h.epochs x hx
      omega
    · exact h.lines l
  status := h.status

/-- A sample is logged just when it is counted. -/
theorem counted_iff (h : Records e v) (thread address : Nat) (accessType : MemAccessType) :
    v.shadow.Counted address ↔ 0 < (e.sampleOf thread address accessType).pageBytes
      ∧ 0 < (e.sampleOf thread address accessType).lineBytes := by
  rw [h.shadow]
  exact h.counts.counted_iff address

theorem doMemoryAccess (h : Records e v) (thread address : Nat) (accessType : MemAccessType) :
    Records (e.step (.doMemoryAccess thread address accessType))
      (v.step (.doMemoryAccess thread address accessType)) := by
  have hcounted := h.counted_iff thread address accessType
  have hpages := h.counts.page_getUsedBytes (address / 4096)
  have hlines := h.counts.line_getUsedBytes (address / 64)
  rw [← h.shadow] at hpages hlines
  simp only [Session.step, FlatSampler.step, FlatSampler.doMemoryAccess, hcounted]
  by_cases hused : 0 < (e.sampleOf thread address accessType).pageBytes
      ∧ 0 < (e.sampleOf thread address accessType).lineBytes
  · rw [if_pos hused, if_pos hused]
    have hkey : (e.sampleOf thread address accessType).lineKey
        = some (address / 64, e.epoch (address / 64 / 64)) := rfl
    have hline := h.lines (address / 64)
    have hsharing : (e.sampleOf thread address accessType).sharing =
        sharingOf thread accessType (v.shadow.lines (address / 64)) (v.lines (address / 64)) := by
      rw [hline.sharingOf, h.shadow]
      rfl
    refine ⟨h.shadow, h.counts, fun x hx => ?_, fun l => ?_, fun t => ?_⟩
    · obtain rfl | hx := List.mem_cons.mp hx
      · exact Nat.le_refl _
      · exact h.epochs x hx
    · by_cases hl : l = address / 64
      · subst hl
        simp only [Function.update_self]
        exact hline.record hkey rfl hsharing
      · simp only [Function.update_of_ne hl]
        refine (h.lines l).cons_of_ne fun hkey' => hl ?_
        exact (congrArg Prod.fst (Option.some.inj (hkey'.symm.trans hkey)) :)
    · by_cases ht : t = thread
      · subst ht
        simp only [Function.update_self]
        exact (h.status t).record hline hkey rfl hpages hlines hsharing
      · simp only [Function.update_of_ne ht]
        exact (h.status t).cons_of_ne (Ne.symm ht)
  · rw [if_neg hused, if_neg hused]
    exact h

/-- One call. -/
theorem step (h : Records e v) {t : ShadowMemory} {op : SamplerOp}
    (hop : ∀ shadowOp, op = .shadow shadowOp →
      Proper t shadowOp ∧ Respects e.pages e.lines shadowOp) :
    Records (e.step op) (v.step op) := by
  cases op with
  | doMemoryAccess thread address accessType => exact h.doMemoryAccess thread address accessType
  | shadow op =>
      obtain ⟨hproper, hrespects⟩ := hop op rfl
      have hcounts := h.counts.step hproper hrespects
      cases op with
      | cleanupPages uintaddr length => exact h.cleanupPages hcounts
      | _ => exact h.shadowStep rfl rfl hcounts

end Records

theorem session_snoc (past : List SamplerOp) (op : SamplerOp) :
    session (past ++ [op]) = (session past).step op := by
  rw [session, List.foldl_append]
  rfl

theorem SamplePermitted.proper {past : List SamplerOp} {s : Sampler} {op : SamplerOp}
    (h : SamplePermitted past s op) : s.Proper op := by
  cases op with
  | shadow op => exact h.1
  | doMemoryAccess thread address accessType => trivial

theorem records_of_run {past : List SamplerOp} {s : Sampler}
    (h : Run Sampler.step SamplePermitted {} past s) :
    s.Valid ∧ Records (session past) s.flatten := by
  refine h.inv (fun past s => s.Valid ∧ Records (session past) s.flatten)
    ⟨Sampler.valid_init, show Records (session []) (Sampler.flatten {}) from .init⟩ ?_
  intro past s op s' _ ⟨hvalid, hrecords⟩ hop hstep
  obtain ⟨hvalid', hflat⟩ := hvalid.step hop.proper hstep
  refine ⟨hvalid', ?_⟩
  rw [hflat, session_snoc]
  refine hrecords.step (t := s.shadow) fun shadowOp heq => ?_
  subst heq
  exact hop

def sharedLine : List SamplerOp :=
  [.shadow (.updatePages 0x4ff000 48 false), .shadow (.updateCacheLines 1 0x4ff000 48 false),
    .doMemoryAccess 1 0x4ff008 .store, .doMemoryAccess 2 0x4ff010 .store]

theorem sharedLine_run : ∃ s, Run Sampler.step SamplePermitted {} sharedLine s := by
  have hsome : (sharedLine.foldlM Sampler.step {}).isSome = true := by decide +kernel
  obtain ⟨s, hs⟩ := Option.isSome_iff_exists.mp hsome
  simp only [sharedLine, List.foldlM_cons, List.foldlM_nil, Option.bind_eq_bind,
    Option.bind_eq_some_iff, Option.pure_def, Option.some.injEq] at hs
  obtain ⟨s₁, h₁, s₂, h₂, s₃, h₃, s₄, h₄, rfl⟩ := hs
  have hnone : Updates 0x4ff000 48 false [] := fun _ ho => absurd ho List.not_mem_nil
  have hsize : 0 < 48 := by decide
  exact ⟨s₄, (((Run.nil.snoc ⟨hsize, hnone⟩ h₁).snoc ⟨hsize, hnone⟩ h₂).snoc trivial h₃).snoc
    trivial h₄⟩

end MemPerf.Original
