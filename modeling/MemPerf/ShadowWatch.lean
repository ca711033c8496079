import MemPerf.Lib.Run
import MemPerf.Lib.Coverage
import MemPerf.Lib.Slots
import MemPerf.ShadowTracking

/-!
# What happened on a tracked line

The report on a line is read off its entry in `coherencyCaches`. To say
whether it is right one needs to know what really happened on the line
while it was tracked, so the runs of this module carry an observer
along: `hits` are the sampled misses on the line, `frees` the frees of
objects that overlapped it, oldest first.

`Watching` says what an entry holds of that: its word rows hold the
arriving threads (`Slots.row`), its owner fields result from the frees
that reached the line as the first or the partial last line of the
object. Runs have mallocs, frees and accesses; no page is cleaned.
-/

namespace MemPerf

open Coverage StepSystem

/-! ## The observer -/

/-- A sampled miss: which thread, on which word of the line. -/
structure Hit where
  tid : Nat
  word : Nat
deriving DecidableEq, Repr

/-- The free of an object that overlapped the line. `part`: the line was
the first line of the object, or its partial last line. -/
structure LineFree where
  tid : Nat
  callKey : Nat
  part : Bool
deriving DecidableEq, Repr

structure Watched where
  mem : ShadowMemory := {}
  hits : Nat → Nat → List Hit := fun _ _ => []
  frees : Nat → Nat → List LineFree := fun _ _ => []

namespace ShadowMemory

/-- The line has an entry whose coherency flag is set. -/
def tracked (s : ShadowMemory) (range l : Nat) : Bool :=
  match s.table range (l / 64) with
  | some table => (s.cacheMap (table + l % 64)).coherency
  | none => false

/-- The six-bit miss counter of a line. -/
def missCount (s : ShadowMemory) (c : Nat) : Nat := ((s.cacheMap c).misses &&& 0x3f#8).toNat

/-- The address of line `l` of a range. -/
def lineAddr (range l : Nat) : Nat := rangeBase range + 64 * l

/-- The range and the line number of an address. -/
def lineOf (addr : Nat) : Nat × Nat :=
  ((getPageIndex addr).1, 64 * (getPageIndex addr).2 + addr % 4096 / 64)

/-- The hit that `op`, leading from `s` to `s'`, is on the line. -/
def hitOn (s s' : ShadowMemory) (range l : Nat) : ShadowOp → List Hit
  | .doMemoryAccess tid uintaddr true =>
      if (s.sampledLine uintaddr).isSome && decide (lineOf uintaddr = (range, l))
          && s'.tracked range l then
        [⟨tid, wordIndexOf uintaddr⟩]
      else []
  | _ => []

/-- The object is walked over the line other than as a whole line after
its first. -/
def reachesInPart (range l address size : Nat) : Bool :=
  decide ((getPageIndex address).1 = range) && decide (range ≠ numAddressRange)
    && !(decide (address < lineAddr range l) && decide (lineAddr range l + 64 ≤ address + size))

/-- The free that `op` is for the line. -/
def freeOn (s : ShadowMemory) (range l : Nat) : ShadowOp → List LineFree
  | .freeUpdateObject address o =>
      if s.tracked range l && decide (0 < (Span.mk address o.size).overlap (lineAddr range l) 64)
      then [⟨o.tid, o.callKey, reachesInPart range l address o.size⟩]
      else []
  | _ => []

end ShadowMemory

def Watched.step (w : Watched) (op : ShadowOp) : Option Watched := do
  let mem ← w.mem.step op
  some
    { mem := mem
      hits := fun range l => w.hits range l ++ w.mem.hitOn mem range l op
      frees := fun range l => w.frees range l ++ w.mem.freeOn range l op }

/-- No page is cleaned. -/
def NoCleanup : ShadowOp → Prop
  | .cleanupPages _ _ => False
  | _ => True

/-! ## What an entry holds -/

/-- The threads of the hits on one word, in order. -/
def tidsOn (hits : List Hit) (word : Nat) : List Nat :=
  (hits.filter fun h => h.word == word).map Hit.tid

theorem tidsOn_snoc (hits : List Hit) (h : Hit) (word : Nat) :
    tidsOn (hits ++ [h]) word
      = if h.word = word then tidsOn hits word ++ [h.tid] else tidsOn hits word := by
  unfold tidsOn
  by_cases hw : h.word = word
  · simp [hw]
  · simp [hw]

/-- The owner fields after the frees of the line. -/
def ownersOf (frees : List LineFree) : CoherencyData :=
  frees.foldl (fun d f => if f.part then d.recordOwner f.tid f.callKey else d) {}

theorem ownersOf_snoc (frees : List LineFree) (f : LineFree) :
    ownersOf (frees ++ [f])
      = if f.part then (ownersOf frees).recordOwner f.tid f.callKey else ownersOf frees := by
  rw [ownersOf, List.foldl_append]
  rfl

/-- Two entries with the same owner fields. -/
def SameOwners (d d' : CoherencyData) : Prop :=
  d.allocateTid = d'.allocateTid ∧ d.callKey = d'.callKey

theorem SameOwners.recordOwner {d d' : CoherencyData} (h : SameOwners d d') (tid callKey : Nat) :
    SameOwners (d.recordOwner tid callKey) (d'.recordOwner tid callKey) := by
  obtain ⟨h1, h2⟩ := h
  unfold SameOwners CoherencyData.recordOwner
  rw [h1, h2]
  split
  · exact ⟨rfl, rfl⟩
  · exact ⟨rfl, rfl⟩

theorem recordOwner_rows (tid callKey : Nat) (d : CoherencyData) :
    (d.recordOwner tid callKey).tidsPerWord = d.tidsPerWord := by
  unfold CoherencyData.recordOwner
  split <;> rfl

/-- The recording of a miss in a row is a slot insertion. -/
theorem recordTid_eq_insert (tid : Nat) (row : Nat → Nat) :
    CoherencyData.recordTid tid row = Slots.insert 16 0 tid row := rfl

structure Watching (w : Watched) : Prop where
  layout : w.mem.Layout
  num_le : w.mem.numOfCoherencyCaches ≤ coherencyCachesMax
  table : FlaggedTable (fun i => (w.mem.coherencyCaches i).cme) w.mem.numOfCoherencyCaches
    fun c => (w.mem.cacheMap c).coherency = true
  member : ∀ c, (w.mem.cacheMap c).coherency = true →
    ∃ i < w.mem.numOfCoherencyCaches, (w.mem.coherencyCaches i).cme = some c
  five : ∀ c, (w.mem.cacheMap c).coherency = true → 5 ≤ w.mem.missCount c
  fresh : ∀ i, w.mem.numOfCoherencyCaches ≤ i → w.mem.coherencyCaches i = {}
  rows : ∀ i < w.mem.numOfCoherencyCaches, ∀ r l c, (w.mem.coherencyCaches i).cme = some c →
    w.mem.LineAt r l c → (∀ h ∈ w.hits r l, h.tid ≠ 0) → ∀ word,
    (w.mem.coherencyCaches i).tidsPerWord word = Slots.row 16 0 (tidsOn (w.hits r l) word)
  owners : ∀ i < w.mem.numOfCoherencyCaches, ∀ r l c, (w.mem.coherencyCaches i).cme = some c →
    w.mem.LineAt r l c → SameOwners (w.mem.coherencyCaches i) (ownersOf (w.frees r l))
  quiet : ∀ r l, w.mem.tracked r l = false → w.hits r l = [] ∧ w.frees r l = []

theorem watching_init : Watching {} where
  layout := ShadowMemory.layout_init
  num_le := Nat.zero_le _
  table := .empty
  member c h := by simp [CacheMapEntry.coherency] at h
  five c h := by simp [CacheMapEntry.coherency] at h
  fresh _ _ := rfl
  rows i hi := absurd hi (Nat.not_lt_zero _)
  owners i hi := absurd hi (Nat.not_lt_zero _)
  quiet _ _ _ := ⟨rfl, rfl⟩

namespace ShadowMemory

/-! ## Steps that leave the coherency flags and counters alone -/

/-- The miss byte without the conflict flag. -/
def low7 (s : ShadowMemory) (c : Nat) : BitVec 8 := (s.cacheMap c).misses &&& 0x7f#8

theorem coherency_of_low7 (m : BitVec 8) : (m &&& 0x7f#8) &&& 0x40#8 = m &&& 0x40#8 := by
  revert m
  exact CacheMapEntry.byte_cases (by decide +kernel)

theorem count_of_low7 (m : BitVec 8) : (m &&& 0x7f#8) &&& 0x3f#8 = m &&& 0x3f#8 := by
  revert m
  exact CacheMapEntry.byte_cases (by decide +kernel)

theorem coherency_eq_of_low7 {s s' : ShadowMemory} {c : Nat} (h : s'.low7 c = s.low7 c) :
    (s'.cacheMap c).coherency = (s.cacheMap c).coherency := by
  refine CacheMapEntry.coherency_congr ?_
  rw [← coherency_of_low7, ← coherency_of_low7 (s.cacheMap c).misses]
  exact congrArg (· &&& 0x40#8) h

/-- Lines keep their homes and coherency flags, miss counters that are
full stay so, and no line enters the coherency table. -/
structure Quiet (s s' : ShadowMemory) : Prop where
  layout : s'.Layout
  table : ∀ r i t, s.table r i = some t → s'.table r i = some t
  flag : ∀ c, (s'.cacheMap c).coherency = (s.cacheMap c).coherency
  five : ∀ c, 5 ≤ s.missCount c → 5 ≤ s'.missCount c
  num : s'.numOfCoherencyCaches = s.numOfCoherencyCaches

theorem missCount_eq_of_low7 {s s' : ShadowMemory} {c : Nat} (h : s'.low7 c = s.low7 c) :
    s'.missCount c = s.missCount c := by
  unfold missCount
  rw [← count_of_low7, ← count_of_low7 (s.cacheMap c).misses]
  exact congrArg (fun m => (m &&& 0x3f#8).toNat) h

theorem Quiet.refl {s : ShadowMemory} (hs : s.Layout) : Quiet s s :=
  ⟨hs, fun _ _ _ h => h, fun _ => rfl, fun _ h => h, rfl⟩

theorem Quiet.trans {s s' s'' : ShadowMemory} (h : Quiet s s') (h' : Quiet s' s'') :
    Quiet s s'' :=
  ⟨h'.layout, fun r i t ht => h'.table r i t (h.table r i t ht),
    fun c => (h'.flag c).trans (h.flag c), fun c hc => h'.five c (h.five c hc),
    h'.num.trans h.num⟩

theorem Quiet.lineAt {s s' : ShadowMemory} (h : Quiet s s') {r l c : Nat}
    (hl : s.LineAt r l c) : s'.LineAt r l c := by
  obtain ⟨t, ht, hc⟩ := hl
  exact ⟨t, h.table r (l / 64) t ht, hc⟩

/-- A line that is only given a home now has no flag yet. -/
theorem Quiet.tracked {s s' : ShadowMemory} (hs : s.Layout) (h : Quiet s s') (r l : Nat) :
    s'.tracked r l = s.tracked r l := by
  unfold ShadowMemory.tracked
  cases ht : s.table r (l / 64) with
  | some t =>
      rw [h.table r (l / 64) t ht]
      exact h.flag _
  | none =>
      cases ht' : s'.table r (l / 64) with
      | none => rfl
      | some t =>
          simp only
          rw [h.flag, hs.fresh]
          · rfl
          · intro r' i' t' htt hcell
            have heq := h.layout.apart ht' (h.table r' i' t' htt) (by omega) (by omega)
            rw [heq.1, heq.2, htt] at ht
            cases ht

theorem quiet_alloc {s s' : ShadowMemory} {r i t : Nat} (hs : s.Layout)
    (h : s.getCacheMapEntry r i = some (s', t)) : Quiet s s' := by
  rcases getCacheMapEntry_cases h with ⟨rfl, -⟩ | ⟨hnone, -, rfl⟩
  · exact .refl hs
  · refine ⟨hs.alloc hnone, fun r' i' t' ht' => ?_, fun _ => rfl, fun _ h => h, rfl⟩
    rw [table_allocTable, if_neg, ht']
    rintro ⟨rfl, rfl⟩
    exact absurd (ht'.symm.trans hnone) (by simp)

theorem quiet_walkPages {s : ShadowMemory} (hs : s.Layout)
    (part : Nat → PageMapEntry → PageMapEntry) (whole : PageMapEntry → PageMapEntry)
    (hpart : ∀ n e, (part n e).cacheMapEntry = e.cacheMapEntry)
    (hwhole : ∀ e, (whole e).cacheMapEntry = e.cacheMapEntry) (addr range idx size : Nat) :
    Quiet s (s.walkPages part whole addr range idx size)
    ∧ (s.walkPages part whole addr range idx size).coherencyCaches = s.coherencyCaches := by
  have hlay := hs.walkPages part whole hpart hwhole addr range idx size
  rw [walkPages_eq] at hlay ⊢
  refine ⟨⟨hlay, fun r i t ht => ?_, fun _ => rfl, fun _ h => h, rfl⟩, rfl⟩
  have heq : (if r = range then
      walkedPage part whole idx (min (4096 - addr % 4096) size)
        ((size - min (4096 - addr % 4096) size) / 4096)
        ((size - min (4096 - addr % 4096) size) % 4096) i (s.pageMap r i)
      else s.pageMap r i).cacheMapEntry = (s.pageMap r i).cacheMapEntry := by
    split
    · exact walkedPage_cacheMapEntry part whole hpart hwhole ..
    · rfl
  exact heq.trans ht

/-- A line rewritten without touching its coherency flag. -/
theorem quiet_touch_flag {s s' : ShadowMemory} {r l c : Nat} (hs : s.Layout)
    (hl : s.LineAt r l c) (h : TouchesOnly c s s')
    (hflag : (s'.cacheMap c).coherency = (s.cacheMap c).coherency)
    (hfive : 5 ≤ s.missCount c → 5 ≤ s'.missCount c)
    (hnum : s'.numOfCoherencyCaches = s.numOfCoherencyCaches) : Quiet s s' := by
  refine ⟨hs.touch hl h, fun r i t ht => ?_, fun c' => ?_, fun c' => ?_, hnum⟩
  · rw [table_congr h.pageMap]
    exact ht
  · by_cases hc : c' = c
    · rw [hc]; exact hflag
    · rw [h.cacheMap c' hc]
  · by_cases hc : c' = c
    · rw [hc]; exact hfive
    · simp only [missCount, h.cacheMap c' hc]
      exact id

/-- A line rewritten up to its conflict flag. -/
theorem quiet_touch {s s' : ShadowMemory} {r l c : Nat} (hs : s.Layout) (hl : s.LineAt r l c)
    (h : TouchesOnly c s s') (hlow : s'.low7 c = s.low7 c)
    (hnum : s'.numOfCoherencyCaches = s.numOfCoherencyCaches) : Quiet s s' :=
  quiet_touch_flag hs hl h (coherency_eq_of_low7 hlow)
    (fun h5 => (missCount_eq_of_low7 hlow).symm ▸ h5) hnum

/-! ## Single lines -/

theorem low7_of_touches {s s' : ShadowMemory} {c : Nat} (h : TouchesOnly c s s')
    (hc : s'.low7 c = s.low7 c) (c' : Nat) : s'.low7 c' = s.low7 c' := by
  by_cases hcc : c' = c
  · rw [hcc, hc]
  · simp only [low7, h.cacheMap c' hcc]

theorem addMiss_low7 (s : ShadowMemory) (addr c : Nat) (c' : Nat) :
    (s.addMiss addr c).low7 c' = s.low7 c' := by
  have hmask : ∀ m : BitVec 8, (m ||| 0x80#8) &&& 0x7f#8 = m &&& 0x7f#8 :=
    CacheMapEntry.byte_cases (by decide +kernel)
  refine low7_of_touches (addMiss_touches addr c s) ?_ c'
  rcases ConflictData.addMiss_cases s.conflictData addr c (s.cacheMap c) with
    hsame | ⟨-, -, -, happ⟩
  · simp only [low7, addMiss, hsame, modifyLine_cacheMap_self]
  · simp only [low7, addMiss, happ, modifyLine_cacheMap_self, hmask]

theorem freePartLine_low7 (o : ObjStat) (n c : Nat) (t : ShadowMemory) :
    (freePartLine o n c t).low7 c = t.low7 c := by
  have hmap : (freePartLine o n c t).cacheMap = (t.modifyLine c (.subUsedBytes n)).cacheMap := by
    simp only [freePartLine]
    split <;> split <;> rfl
  simp only [low7, hmap, modifyLine_cacheMap_self]
  rfl

theorem freeWholeLine_low7 (o : ObjStat) (c : Nat) (t : ShadowMemory) :
    (freeWholeLine o c t).low7 c = t.low7 c := by
  have hmask : ∀ m : BitVec 8, (m &&& 0x7f#8) &&& 0x7f#8 = m &&& 0x7f#8 :=
    CacheMapEntry.byte_cases (by decide +kernel)
  simp only [freeWholeLine]
  split
  · simp only [low7, modifyLine_cacheMap_self, CacheMapEntry.setEmpty]
    exact hmask _
  · simp only [low7, modifyLine_cacheMap_self]
    rfl

/-- On a tracked line the owner fields of its entry are updated, on any
other nothing happens to the coherency table. -/
theorem freePartLine_caches (o : ObjStat) (n c : Nat) (t : ShadowMemory) :
    (freePartLine o n c t).coherencyCaches =
      if (t.cacheMap c).coherency = true then
        Function.update t.coherencyCaches (t.coherencyIndex c)
          ((t.coherencyCaches (t.coherencyIndex c)).recordOwner o.tid o.callKey)
      else t.coherencyCaches := by
  have hflag : ((t.cacheMap c).subUsedBytes n).coherency = (t.cacheMap c).coherency := rfl
  by_cases hc : (t.cacheMap c).coherency = true
  · rw [if_pos hc]
    simp only [freePartLine, modifyLine_cacheMap_self]
    split
    · simp only [setConflictData, modifyLine_cacheMap_self, hflag, hc, if_true]
      rfl
    · simp only [modifyLine_cacheMap_self, hflag, hc, if_true]
      rfl
  · rw [if_neg hc]
    simp only [freePartLine, modifyLine_cacheMap_self]
    split
    · simp only [setConflictData, modifyLine_cacheMap_self, hflag, hc]
      rfl
    · simp only [modifyLine_cacheMap_self, hflag, hc]
      rfl

theorem freePartLine_num (o : ObjStat) (n c : Nat) (t : ShadowMemory) :
    (freePartLine o n c t).numOfCoherencyCaches = t.numOfCoherencyCaches := by
  simp only [freePartLine]
  split <;> split <;> rfl

theorem freeWholeLine_caches (o : ObjStat) (c : Nat) (t : ShadowMemory) :
    (freeWholeLine o c t).coherencyCaches = t.coherencyCaches
    ∧ (freeWholeLine o c t).numOfCoherencyCaches = t.numOfCoherencyCaches := by
  simp only [freeWholeLine]
  split <;> exact ⟨rfl, rfl⟩

/-- The index search finds the one entry of a line. -/
theorem coherencyIndex_eq {t : ShadowMemory} {i c : Nat} (hi : i < t.numOfCoherencyCaches)
    (hcme : (t.coherencyCaches i).cme = some c)
    (huniq : ∀ j < t.numOfCoherencyCaches, (t.coherencyCaches j).cme = some c → j = i) :
    t.coherencyIndex c = i :=
  Search.firstIndex_eq_of_unique hi (by simp [hcme]) fun j hj hp => huniq j hj (by simpa using hp)

theorem tracked_eq {s : ShadowMemory} {r l c : Nat} (hl : s.LineAt r l c) :
    s.tracked r l = (s.cacheMap c).coherency := by
  obtain ⟨t, ht, rfl⟩ := hl
  have ht' : s.table r (l / 64) = some t := ht
  simp only [tracked, ht']

end ShadowMemory

namespace Watching

open ShadowMemory

variable {w : Watched} {s' : ShadowMemory}

/-- A line with the coherency flag has a home. -/
theorem home (hw : Watching w) {c : Nat} (hc : (w.mem.cacheMap c).coherency = true) :
    ∃ r l, w.mem.LineAt r l c := by
  by_contra hno
  rw [hw.layout.fresh c] at hc
  · simp [CacheMapEntry.coherency] at hc
  · rintro r i t ht ⟨h1, h2⟩
    refine hno ⟨r, 64 * i + (c - t), t, ?_, by omega⟩
    rw [show (64 * i + (c - t)) / 64 = i by omega]
    exact ht

theorem entry_flag (hw : Watching w) {i c : Nat} (hi : i < w.mem.numOfCoherencyCaches)
    (hc : (w.mem.coherencyCaches i).cme = some c) : (w.mem.cacheMap c).coherency = true := by
  obtain ⟨c', hc', hflag⟩ := hw.table.entry i hi
  obtain rfl : c' = c := Option.some.inj (hc'.symm.trans hc)
  exact hflag

theorem entry_unique (hw : Watching w) {i j c : Nat} (hi : i < w.mem.numOfCoherencyCaches)
    (hj : j < w.mem.numOfCoherencyCaches) (hci : (w.mem.coherencyCaches i).cme = some c)
    (hcj : (w.mem.coherencyCaches j).cme = some c) : i = j :=
  hw.table.distinct i hi j hj (hci.trans hcj.symm)

/-- A step that changes no flag: what it did to the entries is to be
matched by what was observed. -/
theorem of_quiet {hits' : Nat → Nat → List Hit} {frees' : Nat → Nat → List LineFree}
    (hw : Watching w) (hq : Quiet w.mem s')
    (hcme : ∀ i, (s'.coherencyCaches i).cme = (w.mem.coherencyCaches i).cme)
    (hfresh : ∀ i, w.mem.numOfCoherencyCaches ≤ i →
      s'.coherencyCaches i = w.mem.coherencyCaches i)
    (hrows : ∀ i < w.mem.numOfCoherencyCaches, ∀ r l c,
      (w.mem.coherencyCaches i).cme = some c → w.mem.LineAt r l c →
      (∀ h ∈ hits' r l, h.tid ≠ 0) → ∀ word,
      (s'.coherencyCaches i).tidsPerWord word = Slots.row 16 0 (tidsOn (hits' r l) word))
    (howners : ∀ i < w.mem.numOfCoherencyCaches, ∀ r l c,
      (w.mem.coherencyCaches i).cme = some c → w.mem.LineAt r l c →
      SameOwners (s'.coherencyCaches i) (ownersOf (frees' r l)))
    (hquiet : ∀ r l, w.mem.tracked r l = false → hits' r l = [] ∧ frees' r l = []) :
    Watching ⟨s', hits', frees'⟩ := by
  have hback : ∀ i < w.mem.numOfCoherencyCaches, ∀ r l c,
      (w.mem.coherencyCaches i).cme = some c → s'.LineAt r l c → w.mem.LineAt r l c := by
    intro i hi r l c hc hl
    obtain ⟨r', l', hl'⟩ := hw.home (hw.entry_flag hi hc)
    obtain ⟨rfl, rfl⟩ := hq.layout.lineAt_inj hl (hq.lineAt hl')
    exact hl'
  refine ⟨hq.layout, ?_, ?_, ?_, ?_, ?_, ?_, ?_, ?_⟩
  · exact hq.num ▸ hw.num_le
  · show FlaggedTable _ s'.numOfCoherencyCaches _
    rw [hq.num]
    exact hw.table.mono (fun i _ => hcme i) fun c hc => (hq.flag c).trans hc
  · intro c hc
    obtain ⟨i, hi, hci⟩ := hw.member c ((hq.flag c).symm.trans hc)
    exact ⟨i, hq.num ▸ hi, (hcme i).trans hci⟩
  · intro c hc
    exact hq.five c (hw.five c ((hq.flag c).symm.trans hc))
  · intro i hi
    have hi' : w.mem.numOfCoherencyCaches ≤ i := hq.num ▸ hi
    exact (hfresh i hi').trans (hw.fresh i hi')
  · intro i hi r l c hc hl
    have hi' : i < w.mem.numOfCoherencyCaches := hq.num ▸ hi
    have hc' := (hcme i).symm.trans hc
    exact hrows i hi' r l c hc' (hback i hi' r l c hc' hl)
  · intro i hi r l c hc hl
    have hi' : i < w.mem.numOfCoherencyCaches := hq.num ▸ hi
    have hc' := (hcme i).symm.trans hc
    exact howners i hi' r l c hc' (hback i hi' r l c hc' hl)
  · intro r l ht
    exact hquiet r l ((hq.tracked hw.layout r l).symm.trans ht)

/-- A step that leaves the flags and the coherency table alone. -/
theorem of_same (hw : Watching w) (hq : Quiet w.mem s')
    (hcaches : s'.coherencyCaches = w.mem.coherencyCaches) :
    Watching ⟨s', w.hits, w.frees⟩ :=
  hw.of_quiet hq (fun _ => by rw [hcaches]) (fun _ _ => by rw [hcaches])
    (fun i hi r l c hc hl => by rw [hcaches]; exact hw.rows i hi r l c hc hl)
    (fun i hi r l c hc hl => by rw [hcaches]; exact hw.owners i hi r l c hc hl) hw.quiet

theorem malloc (hw : Watching w) {A n : Nat} (h : w.mem.mallocUpdateObject A n = some s') :
    Watching ⟨s', w.hits, w.frees⟩ := by
  have htouch : ∀ (t t' : ShadowMemory) (r l c : Nat),
      (Quiet w.mem t ∧ t.coherencyCaches = w.mem.coherencyCaches) → t.LineAt r l c →
      TouchesOnly c t t' → t'.low7 c = t.low7 c →
      t'.numOfCoherencyCaches = t.numOfCoherencyCaches →
      t'.coherencyCaches = t.coherencyCaches →
      Quiet w.mem t' ∧ t'.coherencyCaches = w.mem.coherencyCaches :=
    fun t t' r l c ht hl htt hlow hnum hcaches =>
      ⟨ht.1.trans (quiet_touch ht.1.layout hl htt hlow hnum), hcaches.trans ht.2⟩
  have hpart : ∀ n c (t : ShadowMemory), (mallocPartLine n c t).low7 c = t.low7 c := by
    intro n c t
    simp only [low7, mallocPartLine, modifyLine_cacheMap_self]
    rfl
  have hwhole : ∀ c (t : ShadowMemory), (mallocWholeLine c t).low7 c = t.low7 c := by
    intro c t
    simp only [low7, mallocWholeLine, modifyLine_cacheMap_self]
    rfl
  have hq : Quiet w.mem s' ∧ s'.coherencyCaches = w.mem.coherencyCaches := by
    refine mallocUpdateObject_rule
      (fun t => Quiet w.mem t ∧ t.coherencyCaches = w.mem.coherencyCaches)
      (fun _ _ => quiet_walkPages hw.layout .addUsedBytes .setFull (fun _ _ => rfl)
        (fun _ => rfl) ..) ?_
      (fun n r l c t ht hl => htouch t _ r l c ht hl (mallocPartLine_touches n c t)
        (hpart n c t) rfl rfl)
      (fun r l c t ht hl => htouch t _ r l c ht hl (mallocWholeLine_touches c t)
        (hwhole c t) rfl rfl) ⟨.refl hw.layout, rfl⟩ h
    intro r i t t' table ht hget
    refine ⟨ht.1.trans (quiet_alloc ht.1.layout hget), ?_⟩
    rcases getCacheMapEntry_cases hget with ⟨rfl, -⟩ | ⟨-, -, rfl⟩ <;> exact ht.2
  exact hw.of_same hq.1 hq.2

/-- The free takes part of the line: its first one, or the last if that
is partial. -/
def InPart (r l A size : Nat) : Prop :=
  reachesInPart r l A size = true ∧ 0 < (Span.mk A size).overlap (lineAddr r l) 64

instance (r l A size : Nat) : Decidable (InPart r l A size) :=
  inferInstanceAs (Decidable (_ ∧ _))

theorem inPart_iff {range i r l A size : Nat} (hp : getPageIndex A = (range, i)) :
    InPart r l A size ↔ r = range ∧ range ≠ numAddressRange
      ∧ ¬ (A < lineAddr range l ∧ lineAddr range l + 64 ≤ A + size)
      ∧ 0 < (Span.mk A size).overlap (lineAddr range l) 64 := by
  simp only [InPart, reachesInPart, hp, Bool.and_eq_true, decide_eq_true_eq, Bool.not_eq_true',
    ← Bool.decide_and, decide_eq_false_iff_not]
  constructor
  · rintro ⟨⟨⟨rfl, h1⟩, h2⟩, h3⟩
    exact ⟨rfl, h1, h2, h3⟩
  · rintro ⟨rfl, h1, h2, h3⟩
    exact ⟨⟨⟨rfl, h1⟩, h2⟩, h3⟩

/-- A line outside of the object is not taken part of. -/
theorem not_inPart_of_outside {range i r l A size : Nat} (hp : getPageIndex A = (range, i))
    (h : lineAddr range l + 64 ≤ A ∨ A + size ≤ lineAddr range l) : ¬ InPart r l A size := by
  intro hin
  obtain ⟨-, -, -, hov⟩ := (inPart_iff hp).mp hin
  rw [Span.overlap_outside h.symm] at hov
  exact Nat.lt_irrefl _ hov

/-- The lines taken part of below line `k`. -/
def InPartBelow (A size k r l : Nat) : Prop := InPart r l A size ∧ l < k

instance (A size k r l : Nat) : Decidable (InPartBelow A size k r l) :=
  inferInstanceAs (Decidable (_ ∧ _))

/-- What a free does to the coherency table: the owner fields of the
entries of the lines it takes part of. -/
structure FreeEffect (s : ShadowMemory) (taken : Nat → Nat → Prop) [∀ r l, Decidable (taken r l)]
    (o : ObjStat) (s' : ShadowMemory) : Prop where
  quiet : Quiet s s'
  entry : ∀ i, (s'.coherencyCaches i).cme = (s.coherencyCaches i).cme
    ∧ (s'.coherencyCaches i).tidsPerWord = (s.coherencyCaches i).tidsPerWord
  rest : ∀ i, s.numOfCoherencyCaches ≤ i → s'.coherencyCaches i = s.coherencyCaches i
  owner : ∀ i < s.numOfCoherencyCaches, ∀ r l c, (s.coherencyCaches i).cme = some c →
    s.LineAt r l c → s'.coherencyCaches i =
      if taken r l then (s.coherencyCaches i).recordOwner o.tid o.callKey
      else s.coherencyCaches i

section FreeEffect

variable {o : ObjStat} {t t' : ShadowMemory} {taken taken' : Nat → Nat → Prop}
  [∀ r l, Decidable (taken r l)] [∀ r l, Decidable (taken' r l)]

theorem FreeEffect.congr (h : FreeEffect w.mem taken o t)
    (hiff : ∀ r l, taken' r l ↔ taken r l) : FreeEffect w.mem taken' o t where
  quiet := h.quiet
  entry := h.entry
  rest := h.rest
  owner i hi r l c hc hl := by
    rw [h.owner i hi r l c hc hl]
    exact if_congr (hiff r l).symm rfl rfl

/-- Nothing of the coherency table is touched. -/
theorem FreeEffect.step (h : FreeEffect w.mem taken o t) (hq : Quiet t t')
    (hcaches : t'.coherencyCaches = t.coherencyCaches) : FreeEffect w.mem taken o t' where
  quiet := h.quiet.trans hq
  entry i := by rw [hcaches]; exact h.entry i
  rest i hi := by rw [hcaches]; exact h.rest i hi
  owner i hi r l c hc hl := by rw [hcaches]; exact h.owner i hi r l c hc hl

/-- The partial line `(range, k)` is one more line taken part of. -/
theorem FreeEffect.part (hw : Watching w) (h : FreeEffect w.mem taken o t) {range k c n : Nat}
    (hl : t.LineAt range k c) (hnot : ¬ taken range k) :
    FreeEffect w.mem (fun r l => taken r l ∨ (r = range ∧ l = k)) o (freePartLine o n c t) := by
  have hq : Quiet t (freePartLine o n c t) :=
    quiet_touch h.quiet.layout hl (freePartLine_touches o n c t) (freePartLine_low7 o n c t)
      (freePartLine_num o n c t)
  have hflag : (t.cacheMap c).coherency = (w.mem.cacheMap c).coherency :=
    h.quiet.flag c
  by_cases htr : (t.cacheMap c).coherency = true
  · -- the line is tracked: its entry is found by the search
    obtain ⟨i, hi, hci⟩ := hw.member c (hflag.symm.trans htr)
    have hidx : t.coherencyIndex c = i := by
      refine coherencyIndex_eq (h.quiet.num.symm ▸ hi) ((h.entry i).1.trans hci) fun j hj hcj => ?_
      exact hw.entry_unique (h.quiet.num ▸ hj) hi ((h.entry j).1.symm.trans hcj) hci
    have hcaches := freePartLine_caches o n c t
    rw [if_pos htr, hidx] at hcaches
    refine ⟨h.quiet.trans hq, fun j => ?_, fun j hj => ?_, fun j hj r l c' hc' hl' => ?_⟩
    · rw [hcaches]
      by_cases hji : j = i
      · subst hji
        rw [Function.update_self, recordOwner_cme, recordOwner_rows]
        exact h.entry j
      · rw [Function.update_of_ne hji]
        exact h.entry j
    · rw [hcaches, Function.update_of_ne (by omega)]
      exact h.rest j hj
    · rw [hcaches]
      by_cases hji : j = i
      · subst hji
        obtain rfl : c = c' := Option.some.inj (hci.symm.trans hc')
        obtain ⟨rfl, rfl⟩ := h.quiet.layout.lineAt_inj hl (h.quiet.lineAt hl')
        rw [Function.update_self, h.owner j hj range k c hci hl', if_neg hnot,
          if_pos (Or.inr ⟨rfl, rfl⟩)]
      · have hne : ¬ (r = range ∧ l = k) := by
          rintro ⟨rfl, rfl⟩
          obtain rfl := lineAt_unique hl (h.quiet.lineAt hl')
          exact hji (hw.entry_unique hj hi hc' hci)
        rw [Function.update_of_ne hji, h.owner j hj r l c' hc' hl']
        exact if_congr (by tauto) rfl rfl
  · have hcaches := freePartLine_caches o n c t
    rw [if_neg htr] at hcaches
    have hsame := h.step hq hcaches
    refine ⟨hsame.quiet, hsame.entry, hsame.rest, fun j hj r l c' hc' hl' => ?_⟩
    have hne : ¬ (r = range ∧ l = k) := by
      rintro ⟨rfl, rfl⟩
      obtain rfl := lineAt_unique hl (h.quiet.lineAt hl')
      exact htr (hflag.trans (hw.entry_flag hj hc'))
    rw [hsame.owner j hj r l c' hc' hl']
    exact if_congr (by tauto) rfl rfl

/-- The next line up is taken part of. -/
theorem FreeEffect.partBelow (hw : Watching w) {A range i k c n : Nat}
    (hp : getPageIndex A = (range, i)) (h : FreeEffect w.mem (InPartBelow A o.size k) o t)
    (hl : t.LineAt range k c) (hk : InPart range k A o.size) :
    FreeEffect w.mem (InPartBelow A o.size (k + 1)) o (freePartLine o n c t) := by
  refine (h.part hw hl (fun hlt => Nat.lt_irrefl _ hlt.2)).congr fun r l => ?_
  constructor
  · rintro ⟨hin, hlt⟩
    rcases Nat.lt_succ_iff_lt_or_eq.mp hlt with hlt | hlast
    · exact Or.inl ⟨hin, hlt⟩
    · exact Or.inr ⟨((inPart_iff hp).mp hin).1, hlast⟩
  · rintro (⟨hin, hlt⟩ | ⟨rfl, rfl⟩)
    · exact ⟨hin, Nat.lt_succ_of_lt hlt⟩
    · exact ⟨hk, Nat.lt_succ_self _⟩

/-- The next line up is covered whole, which is not taking part of it. -/
theorem FreeEffect.wholeBelow {A range i k c : Nat} (hp : getPageIndex A = (range, i))
    (h : FreeEffect w.mem (InPartBelow A o.size k) o t) (hl : t.LineAt range k c)
    (hk : A < lineAddr range k ∧ lineAddr range k + 64 ≤ A + o.size) :
    FreeEffect w.mem (InPartBelow A o.size (k + 1)) o (freeWholeLine o c t) := by
  have hq : Quiet t (freeWholeLine o c t) :=
    quiet_touch h.quiet.layout hl (freeWholeLine_touches o c t) (freeWholeLine_low7 o c t)
      (freeWholeLine_caches o c t).2
  refine (h.step hq (freeWholeLine_caches o c t).1).congr fun r l => ?_
  refine ⟨fun hin => ⟨hin.1, ?_⟩, fun hin => ⟨hin.1, Nat.lt_succ_of_lt hin.2⟩⟩
  rcases Nat.lt_succ_iff_lt_or_eq.mp hin.2 with hlt | rfl
  · exact hlt
  · exact absurd hk ((inPart_iff hp).mp hin.1).2.2.1

end FreeEffect

/-- No line is taken part of. -/
theorem FreeEffect.none {o : ObjStat} (hq : Quiet w.mem s')
    (hcaches : s'.coherencyCaches = w.mem.coherencyCaches) :
    FreeEffect w.mem (fun _ _ => False) o s' :=
  ⟨hq, fun i => by rw [hcaches]; exact ⟨rfl, rfl⟩, fun i _ => by rw [hcaches],
    fun i _ r l c _ _ => by rw [hcaches, if_neg not_false]⟩

theorem freeEffect (hw : Watching w) {A : Nat} {o : ObjStat}
    (h : w.mem.freeUpdateObject A o = some s') :
    FreeEffect w.mem (fun r l => InPart r l A o.size) o s' := by
  rcases hp : getPageIndex A with ⟨range, i⟩
  simp only [freeUpdateObject, hp] at h
  split at h
  · next hsize =>
      cases h
      refine (FreeEffect.none (.refl hw.layout) rfl).congr fun r l => iff_false_intro fun hin => ?_
      obtain ⟨-, -, -, hov⟩ := (inPart_iff hp).mp hin
      rw [hsize, Span.overlap_empty] at hov
      exact Nat.lt_irrefl _ hov
  · next hsize =>
      split at h
      · next hr =>
          cases h
          refine (FreeEffect.none (.refl hw.layout) rfl).congr fun r l => iff_false_intro ?_
          exact fun hin => ((inPart_iff hp).mp hin).2.1 hr
      · next hr =>
          obtain ⟨-, hA⟩ := getPageIndex_start hp hr
          rw [freeUpdateCacheLines, shiftRight_log2CachelineSize, and_pagesizeMask,
            and_cachelineSizeMask] at h
          obtain ⟨k, hk, hs'⟩ := walkCacheLines_rule
            (fun k t => FreeEffect w.mem (InPartBelow A o.size k) o t)
            (fun _ _ t t' _ ht hget => by
              refine ht.step (quiet_alloc ht.quiet.layout hget) ?_
              rcases getCacheMapEntry_cases hget with ⟨rfl, -⟩ | ⟨-, -, rfl⟩ <;> rfl)
            (by omega) (by omega)
            (fun n c t => (freePartLine_touches o n c t).pageMap)
            (fun c t => (freeWholeLine_touches o c t).pageMap)
            (fun c t ht hl => by
              refine ht.partBelow hw hp hl ((inPart_iff hp).mpr ⟨rfl, hr, ?_, ?_⟩)
              · simp only [lineAddr]; omega
              · rw [Span.overlap_first] <;> simp only [lineAddr] <;> omega)
            (fun l c t h1 h2 ht hl => by
              refine ht.wholeBelow hp hl ?_
              simp only [lineAddr]
              omega)
            (fun l c t h1 h2 h3 ht hl => by
              refine ht.partBelow hw hp hl ((inPart_iff hp).mpr ⟨rfl, hr, ?_, ?_⟩)
              · simp only [lineAddr]; omega
              · rw [Span.overlap_last] <;> simp only [lineAddr] <;> omega)
            h (by
              obtain ⟨hq, hcaches⟩ := quiet_walkPages hw.layout .subUsedBytes .setEmpty
                (fun _ _ => rfl) (fun _ => rfl) A range i o.size
              refine (FreeEffect.none hq hcaches).congr fun r l => iff_false_intro ?_
              rintro ⟨hin, hlt⟩
              refine not_inPart_of_outside hp (Or.inl ?_) hin
              simp only [lineAddr]
              omega)
          -- lines past the last one are not taken part of
          refine hs'.congr fun r l => ⟨fun hin => ⟨hin, ?_⟩, fun hin => hin.1⟩
          by_contra hge
          refine not_inPart_of_outside hp (Or.inr ?_) hin
          simp only [lineAddr]
          omega

theorem free (hw : Watching w) {A : Nat} {o : ObjStat}
    (h : w.mem.freeUpdateObject A o = some s') :
    Watching ⟨s', w.hits,
      fun r l => w.frees r l ++ w.mem.freeOn r l (.freeUpdateObject A o)⟩ := by
  have he := freeEffect hw h
  refine hw.of_quiet he.quiet (fun i => (he.entry i).1) he.rest
    (fun i hi r l c hc hl hne word => (congrFun (he.entry i).2 word).trans
      (hw.rows i hi r l c hc hl hne word)) (fun i hi r l c hc hl => ?_)
    fun r l htr => ⟨(hw.quiet r l htr).1, ?_⟩
  · have htr : w.mem.tracked r l = true := (tracked_eq hl).trans (hw.entry_flag hi hc)
    have hown := hw.owners i hi r l c hc hl
    rw [he.owner i hi r l c hc hl]
    simp only [freeOn, htr, Bool.true_and, decide_eq_true_eq]
    by_cases hov : 0 < (Span.mk A o.size).overlap (lineAddr r l) 64
    · rw [if_pos hov, ownersOf_snoc]
      by_cases hre : reachesInPart r l A o.size = true
      · rw [if_pos ⟨hre, hov⟩, if_pos hre]
        exact hown.recordOwner _ _
      · rw [if_neg (fun hp => hre hp.1), if_neg hre]
        exact hown
    · rw [if_neg hov, if_neg (fun hp => hov hp.2), List.append_nil]
      exact hown
  · simp only [freeOn, htr, Bool.false_and, Bool.false_eq_true, if_false, List.append_nil]
    exact (hw.quiet r l htr).2

/-! ## Sampled accesses -/

/-- The hits after a recorded miss on line `l₀`. -/
def hitsAfter (w : Watched) (s' : ShadowMemory) (r₀ l₀ : Nat) (h : Hit) (r l : Nat) : List Hit :=
  w.hits r l ++ if (r₀, l₀) = (r, l) ∧ s'.tracked r l = true then [h] else []

theorem hitsAfter_self {r₀ l₀ : Nat} (h : Hit) (htr : s'.tracked r₀ l₀ = true) :
    hitsAfter w s' r₀ l₀ h r₀ l₀ = w.hits r₀ l₀ ++ [h] := by
  rw [hitsAfter, if_pos ⟨rfl, htr⟩]

theorem hitsAfter_of_ne {r₀ l₀ r l : Nat} (h : Hit) (hne : ¬ (r = r₀ ∧ l = l₀)) :
    hitsAfter w s' r₀ l₀ h r l = w.hits r l := by
  rw [hitsAfter, if_neg, List.append_nil]
  rintro ⟨heq, -⟩
  obtain ⟨rfl, rfl⟩ := Prod.mk.inj heq
  exact hne ⟨rfl, rfl⟩

theorem hitsAfter_eq {r₀ l₀ : Nat} (h : Hit) (hno : s'.tracked r₀ l₀ = false) :
    hitsAfter w s' r₀ l₀ h = w.hits := by
  funext r l
  rw [hitsAfter, if_neg, List.append_nil]
  rintro ⟨heq, htr⟩
  obtain ⟨rfl, rfl⟩ := Prod.mk.inj heq
  rw [hno] at htr
  cases htr

/-- The rows of an entry after a hit: one more arrival on one word. -/
theorem row_recordWord {d : CoherencyData} {hits : List Hit} {tid word : Nat} (htid : tid ≠ 0)
    (hne : ∀ h ∈ hits, h.tid ≠ 0)
    (hrow : ∀ k, d.tidsPerWord k = Slots.row 16 0 (tidsOn hits k)) (k : Nat) :
    (d.recordWord word tid).tidsPerWord k
      = Slots.row 16 0 (tidsOn (hits ++ [⟨tid, word⟩]) k) := by
  have hzero : 0 ∉ tidsOn hits word := by
    intro h0
    obtain ⟨h, hmem, heq⟩ := List.mem_map.mp h0
    exact hne h (List.mem_of_mem_filter hmem) heq
  rw [tidsOn_snoc]
  by_cases hk : word = k
  · subst hk
    rw [if_pos rfl, ← Slots.insert_row htid hzero, ← hrow word, ← recordTid_eq_insert]
    exact Function.update_self ..
  · rw [if_neg hk, ← hrow k]
    exact Function.update_of_ne (Ne.symm hk) _ _

/-- A miss on a line that is tracked. -/
theorem hit (hw : Watching w) {r₀ l₀ c : Nat} (hl : w.mem.LineAt r₀ l₀ c)
    (htr : (w.mem.cacheMap c).coherency = true) (tid word : Nat) (f : CoherencyData → CoherencyData)
    (hf : ∀ d, f d = ({ d with misses := Word.wrap 16 (d.misses + 1) }).recordWord word tid) :
    Watching ⟨w.mem.modifyCoherency (w.mem.coherencyIndex c) f,
      hitsAfter w (w.mem.modifyCoherency (w.mem.coherencyIndex c) f) r₀ l₀ ⟨tid, word⟩,
      w.frees⟩ := by
  obtain ⟨i, hi, hci⟩ := hw.member c htr
  have hidx : w.mem.coherencyIndex c = i :=
    coherencyIndex_eq hi hci fun j hj hcj => hw.entry_unique hj hi hcj hci
  rw [hidx]
  have hself : (w.mem.modifyCoherency i f).coherencyCaches i = f (w.mem.coherencyCaches i) :=
    Function.update_self ..
  have hother : ∀ j, j ≠ i →
      (w.mem.modifyCoherency i f).coherencyCaches j = w.mem.coherencyCaches j :=
    fun j hj => Function.update_of_ne hj _ _
  have hq : Quiet w.mem (w.mem.modifyCoherency i f) :=
    ⟨⟨hw.layout.below, hw.layout.apart, hw.layout.fresh⟩, fun _ _ _ h => h, fun _ => rfl,
      fun _ h => h, rfl⟩
  have htr' : (w.mem.modifyCoherency i f).tracked r₀ l₀ = true := (tracked_eq hl).trans htr
  refine hw.of_quiet hq (fun j => ?_) (fun j hj => hother j (by omega)) ?_ ?_ fun r l htrl => ?_
  · by_cases hj : j = i
    · subst hj
      rw [hself, hf]
      rfl
    · rw [hother j hj]
  · intro j hj r l c' hc' hl' hne k
    by_cases hji : j = i
    · subst hji
      obtain rfl : c = c' := Option.some.inj (hci.symm.trans hc')
      obtain ⟨rfl, rfl⟩ := hw.layout.lineAt_inj hl hl'
      rw [hitsAfter_self _ htr'] at hne ⊢
      rw [hself, hf]
      have hne' : ∀ h ∈ w.hits r₀ l₀, h.tid ≠ 0 := fun h hh => hne h (by simp [hh])
      refine row_recordWord (hne ⟨tid, word⟩ (by simp)) hne' (fun k' => ?_) k
      exact hw.rows j hj r₀ l₀ c hci hl hne' k'
    · have hnot : ¬ (r = r₀ ∧ l = l₀) := by
        rintro ⟨rfl, rfl⟩
        obtain rfl := lineAt_unique hl hl'
        exact hji (hw.entry_unique hj hi hc' hci)
      rw [hitsAfter_of_ne _ hnot] at hne ⊢
      rw [hother j hji]
      exact hw.rows j hj r l c' hc' hl' hne k
  · intro j hj r l c' hc' hl'
    have hown := hw.owners j hj r l c' hc' hl'
    by_cases hji : j = i
    · subst hji
      rw [hself, hf]
      exact hown
    · rw [hother j hji]
      exact hown
  · have hnot : ¬ (r = r₀ ∧ l = l₀) := by
      rintro ⟨rfl, rfl⟩
      rw [tracked_eq hl, htr] at htrl
      cases htrl
    rw [hitsAfter_of_ne _ hnot]
    exact hw.quiet r l htrl

/-- The state after line cell `c` was entered with entry `d`. -/
def entered (s : ShadowMemory) (c : Nat) (d : CoherencyData) : ShadowMemory :=
  { s.modifyLine c fun e => { e with misses := e.misses ||| 0x40#8 } with
    numOfCoherencyCaches := s.numOfCoherencyCaches + 1
    coherencyCaches := Function.update s.coherencyCaches s.numOfCoherencyCaches d }

section Entered

variable {s : ShadowMemory} {c : Nat} {d : CoherencyData}

theorem entered_cacheMap_of_ne {c' : Nat} (hc : c' ≠ c) :
    (entered s c d).cacheMap c' = s.cacheMap c' := Function.update_of_ne hc _ _

theorem entered_cacheMap_self : (entered s c d).cacheMap c
    = { s.cacheMap c with misses := (s.cacheMap c).misses ||| 0x40#8 } := Function.update_self ..

theorem entered_coherency : ((entered s c d).cacheMap c).coherency = true := by
  rw [entered_cacheMap_self]
  exact CacheMapEntry.coherency_setCoherency _

theorem entered_missCount (c' : Nat) : (entered s c d).missCount c' = s.missCount c' := by
  by_cases hc : c' = c
  · have hcount : ∀ m : BitVec 8, (m ||| 0x40#8) &&& 0x3f#8 = m &&& 0x3f#8 :=
      CacheMapEntry.byte_cases (by decide +kernel)
    rw [hc, missCount, entered_cacheMap_self, hcount, missCount]
  · rw [missCount, entered_cacheMap_of_ne hc, missCount]

theorem entered_entry_self : (entered s c d).coherencyCaches s.numOfCoherencyCaches = d :=
  Function.update_self ..

theorem entered_entry_of_ne {i : Nat} (hi : i ≠ s.numOfCoherencyCaches) :
    (entered s c d).coherencyCaches i = s.coherencyCaches i := Function.update_of_ne hi _ _

/-- The flag of another line is what it was. -/
theorem entered_untracked (hclear : (s.cacheMap c).coherency = false) {r l : Nat}
    (h : (entered s c d).tracked r l = false) : s.tracked r l = false := by
  have htab : (entered s c d).table r (l / 64) = s.table r (l / 64) := rfl
  unfold ShadowMemory.tracked at h ⊢
  rw [htab] at h
  cases ht : s.table r (l / 64) with
  | none => rfl
  | some t =>
      simp only [ht] at h ⊢
      by_cases hc : t + l % 64 = c
      · rw [hc]
        exact hclear
      · rwa [entered_cacheMap_of_ne hc] at h

/-- The table of line cells gets one more, which is now flagged. -/
theorem entered_table (hw : Watching w) (hclear : (w.mem.cacheMap c).coherency = false)
    (hd : d.cme = some c) : FlaggedTable (fun i => ((entered w.mem c d).coherencyCaches i).cme)
      (w.mem.numOfCoherencyCaches + 1)
      fun c' => ((entered w.mem c d).cacheMap c').coherency = true := by
  have hcme : (fun i => ((entered w.mem c d).coherencyCaches i).cme)
      = Function.update (fun i => (w.mem.coherencyCaches i).cme) w.mem.numOfCoherencyCaches
        (some c) := by
    funext i
    by_cases hi : i = w.mem.numOfCoherencyCaches
    · rw [hi, entered_entry_self, hd, Function.update_self]
    · rw [entered_entry_of_ne hi, Function.update_of_ne hi]
  rw [hcme]
  refine hw.table.push (by simpa using hclear) (fun c' hc' => ?_) entered_coherency
  by_cases hc : c' = c
  · rw [hc]
    exact entered_coherency
  · rwa [entered_cacheMap_of_ne hc]

/-- An entry is the new one, of the line that was entered, or an older one,
of another line. -/
theorem entered_entry_cases (hw : Watching w) {r₀ l₀ r l c' i : Nat}
    (hl : w.mem.LineAt r₀ l₀ c) (hclear : (w.mem.cacheMap c).coherency = false)
    (hd : d.cme = some c) (hi : i < w.mem.numOfCoherencyCaches + 1)
    (hc' : ((entered w.mem c d).coherencyCaches i).cme = some c') (hl' : w.mem.LineAt r l c') :
    (entered w.mem c d).coherencyCaches i = d ∧ r = r₀ ∧ l = l₀ ∨
      i < w.mem.numOfCoherencyCaches ∧ ¬ (r = r₀ ∧ l = l₀)
        ∧ (entered w.mem c d).coherencyCaches i = w.mem.coherencyCaches i := by
  by_cases hnew : i = w.mem.numOfCoherencyCaches
  · rw [hnew, entered_entry_self] at hc' ⊢
    obtain rfl : c = c' := Option.some.inj (hd.symm.trans hc')
    obtain ⟨rfl, rfl⟩ := hw.layout.lineAt_inj hl hl'
    exact Or.inl ⟨rfl, rfl, rfl⟩
  · rw [entered_entry_of_ne hnew] at hc' ⊢
    have hlt : i < w.mem.numOfCoherencyCaches := by omega
    refine Or.inr ⟨hlt, ?_, rfl⟩
    rintro ⟨rfl, rfl⟩
    obtain rfl := lineAt_unique hl hl'
    rw [hw.entry_flag hlt hc'] at hclear
    cases hclear

end Entered

/-- The miss that starts the tracking of a line. -/
theorem enter (hw : Watching w) {r₀ l₀ c : Nat} (hl : w.mem.LineAt r₀ l₀ c)
    (hroom : w.mem.numOfCoherencyCaches < coherencyCachesMax)
    (hclear : (w.mem.cacheMap c).coherency = false) (hfive : 5 ≤ w.mem.missCount c)
    (tid word : Nat) {d : CoherencyData}
    (hd : d = ({ cme := some c, misses := 5 } : CoherencyData).recordWord word tid) :
    Watching ⟨entered w.mem c d, hitsAfter w (entered w.mem c d) r₀ l₀ ⟨tid, word⟩,
      w.frees⟩ := by
  have hdcme : d.cme = some c := by rw [hd]; rfl
  obtain ⟨hnohits, hnofrees⟩ := hw.quiet r₀ l₀ ((tracked_eq hl).trans hclear)
  have htr' : (entered w.mem c d).tracked r₀ l₀ = true :=
    (tracked_eq (s := entered w.mem c d) hl).trans entered_coherency
  have hold : ∀ c', c' ≠ c → ((entered w.mem c d).cacheMap c').coherency = true →
      (w.mem.cacheMap c').coherency = true := by
    intro c' hc hflag
    rwa [entered_cacheMap_of_ne hc] at hflag
  exact
    { layout := hw.layout.touch hl ⟨rfl, rfl, fun _ hc => entered_cacheMap_of_ne hc⟩
      num_le := hroom
      table := entered_table hw hclear hdcme
      member := fun c' hflag => by
        by_cases hc : c' = c
        · exact ⟨w.mem.numOfCoherencyCaches, Nat.lt_succ_self _, by
            rw [entered_entry_self, hdcme, hc]⟩
        · obtain ⟨i, hi, hci⟩ := hw.member c' (hold c' hc hflag)
          exact ⟨i, Nat.lt_succ_of_lt hi, by rwa [entered_entry_of_ne (by omega)]⟩
      five := fun c' hflag => by
        show 5 ≤ (entered w.mem c d).missCount c'
        rw [entered_missCount]
        by_cases hc : c' = c
        · rw [hc]
          exact hfive
        · exact hw.five c' (hold c' hc hflag)
      fresh := fun i hi => by
        have hlt : w.mem.numOfCoherencyCaches + 1 ≤ i := hi
        show (entered w.mem c d).coherencyCaches i = {}
        rw [entered_entry_of_ne (by omega)]
        exact hw.fresh i (by omega)
      rows := fun i hi r l c' hc' hl' hne k => by
        show ((entered w.mem c d).coherencyCaches i).tidsPerWord k = Slots.row 16 0
          (tidsOn (hitsAfter w (entered w.mem c d) r₀ l₀ ⟨tid, word⟩ r l) k)
        simp only at hne
        rcases entered_entry_cases hw hl hclear hdcme hi hc' hl' with
          ⟨hnew, rfl, rfl⟩ | ⟨hlt, hnot, hsame⟩
        · rw [hitsAfter_self _ htr', hnohits, List.nil_append] at hne ⊢
          rw [hnew, hd]
          have hnone : ∀ h ∈ ([] : List Hit), h.tid ≠ 0 := by simp
          refine row_recordWord (hne ⟨tid, word⟩ (by simp)) hnone (fun k' => ?_) k
          exact (Slots.row_nil 16 0).symm
        · rw [hitsAfter_of_ne _ hnot] at hne ⊢
          rw [hsame]
          exact hw.rows i hlt r l c' (hsame ▸ hc') hl' hne k
      owners := fun i hi r l c' hc' hl' => by
        show SameOwners ((entered w.mem c d).coherencyCaches i) (ownersOf (w.frees r l))
        rcases entered_entry_cases hw hl hclear hdcme hi hc' hl' with
          ⟨hnew, rfl, rfl⟩ | ⟨hlt, -, hsame⟩
        · rw [hnew, hd, hnofrees]
          exact ⟨rfl, rfl⟩
        · rw [hsame]
          exact hw.owners i hlt r l c' (hsame ▸ hc') hl'
      quiet := fun r l htrl => by
        show hitsAfter w (entered w.mem c d) r₀ l₀ ⟨tid, word⟩ r l = [] ∧ w.frees r l = []
        have hnot : ¬ (r = r₀ ∧ l = l₀) := by
          rintro ⟨rfl, rfl⟩
          exact absurd (htrl.symm.trans htr') (by decide)
        rw [hitsAfter_of_ne _ hnot]
        exact hw.quiet r l (entered_untracked hclear htrl) }

/-- The coherency half of a miss, on any line. -/
theorem recordCoherency (hw : Watching w) {r₀ l₀ c : Nat} (hl : w.mem.LineAt r₀ l₀ c)
    (tid addr : Nat) :
    Watching ⟨w.mem.recordCoherency tid addr c,
      hitsAfter w (w.mem.recordCoherency tid addr c) r₀ l₀ ⟨tid, wordIndexOf addr⟩,
      w.frees⟩ := by
  rcases recordCoherency_outcomes w.mem tid addr c with
    ⟨-, htr, heq⟩ | ⟨hfive, hclear, hroom, heq⟩ | ⟨-, hclear, -, heq⟩ | ⟨hfew, heq⟩ <;> rw [heq]
  · exact hw.hit hl htr tid (wordIndexOf addr) _ fun _ => rfl
  · rw [hw.fresh _ le_rfl]
    exact hw.enter hl hroom hclear hfive tid (wordIndexOf addr) rfl
  · rw [hitsAfter_eq _ ((tracked_eq hl).trans hclear)]
    exact hw
  · -- too few misses yet for the line to be tracked
    have hclear : (w.mem.cacheMap c).coherency = false := by
      by_contra htr
      have hfive := hw.five c (by simpa using htr)
      rw [missCount] at hfive
      omega
    have hflag : ((w.mem.modifyLine c fun e => { e with misses := e.misses + 1 }).cacheMap
        c).coherency = (w.mem.cacheMap c).coherency := by
      rw [modifyLine_cacheMap_self]
      exact CacheMapEntry.coherency_congr (CacheMapEntry.countMiss_flags _ hfew).2
    have hq : Quiet w.mem (w.mem.modifyLine c fun e => { e with misses := e.misses + 1 }) :=
      quiet_touch_flag hw.layout hl (modifyLine_touches _ _ _) hflag
        (fun hfive => absurd hfive (Nat.not_le.mpr hfew)) rfl
    rw [hitsAfter_eq _ ((hq.tracked hw.layout r₀ l₀).trans ((tracked_eq hl).trans hclear))]
    exact hw.of_same hq rfl

theorem access (hw : Watching w) (tid addr : Nat) (miss : Bool) :
    Watching ⟨w.mem.doMemoryAccess tid addr miss, fun r l => w.hits r l
      ++ w.mem.hitOn (w.mem.doMemoryAccess tid addr miss) r l (.doMemoryAccess tid addr miss),
      w.frees⟩ := by
  have hnohit : (∀ s' r l, w.mem.hitOn s' r l (.doMemoryAccess tid addr miss) = []) →
      ∀ s', (fun r l => w.hits r l ++ w.mem.hitOn s' r l (.doMemoryAccess tid addr miss))
        = w.hits := by
    intro hno s'
    funext r l
    rw [hno, List.append_nil]
  cases hsampled : w.mem.sampledLine addr with
  | none =>
      have hsame : w.mem.doMemoryAccess tid addr miss = w.mem := by
        simp only [doMemoryAccess, hsampled]
      rw [hnohit (fun s' r l => by cases miss <;> simp [hitOn, hsampled]), hsame]
      exact hw
  | some found =>
      obtain ⟨pme, c⟩ := found
      obtain ⟨range, index, hp, -, -, -, hl, -⟩ := sampledLine_cases hsampled
      have hline : lineOf addr = (range, 64 * index + addr % 4096 / 64) := by
        simp only [lineOf, hp]
      -- the friendliness totals concern nothing observed here
      let s1 : ShadowMemory := { w.mem with
        friendlinessStatus := Function.update w.mem.friendlinessStatus tid
          ((w.mem.friendlinessStatus tid).recordANewSampling (w.mem.cacheMap c).getUsedBytes
            pme.getUsedBytes) }
      have hlay1 : s1.Layout := ⟨hw.layout.below, hw.layout.apart, hw.layout.fresh⟩
      have hq1 : Quiet w.mem s1 := ⟨hlay1, fun _ _ _ h => h, fun _ => rfl, fun _ h => h, rfl⟩
      cases miss with
      | false =>
          have hacc : w.mem.doMemoryAccess tid addr false = s1 := by
            simp only [doMemoryAccess, hsampled, Bool.false_eq_true, if_false, s1]
          rw [hnohit (fun _ _ _ => rfl), hacc]
          exact hw.of_same hq1 rfl
      | true =>
          have hacc : w.mem.doMemoryAccess tid addr true = s1.recordMiss tid addr c := by
            simp only [doMemoryAccess, hsampled, if_true, s1]
          have hq2 : Quiet w.mem (s1.addMiss addr c) :=
            hq1.trans (quiet_touch hlay1 hl (addMiss_touches addr c s1) (addMiss_low7 s1 addr c c)
              rfl)
          have hw2 : Watching ⟨s1.addMiss addr c, w.hits, w.frees⟩ := hw.of_same hq2 rfl
          have hhits : (fun r l => w.hits r l ++ w.mem.hitOn (s1.recordMiss tid addr c) r l
              (.doMemoryAccess tid addr true))
              = hitsAfter ⟨s1.addMiss addr c, w.hits, w.frees⟩ (s1.recordMiss tid addr c)
                range (64 * index + addr % 4096 / 64) ⟨tid, wordIndexOf addr⟩ := by
            funext r l
            simp only [hitsAfter, hitOn, hsampled, hline, Option.isSome_some, Bool.true_and,
              Bool.and_eq_true, decide_eq_true_eq]
          rw [hacc, hhits]
          exact hw2.recordCoherency (hq2.lineAt hl) tid addr

theorem step (hw : Watching w) {w' : Watched} {op : ShadowOp} (hop : NoCleanup op)
    (h : w.step op = some w') : Watching w' := by
  obtain ⟨mem, hmem, hw'⟩ := Option.bind_eq_some_iff.mp h
  obtain rfl := Option.some.inj hw'
  cases op with
  | mallocUpdateObject address size =>
      simp only [hitOn, freeOn, List.append_nil]
      exact hw.malloc hmem
  | freeUpdateObject address objStat =>
      simp only [hitOn, List.append_nil]
      exact hw.free hmem
  | cleanupPages uintaddr length => exact absurd hop not_false
  | doMemoryAccess tid uintaddr miss =>
      simp only [freeOn, List.append_nil]
      obtain rfl := Option.some.inj hmem
      exact hw.access tid uintaddr miss

/-- Every run without cleanups is watched correctly. -/
theorem run {guard : List ShadowOp → Watched → ShadowOp → Prop} {past : List ShadowOp}
    (hguard : ∀ past w op, guard past w op → NoCleanup op)
    (h : Run Watched.step guard {} past w) : Watching w :=
  h.invariant Watching watching_init fun past w op _ hw hg hs => hw.step (hguard past w op hg) hs

end Watching

end MemPerf
