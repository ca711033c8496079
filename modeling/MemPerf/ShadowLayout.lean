import MemPerf.ShadowWalk

/-!
# The layout of the line tables

Tables are handed out by a bump pointer and never taken back, so tables
of different pages do not overlap, a cell outside every table still has
its initial contents, and a cell belongs to at most one line. `Layout`
is preserved by every shadow operation (`layout_step`), aborting ones
excepted.
-/

namespace MemPerf

namespace ShadowMemory

/-- The line table of a page, if it has one. -/
def table (s : ShadowMemory) (range index : Nat) : Option Nat :=
  (s.pageMap range index).cacheMapEntry

structure Layout (s : ShadowMemory) : Prop where
  below : ∀ {r i t}, s.table r i = some t → t + 64 ≤ s.cacheMapBumpPtr
  apart : ∀ {r i t r' i' t'}, s.table r i = some t → s.table r' i' = some t' →
    t < t' + 64 → t' < t + 64 → r = r' ∧ i = i'
  fresh : ∀ c, (∀ r i t, s.table r i = some t → ¬ (t ≤ c ∧ c < t + 64)) → s.cacheMap c = {}

theorem layout_init : Layout {} where
  below h := by simp [table] at h
  apart h := by simp [table] at h
  fresh _ _ := rfl

/-- A cell is the home of at most one line. -/
theorem Layout.lineAt_inj {s : ShadowMemory} (hs : s.Layout) {r l r' l' c : Nat}
    (h : s.LineAt r l c) (h' : s.LineAt r' l' c) : r = r' ∧ l = l' := by
  obtain ⟨t, ht, rfl⟩ := h
  obtain ⟨t', ht', heq⟩ := h'
  obtain ⟨rfl, hpage⟩ := hs.apart ht ht' (by omega) (by omega)
  have htt : t = t' := by
    rw [hpage] at ht
    exact Option.some.inj (ht.symm.trans ht')
  exact ⟨rfl, by omega⟩

/-- A line has one home. -/
theorem lineAt_unique {s : ShadowMemory} {r l c c' : Nat} (h : s.LineAt r l c)
    (h' : s.LineAt r l c') : c = c' := by
  obtain ⟨t, ht, rfl⟩ := h
  obtain ⟨t', ht', rfl⟩ := h'
  rw [Option.some.inj (ht.symm.trans ht')]

/-! ## One cell rewritten -/

/-- The step from `s` to `s'` rewrote cell `c`, perhaps the two tables,
and nothing else of the maps. -/
structure TouchesOnly (c : Nat) (s s' : ShadowMemory) : Prop where
  pageMap : s'.pageMap = s.pageMap
  cacheMapBumpPtr : s'.cacheMapBumpPtr = s.cacheMapBumpPtr
  cacheMap : ∀ c', c' ≠ c → s'.cacheMap c' = s.cacheMap c'

theorem TouchesOnly.refl (c : Nat) (s : ShadowMemory) : TouchesOnly c s s :=
  ⟨rfl, rfl, fun _ _ => rfl⟩

theorem TouchesOnly.trans {c : Nat} {s s' s'' : ShadowMemory} (h : TouchesOnly c s s')
    (h' : TouchesOnly c s' s'') : TouchesOnly c s s'' :=
  ⟨h'.pageMap.trans h.pageMap, h'.cacheMapBumpPtr.trans h.cacheMapBumpPtr,
    fun c' hc => (h'.cacheMap c' hc).trans (h.cacheMap c' hc)⟩

theorem modifyLine_touches (s : ShadowMemory) (c : Nat) (f : CacheMapEntry → CacheMapEntry) :
    TouchesOnly c s (s.modifyLine c f) :=
  ⟨rfl, rfl, fun _ hc => modifyLine_cacheMap_of_ne s c f hc⟩

theorem setConflictData_touches (s : ShadowMemory) (c : Nat) (d : ConflictData) :
    TouchesOnly c s (s.setConflictData d) := ⟨rfl, rfl, fun _ _ => rfl⟩

theorem modifyCoherency_touches (s : ShadowMemory) (c i : Nat)
    (f : CoherencyData → CoherencyData) : TouchesOnly c s (s.modifyCoherency i f) :=
  ⟨rfl, rfl, fun _ _ => rfl⟩

theorem mallocPartLine_touches (n c : Nat) (s : ShadowMemory) :
    TouchesOnly c s (mallocPartLine n c s) := modifyLine_touches _ _ _

theorem mallocWholeLine_touches (c : Nat) (s : ShadowMemory) :
    TouchesOnly c s (mallocWholeLine c s) := modifyLine_touches _ _ _

theorem freePartLine_touches (o : ObjStat) (n c : Nat) (s : ShadowMemory) :
    TouchesOnly c s (freePartLine o n c s) := by
  have h1 := modifyLine_touches s c (.subUsedBytes n)
  simp only [freePartLine]
  split
  · split
    · exact (h1.trans (setConflictData_touches _ _ _)).trans (modifyCoherency_touches _ _ _ _)
    · exact h1.trans (setConflictData_touches _ _ _)
  · split
    · exact h1.trans (modifyCoherency_touches _ _ _ _)
    · exact h1

theorem freeWholeLine_touches (o : ObjStat) (c : Nat) (s : ShadowMemory) :
    TouchesOnly c s (freeWholeLine o c s) := by
  simp only [freeWholeLine]
  split
  · exact ((setConflictData_touches _ _ _).trans (modifyLine_touches _ _ _)).trans
      (modifyLine_touches _ _ _)
  · exact modifyLine_touches _ _ _

/-- What the coherency half of a miss does: it counts a hit of the line's
entry, gives the line an entry, finds no room for one, or counts the miss. -/
theorem recordCoherency_outcomes (s : ShadowMemory) (tid addr c : Nat) :
    (5 ≤ ((s.cacheMap c).misses &&& 0x3f#8).toNat ∧ (s.cacheMap c).coherency = true ∧
      s.recordCoherency tid addr c = s.modifyCoherency (s.coherencyIndex c) fun d =>
        ({ d with misses := Word.wrap 16 (d.misses + 1) }).recordWord (wordIndexOf addr) tid)
    ∨ (5 ≤ ((s.cacheMap c).misses &&& 0x3f#8).toNat ∧ (s.cacheMap c).coherency = false ∧
      s.numOfCoherencyCaches < coherencyCachesMax ∧ s.recordCoherency tid addr c =
        { s.modifyLine c fun e => { e with misses := e.misses ||| 0x40#8 } with
          numOfCoherencyCaches := s.numOfCoherencyCaches + 1
          coherencyCaches := Function.update s.coherencyCaches s.numOfCoherencyCaches
            (({ s.coherencyCaches s.numOfCoherencyCaches with cme := some c, misses := 5 } :
              CoherencyData).recordWord (wordIndexOf addr) tid) })
    ∨ (5 ≤ ((s.cacheMap c).misses &&& 0x3f#8).toNat ∧ (s.cacheMap c).coherency = false ∧
      coherencyCachesMax ≤ s.numOfCoherencyCaches ∧ s.recordCoherency tid addr c = s)
    ∨ (((s.cacheMap c).misses &&& 0x3f#8).toNat < 5 ∧
      s.recordCoherency tid addr c =
        s.modifyLine c fun e => { e with misses := e.misses + 1 }) := by
  simp only [recordCoherency]
  by_cases hfive : 5 ≤ ((s.cacheMap c).misses &&& 0x3f#8).toNat
  · rw [if_pos hfive]
    by_cases hflag : (s.cacheMap c).coherency = true
    · exact .inl ⟨hfive, hflag, if_pos hflag⟩
    · have hclear : (s.cacheMap c).coherency = false := by simpa using hflag
      rw [if_neg hflag]
      by_cases hroom : s.numOfCoherencyCaches < coherencyCachesMax
      · have hnum : Word.wrap 8 (s.numOfCoherencyCaches + 1) = s.numOfCoherencyCaches + 1 :=
          Word.wrap_of_lt (by simp only [coherencyCachesMax] at hroom; omega)
        refine .inr (.inl ⟨hfive, hclear, hroom, ?_⟩)
        rw [if_pos hroom, hnum]
        rfl
      · exact .inr (.inr (.inl ⟨hfive, hclear, by omega, if_neg hroom⟩))
  · exact .inr (.inr (.inr ⟨by omega, if_neg hfive⟩))

theorem recordCoherency_touches (tid addr c : Nat) (s : ShadowMemory) :
    TouchesOnly c s (s.recordCoherency tid addr c) := by
  rcases recordCoherency_outcomes s tid addr c with
    ⟨-, -, heq⟩ | ⟨-, -, -, heq⟩ | ⟨-, -, -, heq⟩ | ⟨-, heq⟩ <;> rw [heq]
  · exact modifyCoherency_touches _ _ _ _
  · have hline := modifyLine_touches s c fun e => { e with misses := e.misses ||| 0x40#8 }
    exact ⟨hline.pageMap, hline.cacheMapBumpPtr, hline.cacheMap⟩
  · exact .refl _ _
  · exact modifyLine_touches _ _ _

/-- A miss counter is no byte count. -/
theorem modifyLine_misses_usage (s : ShadowMemory) (c c' : Nat) (f : BitVec 8 → BitVec 8) :
    ((s.modifyLine c fun e => { e with misses := f e.misses }).cacheMap c').numUsedBytes
      = (s.cacheMap c').numUsedBytes := by
  by_cases hcc : c' = c
  · subst hcc
    rw [modifyLine_cacheMap_self]
  · rw [modifyLine_cacheMap_of_ne _ _ _ hcc]

theorem recordCoherency_usage (s : ShadowMemory) (tid addr c c' : Nat) :
    ((s.recordCoherency tid addr c).cacheMap c').numUsedBytes
      = (s.cacheMap c').numUsedBytes := by
  rcases recordCoherency_outcomes s tid addr c with
    ⟨-, -, heq⟩ | ⟨-, -, -, heq⟩ | ⟨-, -, -, heq⟩ | ⟨-, heq⟩ <;> rw [heq]
  · rfl
  · exact modifyLine_misses_usage s c c' (· ||| 0x40#8)
  · exact modifyLine_misses_usage s c c' (· + 1)

theorem addMiss_touches (addr c : Nat) (s : ShadowMemory) :
    TouchesOnly c s (s.addMiss addr c) := by
  rw [addMiss]
  exact (setConflictData_touches _ _ _).trans (modifyLine_touches _ _ _)

theorem recordMiss_touches (tid addr c : Nat) (s : ShadowMemory) :
    TouchesOnly c s (s.recordMiss tid addr c) :=
  (addMiss_touches _ _ _).trans (recordCoherency_touches _ _ _ _)

/-! ## Preservation -/

theorem table_congr {s s' : ShadowMemory} (h : s'.pageMap = s.pageMap) (r i : Nat) :
    s'.table r i = s.table r i := by
  simp only [table, h]

theorem Layout.touch {s s' : ShadowMemory} (hs : s.Layout) {r l c : Nat}
    (hl : s.LineAt r l c) (h : TouchesOnly c s s') : s'.Layout where
  below ht := by
    rw [table_congr h.pageMap] at ht
    rw [h.cacheMapBumpPtr]
    exact hs.below ht
  apart ht ht' := by
    rw [table_congr h.pageMap] at ht ht'
    exact hs.apart ht ht'
  fresh c' hc' := by
    have hne : c' ≠ c := by
      rintro rfl
      obtain ⟨t, ht, heq⟩ := hl
      exact hc' r (l / 64) t ((table_congr h.pageMap _ _).trans ht) (by omega)
    rw [h.cacheMap c' hne]
    refine hs.fresh c' fun r' i' t' ht' => hc' r' i' t' ?_
    rw [table_congr h.pageMap]
    exact ht'

/-- The tables after one more was allocated. -/
theorem table_allocTable (s : ShadowMemory) (range index r i : Nat) :
    (s.allocTable range index).table r i =
      if r = range ∧ i = index then some s.cacheMapBumpPtr else s.table r i := by
  unfold table allocTable
  rw [modifyPage_pageMap]
  split <;> rfl

theorem Layout.alloc {s : ShadowMemory} (hs : s.Layout) {range index : Nat}
    (hnone : s.table range index = none) : (s.allocTable range index).Layout where
  below {r i t} ht := by
    show t + 64 ≤ s.cacheMapBumpPtr + 64
    rw [table_allocTable] at ht
    split at ht
    · cases ht; exact le_rfl
    · have := hs.below ht; omega
  apart {r i t r' i' t'} ht ht' h1 h2 := by
    rw [table_allocTable] at ht ht'
    split at ht <;> split at ht'
    · next h h' => exact ⟨h.1.trans h'.1.symm, h.2.trans h'.2.symm⟩
    · have := hs.below ht'; cases ht; omega
    · have := hs.below ht; cases ht'; omega
    · exact hs.apart ht ht' h1 h2
  fresh c hc := by
    show s.cacheMap c = {}
    refine hs.fresh c fun r i t ht => hc r i t ?_
    rw [table_allocTable, if_neg, ht]
    rintro ⟨rfl, rfl⟩
    rw [hnone] at ht
    cases ht

theorem Layout.getCacheMapEntry {s s' : ShadowMemory} (hs : s.Layout) {range index t : Nat}
    (h : s.getCacheMapEntry range index = some (s', t)) : s'.Layout := by
  rcases getCacheMapEntry_cases h with ⟨rfl, -⟩ | ⟨hnone, -, rfl⟩
  · exact hs
  · exact hs.alloc hnone

/-- Rewriting counters of page entries moves no table. -/
theorem Layout.pages {s : ShadowMemory} (hs : s.Layout) (f : Nat → Nat → PageMapEntry)
    (hf : ∀ r i, (f r i).cacheMapEntry = (s.pageMap r i).cacheMapEntry) :
    Layout { s with pageMap := f } where
  below ht := hs.below (show s.table _ _ = _ from (hf _ _).symm.trans ht)
  apart ht ht' := hs.apart (show s.table _ _ = _ from (hf _ _).symm.trans ht)
    (show s.table _ _ = _ from (hf _ _).symm.trans ht')
  fresh c hc := hs.fresh c fun r i t ht => hc r i t ((hf r i).trans ht)

theorem walkedPage_cacheMapEntry (part : Nat → PageMapEntry → PageMapEntry)
    (whole : PageMapEntry → PageMapEntry)
    (hpart : ∀ n e, (part n e).cacheMapEntry = e.cacheMapEntry)
    (hwhole : ∀ e, (whole e).cacheMapEntry = e.cacheMapEntry) (idx first n rest i : Nat)
    (e : PageMapEntry) : (walkedPage part whole idx first n rest i e).cacheMapEntry
      = e.cacheMapEntry := by
  unfold walkedPage
  split
  · exact hpart _ _
  · split
    · exact hwhole _
    · split
      · exact hpart _ _
      · rfl

theorem Layout.walkPages {s : ShadowMemory} (hs : s.Layout)
    (part : Nat → PageMapEntry → PageMapEntry) (whole : PageMapEntry → PageMapEntry)
    (hpart : ∀ n e, (part n e).cacheMapEntry = e.cacheMapEntry)
    (hwhole : ∀ e, (whole e).cacheMapEntry = e.cacheMapEntry) (addr range idx size : Nat) :
    (s.walkPages part whole addr range idx size).Layout := by
  rw [walkPages_eq]
  refine hs.pages _ fun r i => ?_
  split
  · exact walkedPage_cacheMapEntry part whole hpart hwhole ..
  · rfl

/-! ## The walks of an object -/

/-- What its pages, the tables it allocates and its single lines keep, the
walks over an object keep. -/
theorem walks_rule (Q : ShadowMemory → Prop) {s s' : ShadowMemory} {A range idx size : Nat}
    {part : Nat → PageMapEntry → PageMapEntry} {whole : PageMapEntry → PageMapEntry}
    {linePart : Nat → Nat → ShadowMemory → ShadowMemory}
    {lineWhole : Nat → ShadowMemory → ShadowMemory}
    (hpm : ∀ n c t, (linePart n c t).pageMap = t.pageMap)
    (hpm' : ∀ c t, (lineWhole c t).pageMap = t.pageMap)
    (hpages : Q (s.walkPages part whole A range idx size))
    (halloc : ∀ r i t t' table, Q t → t.getCacheMapEntry r i = some (t', table) → Q t')
    (hpart : ∀ n r l c t, Q t → t.LineAt r l c → Q (linePart n c t))
    (hwhole : ∀ r l c t, Q t → t.LineAt r l c → Q (lineWhole c t))
    (h : (s.walkPages part whole A range idx size).walkCacheLines linePart lineWhole range idx
      ((A &&& pagesizeMask) >>> log2CachelineSize) (A &&& cachelineSizeMask) size = some s') :
    Q s' := by
  rw [shiftRight_log2CachelineSize, and_pagesizeMask, and_cachelineSizeMask] at h
  obtain ⟨-, -, hs'⟩ := walkCacheLines_rule (fun _ t => Q t)
    (fun _ _ _ _ _ ht hget => halloc _ _ _ _ _ ht hget) (by omega) (by omega) hpm hpm'
    (fun c t ht hl => hpart _ _ _ c t ht hl) (fun l c t _ _ ht hl => hwhole _ l c t ht hl)
    (fun l c t _ _ _ ht hl => hpart _ _ l c t ht hl) h hpages
  exact hs'

theorem mallocUpdateObject_rule (Q : ShadowMemory → Prop) {s s' : ShadowMemory} {A n : Nat}
    (hpages : ∀ range idx, Q (s.walkPages .addUsedBytes .setFull A range idx n))
    (halloc : ∀ r i t t' table, Q t → t.getCacheMapEntry r i = some (t', table) → Q t')
    (hpart : ∀ n r l c t, Q t → t.LineAt r l c → Q (mallocPartLine n c t))
    (hwhole : ∀ r l c t, Q t → t.LineAt r l c → Q (mallocWholeLine c t))
    (h0 : Q s) (h : s.mallocUpdateObject A n = some s') : Q s' := by
  simp only [mallocUpdateObject] at h
  split at h
  · cases h
    exact h0
  · split at h
    · cases h
      exact h0
    · exact walks_rule Q (fun n c t => (mallocPartLine_touches n c t).pageMap)
        (fun c t => (mallocWholeLine_touches c t).pageMap) (hpages _ _) halloc hpart hwhole h

theorem freeUpdateObject_rule (Q : ShadowMemory → Prop) {s s' : ShadowMemory} {A : Nat}
    {o : ObjStat} (hpages : ∀ range idx, Q (s.walkPages .subUsedBytes .setEmpty A range idx o.size))
    (halloc : ∀ r i t t' table, Q t → t.getCacheMapEntry r i = some (t', table) → Q t')
    (hpart : ∀ n r l c t, Q t → t.LineAt r l c → Q (freePartLine o n c t))
    (hwhole : ∀ r l c t, Q t → t.LineAt r l c → Q (freeWholeLine o c t))
    (h0 : Q s) (h : s.freeUpdateObject A o = some s') : Q s' := by
  simp only [freeUpdateObject] at h
  split at h
  · cases h
    exact h0
  · split at h
    · cases h
      exact h0
    · exact walks_rule Q (fun n c t => (freePartLine_touches o n c t).pageMap)
        (fun c t => (freeWholeLine_touches o c t).pageMap) (hpages _ _) halloc hpart hwhole h

/-! ## The table of a cleared page -/

/-- The contents of the cache map after a page was cleared. -/
theorem clear_cacheMap (s : ShadowMemory) (range index c : Nat) :
    (s.clear range index).cacheMap c =
      if ∃ t, s.table range index = some t ∧ t ≤ c ∧ c < t + 64 then {} else s.cacheMap c := by
  unfold clear table
  cases ht : (s.pageMap range index).cacheMapEntry with
  | none => simp
  | some t => simp

theorem clear_table (s : ShadowMemory) (range index r i : Nat) :
    (s.clear range index).table r i = s.table r i := by
  unfold clear table
  cases ht : (s.pageMap range index).cacheMapEntry with
  | none =>
      simp only [modifyPage_pageMap]
      split <;> rfl
  | some t =>
      simp only [modifyPage_pageMap]
      split <;> rfl

theorem clear_cacheMapBumpPtr (s : ShadowMemory) (range index : Nat) :
    (s.clear range index).cacheMapBumpPtr = s.cacheMapBumpPtr := by
  unfold clear
  cases (s.pageMap range index).cacheMapEntry <;> rfl

theorem Layout.clear {s : ShadowMemory} (hs : s.Layout) (range index : Nat) :
    (s.clear range index).Layout where
  below ht := by
    rw [clear_table] at ht
    rw [clear_cacheMapBumpPtr]
    exact hs.below ht
  apart ht ht' := by
    rw [clear_table] at ht ht'
    exact hs.apart ht ht'
  fresh c hc := by
    rw [clear_cacheMap]
    split
    · rfl
    · refine hs.fresh c fun r i t ht => hc r i t ?_
      rw [clear_table]
      exact ht

theorem Layout.clearPages {range : Nat} :
    ∀ (n current : Nat) {s : ShadowMemory}, s.Layout → (clearPages range n current s).Layout
  | 0, _, _, hs => hs
  | n + 1, current, _, hs => Layout.clearPages n (current + 1) (hs.clear range current)

/-! ## Every operation -/

theorem sampledLine_cases {s : ShadowMemory} {addr c : Nat} {pme : PageMapEntry}
    (h : s.sampledLine addr = some (pme, c)) :
    ∃ range index, getPageIndex addr = (range, index) ∧ range ≠ numAddressRange
      ∧ pme = s.pageMap range index ∧ pme.getUsedBytes ≠ 0
      ∧ s.LineAt range (64 * index + addr % 4096 / 64) c
      ∧ (s.cacheMap c).getUsedBytes ≠ 0 := by
  have hci : (addr &&& pagesizeMask) >>> log2CachelineSize = addr % 4096 / 64 := by
    rw [shiftRight_log2CachelineSize, and_pagesizeMask]
  unfold sampledLine at h
  simp only [hci] at h
  generalize hp : getPageIndex addr = p at h ⊢
  obtain ⟨range, index⟩ := p
  dsimp only at h
  split at h
  · cases h
  · next hr =>
      split at h
      · cases h
      · next hused =>
          split at h
          · cases h
          · next t ht =>
              split at h
              · cases h
              · next hline =>
                  cases h
                  refine ⟨range, index, rfl, hr, rfl, hused, ⟨t, ?_, by omega⟩, hline⟩
                  rw [show (64 * index + addr % 4096 / 64) / 64 = index by omega]
                  exact ht

theorem layout_step {s s' : ShadowMemory} {op : ShadowOp} (hs : s.Layout)
    (h : s.step op = some s') : s'.Layout := by
  cases op with
  | mallocUpdateObject address size =>
      exact mallocUpdateObject_rule Layout
        (fun _ _ => hs.walkPages .addUsedBytes .setFull (fun _ _ => rfl) (fun _ => rfl) ..)
        (fun _ _ _ _ _ ht hget => ht.getCacheMapEntry hget)
        (fun n _ _ c t ht hl => ht.touch hl (mallocPartLine_touches n c t))
        (fun _ _ c t ht hl => ht.touch hl (mallocWholeLine_touches c t)) hs h
  | freeUpdateObject address o =>
      exact freeUpdateObject_rule Layout
        (fun _ _ => hs.walkPages .subUsedBytes .setEmpty (fun _ _ => rfl) (fun _ => rfl) ..)
        (fun _ _ _ _ _ ht hget => ht.getCacheMapEntry hget)
        (fun n _ _ c t ht hl => ht.touch hl (freePartLine_touches o n c t))
        (fun _ _ c t ht hl => ht.touch hl (freeWholeLine_touches o c t)) hs h
  | cleanupPages addr length =>
      cases h
      exact Layout.clearPages _ _ hs
  | doMemoryAccess tid addr miss =>
      cases h
      unfold doMemoryAccess
      split
      · exact hs
      · next pme c hline =>
          obtain ⟨r, i, -, -, -, -, hl, -⟩ := sampledLine_cases hline
          have hs1 : Layout { s with
              friendlinessStatus := Function.update s.friendlinessStatus tid
                ((s.friendlinessStatus tid).recordANewSampling (s.cacheMap c).getUsedBytes
                  pme.getUsedBytes) } := ⟨hs.below, hs.apart, hs.fresh⟩
          split
          · exact hs1.touch hl (recordMiss_touches _ _ _ _)
          · exact hs1

end ShadowMemory

end MemPerf
