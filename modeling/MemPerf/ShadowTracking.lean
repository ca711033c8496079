import MemPerf.Lib.Run
import MemPerf.Lib.FlaggedTable
import MemPerf.ShadowLayout

/-!
# The conflict table and the coherency table

A line enters the conflict table when `addMiss` finds its `0x80` flag
clear, and the coherency table when a miss finds its `0x40` flag clear.
Both tables only grow, so their entries are distinct for as long as the
flags of the lines in them stay set.

Two operations clear flags without a look at the tables: a free clears
the conflict flag of the lines it covers whole (the first one excepted),
and `cleanupPages` zeroes all lines of a page. `KeepsFlags` is the
condition that neither meets a flagged line; under it every line is
tracked at most once (`tracked_at_most_once`). Without it a line can be
entered again (`tracked_twice_after_cleanup`).

The two halves of a sampled miss are also steps of their own here, since
other threads' calls may come between them.
-/

namespace MemPerf

open Word StepSystem

/-! ## Flags in the miss byte -/

namespace CacheMapEntry

/-- A law of bytes is one of 256 cases. -/
theorem byte_cases {P : BitVec 8 → Prop} (h : ∀ n : Fin 256, P (BitVec.ofFin n)) :
    ∀ m, P m := fun m => h m.toFin

theorem setConflict_conflict (m : BitVec 8) : (m ||| 0x80#8) &&& 0x80#8 ≠ 0#8 := by
  revert m
  exact byte_cases (by decide +kernel)

theorem setConflict_coherency (m : BitVec 8) : (m ||| 0x80#8) &&& 0x40#8 = m &&& 0x40#8 := by
  revert m
  exact byte_cases (by decide +kernel)

theorem setCoherency_coherency (m : BitVec 8) : (m ||| 0x40#8) &&& 0x40#8 ≠ 0#8 := by
  revert m
  exact byte_cases (by decide +kernel)

theorem setCoherency_conflict (m : BitVec 8) : (m ||| 0x40#8) &&& 0x80#8 = m &&& 0x80#8 := by
  revert m
  exact byte_cases (by decide +kernel)

/-- Below five misses the counter has room for one more without a carry
into the flags. -/
theorem countMiss_flags (m : BitVec 8) : (m &&& 0x3f#8).toNat < 5 →
    (m + 1) &&& 0x80#8 = m &&& 0x80#8 ∧ (m + 1) &&& 0x40#8 = m &&& 0x40#8 := by
  revert m
  exact byte_cases (by decide +kernel)

/-- Below its bound the counter counts. -/
theorem countMiss_toNat (m : BitVec 8) : (m &&& 0x3f#8).toNat < 5 →
    ((m + 1) &&& 0x3f#8).toNat = (m &&& 0x3f#8).toNat + 1 := by
  revert m
  exact byte_cases (by decide +kernel)

theorem conflict_congr {e e' : CacheMapEntry}
    (h : e'.misses &&& 0x80#8 = e.misses &&& 0x80#8) : e'.conflict = e.conflict := by
  simp only [conflict, h]

theorem coherency_congr {e e' : CacheMapEntry}
    (h : e'.misses &&& 0x40#8 = e.misses &&& 0x40#8) : e'.coherency = e.coherency := by
  simp only [coherency, h]

theorem conflict_setConflict (e : CacheMapEntry) :
    { e with misses := e.misses ||| 0x80#8 }.conflict = true := by
  simpa [conflict] using setConflict_conflict e.misses

theorem coherency_setCoherency (e : CacheMapEntry) :
    { e with misses := e.misses ||| 0x40#8 }.coherency = true := by
  simpa [coherency] using setCoherency_coherency e.misses

end CacheMapEntry

/-- A miss is counted; it appends the line only if the flag is clear and
there is room in the table and the set. -/
theorem ConflictData.addMiss_cases (d : ConflictData) (addr c : Nat) (e : CacheMapEntry) :
    d.addMiss addr c e = (d.countMiss (setIdOf addr), e)
    ∨ (e.conflict = false ∧ d.numOfCme < cmeMax ∧ d.numOfCmePerSet (setIdOf addr) < 16
      ∧ d.addMiss addr c e = ((d.countMiss (setIdOf addr)).appendCme (setIdOf addr) c,
          { e with misses := e.misses ||| 0x80#8 })) := by
  simp only [addMiss]
  by_cases hwants : (d.countMiss (setIdOf addr)).wantsCme (setIdOf addr) e = true
  · by_cases hroom : (d.countMiss (setIdOf addr)).hasRoom (setIdOf addr) e = true
    · right
      rw [if_pos hwants, if_pos hroom]
      simp only [hasRoom, countMiss, Bool.and_eq_true] at hroom
      exact ⟨by simpa using hroom.2, of_decide_eq_true hroom.1.1, of_decide_eq_true hroom.1.2, rfl⟩
    · left
      rw [if_pos hwants, if_neg hroom]
  · left
    rw [if_neg hwants]

namespace ShadowMemory

/-! ## Steps that keep the tables -/

/-- The entries of both tables are unchanged and flags that were set are
still set. -/
structure KeepsTables (s s' : ShadowMemory) : Prop where
  numOfCme : s'.conflictData.numOfCme = s.conflictData.numOfCme
  cme : s'.conflictData.cme = s.conflictData.cme
  setOfCme : s'.conflictData.setOfCme = s.conflictData.setOfCme
  numOfCmePerSet : s'.conflictData.numOfCmePerSet = s.conflictData.numOfCmePerSet
  numOfCoherencyCaches : s'.numOfCoherencyCaches = s.numOfCoherencyCaches
  coherencyCme : ∀ i, (s'.coherencyCaches i).cme = (s.coherencyCaches i).cme
  conflict : ∀ c, (s.cacheMap c).conflict = true → (s'.cacheMap c).conflict = true
  coherency : ∀ c, (s.cacheMap c).coherency = true → (s'.cacheMap c).coherency = true

theorem KeepsTables.refl (s : ShadowMemory) : KeepsTables s s :=
  ⟨rfl, rfl, rfl, rfl, rfl, fun _ => rfl, fun _ h => h, fun _ h => h⟩

theorem KeepsTables.trans {s s' s'' : ShadowMemory} (h : KeepsTables s s')
    (h' : KeepsTables s' s'') : KeepsTables s s'' where
  numOfCme := h'.numOfCme.trans h.numOfCme
  cme := h'.cme.trans h.cme
  setOfCme := h'.setOfCme.trans h.setOfCme
  numOfCmePerSet := h'.numOfCmePerSet.trans h.numOfCmePerSet
  numOfCoherencyCaches := h'.numOfCoherencyCaches.trans h.numOfCoherencyCaches
  coherencyCme i := (h'.coherencyCme i).trans (h.coherencyCme i)
  conflict c hc := h'.conflict c (h.conflict c hc)
  coherency c hc := h'.coherency c (h.coherency c hc)

/-- A line rewritten without losing a flag. -/
theorem modifyLine_keeps {s : ShadowMemory} {c : Nat} {f : CacheMapEntry → CacheMapEntry}
    (h1 : (s.cacheMap c).conflict = true → (f (s.cacheMap c)).conflict = true)
    (h2 : (s.cacheMap c).coherency = true → (f (s.cacheMap c)).coherency = true) :
    KeepsTables s (s.modifyLine c f) := by
  refine ⟨rfl, rfl, rfl, rfl, rfl, fun _ => rfl, fun c' hc' => ?_, fun c' hc' => ?_⟩
  · by_cases hcc : c' = c
    · subst hcc
      rw [modifyLine_cacheMap_self]
      exact h1 hc'
    · rwa [modifyLine_cacheMap_of_ne _ _ _ hcc]
  · by_cases hcc : c' = c
    · subst hcc
      rw [modifyLine_cacheMap_self]
      exact h2 hc'
    · rwa [modifyLine_cacheMap_of_ne _ _ _ hcc]

theorem checkObj_keeps (s : ShadowMemory) (c callKey : Nat) :
    KeepsTables s (s.setConflictData (s.conflictData.checkObj c callKey)) :=
  ⟨rfl, rfl, rfl, rfl, rfl, fun _ => rfl, fun _ h => h, fun _ h => h⟩

theorem modifyCoherency_keeps {s : ShadowMemory} {i : Nat} {f : CoherencyData → CoherencyData}
    (hf : ∀ d, (f d).cme = d.cme) : KeepsTables s (s.modifyCoherency i f) := by
  refine ⟨rfl, rfl, rfl, rfl, rfl, fun j => ?_, fun _ h => h, fun _ h => h⟩
  by_cases hj : j = i
  · subst hj
    simp [modifyCoherency, hf]
  · simp [modifyCoherency, hj]

theorem recordOwner_cme (tid callKey : Nat) (d : CoherencyData) :
    (d.recordOwner tid callKey).cme = d.cme := by
  unfold CoherencyData.recordOwner
  split <;> rfl

theorem allocTable_keeps (s : ShadowMemory) (range index : Nat) :
    KeepsTables s (s.allocTable range index) :=
  ⟨rfl, rfl, rfl, rfl, rfl, fun _ => rfl, fun _ h => h, fun _ h => h⟩

theorem getCacheMapEntry_keeps {s s' : ShadowMemory} {range index t : Nat}
    (h : s.getCacheMapEntry range index = some (s', t)) : KeepsTables s s' := by
  rcases getCacheMapEntry_cases h with ⟨rfl, -⟩ | ⟨-, -, rfl⟩
  · exact .refl _
  · exact allocTable_keeps _ _ _

theorem walkPages_keeps (part : Nat → PageMapEntry → PageMapEntry)
    (whole : PageMapEntry → PageMapEntry) (addr range idx size : Nat) (s : ShadowMemory) :
    KeepsTables s (s.walkPages part whole addr range idx size) := by
  rw [walkPages_eq]
  exact ⟨rfl, rfl, rfl, rfl, rfl, fun _ => rfl, fun _ h => h, fun _ h => h⟩

theorem mallocPartLine_keeps (n c : Nat) (s : ShadowMemory) :
    KeepsTables s (mallocPartLine n c s) := modifyLine_keeps (fun h => h) fun h => h

theorem mallocWholeLine_keeps (c : Nat) (s : ShadowMemory) :
    KeepsTables s (mallocWholeLine c s) := modifyLine_keeps (fun h => h) fun h => h

theorem freePartLine_keeps (o : ObjStat) (n c : Nat) (s : ShadowMemory) :
    KeepsTables s (freePartLine o n c s) := by
  have h1 : KeepsTables s (s.modifyLine c (.subUsedBytes n)) :=
    modifyLine_keeps (fun h => h) fun h => h
  simp only [freePartLine]
  split
  · split
    · exact (h1.trans (checkObj_keeps _ _ _)).trans (modifyCoherency_keeps (recordOwner_cme _ _))
    · exact h1.trans (checkObj_keeps _ _ _)
  · split
    · exact h1.trans (modifyCoherency_keeps (recordOwner_cme _ _))
    · exact h1

/-- A whole line without conflict flag has no flag to lose. -/
theorem freeWholeLine_keeps {o : ObjStat} {c : Nat} {s : ShadowMemory}
    (h : (s.cacheMap c).conflict = false) : KeepsTables s (freeWholeLine o c s) := by
  simp only [freeWholeLine, h, Bool.false_eq_true, if_false]
  exact modifyLine_keeps (fun h => h) fun h => h

/-- The coherency half of a miss records it, or appends the line. -/
theorem recordCoherency_cases (s : ShadowMemory) (tid addr c : Nat) :
    KeepsTables s (s.recordCoherency tid addr c)
    ∨ (s.numOfCoherencyCaches < coherencyCachesMax ∧ (s.cacheMap c).coherency = false
      ∧ ∃ d : CoherencyData, d.cme = some c ∧ s.recordCoherency tid addr c =
        { s.modifyLine c fun e => { e with misses := e.misses ||| 0x40#8 } with
          numOfCoherencyCaches := s.numOfCoherencyCaches + 1
          coherencyCaches :=
            Function.update s.coherencyCaches s.numOfCoherencyCaches d }) := by
  rcases recordCoherency_outcomes s tid addr c with
    ⟨-, -, heq⟩ | ⟨-, hclear, hroom, heq⟩ | ⟨-, -, -, heq⟩ | ⟨hfew, heq⟩
  · rw [heq]
    exact .inl (modifyCoherency_keeps fun _ => rfl)
  · exact .inr ⟨hroom, hclear, _, rfl, heq⟩
  · rw [heq]
    exact .inl (.refl _)
  · rw [heq]
    obtain ⟨h1, h2⟩ := CacheMapEntry.countMiss_flags (s.cacheMap c).misses hfew
    refine .inl (modifyLine_keeps (fun h => ?_) fun h => ?_)
    · rwa [CacheMapEntry.conflict_congr h1]
    · rwa [CacheMapEntry.coherency_congr h2]

/-! ## The invariant -/

/-- The per-set counters of the conflict table count its entries. -/
structure SetCounts (d : ConflictData) : Prop where
  perSet : ∀ set, d.numOfCmePerSet set
    = (List.range d.numOfCme).countP fun i => d.setOfCme i == set
  perSet_le : ∀ set, d.numOfCmePerSet set ≤ 16
  total_le : d.numOfCme ≤ cmeMax

theorem setCounts_append {d : ConflictData} {setId c : Nat} (h : SetCounts d)
    (htotal : d.numOfCme < cmeMax) (hset : d.numOfCmePerSet setId < 16) :
    SetCounts (d.appendCme setId c) := by
  simp only [cmeMax] at htotal
  have htotal' : wrap 8 (d.numOfCme + 1) = d.numOfCme + 1 := wrap_of_lt (by omega)
  have hset' : wrap 8 (d.numOfCmePerSet setId + 1) = d.numOfCmePerSet setId + 1 :=
    wrap_of_lt (by omega)
  -- the entries before the new one are counted as before
  have hold : ∀ set, (List.range d.numOfCme).countP
      (fun i => Function.update d.setOfCme d.numOfCme setId i == set)
      = d.numOfCmePerSet set := by
    intro set
    rw [h.perSet]
    refine List.countP_congr fun i hi => ?_
    rw [Function.update_of_ne (Nat.ne_of_lt (List.mem_range.mp hi))]
  refine ⟨fun set => ?_, fun set => ?_, ?_⟩
  · simp only [ConflictData.appendCme, htotal', hset', List.range_succ, List.countP_append, hold,
      List.countP_singleton, Function.update_self]
    by_cases hs : set = setId
    · subst hs
      simp
    · simp [Ne.symm hs, Function.update_of_ne hs]
  · simp only [ConflictData.appendCme, hset']
    by_cases hs : set = setId
    · subst hs
      rw [Function.update_self]
      omega
    · rw [Function.update_of_ne hs]
      exact h.perSet_le set
  · simp only [ConflictData.appendCme, htotal', cmeMax]
    omega

/-- Both tables hold distinct lines, each with its flag set. -/
structure Tracked (s : ShadowMemory) : Prop where
  layout : s.Layout
  conflictTable : FlaggedTable s.conflictData.cme s.conflictData.numOfCme
    fun c => (s.cacheMap c).conflict = true
  coherencyTable : FlaggedTable (fun i => (s.coherencyCaches i).cme) s.numOfCoherencyCaches
    fun c => (s.cacheMap c).coherency = true
  setCounts : SetCounts s.conflictData

theorem tracked_init : Tracked {} where
  layout := layout_init
  conflictTable := .empty
  coherencyTable := .empty
  setCounts := ⟨fun _ => rfl, fun _ => Nat.zero_le _, Nat.zero_le _⟩

namespace Tracked

variable {s s' : ShadowMemory}

theorem keeps (hs : Tracked s) (hl : s'.Layout) (h : KeepsTables s s') : Tracked s' where
  layout := hl
  conflictTable := by
    rw [h.numOfCme, h.cme]
    exact hs.conflictTable.mono (fun _ _ => rfl) h.conflict
  coherencyTable := by
    rw [h.numOfCoherencyCaches]
    exact hs.coherencyTable.mono (fun i _ => h.coherencyCme i) h.coherency
  setCounts := by
    obtain ⟨h1, h2, h3⟩ := hs.setCounts
    refine ⟨fun set => ?_, fun set => ?_, ?_⟩
    · rw [h.numOfCmePerSet, h.numOfCme, h.setOfCme]
      exact h1 set
    · rw [h.numOfCmePerSet]
      exact h2 set
    · rw [h.numOfCme]
      exact h3

/-- Rewriting one line without losing its flag loses no line's flag. -/
theorem flag_modifyLine (flag : CacheMapEntry → Bool) {c : Nat}
    {f : CacheMapEntry → CacheMapEntry} (s : ShadowMemory)
    (hf : flag (s.cacheMap c) = true → flag (f (s.cacheMap c)) = true) (c' : Nat)
    (hc' : flag (s.cacheMap c') = true) : flag ((s.modifyLine c f).cacheMap c') = true := by
  by_cases hcc : c' = c
  · subst hcc
    rw [modifyLine_cacheMap_self]
    exact hf hc'
  · rwa [modifyLine_cacheMap_of_ne _ _ _ hcc]

/-- `addMiss` appends only a line whose conflict flag is clear, and sets
the flag. -/
theorem addMiss (hs : Tracked s) {range l c : Nat} (hl : s.LineAt range l c) (addr : Nat) :
    Tracked (s.addMiss addr c) := by
  have hlay : (s.addMiss addr c).Layout := hs.layout.touch hl (addMiss_touches _ _ _)
  rcases ConflictData.addMiss_cases s.conflictData addr c (s.cacheMap c) with
    hsame | ⟨hclear, htotal, hset, happ⟩
  · refine hs.keeps hlay ?_
    rw [ShadowMemory.addMiss, hsame]
    have h1 : KeepsTables s (s.setConflictData
        (s.conflictData.countMiss (ConflictData.setIdOf addr))) :=
      ⟨rfl, rfl, rfl, rfl, rfl, fun _ => rfl, fun _ h => h, fun _ h => h⟩
    exact h1.trans (modifyLine_keeps (fun h => h) fun h => h)
  · have hcounts : SetCounts (s.conflictData.countMiss (ConflictData.setIdOf addr)) :=
      ⟨hs.setCounts.perSet, hs.setCounts.perSet_le, hs.setCounts.total_le⟩
    have hnum : wrap 8 (s.conflictData.numOfCme + 1) = s.conflictData.numOfCme + 1 :=
      wrap_of_lt (by simp only [cmeMax] at htotal; omega)
    rw [ShadowMemory.addMiss, happ] at hlay ⊢
    generalize hd : ((s.conflictData.countMiss (ConflictData.setIdOf addr)).appendCme
      (ConflictData.setIdOf addr) c) = d at hlay ⊢
    have hconf := flag_modifyLine CacheMapEntry.conflict (c := c) (s.setConflictData d)
      (f := fun _ => { s.cacheMap c with misses := (s.cacheMap c).misses ||| 0x80#8 })
      fun _ => CacheMapEntry.conflict_setConflict _
    have hcoh := flag_modifyLine CacheMapEntry.coherency (c := c) (s.setConflictData d)
      (f := fun _ => { s.cacheMap c with misses := (s.cacheMap c).misses ||| 0x80#8 })
      fun h => (CacheMapEntry.coherency_congr (CacheMapEntry.setConflict_coherency _)).trans h
    refine ⟨hlay, ?_, hs.coherencyTable.mono (fun _ _ => rfl) hcoh, ?_⟩
    · have hpush := hs.conflictTable.push (k := c) (by simpa using hclear) hconf
        (by rw [modifyLine_cacheMap_self]; exact CacheMapEntry.conflict_setConflict _)
      subst hd
      rwa [← hnum] at hpush
    · subst hd
      exact setCounts_append hcounts htotal hset

/-- The coherency half of a miss appends only a line whose coherency flag
is clear, and sets the flag. -/
theorem recordCoherency (hs : Tracked s) {range l c : Nat} (hl : s.LineAt range l c)
    (tid addr : Nat) : Tracked (s.recordCoherency tid addr c) := by
  have hlay : (s.recordCoherency tid addr c).Layout :=
    hs.layout.touch hl (recordCoherency_touches _ _ _ _)
  rcases recordCoherency_cases s tid addr c with hkeep | ⟨hroom, hclear, d, hd, happ⟩
  · exact hs.keeps hlay hkeep
  · rw [happ] at hlay ⊢
    have hconf := flag_modifyLine CacheMapEntry.conflict (c := c) s
      (f := fun e => { e with misses := e.misses ||| 0x40#8 })
      fun h => (CacheMapEntry.conflict_congr (CacheMapEntry.setCoherency_conflict _)).trans h
    have hcoh := flag_modifyLine CacheMapEntry.coherency (c := c) s
      (f := fun e => { e with misses := e.misses ||| 0x40#8 })
      fun _ => CacheMapEntry.coherency_setCoherency _
    refine ⟨hlay, hs.conflictTable.mono (fun _ _ => rfl) hconf, ?_, hs.setCounts⟩
    have hcme : (fun i => (Function.update s.coherencyCaches s.numOfCoherencyCaches d i).cme)
        = Function.update (fun i => (s.coherencyCaches i).cme) s.numOfCoherencyCaches
          (some c) := by
      funext i
      by_cases hi : i = s.numOfCoherencyCaches
      · subst hi
        simp [hd]
      · simp [Function.update_of_ne hi]
    have hpush := hs.coherencyTable.push (k := c) (by simpa using hclear) hcoh
      (by rw [modifyLine_cacheMap_self]; exact CacheMapEntry.coherency_setCoherency _)
    rwa [← hcme] at hpush

end Tracked

/-! ## Whole operations -/

theorem mallocUpdateObject_keeps {s s' : ShadowMemory} {A n : Nat}
    (h : s.mallocUpdateObject A n = some s') : KeepsTables s s' :=
  mallocUpdateObject_rule (KeepsTables s)
    (fun _ _ => walkPages_keeps .addUsedBytes .setFull _ _ _ _ s)
    (fun _ _ _ _ _ ht hget => ht.trans (getCacheMapEntry_keeps hget))
    (fun n _ _ c t ht _ => ht.trans (mallocPartLine_keeps n c t))
    (fun _ _ c t ht _ => ht.trans (mallocWholeLine_keeps c t)) (.refl s) h

/-- Line `l` of the object's range is covered whole by the object and is
not its first line. -/
def WholeLine (address size l : Nat) : Prop :=
  address < rangeBase (getPageIndex address).1 + 64 * l
  ∧ rangeBase (getPageIndex address).1 + 64 * l + 64 ≤ address + size

/-- No line the free covers whole is in the conflict table. -/
def FreeKeepsFlags (s : ShadowMemory) (address : Nat) (objStat : ObjStat) : Prop :=
  ∀ l c, s.LineAt (getPageIndex address).1 l c → WholeLine address objStat.size l →
    (s.cacheMap c).conflict = false

/-- No line of the cleaned pages is in one of the tables. -/
def CleanupKeepsFlags (s : ShadowMemory) (uintaddr length : Nat) : Prop :=
  ∀ l c, s.LineAt (getPageIndex uintaddr).1 l c → (getPageIndex uintaddr).2 ≤ l / 64 →
    l / 64 < (getPageIndex uintaddr).2 + alignup length pagesize / pagesize →
    (s.cacheMap c).conflict = false ∧ (s.cacheMap c).coherency = false

/-- Conflict flags are not set by what happens between `s` and `s'`. -/
def NoNewConflict (s s' : ShadowMemory) : Prop :=
  ∀ c, (s.cacheMap c).conflict = false → (s'.cacheMap c).conflict = false

theorem freePartLine_conflict (o : ObjStat) (n c : Nat) (s : ShadowMemory) :
    NoNewConflict s (freePartLine o n c s) := by
  have hline : ∀ c', ((s.modifyLine c (.subUsedBytes n)).cacheMap c').conflict
      = (s.cacheMap c').conflict := by
    intro c'
    by_cases hcc : c' = c
    · subst hcc
      rw [modifyLine_cacheMap_self]
      rfl
    · rw [modifyLine_cacheMap_of_ne _ _ _ hcc]
  have hmap : (freePartLine o n c s).cacheMap = (s.modifyLine c (.subUsedBytes n)).cacheMap := by
    simp only [freePartLine]
    split <;> split <;> rfl
  intro c' hc'
  rw [hmap, hline]
  exact hc'

theorem freeWholeLine_conflict {o : ObjStat} {c : Nat} {s : ShadowMemory}
    (h : (s.cacheMap c).conflict = false) : NoNewConflict s (freeWholeLine o c s) := by
  intro c' hc'
  simp only [freeWholeLine, h, Bool.false_eq_true, if_false]
  by_cases hcc : c' = c
  · subst hcc
    rw [modifyLine_cacheMap_self]
    exact hc'
  · rwa [modifyLine_cacheMap_of_ne _ _ _ hcc]

theorem freeUpdateObject_keeps {s s' : ShadowMemory} {A : Nat} {o : ObjStat} (hs : s.Layout)
    (hflags : FreeKeepsFlags s A o) (h : s.freeUpdateObject A o = some s') :
    KeepsTables s s' := by
  rcases hp : getPageIndex A with ⟨r, i⟩
  simp only [freeUpdateObject, hp] at h
  split at h
  · cases h; exact .refl _
  · split at h
    · cases h; exact .refl _
    · next hr =>
        obtain ⟨-, hA⟩ := getPageIndex_start hp hr
        simp only [FreeKeepsFlags, WholeLine, hp] at hflags
        rw [freeUpdateCacheLines, shiftRight_log2CachelineSize, and_pagesizeMask,
          and_cachelineSizeMask] at h
        -- all along the walk, the lines still to be covered whole have no conflict flag
        let Clear : ShadowMemory → Prop := fun t =>
          ∀ l c, t.LineAt r l c → A < rangeBase r + 64 * l →
            rangeBase r + 64 * l + 64 ≤ A + o.size → (t.cacheMap c).conflict = false
        have hclear : ∀ {t t' : ShadowMemory}, Clear t → t'.pageMap = t.pageMap →
            NoNewConflict t t' → Clear t' := fun ht hpm hno l c hl h1 h2 =>
          hno c (ht l c ((LineAt.congr hpm).mp hl) h1 h2)
        have halloc : ∀ {t t' : ShadowMemory} {j tab : Nat}, t.Layout → Clear t →
            t.getCacheMapEntry r j = some (t', tab) → Clear t' := by
          intro t t' j tab ht hc hget l c hl h1 h2
          rcases getCacheMapEntry_cases hget with ⟨rfl, -⟩ | ⟨hnone, -, rfl⟩
          · exact hc l c hl h1 h2
          · obtain ⟨tab', htab, rfl⟩ := hl
            have htab' : (t.allocTable r j).table r (l / 64) = some tab' := htab
            rw [table_allocTable] at htab'
            split at htab'
            · cases htab'
              show (t.cacheMap (t.cacheMapBumpPtr + l % 64)).conflict = false
              rw [ht.fresh _ fun r' i' t' h' => by have := ht.below h'; omega]
              rfl
            · exact hc l _ ⟨tab', htab', rfl⟩ h1 h2
        have h0 : KeepsTables s (s.freeUpdatePages A r i o.size)
            ∧ (s.freeUpdatePages A r i o.size).Layout ∧ Clear (s.freeUpdatePages A r i o.size) := by
          refine ⟨walkPages_keeps .subUsedBytes .setEmpty _ _ _ _ s,
            hs.walkPages .subUsedBytes .setEmpty (fun _ _ => rfl) (fun _ => rfl) .., ?_⟩
          rintro l c ⟨t, ht, rfl⟩ h1 h2
          have hcm : (s.freeUpdatePages A r i o.size).cacheMap = s.cacheMap := by
            rw [freeUpdatePages, walkPages_eq]
          have htab : (s.freeUpdatePages A r i o.size).table r (l / 64) = s.table r (l / 64) := by
            simp only [table, freeUpdatePages, walkPages_eq, if_true]
            exact walkedPage_cacheMapEntry .subUsedBytes .setEmpty (fun _ _ => rfl)
              (fun _ => rfl) ..
          rw [hcm]
          exact hflags l _ ⟨t, htab.symm.trans ht, rfl⟩ ⟨h1, h2⟩
        obtain ⟨-, -, hs', -⟩ := walkCacheLines_rule
          (fun _ t => KeepsTables s t ∧ t.Layout ∧ Clear t)
          (fun _ _ _ _ _ ht hget => ⟨ht.1.trans (getCacheMapEntry_keeps hget),
            ht.2.1.getCacheMapEntry hget, halloc ht.2.1 ht.2.2 hget⟩) (by omega) (by omega)
          (fun n c t => (freePartLine_touches o n c t).pageMap)
          (fun c t => (freeWholeLine_touches o c t).pageMap)
          (fun c t ht hl => ⟨ht.1.trans (freePartLine_keeps o _ c t),
            ht.2.1.touch hl (freePartLine_touches o _ c t),
            hclear ht.2.2 (freePartLine_touches o _ c t).pageMap (freePartLine_conflict o _ c t)⟩)
          (fun l c t h1 h2 ht hl => by
            have hno : (t.cacheMap c).conflict = false := ht.2.2 l c hl (by omega) (by omega)
            exact ⟨ht.1.trans (freeWholeLine_keeps hno),
              ht.2.1.touch hl (freeWholeLine_touches o c t),
              hclear ht.2.2 (freeWholeLine_touches o c t).pageMap (freeWholeLine_conflict hno)⟩)
          (fun l c t _ _ _ ht hl => ⟨ht.1.trans (freePartLine_keeps o _ c t),
            ht.2.1.touch hl (freePartLine_touches o _ c t),
            hclear ht.2.2 (freePartLine_touches o _ c t).pageMap (freePartLine_conflict o _ c t)⟩)
          h h0
        exact hs'

/-- Clearing a page none of whose lines has a flag. -/
theorem clear_keeps {s : ShadowMemory} {range index : Nat}
    (h : ∀ l c, s.LineAt range l c → l / 64 = index →
      (s.cacheMap c).conflict = false ∧ (s.cacheMap c).coherency = false) :
    KeepsTables s (s.clear range index) := by
  have hflag : ∀ flag : CacheMapEntry → Bool, (∀ l c, s.LineAt range l c → l / 64 = index →
      flag (s.cacheMap c) = false) → ∀ c, flag (s.cacheMap c) = true →
      flag ((s.clear range index).cacheMap c) = true := by
    intro flag hno c hc
    rw [clear_cacheMap]
    split
    · next hcell =>
        obtain ⟨t, ht, h1, h2⟩ := hcell
        have hl : s.LineAt range (64 * index + (c - t)) c := by
          refine ⟨t, ?_, by omega⟩
          rw [show (64 * index + (c - t)) / 64 = index by omega]
          exact ht
        rw [hno _ c hl (by omega)] at hc
        cases hc
    · exact hc
  have h1 := hflag CacheMapEntry.conflict fun l c hl hi => (h l c hl hi).1
  have h2 := hflag CacheMapEntry.coherency fun l c hl hi => (h l c hl hi).2
  revert h1 h2
  unfold clear
  split
  · exact fun h1 h2 => ⟨rfl, rfl, rfl, rfl, rfl, fun _ => rfl, h1, h2⟩
  · exact fun h1 h2 => ⟨rfl, rfl, rfl, rfl, rfl, fun _ => rfl, h1, h2⟩

theorem clearPages_keeps {range : Nat} : ∀ (n current : Nat) {s : ShadowMemory},
    (∀ l c, s.LineAt range l c → current ≤ l / 64 → l / 64 < current + n →
      (s.cacheMap c).conflict = false ∧ (s.cacheMap c).coherency = false) →
    KeepsTables s (clearPages range n current s)
  | 0, _, s, _ => .refl s
  | n + 1, current, s, h => by
      have h1 : KeepsTables s (s.clear range current) :=
        clear_keeps fun l c hl hi => h l c hl (by omega) (by omega)
      refine h1.trans (clearPages_keeps n (current + 1) fun l c hl hlo hhi => ?_)
      have hl' : s.LineAt range l c := by
        obtain ⟨t, ht, hc⟩ := hl
        exact ⟨t, (clear_table s range current range (l / 64)).symm.trans ht, hc⟩
      rw [clear_cacheMap]
      split
      · exact ⟨rfl, rfl⟩
      · exact h l c hl' (by omega) (by omega)

theorem cleanupPages_keeps {s : ShadowMemory} {uintaddr length : Nat}
    (h : CleanupKeepsFlags s uintaddr length) : KeepsTables s (s.cleanupPages uintaddr length) := by
  simp only [cleanupPages]
  exact clearPages_keeps _ _ h

end ShadowMemory

/-! ## Runs -/

/-- A call into the shadow memory, or one half of a sampled miss. -/
inductive TrackingOp where
  | call (op : ShadowOp)
  | addMiss (uintaddr current : Nat)
  | recordCoherency (tid uintaddr current : Nat)
deriving DecidableEq, Repr

def ShadowMemory.trackingStep (s : ShadowMemory) : TrackingOp → Option ShadowMemory
  | .call op => s.step op
  | .addMiss uintaddr current => some (s.addMiss uintaddr current)
  | .recordCoherency tid uintaddr current => some (s.recordCoherency tid uintaddr current)

/-- A line pointer points into the line table of some page. -/
def ValidLine (_ : List TrackingOp) (s : ShadowMemory) : TrackingOp → Prop
  | .call _ => True
  | .addMiss _ current => ∃ range l, s.LineAt range l current
  | .recordCoherency _ _ current => ∃ range l, s.LineAt range l current

/-- The operation clears no flag of a tracked line. -/
def KeepsFlags (s : ShadowMemory) : TrackingOp → Prop
  | .call (.freeUpdateObject address objStat) => s.FreeKeepsFlags address objStat
  | .call (.cleanupPages uintaddr length) => s.CleanupKeepsFlags uintaddr length
  | _ => True

/-- Each line is tracked at most once, and the counters agree. -/
structure TrackedOnce (s : ShadowMemory) : Prop where
  cmeDistinct : ∀ i < s.conflictData.numOfCme, ∀ j < s.conflictData.numOfCme,
    s.conflictData.cme i = s.conflictData.cme j → i = j
  coherencyDistinct : ∀ i < s.numOfCoherencyCaches, ∀ j < s.numOfCoherencyCaches,
    (s.coherencyCaches i).cme = (s.coherencyCaches j).cme → i = j
  perSet : ∀ set, s.conflictData.numOfCmePerSet set
    = (List.range s.conflictData.numOfCme).countP fun i => s.conflictData.setOfCme i == set
  perSet_le : ∀ set, s.conflictData.numOfCmePerSet set ≤ 16
  numOfCme_le : s.conflictData.numOfCme ≤ cmeMax

namespace ShadowMemory.Tracked

variable {s s' : ShadowMemory}

theorem trackedOnce (hs : Tracked s) : TrackedOnce s :=
  ⟨hs.conflictTable.distinct, hs.coherencyTable.distinct, hs.setCounts.perSet,
    hs.setCounts.perSet_le, hs.setCounts.total_le⟩

theorem doMemoryAccess (hs : Tracked s) (tid addr : Nat) (miss : Bool) :
    Tracked (s.doMemoryAccess tid addr miss) := by
  unfold ShadowMemory.doMemoryAccess
  split
  · exact hs
  · next pme c hline =>
      obtain ⟨r, i, -, -, -, -, hl, -⟩ := sampledLine_cases hline
      have hs1 : Tracked { s with
          friendlinessStatus := Function.update s.friendlinessStatus tid
            ((s.friendlinessStatus tid).recordANewSampling (s.cacheMap c).getUsedBytes
              pme.getUsedBytes) } :=
        ⟨⟨hs.layout.below, hs.layout.apart, hs.layout.fresh⟩, hs.conflictTable,
          hs.coherencyTable, hs.setCounts⟩
      split
      · exact (hs1.addMiss hl addr).recordCoherency
          ((LineAt.congr (addMiss_touches _ _ _).pageMap).mpr hl) tid addr
      · exact hs1

theorem step {past : List TrackingOp} {op : TrackingOp} (hs : Tracked s)
    (hvalid : ValidLine past s op) (hflags : KeepsFlags s op)
    (h : s.trackingStep op = some s') : Tracked s' := by
  cases op with
  | call op =>
      have hlay := layout_step hs.layout h
      cases op with
      | mallocUpdateObject address size => exact hs.keeps hlay (mallocUpdateObject_keeps h)
      | freeUpdateObject address objStat =>
          exact hs.keeps hlay (freeUpdateObject_keeps hs.layout hflags h)
      | cleanupPages uintaddr length =>
          cases h
          exact hs.keeps hlay (cleanupPages_keeps hflags)
      | doMemoryAccess tid uintaddr miss =>
          cases h
          exact hs.doMemoryAccess tid uintaddr miss
  | addMiss uintaddr current =>
      obtain ⟨range, l, hl⟩ := hvalid
      cases h
      exact hs.addMiss hl uintaddr
  | recordCoherency tid uintaddr current =>
      obtain ⟨range, l, hl⟩ := hvalid
      cases h
      exact hs.recordCoherency hl tid uintaddr

end ShadowMemory.Tracked

/-- **Each cache line is tracked at most once**, in every run that clears
no flag of a tracked line. -/
theorem tracked_at_most_once {past : List TrackingOp} {s : ShadowMemory}
    (h : Run ShadowMemory.trackingStep (fun past s op => ValidLine past s op ∧ KeepsFlags s op)
      {} past s) : TrackedOnce s :=
  (h.invariant ShadowMemory.Tracked ShadowMemory.tracked_init
    fun _ _ _ _ hs hg hstep => hs.step hg.1 hg.2 hstep).trackedOnce

/-- Six misses on one line enter it into the coherency table once. -/
theorem tracked_at_most_once_six_misses :
    ∃ past s, Run ShadowMemory.trackingStep
      (fun past s op => ValidLine past s op ∧ KeepsFlags s op) {} past s
      ∧ s.numOfCoherencyCaches = 1 ∧ TrackedOnce s := by
  let ops : List TrackingOp := .call (.mallocUpdateObject 0x10000000000 8)
    :: List.replicate 6 (.call (.doMemoryAccess 1 0x10000000000 true))
  have hone : ((ops.foldlM ShadowMemory.trackingStep {}).map fun s => s.numOfCoherencyCaches)
      = some 1 := by decide +kernel
  obtain ⟨s, hs, hnum⟩ := Option.map_eq_some_iff.mp hone
  have hrun : Run ShadowMemory.trackingStep
      (fun past s op => ValidLine past s op ∧ KeepsFlags s op) {} ops s := by
    refine Run.ofFoldlM (fun op hop past t => ?_) hs
    rcases List.mem_cons.mp hop with rfl | hop
    · exact ⟨trivial, trivial⟩
    · obtain rfl := List.eq_of_mem_replicate hop
      exact ⟨trivial, trivial⟩
  exact ⟨ops, s, hrun, hnum, tracked_at_most_once hrun⟩

/-- Six misses, the page freed and cleaned, six misses on its next
object: the line is in the coherency table twice. -/
theorem tracked_twice_after_cleanup :
    ¬ ∀ past s, Run ShadowMemory.trackingStep ValidLine {} past s → TrackedOnce s := by
  intro hclaim
  let round : List ShadowOp := .mallocUpdateObject 0x10000000000 8
    :: List.replicate 6 (.doMemoryAccess 1 0x10000000000 true)
  let ops : List TrackingOp := (round ++ .freeUpdateObject 0x10000000000 ⟨1, 1, 8⟩
    :: .cleanupPages 0x10000000000 4096 :: round).map .call
  have htwice : ((ops.foldlM ShadowMemory.trackingStep {}).map fun s =>
      (s.numOfCoherencyCaches, (s.coherencyCaches 0).cme, (s.coherencyCaches 1).cme))
        = some (2, some 0, some 0) := by decide +kernel
  obtain ⟨s, hs, hvals⟩ := Option.map_eq_some_iff.mp htwice
  simp only [Prod.mk.injEq] at hvals
  obtain ⟨hnum, h0, h1⟩ := hvals
  have hrun : Run ShadowMemory.trackingStep ValidLine {} ops s := by
    refine Run.ofFoldlM (fun op hop past t => ?_) hs
    obtain ⟨call, -, rfl⟩ := List.mem_map.mp hop
    trivial
  have habs := (hclaim ops s hrun).coherencyDistinct 0 (by omega) 1 (by omega) (h0.trans h1.symm)
  exact absurd habs (by decide)

end MemPerf
