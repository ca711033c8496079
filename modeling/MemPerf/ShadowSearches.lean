import MemPerf.ShadowChecked
import MemPerf.ShadowTracking

/-!
# The searches in the two tables

`checkObj`, the coherency half of a miss and the owner update of a free
look for a line's slot and then use the index without asking whether
anything was found. They may, because a flag is only ever set together
with an entry and entries are never removed: `Registered` is that
invariant, with the miss counter that shares the byte kept at five.

To speak of every search a call makes, also in the middle of a walk,
each operation has a checked twin that stops with a `Fault` where a
search does not end at the line's entry or a miss is counted into the
flags. In every
reachable state the twins do what the operations do
(`searches_stop_inside`).
-/

namespace MemPerf

open Word Search StepSystem

/-! ## Checked operations -/

namespace ConflictData

/-- Where the search of `checkObj` stops. -/
def indexOf (current : Nat) (d : ConflictData) : Nat :=
  firstIndex d.numOfCme fun i => d.cme i == some current

def checkObjChecked (current callKey : Nat) (d : ConflictData) : Except Fault ConflictData :=
  if d.indexOf current < d.numOfCme ∧ d.cme (d.indexOf current) = some current then
    .ok (d.checkObj current callKey)
  else .error .searchFailed

end ConflictData

namespace ShadowMemory

def checkObjChecked (s : ShadowMemory) (current callKey : Nat) : Except Fault ShadowMemory := do
  let d ← s.conflictData.checkObjChecked current callKey
  .ok (s.setConflictData d)

/-- A slot of `coherencyCaches` rewritten after the search for it. -/
def modifyCoherencyChecked (s : ShadowMemory) (current : Nat)
    (f : CoherencyData → CoherencyData) : Except Fault ShadowMemory :=
  if s.coherencyIndex current < s.numOfCoherencyCaches
      ∧ (s.coherencyCaches (s.coherencyIndex current)).cme = some current then
    .ok (s.modifyCoherency (s.coherencyIndex current) f)
  else .error .searchFailed

def freePartLineChecked (objStat : ObjStat) (numBytes current : Nat) (s : ShadowMemory) :
    Except Fault ShadowMemory := do
  let s := s.modifyLine current (.subUsedBytes numBytes)
  let s ← (if (s.cacheMap current).conflict then s.checkObjChecked current objStat.callKey
    else .ok s)
  if (s.cacheMap current).coherency then
    s.modifyCoherencyChecked current (.recordOwner objStat.tid objStat.callKey)
  else .ok s

def freeWholeLineChecked (objStat : ObjStat) (current : Nat) (s : ShadowMemory) :
    Except Fault ShadowMemory := do
  let s ← (if (s.cacheMap current).conflict then do
      let s ← s.checkObjChecked current objStat.callKey
      .ok (s.modifyLine current fun e => { e with misses := e.misses &&& 0x7f#8 })
    else .ok s)
  .ok (s.modifyLine current .setEmpty)

def freeUpdateCacheLinesChecked (range pageIndex cacheIndex firstCacheLineOffset : Nat)
    (objStat : ObjStat) (s : ShadowMemory) : Except Fault ShadowMemory :=
  s.walkCacheLinesChecked (fun s index => orAbort (s.getCacheMapEntry range index))
    (freePartLineChecked objStat) (freeWholeLineChecked objStat) pageIndex cacheIndex
    firstCacheLineOffset objStat.size

def freeUpdateObjectChecked (address : Nat) (objStat : ObjStat) (s : ShadowMemory) :
    Except Fault ShadowMemory :=
  if objStat.size = 0 then .ok s
  else
    let (firstPageRange, firstPageIdx) := getPageIndex address
    if firstPageRange = numAddressRange then .ok s
    else
      let s := s.freeUpdatePages address firstPageRange firstPageIdx objStat.size
      let firstCacheLineOffset := address &&& cachelineSizeMask
      let curCacheLineIdx := (address &&& pagesizeMask) >>> log2CachelineSize
      s.freeUpdateCacheLinesChecked firstPageRange firstPageIdx curCacheLineIdx
        firstCacheLineOffset objStat

/-- The coherency half of a miss; counting a miss must leave both flags
as they are. -/
def recordCoherencyChecked (tid uintaddr current : Nat) (s : ShadowMemory) :
    Except Fault ShadowMemory :=
  let e := s.cacheMap current
  if 5 ≤ (e.misses &&& 0x3f#8).toNat then
    if e.coherency then
      s.modifyCoherencyChecked current fun d =>
        ({ d with misses := wrap 16 (d.misses + 1) }).recordWord (wordIndexOf uintaddr) tid
    else .ok (s.recordCoherency tid uintaddr current)
  else if (e.misses + 1) &&& 0xc0#8 = e.misses &&& 0xc0#8 then
    .ok (s.modifyLine current fun e => { e with misses := e.misses + 1 })
  else .error .counterCarry

def doMemoryAccessChecked (tid uintaddr : Nat) (miss : Bool) (s : ShadowMemory) :
    Except Fault ShadowMemory :=
  match s.sampledLine uintaddr with
  | none => .ok s
  | some (pme, current) =>
      let s := { s with
        friendlinessStatus := Function.update s.friendlinessStatus tid
          ((s.friendlinessStatus tid).recordANewSampling (s.cacheMap current).getUsedBytes
            pme.getUsedBytes) }
      if miss then (s.addMiss uintaddr current).recordCoherencyChecked tid uintaddr current
      else .ok s

end ShadowMemory

/-! ## Steps -/

/-- A call into the shadow memory, or one of the two functions below it
called with any arguments. -/
inductive SearchOp where
  | call (op : ShadowOp)
  | addMiss (uintaddr current : Nat)
  | freeUpdateCacheLines (range pageIndex cacheIndex firstCacheLineOffset : Nat)
      (objStat : ObjStat)
deriving DecidableEq, Repr

def ShadowMemory.searchStep (s : ShadowMemory) : SearchOp → Option ShadowMemory
  | .call op => s.step op
  | .addMiss uintaddr current => some (s.addMiss uintaddr current)
  | .freeUpdateCacheLines range pageIndex cacheIndex firstCacheLineOffset objStat =>
      s.freeUpdateCacheLines range pageIndex cacheIndex firstCacheLineOffset objStat

def ShadowMemory.searchStepChecked (s : ShadowMemory) : SearchOp → Except Fault ShadowMemory
  | .call (.mallocUpdateObject address size) => orAbort (s.mallocUpdateObject address size)
  | .call (.freeUpdateObject address objStat) => s.freeUpdateObjectChecked address objStat
  | .call (.cleanupPages uintaddr length) => .ok (s.cleanupPages uintaddr length)
  | .call (.doMemoryAccess tid uintaddr miss) => s.doMemoryAccessChecked tid uintaddr miss
  | .addMiss uintaddr current => .ok (s.addMiss uintaddr current)
  | .freeUpdateCacheLines range pageIndex cacheIndex firstCacheLineOffset objStat =>
      s.freeUpdateCacheLinesChecked range pageIndex cacheIndex firstCacheLineOffset objStat

/-! ## The invariant -/

/-- A flagged line has an entry in the table of its flag, the tables are
within their arrays and no miss counter is past five. -/
structure Registered (s : ShadowMemory) : Prop where
  conflict : ∀ c, (s.cacheMap c).conflict = true →
    ∃ i < s.conflictData.numOfCme, s.conflictData.cme i = some c
  coherency : ∀ c, (s.cacheMap c).coherency = true →
    ∃ i < s.numOfCoherencyCaches, (s.coherencyCaches i).cme = some c
  numOfCme_le : s.conflictData.numOfCme ≤ cmeMax
  numOfCoherencyCaches_le : s.numOfCoherencyCaches ≤ coherencyCachesMax
  missCount_le : ∀ c, ((s.cacheMap c).misses &&& 0x3f#8).toNat ≤ 5

theorem registered_init : Registered {} where
  conflict c h := by simp [CacheMapEntry.conflict] at h
  coherency c h := by simp [CacheMapEntry.coherency] at h
  numOfCme_le := Nat.zero_le _
  numOfCoherencyCaches_le := Nat.zero_le _
  missCount_le c := by simp

namespace CacheMapEntry

/-- What may become of a miss byte without a miss: no flag is set and
nothing is counted. -/
def Settles (e e' : CacheMapEntry) : Prop :=
  (e'.conflict = true → e.conflict = true) ∧ (e'.coherency = true → e.coherency = true)
  ∧ (e'.misses &&& 0x3f#8).toNat ≤ (e.misses &&& 0x3f#8).toNat

theorem Settles.of_misses {e e' : CacheMapEntry} (h : e'.misses = e.misses) : Settles e e' := by
  unfold Settles conflict coherency
  rw [h]
  exact ⟨id, id, le_rfl⟩

theorem Settles.trans {e e' e'' : CacheMapEntry} (h : Settles e e') (h' : Settles e' e'') :
    Settles e e'' :=
  ⟨fun hc => h.1 (h'.1 hc), fun hc => h.2.1 (h'.2.1 hc), h'.2.2.trans h.2.2⟩

theorem clearConflict_bits (m : BitVec 8) : (m &&& 0x7f#8) &&& 0x80#8 = 0#8
    ∧ (m &&& 0x7f#8) &&& 0x40#8 = m &&& 0x40#8
    ∧ (m &&& 0x7f#8) &&& 0x3f#8 = m &&& 0x3f#8 := by
  revert m
  exact byte_cases (by decide +kernel)

theorem Settles.clearConflict (e : CacheMapEntry) :
    Settles e { e with misses := e.misses &&& 0x7f#8 } := by
  obtain ⟨h80, h40, h3f⟩ := clearConflict_bits e.misses
  unfold Settles conflict coherency
  simp only [h80, h40, h3f]
  exact ⟨fun h => absurd h (by decide), id, le_rfl⟩

theorem setConflict_count (m : BitVec 8) : (m ||| 0x80#8) &&& 0x3f#8 = m &&& 0x3f#8 := by
  revert m
  exact byte_cases (by decide +kernel)

theorem setCoherency_count (m : BitVec 8) : (m ||| 0x40#8) &&& 0x3f#8 = m &&& 0x3f#8 := by
  revert m
  exact byte_cases (by decide +kernel)

/-- Below five misses one more does not carry into the flags. -/
theorem countMiss_high (m : BitVec 8) : (m &&& 0x3f#8).toNat < 5 →
    (m + 1) &&& 0xc0#8 = m &&& 0xc0#8 := by
  revert m
  exact byte_cases (by decide +kernel)

end CacheMapEntry

open CacheMapEntry

namespace ShadowMemory

/-- Both tables keep their entries, no line gains a flag and nothing is
counted. -/
structure Settled (s s' : ShadowMemory) : Prop where
  numOfCme : s'.conflictData.numOfCme = s.conflictData.numOfCme
  cme : s'.conflictData.cme = s.conflictData.cme
  numOfCoherencyCaches : s'.numOfCoherencyCaches = s.numOfCoherencyCaches
  coherencyCme : ∀ i, (s'.coherencyCaches i).cme = (s.coherencyCaches i).cme
  line : ∀ c, Settles (s.cacheMap c) (s'.cacheMap c)

theorem Settled.of_cacheMap {s s' : ShadowMemory} (hd : s'.conflictData = s.conflictData)
    (hn : s'.numOfCoherencyCaches = s.numOfCoherencyCaches)
    (hc : s'.coherencyCaches = s.coherencyCaches) (hm : s'.cacheMap = s.cacheMap) :
    Settled s s' where
  numOfCme := by rw [hd]
  cme := by rw [hd]
  numOfCoherencyCaches := hn
  coherencyCme i := by rw [hc]
  line c := .of_misses (by rw [hm])

theorem Settled.trans {s s' s'' : ShadowMemory} (h : Settled s s') (h' : Settled s' s'') :
    Settled s s'' where
  numOfCme := h'.numOfCme.trans h.numOfCme
  cme := h'.cme.trans h.cme
  numOfCoherencyCaches := h'.numOfCoherencyCaches.trans h.numOfCoherencyCaches
  coherencyCme i := (h'.coherencyCme i).trans (h.coherencyCme i)
  line c := (h.line c).trans (h'.line c)

theorem settled_modifyLine (s : ShadowMemory) {c : Nat} {f : CacheMapEntry → CacheMapEntry}
    (hf : Settles (s.cacheMap c) (f (s.cacheMap c))) : Settled s (s.modifyLine c f) := by
  refine ⟨rfl, rfl, rfl, fun _ => rfl, fun c' => ?_⟩
  by_cases hc : c' = c
  · subst hc
    rw [modifyLine_cacheMap_self]
    exact hf
  · rw [modifyLine_cacheMap_of_ne _ _ _ hc]
    exact .of_misses rfl

theorem settled_checkObj (s : ShadowMemory) (c callKey : Nat) :
    Settled s (s.setConflictData (s.conflictData.checkObj c callKey)) :=
  ⟨rfl, rfl, rfl, fun _ => rfl, fun _ => .of_misses rfl⟩

theorem settled_modifyCoherency (s : ShadowMemory) (i : Nat) {f : CoherencyData → CoherencyData}
    (hf : ∀ d, (f d).cme = d.cme) : Settled s (s.modifyCoherency i f) := by
  refine ⟨rfl, rfl, rfl, fun j => ?_, fun _ => .of_misses rfl⟩
  by_cases hj : j = i
  · subst hj
    simp [modifyCoherency, hf]
  · simp [modifyCoherency, hj]

theorem settled_getCacheMapEntry {s s' : ShadowMemory} {range index t : Nat}
    (h : s.getCacheMapEntry range index = some (s', t)) : Settled s s' := by
  rcases getCacheMapEntry_cases h with ⟨rfl, -⟩ | ⟨-, -, rfl⟩
  · exact .of_cacheMap rfl rfl rfl rfl
  · exact .of_cacheMap rfl rfl rfl rfl

theorem settled_walkPages (part : Nat → PageMapEntry → PageMapEntry)
    (whole : PageMapEntry → PageMapEntry) (addr range idx size : Nat) (s : ShadowMemory) :
    Settled s (s.walkPages part whole addr range idx size) := by
  rw [walkPages_eq]
  exact .of_cacheMap rfl rfl rfl rfl

theorem settled_clear (s : ShadowMemory) (range index : Nat) :
    Settled s (s.clear range index) := by
  unfold clear
  split
  · refine ⟨rfl, rfl, rfl, fun _ => rfl, fun c => ?_⟩
    simp only [modifyPage_cacheMap]
    split
    · exact ⟨fun h => absurd h (by decide), fun h => absurd h (by decide), Nat.zero_le _⟩
    · exact .of_misses rfl
  · exact .of_cacheMap rfl rfl rfl rfl

theorem settled_clearPages (range : Nat) : ∀ (n current : Nat) (s : ShadowMemory),
    Settled s (clearPages range n current s)
  | 0, _, _ => .of_cacheMap rfl rfl rfl rfl
  | n + 1, current, s =>
      (settled_clear s range current).trans (settled_clearPages range n (current + 1) _)

end ShadowMemory

namespace Registered

open ShadowMemory

variable {s s' : ShadowMemory}

theorem settled (hs : Registered s) (h : Settled s s') : Registered s' where
  conflict c hc := by
    rw [h.numOfCme, h.cme]
    exact hs.conflict c ((h.line c).1 hc)
  coherency c hc := by
    obtain ⟨i, hi, hcme⟩ := hs.coherency c ((h.line c).2.1 hc)
    exact ⟨i, by rw [h.numOfCoherencyCaches]; exact hi, (h.coherencyCme i).trans hcme⟩
  numOfCme_le := by
    rw [h.numOfCme]
    exact hs.numOfCme_le
  numOfCoherencyCaches_le := by
    rw [h.numOfCoherencyCaches]
    exact hs.numOfCoherencyCaches_le
  missCount_le c := (h.line c).2.2.trans (hs.missCount_le c)

/-- The two searches find the entry of a flagged line. -/
theorem indexOf_found (hs : Registered s) {c : Nat} (hc : (s.cacheMap c).conflict = true) :
    s.conflictData.indexOf c < s.conflictData.numOfCme
    ∧ s.conflictData.cme (s.conflictData.indexOf c) = some c := by
  obtain ⟨i, hi, hcme⟩ := hs.conflict c hc
  have hlt : s.conflictData.indexOf c < s.conflictData.numOfCme :=
    firstIndex_lt hi (by simp [hcme])
  exact ⟨hlt, beq_iff_eq.mp (firstIndex_sat hlt)⟩

theorem coherencyIndex_found (hs : Registered s) {c : Nat}
    (hc : (s.cacheMap c).coherency = true) : s.coherencyIndex c < s.numOfCoherencyCaches
    ∧ (s.coherencyCaches (s.coherencyIndex c)).cme = some c := by
  obtain ⟨i, hi, hcme⟩ := hs.coherency c hc
  have hlt : s.coherencyIndex c < s.numOfCoherencyCaches := firstIndex_lt hi (by simp [hcme])
  exact ⟨hlt, beq_iff_eq.mp (firstIndex_sat hlt)⟩

theorem checkObjChecked (hs : Registered s) {c : Nat} (hc : (s.cacheMap c).conflict = true)
    (callKey : Nat) : s.checkObjChecked c callKey
      = .ok (s.setConflictData (s.conflictData.checkObj c callKey)) := by
  simp only [ShadowMemory.checkObjChecked, ConflictData.checkObjChecked, hs.indexOf_found hc,
    and_self, if_true]
  rfl

theorem modifyCoherencyChecked (hs : Registered s) {c : Nat}
    (hc : (s.cacheMap c).coherency = true) (f : CoherencyData → CoherencyData) :
    s.modifyCoherencyChecked c f = .ok (s.modifyCoherency (s.coherencyIndex c) f) := by
  simp only [ShadowMemory.modifyCoherencyChecked, hs.coherencyIndex_found hc, and_self, if_true]

theorem addMiss (hs : Registered s) (addr c : Nat) : Registered (s.addMiss addr c) := by
  rcases ConflictData.addMiss_cases s.conflictData addr c (s.cacheMap c) with
    hsame | ⟨-, htotal, -, happ⟩
  · rw [ShadowMemory.addMiss, hsame]
    have hcount : Settled s (s.setConflictData
        (s.conflictData.countMiss (ConflictData.setIdOf addr))) :=
      ⟨rfl, rfl, rfl, fun _ => rfl, fun _ => .of_misses rfl⟩
    exact hs.settled (hcount.trans (settled_modifyLine _ (.of_misses rfl)))
  · have hnum : wrap 8 (s.conflictData.numOfCme + 1) = s.conflictData.numOfCme + 1 :=
      wrap_of_lt (by simp only [cmeMax] at htotal; omega)
    -- the flag of `c` is set, all others are as before
    have hother : ∀ c', c' ≠ c → (s.addMiss addr c).cacheMap c' = s.cacheMap c' := by
      intro c' hc'
      rw [ShadowMemory.addMiss, modifyLine_cacheMap_of_ne _ _ _ hc']
      rfl
    have hself : (s.addMiss addr c).cacheMap c
        = { s.cacheMap c with misses := (s.cacheMap c).misses ||| 0x80#8 } := by
      rw [ShadowMemory.addMiss, modifyLine_cacheMap_self, happ]
    have hd : (s.addMiss addr c).conflictData
        = (s.conflictData.countMiss (ConflictData.setIdOf addr)).appendCme
          (ConflictData.setIdOf addr) c := by
      rw [ShadowMemory.addMiss, modifyLine_conflictData, happ]
      rfl
    have hnum' : (s.addMiss addr c).conflictData.numOfCme = s.conflictData.numOfCme + 1 := by
      rw [hd]
      exact hnum
    have hcme : (s.addMiss addr c).conflictData.cme
        = Function.update s.conflictData.cme s.conflictData.numOfCme (some c) := by
      rw [hd]
      rfl
    refine ⟨fun c' hc' => ?_, fun c' hc' => ?_, ?_, hs.numOfCoherencyCaches_le, fun c' => ?_⟩
    · rw [hnum', hcme]
      by_cases hcc : c' = c
      · exact ⟨_, Nat.lt_succ_self _, by rw [hcc, Function.update_self]⟩
      · rw [hother c' hcc] at hc'
        obtain ⟨i, hi, hentry⟩ := hs.conflict c' hc'
        exact ⟨i, Nat.lt_succ_of_lt hi, by rw [Function.update_of_ne (Nat.ne_of_lt hi), hentry]⟩
    · have hold : (s.cacheMap c').coherency = true := by
        by_cases hcc : c' = c
        · subst hcc
          rw [hself] at hc'
          exact (coherency_congr (setConflict_coherency _)).symm.trans hc'
        · rwa [hother c' hcc] at hc'
      exact hs.coherency c' hold
    · rw [hnum']
      exact htotal
    · by_cases hcc : c' = c
      · subst hcc
        rw [hself, setConflict_count]
        exact hs.missCount_le c'
      · rw [hother c' hcc]
        exact hs.missCount_le c'

/-- A line is flagged and entered at the end of `coherencyCaches`. -/
theorem enter (hs : Registered s) (hroom : s.numOfCoherencyCaches < coherencyCachesMax) (c : Nat)
    {f : CoherencyData → CoherencyData} (hf : ∀ d, (f d).cme = some c) :
    Registered (({ s with
        numOfCoherencyCaches := wrap 8 (s.numOfCoherencyCaches + 1) }.modifyLine c
          fun e => { e with misses := e.misses ||| 0x40#8 }).modifyCoherency
        s.numOfCoherencyCaches f) := by
  have hnum : wrap 8 (s.numOfCoherencyCaches + 1) = s.numOfCoherencyCaches + 1 :=
    wrap_of_lt (by simp only [coherencyCachesMax] at hroom; omega)
  rw [hnum]
  generalize hs' : (({ s with
      numOfCoherencyCaches := s.numOfCoherencyCaches + 1 }.modifyLine c
        fun e => { e with misses := e.misses ||| 0x40#8 }).modifyCoherency
      s.numOfCoherencyCaches f) = s'
  have hother : ∀ c', c' ≠ c → s'.cacheMap c' = s.cacheMap c' := by
    intro c' hc'
    rw [← hs']
    exact Function.update_of_ne hc' _ _
  have hself : s'.cacheMap c
      = { s.cacheMap c with misses := (s.cacheMap c).misses ||| 0x40#8 } := by
    rw [← hs']
    exact Function.update_self ..
  have hentry : ∀ i, i < s.numOfCoherencyCaches →
      s'.coherencyCaches i = s.coherencyCaches i := by
    intro i hi
    rw [← hs']
    exact Function.update_of_ne (Nat.ne_of_lt hi) _ _
  have hnew : (s'.coherencyCaches s.numOfCoherencyCaches).cme = some c := by
    rw [← hs']
    exact (congrArg CoherencyData.cme (Function.update_self ..)).trans (hf _)
  have hnum' : s'.numOfCoherencyCaches = s.numOfCoherencyCaches + 1 := by rw [← hs']; rfl
  have hd : s'.conflictData = s.conflictData := by rw [← hs']; rfl
  refine ⟨fun c' hc' => ?_, fun c' hc' => ?_, by rw [hd]; exact hs.numOfCme_le,
    by rw [hnum']; exact hroom, fun c' => ?_⟩
  · rw [hd]
    refine hs.conflict c' ?_
    by_cases hcc : c' = c
    · subst hcc
      rw [hself] at hc'
      exact (conflict_congr (setCoherency_conflict _)).symm.trans hc'
    · rwa [hother c' hcc] at hc'
  · rw [hnum']
    by_cases hcc : c' = c
    · exact ⟨_, Nat.lt_succ_self _, by rw [hcc, hnew]⟩
    · rw [hother c' hcc] at hc'
      obtain ⟨i, hi, hold⟩ := hs.coherency c' hc'
      exact ⟨i, Nat.lt_succ_of_lt hi, by rw [hentry i hi, hold]⟩
  · by_cases hcc : c' = c
    · subst hcc
      rw [hself, setCoherency_count]
      exact hs.missCount_le c'
    · rw [hother c' hcc]
      exact hs.missCount_le c'

/-- A miss is counted in the line itself. -/
theorem countMiss (hs : Registered s) {c : Nat}
    (hfew : ((s.cacheMap c).misses &&& 0x3f#8).toNat < 5) :
    Registered (s.modifyLine c fun e => { e with misses := e.misses + 1 }) := by
  have hcount := countMiss_toNat (s.cacheMap c).misses hfew
  obtain ⟨h80, h40⟩ := countMiss_flags (s.cacheMap c).misses hfew
  have hflag : ∀ flag : CacheMapEntry → Bool,
      flag { s.cacheMap c with misses := (s.cacheMap c).misses + 1 } = flag (s.cacheMap c) →
      ∀ c', flag ((s.modifyLine c fun e => { e with misses := e.misses + 1 }).cacheMap c')
        = flag (s.cacheMap c') := by
    intro flag hf c'
    by_cases hcc : c' = c
    · subst hcc
      rw [modifyLine_cacheMap_self]
      exact hf
    · rw [modifyLine_cacheMap_of_ne _ _ _ hcc]
  refine ⟨fun c' hc' => ?_, fun c' hc' => ?_, hs.numOfCme_le, hs.numOfCoherencyCaches_le,
    fun c' => ?_⟩
  · exact hs.conflict c' ((hflag _ (conflict_congr h80) c').symm.trans hc')
  · exact hs.coherency c' ((hflag _ (coherency_congr h40) c').symm.trans hc')
  · by_cases hcc : c' = c
    · subst hcc
      rw [modifyLine_cacheMap_self, hcount]
      omega
    · rw [modifyLine_cacheMap_of_ne _ _ _ hcc]
      exact hs.missCount_le c'

/-- The coherency half of a miss: its search succeeds, its count does not
carry, and the line it flags gets an entry. -/
theorem recordCoherency (hs : Registered s) (tid addr c : Nat) :
    Registered (s.recordCoherency tid addr c)
    ∧ s.recordCoherencyChecked tid addr c = .ok (s.recordCoherency tid addr c) := by
  simp only [ShadowMemory.recordCoherency, recordCoherencyChecked]
  by_cases hfive : 5 ≤ ((s.cacheMap c).misses &&& 0x3f#8).toNat
  · rw [if_pos hfive, if_pos hfive]
    by_cases hflag : (s.cacheMap c).coherency = true
    · rw [if_pos hflag, if_pos hflag]
      exact ⟨hs.settled (settled_modifyCoherency s _ fun _ => rfl),
        hs.modifyCoherencyChecked hflag _⟩
    · rw [if_neg hflag, if_neg hflag]
      refine ⟨?_, rfl⟩
      by_cases hroom : s.numOfCoherencyCaches < coherencyCachesMax
      · rw [if_pos hroom]
        exact hs.enter hroom c fun _ => rfl
      · rw [if_neg hroom]
        exact hs
  · rw [if_neg hfive, if_neg hfive]
    rw [if_pos (countMiss_high (s.cacheMap c).misses (by omega))]
    exact ⟨hs.countMiss (by omega), rfl⟩

/-! ## Frees -/

theorem freePartLine (hs : Registered s) (o : ObjStat) (n c : Nat) :
    Registered (freePartLine o n c s)
    ∧ freePartLineChecked o n c s = .ok (freePartLine o n c s) := by
  have h1 : Registered (s.modifyLine c (.subUsedBytes n)) :=
    hs.settled (settled_modifyLine s (.of_misses rfl))
  simp only [ShadowMemory.freePartLine, freePartLineChecked]
  generalize s.modifyLine c (.subUsedBytes n) = t at h1 ⊢
  by_cases hconf : (t.cacheMap c).conflict = true
  · have h2 := h1.settled (settled_checkObj t c o.callKey)
    rw [if_pos hconf, if_pos hconf, h1.checkObjChecked hconf]
    simp only [bind, Except.bind]
    generalize t.setConflictData (t.conflictData.checkObj c o.callKey) = t' at h2 ⊢
    by_cases hcoh : (t'.cacheMap c).coherency = true
    · rw [if_pos hcoh, if_pos hcoh]
      exact ⟨h2.settled (settled_modifyCoherency t' _ (recordOwner_cme _ _)),
        h2.modifyCoherencyChecked hcoh _⟩
    · rw [if_neg hcoh, if_neg hcoh]
      exact ⟨h2, rfl⟩
  · rw [if_neg hconf, if_neg hconf]
    simp only [bind, Except.bind]
    by_cases hcoh : (t.cacheMap c).coherency = true
    · rw [if_pos hcoh, if_pos hcoh]
      exact ⟨h1.settled (settled_modifyCoherency t _ (recordOwner_cme _ _)),
        h1.modifyCoherencyChecked hcoh _⟩
    · rw [if_neg hcoh, if_neg hcoh]
      exact ⟨h1, rfl⟩

theorem freeWholeLine (hs : Registered s) (o : ObjStat) (c : Nat) :
    Registered (freeWholeLine o c s)
    ∧ freeWholeLineChecked o c s = .ok (freeWholeLine o c s) := by
  simp only [ShadowMemory.freeWholeLine, freeWholeLineChecked]
  by_cases hconf : (s.cacheMap c).conflict = true
  · rw [if_pos hconf, if_pos hconf, hs.checkObjChecked hconf]
    have h1 := hs.settled (settled_checkObj s c o.callKey)
    have h2 := h1.settled (settled_modifyLine _ (c := c)
      (f := fun e => { e with misses := e.misses &&& 0x7f#8 }) (.clearConflict _))
    exact ⟨h2.settled (settled_modifyLine _ (.of_misses rfl)), rfl⟩
  · rw [if_neg hconf, if_neg hconf]
    exact ⟨hs.settled (settled_modifyLine s (.of_misses rfl)), rfl⟩

theorem gets (range i : Nat) :
    Gets Registered range (fun s index => orAbort (s.getCacheMapEntry range index)) i :=
  fun _ hs => ⟨rfl, fun _ _ hget => hs.settled (settled_getCacheMapEntry hget)⟩

theorem freeUpdateCacheLines (hs : Registered s)
    (range pageIndex cacheIndex firstCacheLineOffset : Nat) (o : ObjStat) :
    s.freeUpdateCacheLinesChecked range pageIndex cacheIndex firstCacheLineOffset o
      = orAbort (s.freeUpdateCacheLines range pageIndex cacheIndex firstCacheLineOffset o)
    ∧ ∀ s', s.freeUpdateCacheLines range pageIndex cacheIndex firstCacheLineOffset o = some s' →
        Registered s' :=
  walkCacheLinesChecked_eq (fun _ hs n c => hs.freePartLine o n c)
    (fun _ hs c => hs.freeWholeLine o c) hs fun i _ _ => gets range i

theorem freeUpdateObject (hs : Registered s) (address : Nat) (o : ObjStat) :
    s.freeUpdateObjectChecked address o = orAbort (s.freeUpdateObject address o)
    ∧ ∀ s', s.freeUpdateObject address o = some s' → Registered s' := by
  rcases hp : getPageIndex address with ⟨r, i⟩
  simp only [ShadowMemory.freeUpdateObject, freeUpdateObjectChecked, hp]
  by_cases hsize : o.size = 0
  · rw [if_pos hsize, if_pos hsize]
    exact ⟨rfl, fun s' h => by cases h; exact hs⟩
  · rw [if_neg hsize, if_neg hsize]
    by_cases hr : r = numAddressRange
    · rw [if_pos hr, if_pos hr]
      exact ⟨rfl, fun s' h => by cases h; exact hs⟩
    · rw [if_neg hr, if_neg hr]
      exact (hs.settled (settled_walkPages .subUsedBytes .setEmpty address r i o.size s)
        ).freeUpdateCacheLines r i _ _ o

/-! ## Calls -/

theorem mallocUpdateObject (hs : Registered s) {address size : Nat}
    (h : s.mallocUpdateObject address size = some s') : Registered s' := by
  simp only [ShadowMemory.mallocUpdateObject] at h
  split at h
  · cases h; exact hs
  · split at h
    · cases h; exact hs
    · have hpart : ActsPart Registered mallocPartLine fun n c s => .ok (mallocPartLine n c s) :=
        fun s hs n c => ⟨hs.settled (settled_modifyLine _ (.of_misses rfl)), rfl⟩
      have hwhole : ActsWhole Registered mallocWholeLine fun c s => .ok (mallocWholeLine c s) :=
        fun s hs c => ⟨hs.settled (settled_modifyLine _ (.of_misses rfl)), rfl⟩
      have hpages : Registered (s.mallocUpdatePages address _ _ size) :=
        hs.settled (settled_walkPages .addUsedBytes .setFull address (getPageIndex address).1
          (getPageIndex address).2 size s)
      exact (walkCacheLinesChecked_eq hpart hwhole hpages fun i _ _ => gets _ i).2 s' h

theorem doMemoryAccess (hs : Registered s) (tid addr : Nat) (miss : Bool) :
    Registered (s.doMemoryAccess tid addr miss)
    ∧ s.doMemoryAccessChecked tid addr miss = .ok (s.doMemoryAccess tid addr miss) := by
  simp only [ShadowMemory.doMemoryAccess, doMemoryAccessChecked]
  cases s.sampledLine addr with
  | none => exact ⟨hs, rfl⟩
  | some found =>
      obtain ⟨pme, c⟩ := found
      simp only
      generalize hf : Function.update s.friendlinessStatus tid
        ((s.friendlinessStatus tid).recordANewSampling (s.cacheMap c).getUsedBytes
          pme.getUsedBytes) = f
      have h1 : Registered { s with friendlinessStatus := f } :=
        hs.settled (.of_cacheMap rfl rfl rfl rfl)
      cases miss with
      | true => exact (h1.addMiss addr c).recordCoherency tid addr c
      | false => exact ⟨h1, rfl⟩

/-- Every call keeps the invariant and passes its checks. -/
theorem step (hs : Registered s) (op : SearchOp) :
    s.searchStepChecked op = orAbort (s.searchStep op)
    ∧ ∀ s', s.searchStep op = some s' → Registered s' := by
  cases op with
  | call op =>
      cases op with
      | mallocUpdateObject address size => exact ⟨rfl, fun s' h => hs.mallocUpdateObject h⟩
      | freeUpdateObject address objStat => exact hs.freeUpdateObject address objStat
      | cleanupPages uintaddr length =>
          exact ⟨rfl, fun s' h => by cases h; exact hs.settled (settled_clearPages _ _ _ _)⟩
      | doMemoryAccess tid uintaddr miss =>
          obtain ⟨hkeep, hchecked⟩ := hs.doMemoryAccess tid uintaddr miss
          exact ⟨hchecked, fun s' h => by cases h; exact hkeep⟩
  | addMiss uintaddr current => exact ⟨rfl, fun s' h => by cases h; exact hs.addMiss _ _⟩
  | freeUpdateCacheLines range pageIndex cacheIndex firstCacheLineOffset objStat =>
      exact hs.freeUpdateCacheLines range pageIndex cacheIndex firstCacheLineOffset objStat

end Registered

/-- **The searches stop inside their tables**: after every run a flagged
line has an entry in the table of its flag, the tables are within their
arrays, the counter is apart from the flags, and the next call passes
every check. -/
theorem searches_stop_inside {past : List SearchOp} {s : ShadowMemory}
    (h : Run ShadowMemory.searchStep (fun _ _ _ => True) {} past s) :
    Registered s ∧ ∀ op, s.searchStepChecked op = orAbort (s.searchStep op) := by
  have hs := h.invariant Registered registered_init fun _ _ op s' hs _ hstep =>
    (hs.step op).2 s' hstep
  exact ⟨hs, fun op => (hs.step op).1⟩

/-- Six misses enter a line into the coherency table; the free of the
object on it finds the entry. -/
theorem searches_stop_inside_tracked_free :
    ∃ past s, Run ShadowMemory.searchStep (fun _ _ _ => True) {} past s
      ∧ (s.cacheMap 0).coherency = true
      ∧ s.searchStepChecked (.call (.freeUpdateObject 0x10000000000 ⟨1, 1, 8⟩))
        = orAbort (s.searchStep (.call (.freeUpdateObject 0x10000000000 ⟨1, 1, 8⟩))) := by
  let ops : List SearchOp := .call (.mallocUpdateObject 0x10000000000 8)
    :: List.replicate 6 (.call (.doMemoryAccess 1 0x10000000000 true))
  have hflag : ((ops.foldlM ShadowMemory.searchStep {}).map fun s => (s.cacheMap 0).coherency)
      = some true := by decide +kernel
  obtain ⟨s, hs, hcoh⟩ := Option.map_eq_some_iff.mp hflag
  have hrun : Run ShadowMemory.searchStep (fun _ _ _ => True) {} ops s :=
    Run.ofFoldlM (fun _ _ _ _ => trivial) hs
  exact ⟨ops, s, hrun, hcoh, (searches_stop_inside hrun).2 _⟩

end MemPerf
