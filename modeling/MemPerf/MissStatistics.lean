import MemPerf.ShadowScores

/-!
# Miss statistics in 16 bits

The `ConflictData` of the full build keeps `totalMisses` and
`missesPerSet` in 16-bit fields and has room for 32 lines; the rest of
the shadow memory is as in the light build, but for the touched flags of
the pages, which no miss looks at. The counters and everything decided
or divided by them are exact for as long as fewer than 65536 misses were
counted, and not after (`misses_exact_iff`).

Runs have mallocs, frees, page cleanups and accesses; `missed` are the
addresses of the counted misses, oldest first.
-/

namespace MemPerf.Temp

open Word Shares StepSystem

/-- `CME` of the full build. -/
def cmeMax : Nat := 32

namespace ConflictData

/-- The unconditional part of `addMiss`. -/
def countMiss (setId : Nat) (d : MemPerf.ConflictData) : MemPerf.ConflictData :=
  { d with
    totalMisses := wrap 16 (d.totalMisses + 1)
    missesPerSet := Function.update d.missesPerSet setId (wrap 16 (d.missesPerSet setId + 1)) }

/-- The 5-percent test of `addMiss` and `printOutput`: 16-bit counters,
multiplied as `int`s. -/
def fivePercent (d : MemPerf.ConflictData) (setId : Nat) : Bool :=
  decide (50 ≤ d.totalMisses) && decide (d.totalMisses ≤ d.missesPerSet setId * 20)

def hasRoom (d : MemPerf.ConflictData) (setId : Nat) (e : CacheMapEntry) : Bool :=
  decide (d.numOfCme < cmeMax) && decide (d.numOfCmePerSet setId < 16) && !e.conflict

def addMiss (addr current : Nat) (d : MemPerf.ConflictData) (e : CacheMapEntry) :
    MemPerf.ConflictData × CacheMapEntry :=
  let setId := MemPerf.ConflictData.setIdOf addr
  let d := countMiss setId d
  if fivePercent d setId && !e.conflict && !e.coherency then
    if hasRoom d setId e then
      (d.appendCme setId current, { e with misses := e.misses ||| 0x80#8 })
    else (d, e)
  else (d, e)

/-- Only the line's conflict flag may change, and the counters count. -/
theorem addMiss_counts (addr c : Nat) (d : MemPerf.ConflictData) (e : CacheMapEntry) :
    (addMiss addr c d e).1.totalMisses = wrap 16 (d.totalMisses + 1)
    ∧ (addMiss addr c d e).1.missesPerSet
      = Function.update d.missesPerSet (MemPerf.ConflictData.setIdOf addr)
        (wrap 16 (d.missesPerSet (MemPerf.ConflictData.setIdOf addr) + 1))
    ∧ ((addMiss addr c d e).2.misses &&& 0x3f#8) = (e.misses &&& 0x3f#8)
    ∧ (addMiss addr c d e).2.numUsedBytes = e.numUsedBytes := by
  simp only [addMiss]
  split
  · split
    · exact ⟨rfl, rfl, CacheMapEntry.setConflict_count _, rfl⟩
    · exact ⟨rfl, rfl, rfl, rfl⟩
  · exact ⟨rfl, rfl, rfl, rfl⟩

end ConflictData

/-- `conflictData.addMiss(uintaddr, current)`. -/
def addMiss (uintaddr current : Nat) (s : MemPerf.ShadowMemory) : MemPerf.ShadowMemory :=
  let (conflictData, e) := ConflictData.addMiss uintaddr current s.conflictData
    (s.cacheMap current)
  (s.setConflictData conflictData).modifyLine current fun _ => e

def doMemoryAccess (tid uintaddr : Nat) (miss : Bool) (s : MemPerf.ShadowMemory) :
    MemPerf.ShadowMemory :=
  match s.sampledLine uintaddr with
  | none => s
  | some (pme, current) =>
      let s := { s with
        friendlinessStatus := Function.update s.friendlinessStatus tid
          ((s.friendlinessStatus tid).recordANewSampling (s.cacheMap current).getUsedBytes
            pme.getUsedBytes) }
      if miss then (addMiss uintaddr current s).recordCoherency tid uintaddr current else s

/-! ## Runs -/

/-- The shadow memory with the addresses of the misses counted so far. -/
structure Sampled where
  mem : MemPerf.ShadowMemory := {}
  missed : List Nat := []

/-- The address, if the access is a miss that gets counted. -/
def missedAddress (s : MemPerf.ShadowMemory) : ShadowOp → List Nat
  | .doMemoryAccess _ uintaddr true => if (s.sampledLine uintaddr).isSome then [uintaddr] else []
  | _ => []

def memStep (s : MemPerf.ShadowMemory) : ShadowOp → Option MemPerf.ShadowMemory
  | .doMemoryAccess tid uintaddr miss => some (doMemoryAccess tid uintaddr miss s)
  | op => s.step op

def Sampled.step (w : Sampled) (op : ShadowOp) : Option Sampled := do
  let mem ← memStep w.mem op
  some { mem := mem, missed := w.missed ++ missedAddress w.mem op }

/-- The misses in one cache set. -/
def missesIn (set : Nat) (missed : List Nat) : Nat :=
  (missed.map MemPerf.ConflictData.setIdOf).count set

/-- The statistics are those of the misses. -/
structure MissesExact (w : Sampled) : Prop where
  total : w.mem.conflictData.totalMisses = w.missed.length
  perSet : ∀ set, w.mem.conflictData.missesPerSet set = missesIn set w.missed
  fivePercent : ∀ set, ConflictData.fivePercent w.mem.conflictData set = true
    ↔ 50 ≤ w.missed.length ∧ w.missed.length ≤ 20 * missesIn set w.missed
  score : ∀ i < w.mem.numOfCoherencyCaches, w.mem.conflictData.totalMisses ≠ 0
    ∧ (w.mem.coherencyCaches i).score w.mem.conflictData.totalMisses
      = (w.mem.coherencyCaches i).misses * 100 / w.missed.length
    ∧ (w.mem.coherencyCaches i).score w.mem.conflictData.totalMisses ≤ 100

/-- What holds whatever the number of misses: the counters are right up
to their width, and no line has counted more misses than there were. -/
structure Counting (w : Sampled) : Prop where
  total : w.mem.conflictData.totalMisses = wrap 16 w.missed.length
  perSet : ∀ set, w.mem.conflictData.missesPerSet set = wrap 16 (missesIn set w.missed)
  count_le : ∀ c, w.mem.missCount c ≤ w.missed.length
  entry_le : ∀ i < w.mem.numOfCoherencyCaches,
    (w.mem.coherencyCaches i).misses ≤ w.missed.length
  nonempty : 0 < w.mem.numOfCoherencyCaches → w.missed ≠ []

namespace Counting

open MemPerf.ShadowMemory

variable {w w' : Sampled} {s' : MemPerf.ShadowMemory}

theorem init : Counting {} where
  total := rfl
  perSet _ := rfl
  count_le c := by simp [missCount]
  entry_le i hi := absurd hi (Nat.not_lt_zero _)
  nonempty h := absurd h (Nat.lt_irrefl 0)

/-- Steps that count nothing. -/
theorem kept (hw : Counting w) (htotal : s'.conflictData.totalMisses
      = w.mem.conflictData.totalMisses)
    (hset : s'.conflictData.missesPerSet = w.mem.conflictData.missesPerSet)
    (hnum : s'.numOfCoherencyCaches = w.mem.numOfCoherencyCaches)
    (hentry : ∀ i, (s'.coherencyCaches i).misses = (w.mem.coherencyCaches i).misses)
    (hcount : ∀ c, s'.missCount c ≤ w.mem.missCount c) : Counting ⟨s', w.missed⟩ where
  total := htotal.trans hw.total
  perSet set := (congrFun hset set).trans (hw.perSet set)
  count_le c := (hcount c).trans (hw.count_le c)
  entry_le i hi := by
    show (s'.coherencyCaches i).misses ≤ _
    rw [hentry]
    exact hw.entry_le i (hnum ▸ hi)
  nonempty h := hw.nonempty (hnum ▸ h)

theorem same (hw : Counting w) (h : SameMisses w.mem s') : Counting ⟨s', w.missed⟩ :=
  hw.kept h.totalMisses h.missesPerSet h.num h.misses fun c =>
    (missCount_eq_of_low7 (h.low7 c)).le

theorem clear_frame (s : MemPerf.ShadowMemory) (range index : Nat) :
    (s.clear range index).conflictData = s.conflictData
    ∧ (s.clear range index).numOfCoherencyCaches = s.numOfCoherencyCaches
    ∧ (s.clear range index).coherencyCaches = s.coherencyCaches := by
  unfold clear
  split <;> exact ⟨rfl, rfl, rfl⟩

theorem clearPages_frame (range : Nat) : ∀ (n current : Nat) (s : MemPerf.ShadowMemory),
    (clearPages range n current s).conflictData = s.conflictData
    ∧ (clearPages range n current s).numOfCoherencyCaches = s.numOfCoherencyCaches
    ∧ (clearPages range n current s).coherencyCaches = s.coherencyCaches
  | 0, _, _ => ⟨rfl, rfl, rfl⟩
  | n + 1, current, s => by
      obtain ⟨hd, hn, hc⟩ := clearPages_frame range n (current + 1) (s.clear range current)
      obtain ⟨hd', hn', hc'⟩ := clear_frame s range current
      exact ⟨hd.trans hd', hn.trans hn', hc.trans hc'⟩

/-- The conflict half of a miss. -/
theorem addMiss (hw : Counting w) (addr c : Nat) :
    Counting ⟨Temp.addMiss addr c w.mem, w.missed ++ [addr]⟩ := by
  obtain ⟨htotal, hset, hcount, -⟩ :=
    ConflictData.addMiss_counts addr c w.mem.conflictData (w.mem.cacheMap c)
  have hlen : (w.missed ++ [addr]).length = w.missed.length + 1 := by simp
  refine ⟨?_, fun set => ?_, fun c' => ?_, fun i hi => ?_, fun _ => by simp⟩
  · refine htotal.trans ?_
    rw [hw.total, hlen]
    simp [wrap]
  · refine (congrFun hset set).trans ?_
    have hsnoc : missesIn set (w.missed ++ [addr]) = missesIn set w.missed
        + [MemPerf.ConflictData.setIdOf addr].count set := by
      rw [missesIn, List.map_append, List.count_append]
      rfl
    rw [hsnoc]
    by_cases hs : set = MemPerf.ConflictData.setIdOf addr
    · subst hs
      rw [Function.update_self, hw.perSet, List.count_singleton_self]
      simp [wrap]
    · have hzero : [MemPerf.ConflictData.setIdOf addr].count set = 0 :=
        List.count_eq_zero_of_not_mem (by simpa using hs)
      rw [Function.update_of_ne hs, hw.perSet, hzero, Nat.add_zero]
  · have hsame : (Temp.addMiss addr c w.mem).missCount c' = w.mem.missCount c' := by
      by_cases hcc : c' = c
      · subst hcc
        simp only [missCount, Temp.addMiss, modifyLine_cacheMap_self, hcount]
      · simp only [missCount, Temp.addMiss, modifyLine_cacheMap_of_ne _ _ _ hcc]
        rfl
    rw [hsame, hlen]
    exact (hw.count_le c').trans (Nat.le_succ _)
  · rw [hlen]
    exact (hw.entry_le i hi).trans (Nat.le_succ _)

theorem modifyCoherency_misses_le (s : MemPerf.ShadowMemory) (i j : Nat)
    {f : CoherencyData → CoherencyData} (hf : ∀ d, (f d).misses ≤ d.misses + 1) :
    ((s.modifyCoherency j f).coherencyCaches i).misses ≤ (s.coherencyCaches i).misses + 1 := by
  by_cases hi : i = j
  · subst hi
    simpa [modifyCoherency] using hf _
  · simp [modifyCoherency, hi]

/-- The coherency half, after the miss was counted: `before` misses were
enough for all that the lines had counted then. -/
theorem recordCoherency {s : MemPerf.ShadowMemory} {missed : List Nat}
    (hw : Counting ⟨s, missed⟩) {before : Nat} (hbefore : before < missed.length)
    (hcount : ∀ c, s.missCount c ≤ before)
    (hentry : ∀ i < s.numOfCoherencyCaches, (s.coherencyCaches i).misses ≤ before)
    (tid addr c : Nat) : Counting ⟨s.recordCoherency tid addr c, missed⟩ := by
  have hne : missed ≠ [] := by
    rintro rfl
    exact absurd hbefore (Nat.not_lt_zero _)
  rcases ShadowMemory.recordCoherency_outcomes s tid addr c with
    ⟨-, -, heq⟩ | ⟨hfive, -, -, heq⟩ | ⟨-, -, -, heq⟩ | ⟨hfew, heq⟩ <;> rw [heq]
  · refine ⟨hw.total, hw.perSet, hw.count_le, fun i hi => ?_, fun _ => hne⟩
    have hle := modifyCoherency_misses_le s i (s.coherencyIndex c)
      (f := fun d => ({ d with misses := wrap 16 (d.misses + 1) }).recordWord
        (wordIndexOf addr) tid) fun d => Nat.mod_le _ _
    have hold := hentry i hi
    exact hle.trans (by show _ ≤ missed.length; omega)
  · refine ⟨hw.total, hw.perSet, fun c' => ?_, fun i hi => ?_, fun _ => hne⟩
    · refine le_of_eq_of_le ?_ (hw.count_le c')
      by_cases hcc : c' = c
      · subst hcc
        simp only [missCount, modifyLine_cacheMap_self, CacheMapEntry.setCoherency_count]
      · simp only [missCount, modifyLine_cacheMap_of_ne _ _ _ hcc]
    · rcases Nat.lt_succ_iff_lt_or_eq.mp hi with hlt | rfl
      · show (Function.update s.coherencyCaches s.numOfCoherencyCaches _ i).misses
          ≤ missed.length
        rw [Function.update_of_ne (Nat.ne_of_lt hlt)]
        exact hw.entry_le i hlt
      · show (Function.update s.coherencyCaches s.numOfCoherencyCaches _
          s.numOfCoherencyCaches).misses ≤ missed.length
        rw [Function.update_self]
        exact hfive.trans (hw.count_le c)
  · exact hw
  · refine ⟨hw.total, hw.perSet, fun c' => ?_, hw.entry_le, hw.nonempty⟩
    by_cases hcc : c' = c
    · subst hcc
      have hold := hcount c'
      simp only [missCount] at hold
      show ((s.modifyLine c' fun e => { e with misses := e.misses + 1 }).missCount c')
        ≤ missed.length
      rw [missCount, modifyLine_cacheMap_self, CacheMapEntry.countMiss_toNat _ (by omega)]
      omega
    · rw [missCount, modifyLine_cacheMap_of_ne _ _ _ hcc]
      exact hw.count_le c'

theorem access (hw : Counting w) (tid addr : Nat) (miss : Bool) :
    Counting ⟨doMemoryAccess tid addr miss w.mem,
      w.missed ++ missedAddress w.mem (.doMemoryAccess tid addr miss)⟩ := by
  cases hsampled : w.mem.sampledLine addr with
  | none =>
      have hnone : missedAddress w.mem (.doMemoryAccess tid addr miss) = [] := by
        cases miss <;> simp [missedAddress, hsampled]
      simp only [doMemoryAccess, hsampled, hnone, List.append_nil]
      exact hw
  | some found =>
      obtain ⟨pme, c⟩ := found
      let s1 : MemPerf.ShadowMemory := { w.mem with
        friendlinessStatus := Function.update w.mem.friendlinessStatus tid
          ((w.mem.friendlinessStatus tid).recordANewSampling (w.mem.cacheMap c).getUsedBytes
            pme.getUsedBytes) }
      have hw1 : Counting ⟨s1, w.missed⟩ :=
        hw.kept rfl rfl rfl (fun _ => rfl) fun _ => le_rfl
      cases miss with
      | false =>
          have hacc : doMemoryAccess tid addr false w.mem = s1 := by
            simp only [doMemoryAccess, hsampled, Bool.false_eq_true, if_false, s1]
          have hnone : missedAddress w.mem (.doMemoryAccess tid addr false) = [] := rfl
          rw [hacc, hnone, List.append_nil]
          exact hw1
      | true =>
          have hacc : doMemoryAccess tid addr true w.mem
              = (Temp.addMiss addr c s1).recordCoherency tid addr c := by
            simp only [doMemoryAccess, hsampled, if_true, s1]
          have hmissed : missedAddress w.mem (.doMemoryAccess tid addr true) = [addr] := by
            simp [missedAddress, hsampled]
          rw [hacc, hmissed]
          have hcount : ∀ c', (Temp.addMiss addr c s1).missCount c' ≤ w.missed.length := by
            intro c'
            obtain ⟨-, -, hbits, -⟩ :=
              ConflictData.addMiss_counts addr c s1.conflictData (s1.cacheMap c)
            by_cases hcc : c' = c
            · subst hcc
              have hold := hw1.count_le c'
              simp only [missCount] at hold
              simp only [missCount, Temp.addMiss, modifyLine_cacheMap_self, hbits]
              exact hold
            · simp only [missCount, Temp.addMiss, modifyLine_cacheMap_of_ne _ _ _ hcc]
              exact hw1.count_le c'
          have hmore : w.missed.length < (w.missed ++ [addr]).length := by simp
          exact (hw1.addMiss addr c).recordCoherency hmore hcount
            (fun i hi => hw1.entry_le i hi) tid addr c

theorem step (hw : Counting w) {op : ShadowOp} (h : w.step op = some w') : Counting w' := by
  obtain ⟨mem, hmem, hw'⟩ := Option.bind_eq_some_iff.mp h
  obtain rfl := Option.some.inj hw'
  cases op with
  | mallocUpdateObject address size =>
      simp only [missedAddress, List.append_nil]
      exact hw.same (sameMisses_malloc hmem)
  | freeUpdateObject address objStat =>
      simp only [missedAddress, List.append_nil]
      exact hw.same (sameMisses_free hmem)
  | cleanupPages uintaddr length =>
      obtain rfl := Option.some.inj hmem
      simp only [missedAddress, List.append_nil]
      obtain ⟨hd, hn, hc⟩ := clearPages_frame (getPageIndex uintaddr).1
        (alignup length pagesize / pagesize) (getPageIndex uintaddr).2 w.mem
      have hline := (settled_clearPages (getPageIndex uintaddr).1
        (alignup length pagesize / pagesize) (getPageIndex uintaddr).2 w.mem).line
      exact hw.kept (congrArg MemPerf.ConflictData.totalMisses hd)
        (congrArg MemPerf.ConflictData.missesPerSet hd) hn
        (fun i => congrArg CoherencyData.misses (congrFun hc i)) fun c => (hline c).2.2
  | doMemoryAccess tid uintaddr miss =>
      obtain rfl := Option.some.inj hmem
      exact hw.access tid uintaddr miss

theorem run {past : List ShadowOp} (h : Run Sampled.step (fun _ _ _ => True) {} past w) :
    Counting w :=
  h.invariant Counting init fun _ _ _ _ hw _ hs => hw.step hs

end Counting

/-- **The miss statistics are exact up to 65535 misses**, in every run. -/
theorem misses_exact_iff {past : List ShadowOp} {w : Sampled}
    (h : Run Sampled.step (fun _ _ _ => True) {} past w) :
    MissesExact w ↔ w.missed.length < 2 ^ 16 := by
  have hw := Counting.run h
  constructor
  · intro hexact
    rw [← hexact.total, hw.total]
    exact wrap_lt 16 _
  · intro hlt
    have htotal : w.mem.conflictData.totalMisses = w.missed.length :=
      hw.total.trans (wrap_of_lt hlt)
    have hset : ∀ set, w.mem.conflictData.missesPerSet set = missesIn set w.missed := by
      intro set
      have hle : missesIn set w.missed ≤ w.missed.length := by
        rw [missesIn]
        exact List.count_le_length.trans_eq (List.length_map _)
      exact (hw.perSet set).trans (wrap_of_lt (Nat.lt_of_le_of_lt hle hlt))
    refine ⟨htotal, hset, fun set => ?_, fun i hi => ?_⟩
    · rw [ConflictData.fivePercent, htotal, hset, Bool.and_eq_true, decide_eq_true_eq,
        decide_eq_true_eq, Nat.mul_comm]
    · have hpart : percent w.missed.length (w.mem.coherencyCaches i).misses ≤ 100 :=
        percent_le (hw.entry_le i hi)
      have hscore : (w.mem.coherencyCaches i).score w.mem.conflictData.totalMisses
          = percent w.missed.length (w.mem.coherencyCaches i).misses := by
        rw [CoherencyData.score, htotal]
        exact wrap_of_lt (Nat.lt_of_le_of_lt hpart (by decide))
      refine ⟨?_, hscore, hscore ▸ hpart⟩
      rw [htotal]
      exact (List.length_pos_of_ne_nil (hw.nonempty (by omega))).ne'

/-! ## A long run -/

/-- Which line is sampled depends on the usage of pages and lines only. -/
theorem sampledLine_congr {s s' : MemPerf.ShadowMemory} (hp : s'.pageMap = s.pageMap)
    (hb : ∀ c, (s'.cacheMap c).numUsedBytes = (s.cacheMap c).numUsedBytes) (addr : Nat) :
    s'.sampledLine addr = s.sampledLine addr := by
  have hu : ∀ c, (s'.cacheMap c).getUsedBytes = (s.cacheMap c).getUsedBytes := by
    intro c
    unfold CacheMapEntry.getUsedBytes
    rw [hb]
  simp only [ShadowMemory.sampledLine, hp, hu]

theorem addMiss_usage (s : MemPerf.ShadowMemory) (addr c c' : Nat) :
    ((addMiss addr c s).cacheMap c').numUsedBytes = (s.cacheMap c').numUsedBytes := by
  obtain ⟨-, -, -, hbytes⟩ := ConflictData.addMiss_counts addr c s.conflictData (s.cacheMap c)
  by_cases hcc : c' = c
  · subst hcc
    simp only [addMiss, ShadowMemory.modifyLine_cacheMap_self, hbytes]
  · simp only [addMiss, ShadowMemory.modifyLine_cacheMap_of_ne _ _ _ hcc]
    rfl

theorem sampledLine_access (s : MemPerf.ShadowMemory) (tid addr : Nat) :
    (doMemoryAccess tid addr true s).sampledLine addr = s.sampledLine addr := by
  unfold doMemoryAccess
  split
  · rfl
  · next pme c _ =>
      refine sampledLine_congr ?_ (fun c' => ?_) addr
      · exact (ShadowMemory.recordCoherency_touches tid addr c _).pageMap.trans rfl
      · simp only [if_true]
        rw [ShadowMemory.recordCoherency_usage, addMiss_usage]

/-- A line in use can be missed on any number of times. -/
theorem misses_go_on {past : List ShadowOp} {w : Sampled}
    (h : Run Sampled.step (fun _ _ _ => True) {} past w) {addr : Nat} (tid : Nat)
    (hs : (w.mem.sampledLine addr).isSome) : ∀ n : Nat, ∃ past' w',
    Run Sampled.step (fun _ _ _ => True) {} past' w'
    ∧ w'.missed.length = w.missed.length + n ∧ (w'.mem.sampledLine addr).isSome
  | 0 => ⟨past, w, h, rfl, hs⟩
  | n + 1 => by
      obtain ⟨past', w', hrun, hlen, hs'⟩ := misses_go_on h tid hs n
      refine ⟨past' ++ [.doMemoryAccess tid addr true], _, hrun.snoc trivial rfl, ?_, ?_⟩
      · simp only [missedAddress, hs', if_true, List.length_append, List.length_singleton, hlen]
        omega
      · show ((doMemoryAccess tid addr true w'.mem).sampledLine addr).isSome
        rw [sampledLine_access]
        exact hs'

/-- An object of eight bytes: a line in use. -/
theorem line_in_use : ∃ w, Run Sampled.step (fun _ _ _ => True) {}
    [.mallocUpdateObject 0x10000000000 8] w
    ∧ w.missed = [] ∧ (w.mem.sampledLine 0x10000000000).isSome := by
  have hone : (([.mallocUpdateObject 0x10000000000 8].foldlM Sampled.step {}).map fun w =>
      (w.missed, (w.mem.sampledLine 0x10000000000).isSome)) = some ([], true) := by
    decide +kernel
  obtain ⟨w, hw, hvals⟩ := Option.map_eq_some_iff.mp hone
  simp only [Prod.mk.injEq] at hvals
  exact ⟨w, Run.ofFoldlM (fun _ _ _ _ => trivial) hw, hvals.1, hvals.2⟩

/-- A hundred misses on one line are counted exactly. -/
theorem misses_exact_hundred : ∃ past w, Run Sampled.step (fun _ _ _ => True) {} past w
    ∧ w.missed.length = 100 ∧ MissesExact w := by
  obtain ⟨w, hrun, hempty, hs⟩ := line_in_use
  obtain ⟨past', w', hrun', hlen, -⟩ := misses_go_on hrun 1 hs 100
  rw [hempty, List.length_nil, Nat.zero_add] at hlen
  exact ⟨past', w', hrun', hlen, (misses_exact_iff hrun').mpr (by omega)⟩

/-- The 65536th miss sets the total back to 0. -/
theorem total_wraps : ¬ ∀ past w, Run Sampled.step (fun _ _ _ => True) {} past w →
    w.missed.length * 100 < 2 ^ 32 → MissesExact w := by
  intro hclaim
  obtain ⟨w, hrun, hempty, hs⟩ := line_in_use
  obtain ⟨past', w', hrun', hlen, -⟩ := misses_go_on hrun 1 hs 65536
  rw [hempty, List.length_nil, Nat.zero_add] at hlen
  have hexact := (hclaim past' w' hrun' (by rw [hlen]; decide)).total
  have hwrap := (Counting.run hrun').total
  rw [hlen] at hexact hwrap
  rw [hexact] at hwrap
  exact absurd hwrap (by decide)

end MemPerf.Temp
