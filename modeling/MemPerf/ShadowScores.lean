import Mathlib.Data.List.Sort
import MemPerf.Lib.Shares
import MemPerf.ShadowSharing
import MemPerf.ShadowSearches

/-!
# The false sharing score

`ShadowMemory::printOutput` gathers the scores of the falsely shared
allocator lines, sorts them and adds them up, each later one with half
the weight of the one before it. All of this is done in bytes. The
scores are percentages of all misses, of distinct lines, so neither they
nor their sum wrap; but the weight, which doubles each round, is 0 after
eight rounds and is then divided by.

Runs have mallocs, frees and accesses; `missedLines` are the lines of
the counted misses, oldest first.
-/

namespace MemPerf

open Word Shares StepSystem

/-! ## Adding up scores -/

/-- `std::sort` with `cmp`: the larger score comes first. -/
def sortScores (scores : List Nat) : List Nat := scores.insertionSort (· ≥ ·)

/-- `for(i = 0, j = 1; i < numOfScores; ++i, j *= 2) total += scores[i] / j;`
with a `total` of one byte and a `j` of `w` bits; `none` is the division
by zero. -/
def scoreLoop (w : Nat) : List Nat → Nat → Nat → Option Nat
  | [], _, total => some total
  | score :: rest, j, total =>
      if j = 0 then none else scoreLoop w rest (wrap w (j * 2)) (wrap 8 (total + score / j))

/-- From round `k` on, the loop gets as far as its weight has bits. -/
theorem scoreLoop_eq (w : Nat) : ∀ (scores : List Nat) (k total : Nat), k ≤ w →
    total + weightedFrom k scores < 2 ^ 8 → scoreLoop w scores (wrap w (2 ^ k)) total =
      if k + scores.length ≤ w then some (total + weightedFrom k scores) else none
  | [], k, total, hk, _ => by
      rw [List.length_nil, Nat.add_zero, if_pos hk]
      rfl
  | score :: rest, k, total, hk, hsum => by
      rw [weightedFrom_cons] at hsum ⊢
      rw [List.length_cons, scoreLoop]
      by_cases hlast : k = w
      · subst hlast
        rw [wrap, Nat.mod_self, if_pos rfl, if_neg (by omega)]
      · have hweight : wrap w (2 ^ k) = 2 ^ k :=
          wrap_of_lt (Nat.pow_lt_pow_right (by decide) (by omega))
        have hadd : wrap 8 (total + score / 2 ^ k) = total + score / 2 ^ k :=
          wrap_of_lt (by omega)
        rw [hweight, if_neg (Nat.two_pow_pos k).ne', hadd, ← Nat.pow_succ,
          scoreLoop_eq w rest (k + 1) _ (by omega) (by omega)]
        have hlen : k + 1 + rest.length = k + (rest.length + 1) := by omega
        rw [hlen, Nat.add_assoc]

theorem sum_sortScores (scores : List Nat) : (sortScores scores).sum = scores.sum :=
  (List.perm_insertionSort ..).sum_eq

theorem length_sortScores (scores : List Nat) : (sortScores scores).length = scores.length :=
  (List.perm_insertionSort ..).length_eq

/-- The whole loop, on scores that are shares of a hundred. -/
theorem scoreLoop_sorted (w : Nat) {scores : List Nat} (hw : 0 < w) (h : scores.sum ≤ 100) :
    scoreLoop w (sortScores scores) 1 0 =
      if scores.length ≤ w then some (weighted (sortScores scores)) else none := by
  have hsum : weighted (sortScores scores) ≤ 100 :=
    (weighted_le_sum _).trans (by rwa [sum_sortScores])
  have hone : wrap w (2 ^ 0) = 1 := wrap_of_lt (Nat.one_lt_two_pow hw.ne')
  have heq := scoreLoop_eq w (sortScores scores) 0 0 (Nat.zero_le w)
    (by rw [Nat.zero_add]; exact Nat.lt_of_le_of_lt hsum (by decide))
  rw [hone] at heq
  rw [heq, length_sortScores, Nat.zero_add, Nat.zero_add]
  rfl

/-! ## What is scored -/

/-- `fScores`: the scores of the lines found falsely shared, between
objects of two threads. -/
def falseSharingScores (reports : List LineReport) : List Nat :=
  (reports.filter fun report => report.falseSharing && report.allocatorThreads.isSome).map
    LineReport.score

/-- `totalFScore`. (Without a score the loop is skipped, or empty.) -/
def totalFScore (reports : List LineReport) : Option Nat :=
  scoreLoop 8 (sortScores (falseSharingScores reports)) 1 0

/-- After the first word with a thread comes one without that thread in
front, or with two threads. -/
def FalselyShared (d : CoherencyData) : Prop :=
  ∃ first < numWord, d.tidsPerWord first 0 ≠ 0 ∧ (∀ k < first, d.tidsPerWord k 0 = 0)
    ∧ ∃ word < numWord, first < word
      ∧ (d.tidsPerWord first 0 ≠ d.tidsPerWord word 0 ∨ SharingScan.Crowded (d.tidsPerWord word))

instance (d : CoherencyData) : Decidable (FalselyShared d) :=
  inferInstanceAs (Decidable (∃ _ < _, _))

/-- Entry `i` will have a false sharing score. -/
def Scored (s : ShadowMemory) (i : Nat) : Prop :=
  s.conflictData.totalMisses ≤ (s.coherencyCaches i).misses * 100
  ∧ (s.coherencyCaches i).allocateTid.2 ≠ 0 ∧ FalselyShared (s.coherencyCaches i)

instance (s : ShadowMemory) (i : Nat) : Decidable (Scored s i) :=
  inferInstanceAs (Decidable (_ ∧ _ ∧ _))

/-- How many of the tracked lines will. -/
def numOfFScores (s : ShadowMemory) : Nat :=
  (List.range s.numOfCoherencyCaches).countP fun i => decide (Scored s i)

theorem falseSharing_iff (d : CoherencyData) :
    d.sharing.falseSharing = true ↔ FalselyShared d := by
  by_cases htouched : ∃ first < numWord, d.tidsPerWord first 0 ≠ 0
  · have hex : ∃ first, first < numWord ∧ d.tidsPerWord first 0 ≠ 0 := htouched
    obtain ⟨hlt, hne⟩ := Nat.find_spec hex
    generalize hfirst : Nat.find hex = first at hlt hne
    have hbefore : ∀ k < first, d.tidsPerWord k 0 = 0 := by
      intro k hk
      by_contra hk0
      exact Nat.find_min hex (hfirst ▸ hk) ⟨by omega, hk0⟩
    have hpre : ∀ r ∈ (List.range' 0 first).map d.tidsPerWord, r 0 = 0 := by
      intro r hr
      obtain ⟨k, hk, rfl⟩ := List.mem_map.mp hr
      rw [List.mem_range'_1] at hk
      exact hbefore k (by omega)
    have hscan : d.sharing = ((List.range' 0 first).map d.tidsPerWord
        ++ d.tidsPerWord first :: (List.range' (first + 1) (7 - first)).map d.tidsPerWord).foldl
          SharingScan.scanWord {} := by
      rw [CoherencyData.sharing, range_split hlt, List.map_append, List.map_cons]
    rw [hscan, SharingScan.scan_first _ hpre hne]
    simp only [decide_eq_true_eq, List.mem_map]
    constructor
    · rintro ⟨r, ⟨word, hword, rfl⟩, h⟩
      rw [List.mem_range'_1] at hword
      exact ⟨first, hlt, hne, hbefore, word, by simp only [numWord]; omega, by omega, h⟩
    · rintro ⟨first', hlt', hne', hbefore', word, hword, hafter, h⟩
      -- the first touched word is unique
      obtain rfl : first' = first := by
        rcases Nat.lt_trichotomy first' first with h1 | h1 | h1
        · exact absurd (hbefore first' h1) hne'
        · exact h1
        · exact absurd (hbefore' first h1) hne
      refine ⟨_, ⟨word, ?_, rfl⟩, h⟩
      simp only [numWord] at hword
      rw [List.mem_range'_1]
      omega
  · have hnone : d.sharing = {} := by
      refine SharingScan.scan_untouched _ rfl fun r hr => ?_
      obtain ⟨k, hk, rfl⟩ := List.mem_map.mp hr
      by_contra hk0
      exact htouched ⟨k, List.mem_range.mp hk, hk0⟩
    rw [hnone]
    refine ⟨fun h => absurd h (by decide), ?_⟩
    rintro ⟨first, hlt, hne, -⟩
    exact absurd ⟨first, hlt, hne⟩ htouched

/-! ## Counting misses -/

/-- The shadow memory with the lines of the misses counted so far. -/
structure Sampled where
  mem : ShadowMemory := {}
  missedLines : List Nat := []

/-- The line whose miss the call counts. -/
def ShadowMemory.missedLine (s : ShadowMemory) : ShadowOp → List Nat
  | .doMemoryAccess _ uintaddr true => ((s.sampledLine uintaddr).map Prod.snd).toList
  | _ => []

def Sampled.step (w : Sampled) (op : ShadowOp) : Option Sampled := do
  let mem ← w.mem.step op
  some { mem := mem, missedLines := w.missedLines ++ w.mem.missedLine op }

/-- No line's count, in its byte or in its table entry, is beyond the
number of its misses; entries are of distinct lines. -/
structure LinesCounted (s : ShadowMemory) (missedLines : List Nat) : Prop where
  table : FlaggedTable (fun i => (s.coherencyCaches i).cme) s.numOfCoherencyCaches
    fun c => (s.cacheMap c).coherency = true
  num_le : s.numOfCoherencyCaches ≤ coherencyCachesMax
  count_le : ∀ c, s.missCount c ≤ missedLines.count c
  entry_le : ∀ i < s.numOfCoherencyCaches, ∀ c, (s.coherencyCaches i).cme = some c →
    (s.coherencyCaches i).misses ≤ missedLines.count c
  entry_mem : ∀ i < s.numOfCoherencyCaches, ∀ c, (s.coherencyCaches i).cme = some c →
    c ∈ missedLines

theorem linesCounted_init : LinesCounted {} [] where
  table := .empty
  num_le := Nat.zero_le _
  count_le c := by simp [ShadowMemory.missCount]
  entry_le i hi := absurd hi (Nat.not_lt_zero _)
  entry_mem i hi := absurd hi (Nat.not_lt_zero _)

namespace ShadowMemory

/-- No miss is counted and no line enters the coherency table. -/
structure SameMisses (s s' : ShadowMemory) : Prop where
  totalMisses : s'.conflictData.totalMisses = s.conflictData.totalMisses
  missesPerSet : s'.conflictData.missesPerSet = s.conflictData.missesPerSet
  num : s'.numOfCoherencyCaches = s.numOfCoherencyCaches
  cme : ∀ i, (s'.coherencyCaches i).cme = (s.coherencyCaches i).cme
  misses : ∀ i, (s'.coherencyCaches i).misses = (s.coherencyCaches i).misses
  low7 : ∀ c, s'.low7 c = s.low7 c

theorem SameMisses.refl (s : ShadowMemory) : SameMisses s s :=
  ⟨rfl, rfl, rfl, fun _ => rfl, fun _ => rfl, fun _ => rfl⟩

theorem SameMisses.trans {s s' s'' : ShadowMemory} (h : SameMisses s s')
    (h' : SameMisses s' s'') : SameMisses s s'' where
  totalMisses := h'.totalMisses.trans h.totalMisses
  missesPerSet := h'.missesPerSet.trans h.missesPerSet
  num := h'.num.trans h.num
  cme i := (h'.cme i).trans (h.cme i)
  misses i := (h'.misses i).trans (h.misses i)
  low7 c := (h'.low7 c).trans (h.low7 c)

theorem sameMisses_getCacheMapEntry {s s' : ShadowMemory} {range index t : Nat}
    (h : s.getCacheMapEntry range index = some (s', t)) : SameMisses s s' := by
  rcases getCacheMapEntry_cases h with ⟨rfl, -⟩ | ⟨-, -, rfl⟩
  · exact .refl _
  · exact ⟨rfl, rfl, rfl, fun _ => rfl, fun _ => rfl, fun _ => rfl⟩

theorem sameMisses_walkPages (part : Nat → PageMapEntry → PageMapEntry)
    (whole : PageMapEntry → PageMapEntry) (addr range idx size : Nat) (s : ShadowMemory) :
    SameMisses s (s.walkPages part whole addr range idx size) := by
  rw [walkPages_eq]
  exact ⟨rfl, rfl, rfl, fun _ => rfl, fun _ => rfl, fun _ => rfl⟩

theorem sameMisses_modifyLine (s : ShadowMemory) {c : Nat} {f : CacheMapEntry → CacheMapEntry}
    (hf : (f (s.cacheMap c)).misses = (s.cacheMap c).misses) :
    SameMisses s (s.modifyLine c f) := by
  refine ⟨rfl, rfl, rfl, fun _ => rfl, fun _ => rfl,
    low7_of_touches (modifyLine_touches s c f) ?_⟩
  simp only [low7, modifyLine_cacheMap_self, hf]

theorem sameMisses_freePartLine (o : ObjStat) (n c : Nat) (s : ShadowMemory) :
    SameMisses s (freePartLine o n c s) := by
  have hcaches : ∀ i, ((freePartLine o n c s).coherencyCaches i).cme = (s.coherencyCaches i).cme
      ∧ ((freePartLine o n c s).coherencyCaches i).misses = (s.coherencyCaches i).misses := by
    intro i
    rw [freePartLine_caches]
    split
    · by_cases hi : i = s.coherencyIndex c
      · subst hi
        rw [Function.update_self]
        unfold CoherencyData.recordOwner
        split <;> exact ⟨rfl, rfl⟩
      · rw [Function.update_of_ne hi]
        exact ⟨rfl, rfl⟩
    · exact ⟨rfl, rfl⟩
  have hcounts : (freePartLine o n c s).conflictData.totalMisses = s.conflictData.totalMisses
      ∧ (freePartLine o n c s).conflictData.missesPerSet = s.conflictData.missesPerSet := by
    simp only [freePartLine]
    split <;> split <;> exact ⟨rfl, rfl⟩
  exact ⟨hcounts.1, hcounts.2, freePartLine_num o n c s, fun i => (hcaches i).1,
    fun i => (hcaches i).2,
    low7_of_touches (freePartLine_touches o n c s) (freePartLine_low7 o n c s)⟩

theorem sameMisses_freeWholeLine (o : ObjStat) (c : Nat) (s : ShadowMemory) :
    SameMisses s (freeWholeLine o c s) := by
  refine ⟨?_, ?_, (freeWholeLine_caches o c s).2, fun i => ?_, fun i => ?_,
    low7_of_touches (freeWholeLine_touches o c s) (freeWholeLine_low7 o c s)⟩
  · simp only [freeWholeLine]
    split <;> rfl
  · simp only [freeWholeLine]
    split <;> rfl
  · rw [(freeWholeLine_caches o c s).1]
  · rw [(freeWholeLine_caches o c s).1]

theorem sameMisses_malloc {s s' : ShadowMemory} {A n : Nat}
    (h : s.mallocUpdateObject A n = some s') : SameMisses s s' :=
  mallocUpdateObject_rule (SameMisses s)
    (fun _ _ => sameMisses_walkPages .addUsedBytes .setFull _ _ _ _ s)
    (fun _ _ _ _ _ ht hget => ht.trans (sameMisses_getCacheMapEntry hget))
    (fun _ _ _ _ t ht _ => ht.trans (sameMisses_modifyLine t rfl))
    (fun _ _ _ t ht _ => ht.trans (sameMisses_modifyLine t rfl)) (.refl s) h

theorem sameMisses_free {s s' : ShadowMemory} {A : Nat} {o : ObjStat}
    (h : s.freeUpdateObject A o = some s') : SameMisses s s' :=
  freeUpdateObject_rule (SameMisses s)
    (fun _ _ => sameMisses_walkPages .subUsedBytes .setEmpty _ _ _ _ s)
    (fun _ _ _ _ _ ht hget => ht.trans (sameMisses_getCacheMapEntry hget))
    (fun n _ _ c t ht _ => ht.trans (sameMisses_freePartLine o n c t))
    (fun _ _ c t ht _ => ht.trans (sameMisses_freeWholeLine o c t)) (.refl s) h

/-- `addMiss` counts the miss for all lines together. -/
theorem addMiss_totalMisses (s : ShadowMemory) (addr c : Nat) :
    (s.addMiss addr c).conflictData.totalMisses = wrap 32 (s.conflictData.totalMisses + 1) := by
  rw [addMiss, modifyLine_conflictData]
  rcases ConflictData.addMiss_cases s.conflictData addr c (s.cacheMap c) with
    hsame | ⟨-, -, -, happ⟩
  · rw [hsame]
    rfl
  · rw [happ]
    rfl

theorem recordCoherency_totalMisses (s : ShadowMemory) (tid addr c : Nat) :
    (s.recordCoherency tid addr c).conflictData.totalMisses = s.conflictData.totalMisses := by
  rcases recordCoherency_outcomes s tid addr c with
    ⟨-, -, heq⟩ | ⟨-, -, -, heq⟩ | ⟨-, -, -, heq⟩ | ⟨-, heq⟩ <;> rw [heq]
  · rfl
  · rfl
  · rfl

end ShadowMemory

namespace LinesCounted

open ShadowMemory
open Watching (entered)

variable {s s' : ShadowMemory} {missedLines : List Nat}

theorem same (h : LinesCounted s missedLines) (hs : SameMisses s s') :
    LinesCounted s' missedLines where
  table := by
    rw [hs.num]
    refine h.table.mono (fun i _ => hs.cme i) fun c hc => ?_
    rw [coherency_eq_of_low7 (hs.low7 c)]
    exact hc
  num_le := by
    rw [hs.num]
    exact h.num_le
  count_le c := by
    rw [missCount_eq_of_low7 (hs.low7 c)]
    exact h.count_le c
  entry_le i hi c hc := by
    rw [hs.misses]
    exact h.entry_le i (by rwa [← hs.num]) c ((hs.cme i).symm.trans hc)
  entry_mem i hi c hc := h.entry_mem i (by rwa [← hs.num]) c ((hs.cme i).symm.trans hc)

theorem count_le_snoc (c c' : Nat) : missedLines.count c' ≤ (missedLines ++ [c]).count c' := by
  rw [List.count_append]
  omega

theorem count_snoc_self (c : Nat) : (missedLines ++ [c]).count c = missedLines.count c + 1 := by
  simp

/-- More misses than counted. -/
theorem snoc (h : LinesCounted s missedLines) (c : Nat) : LinesCounted s (missedLines ++ [c]) where
  table := h.table
  num_le := h.num_le
  count_le c' := (h.count_le c').trans (count_le_snoc c c')
  entry_le i hi c' hc' := (h.entry_le i hi c' hc').trans (count_le_snoc c c')
  entry_mem i hi c' hc' := List.mem_append_left _ (h.entry_mem i hi c' hc')

/-- A miss on a tracked line is counted in its entry. -/
theorem hit (h : LinesCounted s missedLines) (c : Nat) {f : CoherencyData → CoherencyData}
    (hcme : ∀ d, (f d).cme = d.cme) (hmisses : ∀ d, (f d).misses ≤ d.misses + 1) :
    LinesCounted (s.modifyCoherency (s.coherencyIndex c) f) (missedLines ++ [c]) := by
  have hcme' : ∀ i, ((s.modifyCoherency (s.coherencyIndex c) f).coherencyCaches i).cme
      = (s.coherencyCaches i).cme := by
    intro i
    by_cases hi : i = s.coherencyIndex c
    · simp [modifyCoherency, hi, hcme]
    · simp [modifyCoherency, hi]
  refine ⟨h.table.mono (fun i _ => hcme' i) fun _ hc => hc, h.num_le, (h.snoc c).count_le,
    fun i hi c' hc' => ?_, fun i hi c' hc' => (h.snoc c).entry_mem i hi c' (by rwa [← hcme' i])⟩
  rw [hcme'] at hc'
  by_cases hidx : i = s.coherencyIndex c
  · -- the search stopped at an entry of `c`
    have hfound : (s.coherencyCaches i).cme = some c := by
      rw [hidx] at hi ⊢
      exact beq_iff_eq.mp (Search.firstIndex_sat hi)
    obtain rfl := Option.some.inj (hc'.symm.trans hfound)
    have hentry : (s.modifyCoherency (s.coherencyIndex c') f).coherencyCaches i
        = f (s.coherencyCaches i) := by
      rw [hidx]
      exact Function.update_self ..
    have hold := h.entry_le i hi c' hc'
    have hnew := hmisses (s.coherencyCaches i)
    rw [hentry, count_snoc_self]
    omega
  · have hentry : (s.modifyCoherency (s.coherencyIndex c) f).coherencyCaches i
        = s.coherencyCaches i := Function.update_of_ne hidx _ _
    rw [hentry]
    exact (h.snoc c).entry_le i hi c' hc'

/-- The sixth miss enters the line. -/
theorem enter (h : LinesCounted s missedLines) {c : Nat}
    (hroom : s.numOfCoherencyCaches < coherencyCachesMax) (hfive : 5 ≤ s.missCount c)
    (hclear : (s.cacheMap c).coherency = false) {d : CoherencyData} (hd : d.cme = some c)
    (hmisses : d.misses = 5) :
    LinesCounted (entered s c d) (missedLines ++ [c]) := by
  have hcount : ∀ c', (entered s c d).missCount c' = s.missCount c' := by
    intro c'
    by_cases hcc : c' = c
    · subst hcc
      simp only [missCount, entered, modifyLine_cacheMap_self]
      rw [CacheMapEntry.setCoherency_count]
    · simp only [missCount, entered, modifyLine_cacheMap_of_ne _ _ _ hcc]
  have hcoh := Tracked.flag_modifyLine CacheMapEntry.coherency (c := c) s
    (f := fun e => { e with misses := e.misses ||| 0x40#8 })
    fun _ => CacheMapEntry.coherency_setCoherency _
  have hcme : (fun i => ((entered s c d).coherencyCaches i).cme)
      = Function.update (fun i => (s.coherencyCaches i).cme) s.numOfCoherencyCaches (some c) := by
    funext i
    by_cases hi : i = s.numOfCoherencyCaches
    · subst hi
      simp [entered, hd]
    · simp [entered, Function.update_of_ne hi]
  have hold : ∀ i < s.numOfCoherencyCaches,
      (entered s c d).coherencyCaches i = s.coherencyCaches i :=
    fun i hi => Function.update_of_ne (Nat.ne_of_lt hi) _ _
  have hnew : (entered s c d).coherencyCaches s.numOfCoherencyCaches = d :=
    Function.update_self ..
  refine ⟨?_, hroom, fun c' => ?_, fun i hi c' hc' => ?_, fun i hi c' hc' => ?_⟩
  · have hpush := h.table.push (k := c) (by simpa using hclear) hcoh
      (by rw [modifyLine_cacheMap_self]; exact CacheMapEntry.coherency_setCoherency _)
    rw [hcme]
    exact hpush
  · rw [hcount]
    exact (h.snoc c).count_le c'
  · rcases Nat.lt_succ_iff_lt_or_eq.mp hi with hlt | rfl
    · rw [hold i hlt] at hc' ⊢
      exact (h.snoc c).entry_le i hlt c' hc'
    · rw [hnew] at hc' ⊢
      obtain rfl := Option.some.inj (hd.symm.trans hc')
      rw [hmisses]
      exact hfive.trans ((h.snoc c).count_le c)
  · rcases Nat.lt_succ_iff_lt_or_eq.mp hi with hlt | rfl
    · rw [hold i hlt] at hc'
      exact (h.snoc c).entry_mem i hlt c' hc'
    · rw [hnew] at hc'
      obtain rfl := Option.some.inj (hd.symm.trans hc')
      exact List.mem_append_right _ (List.mem_singleton_self c)

theorem countMiss (h : LinesCounted s missedLines) {c : Nat}
    (hfew : ((s.cacheMap c).misses &&& 0x3f#8).toNat < 5) :
    LinesCounted (s.modifyLine c fun e => { e with misses := e.misses + 1 })
      (missedLines ++ [c]) := by
  obtain ⟨-, h40⟩ := CacheMapEntry.countMiss_flags _ hfew
  refine ⟨h.table.mono (fun _ _ => rfl) ?_, h.num_le, fun c' => ?_,
    (h.snoc c).entry_le, (h.snoc c).entry_mem⟩
  · exact Tracked.flag_modifyLine CacheMapEntry.coherency s fun hc =>
      (CacheMapEntry.coherency_congr h40).trans hc
  · by_cases hcc : c' = c
    · subst hcc
      have hold := h.count_le c'
      simp only [missCount] at hold
      rw [missCount, modifyLine_cacheMap_self, CacheMapEntry.countMiss_toNat _ hfew,
        count_snoc_self]
      omega
    · rw [missCount, modifyLine_cacheMap_of_ne _ _ _ hcc]
      exact (h.snoc c).count_le c'

theorem recordCoherency (h : LinesCounted s missedLines) (tid addr c : Nat) :
    LinesCounted (s.recordCoherency tid addr c) (missedLines ++ [c]) := by
  rcases recordCoherency_outcomes s tid addr c with
    ⟨-, -, heq⟩ | ⟨hfive, hclear, hroom, heq⟩ | ⟨-, -, -, heq⟩ | ⟨hfew, heq⟩ <;> rw [heq]
  · exact h.hit c (fun _ => rfl) fun d => Nat.mod_le _ _
  · exact h.enter hroom hfive hclear rfl rfl
  · exact h.snoc c
  · exact h.countMiss hfew

end LinesCounted

/-! ## Runs -/

/-- What holds of a sampled process: every miss is counted once in the
total, and at most once for its line. -/
structure Counting (w : Sampled) : Prop where
  total : w.mem.conflictData.totalMisses = wrap 32 w.missedLines.length
  lines : LinesCounted w.mem w.missedLines

namespace Counting

open ShadowMemory

variable {w w' : Sampled}

theorem access (hw : Counting w) (tid addr : Nat) (miss : Bool) :
    Counting ⟨w.mem.doMemoryAccess tid addr miss,
      w.missedLines ++ w.mem.missedLine (.doMemoryAccess tid addr miss)⟩ := by
  cases hsampled : w.mem.sampledLine addr with
  | none =>
      have hnone : w.mem.missedLine (.doMemoryAccess tid addr miss) = [] := by
        cases miss <;> simp [missedLine, hsampled]
      simp only [doMemoryAccess, hsampled, hnone, List.append_nil]
      exact hw
  | some found =>
      obtain ⟨pme, c⟩ := found
      -- the friendliness totals concern nothing counted here
      let s1 : ShadowMemory := { w.mem with
        friendlinessStatus := Function.update w.mem.friendlinessStatus tid
          ((w.mem.friendlinessStatus tid).recordANewSampling (w.mem.cacheMap c).getUsedBytes
            pme.getUsedBytes) }
      have hlines : LinesCounted s1 w.missedLines :=
        hw.lines.same ⟨rfl, rfl, rfl, fun _ => rfl, fun _ => rfl, fun _ => rfl⟩
      cases miss with
      | false =>
          have hacc : w.mem.doMemoryAccess tid addr false = s1 := by
            simp only [doMemoryAccess, hsampled, Bool.false_eq_true, if_false, s1]
          have hnone : w.mem.missedLine (.doMemoryAccess tid addr false) = [] := rfl
          rw [hacc, hnone, List.append_nil]
          exact ⟨hw.total, hlines⟩
      | true =>
          have hacc : w.mem.doMemoryAccess tid addr true
              = (s1.addMiss addr c).recordCoherency tid addr c := by
            simp only [doMemoryAccess, hsampled, if_true, s1]
            rfl
          have hmissed : w.mem.missedLine (.doMemoryAccess tid addr true) = [c] := by
            simp [missedLine, hsampled]
          rw [hacc, hmissed]
          refine ⟨?_, ?_⟩
          · show ((s1.addMiss addr c).recordCoherency tid addr c).conflictData.totalMisses = _
            rw [recordCoherency_totalMisses, addMiss_totalMisses,
              show s1.conflictData.totalMisses = _ from hw.total, List.length_append]
            simp [wrap]
          · have hadd : LinesCounted (s1.addMiss addr c) w.missedLines := by
              have hflag := fun c' => coherency_eq_of_low7 (addMiss_low7 s1 addr c c')
              refine ⟨hlines.table.mono (fun _ _ => rfl) fun c' hc' => (hflag c').trans hc',
                hlines.num_le, fun c' => ?_, hlines.entry_le, hlines.entry_mem⟩
              rw [missCount_eq_of_low7 (addMiss_low7 s1 addr c c')]
              exact hlines.count_le c'
            exact hadd.recordCoherency tid addr c

theorem step (hw : Counting w) {op : ShadowOp} (hop : NoCleanup op) (h : w.step op = some w') :
    Counting w' := by
  obtain ⟨mem, hmem, hw'⟩ := Option.bind_eq_some_iff.mp h
  obtain rfl := Option.some.inj hw'
  cases op with
  | mallocUpdateObject address size =>
      have hsame := sameMisses_malloc hmem
      simp only [missedLine, List.append_nil]
      exact ⟨hsame.totalMisses.trans hw.total, hw.lines.same hsame⟩
  | freeUpdateObject address objStat =>
      have hsame := sameMisses_free hmem
      simp only [missedLine, List.append_nil]
      exact ⟨hsame.totalMisses.trans hw.total, hw.lines.same hsame⟩
  | cleanupPages uintaddr length => exact absurd hop not_false
  | doMemoryAccess tid uintaddr miss =>
      obtain rfl := Option.some.inj hmem
      exact hw.access tid uintaddr miss

theorem run {guard : List ShadowOp → Sampled → ShadowOp → Prop} {past : List ShadowOp}
    (hguard : ∀ past w op, guard past w op → NoCleanup op)
    (h : Run Sampled.step guard {} past w) : Counting w :=
  h.invariant Counting ⟨rfl, linesCounted_init⟩ fun past w op _ hw hg hs =>
    hw.step (hguard past w op hg) hs

/-- With fewer misses than the total can count, the misses of the tracked
lines are parts of it. -/
theorem sum_misses_le (hw : Counting w) (hfew : w.missedLines.length < 2 ^ 32) {entries : List Nat}
    (hnodup : entries.Nodup) (hmem : ∀ i ∈ entries, i < w.mem.numOfCoherencyCaches) :
    (entries.map fun i => (w.mem.coherencyCaches i).misses).sum
      ≤ w.mem.conflictData.totalMisses := by
  have hdistinct : (entries.map fun i => (w.mem.coherencyCaches i).cme).Nodup :=
    hnodup.map_on fun i hi j hj heq =>
      hw.lines.table.distinct i (hmem i hi) j (hmem j hj) heq
  have hle : ∀ i ∈ entries, (w.mem.coherencyCaches i).misses
      ≤ (w.missedLines.map some).count (w.mem.coherencyCaches i).cme := by
    intro i hi
    obtain ⟨c, hc, -⟩ := hw.lines.table.entry i (hmem i hi)
    rw [show (w.mem.coherencyCaches i).cme = some c from hc,
      List.count_map_of_injective _ _ (Option.some_injective _)]
    exact hw.lines.entry_le i (hmem i hi) c hc
  calc (entries.map fun i => (w.mem.coherencyCaches i).misses).sum
      ≤ (entries.map fun i => (w.missedLines.map some).count (w.mem.coherencyCaches i).cme).sum :=
        List.sum_le_sum hle
    _ = ((entries.map fun i => (w.mem.coherencyCaches i).cme).map
          fun cme => (w.missedLines.map some).count cme).sum := by rw [List.map_map]; rfl
    _ ≤ (w.missedLines.map some).length := sum_count_le hdistinct _
    _ = w.mem.conflictData.totalMisses := by
        rw [List.length_map, hw.total, wrap_of_lt hfew]

/-- A tracked line has had misses. -/
theorem totalMisses_ne_zero (hw : Counting w) (hfew : w.missedLines.length < 2 ^ 32) {i : Nat}
    (hi : i < w.mem.numOfCoherencyCaches) : w.mem.conflictData.totalMisses ≠ 0 := by
  obtain ⟨c, hc, -⟩ := hw.lines.table.entry i hi
  have hpos := List.length_pos_of_mem (hw.lines.entry_mem i hi c hc)
  rw [hw.total, wrap_of_lt hfew]
  omega

end Counting

/-! ## The loops of `printOutput` -/

namespace ShadowMemory

/-- No round divides by zero or writes through a null pointer. -/
theorem printLines_isSome (s : ShadowMemory) : ∀ n : Nat,
    (∀ i < n, s.conflictData.totalMisses ≠ 0 ∧ (s.coherencyCaches i).cme ≠ none) →
    ∃ reports s', s.printLines n = some (reports, s')
  | 0, _ => ⟨[], s, rfl⟩
  | n + 1, h => by
      obtain ⟨reports, s1, hfront⟩ := printLines_isSome s n fun i hi => h i (by omega)
      obtain ⟨-, hcaches, hdata⟩ := printLines_spec n hfront
      obtain ⟨htotal, hcme⟩ := h n (Nat.lt_succ_self n)
      obtain ⟨c, hc⟩ := Option.ne_none_iff_exists'.mp hcme
      have hlast : ∃ r s', s1.printLine n = some (r, s') := by
        simp only [printLine, hcaches, hdata, if_neg htotal, hc]
        split
        · exact ⟨_, _, rfl⟩
        · split <;> exact ⟨_, _, rfl⟩
      obtain ⟨r, s2, hlast⟩ := hlast
      exact ⟨reports ++ r, s2, by simp only [printLines, hfront, hlast, Option.bind_eq_bind,
        Option.bind_some]⟩

/-- The scores that are added up, entry by entry. -/
theorem falseSharingScores_eq (s : ShadowMemory)
    (hscore : ∀ i < s.numOfCoherencyCaches,
      (s.coherencyCaches i).score s.conflictData.totalMisses ≠ 0 ↔
        s.conflictData.totalMisses ≤ (s.coherencyCaches i).misses * 100) :
    falseSharingScores ((List.range s.numOfCoherencyCaches).filterMap s.reportOf) =
      ((List.range s.numOfCoherencyCaches).filter fun i => decide (Scored s i)).map
        fun i => (s.coherencyCaches i).score s.conflictData.totalMisses := by
  have hall : ∀ l : List Nat, (∀ i ∈ l, i < s.numOfCoherencyCaches) →
      falseSharingScores (l.filterMap s.reportOf) =
        (l.filter fun i => decide (Scored s i)).map
          fun i => (s.coherencyCaches i).score s.conflictData.totalMisses := by
    intro l hl
    induction l with
    | nil => rfl
    | cons i rest ih =>
        have ih := ih fun j hj => hl j (List.mem_cons_of_mem _ hj)
        have hi := hscore i (hl i (List.mem_cons_self ..))
        rw [List.filterMap_cons, List.filter_cons]
        by_cases hzero : (s.coherencyCaches i).score s.conflictData.totalMisses = 0
        · have hno : ¬ Scored s i := fun h => absurd hzero (hi.mpr h.1)
          simp only [reportOf, if_pos hzero, hno, decide_false, Bool.false_eq_true, if_false]
          exact ih
        · have hiff : Scored s i ↔ (s.coherencyCaches i).allocateTid.2 ≠ 0
              ∧ (s.coherencyCaches i).sharing.falseSharing = true := by
            rw [Scored, falseSharing_iff]
            exact and_iff_right (hi.mp hzero)
          simp only [reportOf, if_neg hzero, hiff]
          simp only [falseSharingScores, List.filter_cons, CoherencyData.report]
          by_cases htid : (s.coherencyCaches i).allocateTid.2 ≠ 0
          · by_cases hshared : (s.coherencyCaches i).sharing.falseSharing = true
            · simp only [hshared, Option.isSome_some, Bool.and_self, if_true, htid, ne_eq,
                not_false_eq_true, and_self, decide_true, List.map_cons]
              exact congrArg _ ih
            · simp only [hshared, Bool.false_and, Bool.false_eq_true, if_false, and_false,
                decide_false]
              exact ih
          · simp only [Option.isSome_none, Bool.and_false, Bool.false_eq_true,
              if_false, htid, false_and, decide_false]
            exact ih
  exact hall _ fun i hi => List.mem_range.mp hi

end ShadowMemory

/-- The arithmetic of the score loops is safe and exact. -/
structure ScoresSafe (s : ShadowMemory) : Prop where
  divisor : 0 < s.numOfCoherencyCaches → s.conflictData.totalMisses ≠ 0
  score : ∀ i < s.numOfCoherencyCaches, (s.coherencyCaches i).score s.conflictData.totalMisses
    = (s.coherencyCaches i).misses * 100 / s.conflictData.totalMisses
    ∧ (s.coherencyCaches i).score s.conflictData.totalMisses ≤ 100
  total : ∃ reports s', s.printCoherencyCaches = some (reports, s')
    ∧ totalFScore reports = some (weighted (sortScores (falseSharingScores reports)))

/-- **The score loops are safe while at most eight lines are scored**, in
every run in which the miss counts fit their fields. -/
theorem scores_safe_iff {past : List ShadowOp} {w : Sampled}
    (h : Run Sampled.step (fun _ _ op => NoCleanup op) {} past w)
    (hfew : w.missedLines.length * 100 < 2 ^ 32) :
    ScoresSafe w.mem ↔ numOfFScores w.mem ≤ 8 := by
  have hw := Counting.run (fun _ _ _ hop => hop) h
  have hfew' : w.missedLines.length < 2 ^ 32 := by omega
  have hdivisor : ∀ i < w.mem.numOfCoherencyCaches, w.mem.conflictData.totalMisses ≠ 0 :=
    fun i hi => hw.totalMisses_ne_zero hfew' hi
  have hpart : ∀ i < w.mem.numOfCoherencyCaches,
      (w.mem.coherencyCaches i).misses ≤ w.mem.conflictData.totalMisses := by
    intro i hi
    simpa using hw.sum_misses_le hfew' (List.nodup_singleton i) (by simpa using hi)
  have hscore : ∀ i < w.mem.numOfCoherencyCaches,
      (w.mem.coherencyCaches i).score w.mem.conflictData.totalMisses
        = percent w.mem.conflictData.totalMisses (w.mem.coherencyCaches i).misses := by
    intro i hi
    exact wrap_of_lt (Nat.lt_of_le_of_lt (percent_le (hpart i hi)) (by decide))
  obtain ⟨reports, s', hprint⟩ := w.mem.printLines_isSome w.mem.numOfCoherencyCaches
    fun i hi => ⟨hdivisor i hi, by
      obtain ⟨c, hc, -⟩ := hw.lines.table.entry i hi
      exact fun hnone => Option.some_ne_none c (hc.symm.trans hnone)⟩
  obtain ⟨hreports, -, -⟩ := ShadowMemory.printLines_spec _ hprint
  have hscores : falseSharingScores reports
      = ((List.range w.mem.numOfCoherencyCaches).filter fun i => decide (Scored w.mem i)).map
        fun i => (w.mem.coherencyCaches i).score w.mem.conflictData.totalMisses := by
    rw [hreports]
    refine ShadowMemory.falseSharingScores_eq _ fun i hi => ?_
    have hpos := Nat.pos_of_ne_zero (hdivisor i hi)
    rw [hscore i hi, percent, ← Nat.pos_iff_ne_zero, Nat.div_pos_iff]
    exact and_iff_right hpos
  have hlen : (falseSharingScores reports).length = numOfFScores w.mem := by
    rw [hscores, List.length_map, numOfFScores, List.countP_eq_length_filter]
  have hsum : (falseSharingScores reports).sum ≤ 100 := by
    rw [hscores]
    generalize hentries : ((List.range w.mem.numOfCoherencyCaches).filter
      fun i => decide (Scored w.mem i)) = entries
    have hmem : ∀ i ∈ entries, i < w.mem.numOfCoherencyCaches := by
      intro i hi
      rw [← hentries] at hi
      exact List.mem_range.mp (List.mem_of_mem_filter hi)
    have hnodup : entries.Nodup := hentries ▸ List.nodup_range.filter _
    have hmap : entries.map (fun i =>
          (w.mem.coherencyCaches i).score w.mem.conflictData.totalMisses)
        = (entries.map fun i => (w.mem.coherencyCaches i).misses).map
          (percent w.mem.conflictData.totalMisses) := by
      rw [List.map_map]
      exact List.map_congr_left fun i hi => hscore i (hmem i hi)
    rw [hmap]
    exact sum_percent_le (hw.sum_misses_le hfew' hnodup hmem)
  have htotal : totalFScore reports = if numOfFScores w.mem ≤ 8 then
      some (weighted (sortScores (falseSharingScores reports))) else none := by
    rw [totalFScore, scoreLoop_sorted 8 (by decide) hsum, hlen]
  constructor
  · intro hsafe
    obtain ⟨reports', s'', hprint', htotal'⟩ := hsafe.total
    obtain ⟨rfl, rfl⟩ := Prod.mk.injEq .. |>.mp
      (Option.some.inj (hprint.symm.trans hprint'))
    by_contra hmore
    rw [htotal, if_neg hmore] at htotal'
    cases htotal'
  · intro hle
    refine ⟨fun hnum => hdivisor 0 hnum, fun i hi => ⟨hscore i hi, ?_⟩, reports, s', hprint, ?_⟩
    · rw [hscore i hi]
      exact percent_le (hpart i hi)
    · rw [htotal, if_pos hle]

/-- One line with objects of two threads: its score is the whole sum. -/
theorem scores_safe_one_line :
    ∃ past w, Run Sampled.step (fun _ _ op => NoCleanup op) {} past w
      ∧ numOfFScores w.mem = 1 ∧ ScoresSafe w.mem := by
  let ops : List ShadowOp :=
    .mallocUpdateObject 0x10000000000 8 :: .mallocUpdateObject 0x10000000008 8
      :: List.replicate 6 (.doMemoryAccess 1 0x10000000000 true)
      ++ [.freeUpdateObject 0x10000000000 ⟨1, 1, 8⟩, .freeUpdateObject 0x10000000008 ⟨1, 2, 8⟩]
  have hone : ((ops.foldlM Sampled.step {}).map fun w =>
      (w.missedLines.length, numOfFScores w.mem)) = some (6, 1) := by decide +kernel
  obtain ⟨w, hw, hvals⟩ := Option.map_eq_some_iff.mp hone
  simp only [Prod.mk.injEq] at hvals
  obtain ⟨hlen, hnum⟩ := hvals
  have hnoCleanup : ∀ op ∈ ops, NoCleanup op := by
    intro op hop
    simp only [ops, List.mem_append, List.mem_cons, List.mem_replicate, List.not_mem_nil,
      or_false] at hop
    rcases hop with (rfl | rfl | ⟨-, rfl⟩) | rfl | rfl <;> trivial
  have hrun : Run Sampled.step (fun _ _ op => NoCleanup op) {} ops w :=
    Run.ofFoldlM (fun op hop _ _ => hnoCleanup op hop) hw
  exact ⟨ops, w, hrun, hnum, (scores_safe_iff hrun (by rw [hlen]; decide)).mpr (by omega)⟩

/-- Nine lines with objects of two threads and six misses each: the ninth
score is divided by the weight 256, which a byte holds as 0. -/
theorem nine_scores_divide_by_zero :
    ¬ ∀ past w, Run Sampled.step (fun _ _ op => NoCleanup op) {} past w →
      w.missedLines.length * 100 < 2 ^ 32 → ScoresSafe w.mem := by
  intro hclaim
  let line (address : Nat) : List ShadowOp :=
    .mallocUpdateObject address 8 :: .mallocUpdateObject (address + 8) 8
      :: List.replicate 6 (.doMemoryAccess 1 address true)
      ++ [.freeUpdateObject address ⟨1, 1, 8⟩, .freeUpdateObject (address + 8) ⟨1, 2, 8⟩]
  let ops : List ShadowOp := (List.range 9).flatMap fun k => line (0x10000000000 + 64 * k)
  have hzero : ((ops.foldlM Sampled.step {}).map fun w =>
      (w.missedLines.length, w.mem.printCoherencyCaches.map fun r => totalFScore r.1))
        = some (54, some none) := by decide +kernel
  obtain ⟨w, hw, hvals⟩ := Option.map_eq_some_iff.mp hzero
  simp only [Prod.mk.injEq] at hvals
  obtain ⟨hlen, hnone⟩ := hvals
  have hnoCleanup : ∀ op ∈ ops, NoCleanup op := by
    intro op hop
    obtain ⟨k, -, hop⟩ := List.mem_flatMap.mp hop
    simp only [line, List.mem_append, List.mem_cons, List.mem_replicate, List.not_mem_nil,
      or_false] at hop
    rcases hop with (rfl | rfl | ⟨-, rfl⟩) | rfl | rfl <;> trivial
  have hrun : Run Sampled.step (fun _ _ op => NoCleanup op) {} ops w :=
    Run.ofFoldlM (fun op hop _ _ => hnoCleanup op hop) hw
  obtain ⟨reports, s', hprint, htotal⟩ := (hclaim ops w hrun (by rw [hlen]; decide)).total
  rw [hprint, Option.map_some, htotal] at hnone
  cases hnone

end MemPerf
