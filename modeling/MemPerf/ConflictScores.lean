import MemPerf.ShadowScores

/-!
# The conflict report

`ConflictData::printOutput` looks at each line of the conflict table and
scores the line's cache set if the set has at least a twentieth of all
misses. The scores go into a buffer of twenty, and nothing in the loop
bounds their number. The bound is in the numbers: a set is zeroed once
it is scored, so the scored sets are distinct, and twenty-one distinct
sets cannot have a twentieth of the misses each.

Runs are of `addMiss` and `checkObj` alone, with any line pointers and
any miss bytes in the lines.
-/

namespace MemPerf

open Word Shares StepSystem

/-! ## The report -/

/-- What is printed about one line of the table; an allocator conflict
also comes with its misses and all misses. -/
structure ConflictReport where
  set : Nat
  percent : Nat
  allocatorMisses : Option (Nat × Nat)
  callKeys : Nat × Nat
deriving DecidableEq, Repr

/-- The state of the loop: the counters it zeroes, the `scores` written
so far, the lines printed so far. -/
structure ConflictScan where
  missesPerSet : Nat → Nat
  scores : List Nat := []
  reports : List ConflictReport := []

/-- The sets scored, in the order of their scores. -/
def ConflictScan.scoredSets (a : ConflictScan) : List Nat :=
  (a.reports.filter fun report => report.allocatorMisses.isSome).map ConflictReport.set

structure ConflictOutput where
  scan : ConflictScan
  conflictScore : Option Nat

namespace ConflictData

/-- One round of the loop; `none` is a null pointer read through. -/
def scoreEntry (cacheMap : Nat → CacheMapEntry) (d : ConflictData) (a : ConflictScan) (i : Nat) :
    Option ConflictScan := do
  let cme ← d.cme i
  let set := d.setOfCme i
  let percent := wrap 32 (a.missesPerSet set * 100) / d.totalMisses
  if (cacheMap cme).misses ≠ 0 ∧ d.totalMisses ≤ wrap 32 (a.missesPerSet set * 20) then
    if 2 ≤ d.objNumPerSet set then
      some
        { missesPerSet := Function.update a.missesPerSet set 0
          scores := a.scores ++ [wrap 8 percent]
          reports := a.reports ++
            [⟨set, percent, some (a.missesPerSet set, d.totalMisses), d.callKeyPerSet set⟩] }
    else
      some { a with reports := a.reports ++ [⟨set, percent, none, d.callKeyPerSet set⟩] }
  else some a

/-- `ConflictData::printOutput`; here the weight of the scores has 64
bits. -/
def printOutput (cacheMap : Nat → CacheMapEntry) (d : ConflictData) : Option ConflictOutput :=
  if 50 ≤ d.totalMisses then do
    let a ← (List.range d.numOfCme).foldlM (d.scoreEntry cacheMap)
      { missesPerSet := d.missesPerSet }
    let totalMissScore ← scoreLoop 64 (sortScores a.scores) 1 0
    some { scan := a, conflictScore := some totalMissScore }
  else some { scan := { missesPerSet := d.missesPerSet }, conflictScore := none }

end ConflictData

/-! ## Runs -/

inductive ConflictOp where
  | addMiss (addr current : Nat) (e : CacheMapEntry)
  | checkObj (current callKey : Nat)
deriving DecidableEq, Repr

def ConflictData.step (d : ConflictData) : ConflictOp → Option ConflictData
  | .addMiss addr current e => some (d.addMiss addr current e).1
  | .checkObj current callKey => some (d.checkObj current callKey)

/-- The cache sets of the misses of a run, oldest first. -/
def missedSets (past : List ConflictOp) : List Nat :=
  past.filterMap fun
    | .addMiss addr _ _ => some (ConflictData.setIdOf addr)
    | .checkObj _ _ => none

/-- The counters count the misses, and the table has no null pointer. -/
structure SetsCounted (d : ConflictData) (missed : List Nat) : Prop where
  total : d.totalMisses = wrap 32 missed.length
  perSet : ∀ set, d.missesPerSet set = wrap 32 (missed.count set)
  entry : ∀ i < d.numOfCme, ∃ c, d.cme i = some c

namespace SetsCounted

variable {d : ConflictData} {missed : List Nat}

theorem countMiss (h : SetsCounted d missed) (setId : Nat) :
    SetsCounted (d.countMiss setId) (missed ++ [setId]) where
  total := by
    simp only [ConflictData.countMiss, h.total, List.length_append, List.length_singleton]
    simp [wrap]
  perSet set := by
    simp only [ConflictData.countMiss]
    by_cases hs : set = setId
    · subst hs
      rw [Function.update_self, h.perSet, List.count_append, List.count_singleton_self]
      simp [wrap]
    · have hzero : [setId].count set = 0 := List.count_eq_zero_of_not_mem (by simpa using hs)
      rw [Function.update_of_ne hs, h.perSet, List.count_append, hzero, Nat.add_zero]
  entry := h.entry

theorem addMiss (h : SetsCounted d missed) (addr c : Nat) (e : CacheMapEntry) :
    SetsCounted (d.addMiss addr c e).1 (missed ++ [ConflictData.setIdOf addr]) := by
  have hcount := h.countMiss (ConflictData.setIdOf addr)
  rcases ConflictData.addMiss_cases d addr c e with hsame | ⟨-, htotal, -, happ⟩
  · rw [hsame]
    exact hcount
  · rw [happ]
    have hnum : wrap 8 (d.numOfCme + 1) = d.numOfCme + 1 :=
      wrap_of_lt (by simp only [cmeMax] at htotal; omega)
    refine ⟨hcount.total, hcount.perSet, fun i hi => ?_⟩
    have hi' : i < d.numOfCme + 1 := by
      rw [← hnum]
      exact hi
    show ∃ k, Function.update d.cme d.numOfCme (some c) i = some k
    rcases Nat.lt_succ_iff_lt_or_eq.mp hi' with hlt | rfl
    · rw [Function.update_of_ne (Nat.ne_of_lt hlt)]
      exact h.entry i hlt
    · exact ⟨c, Function.update_self ..⟩

theorem run {past : List ConflictOp}
    (h : Run ConflictData.step (fun _ _ _ => True) {} past d) :
    SetsCounted d (missedSets past) := by
  refine h.inv (fun past d => SetsCounted d (missedSets past))
    ⟨rfl, fun _ => rfl, fun i hi => absurd hi (Nat.not_lt_zero _)⟩ ?_
  intro past d op d' _ hd _ hstep
  cases op with
  | addMiss addr current e =>
      cases hstep
      rw [missedSets, List.filterMap_append]
      exact hd.addMiss addr current e
  | checkObj current callKey =>
      cases hstep
      rw [missedSets, List.filterMap_append]
      simp only [List.filterMap_cons, List.filterMap_nil, List.append_nil]
      exact ⟨hd.total, hd.perSet, hd.entry⟩

/-- Distinct sets have at most all misses between them. -/
theorem sum_le (h : SetsCounted d missed) (hfew : missed.length < 2 ^ 32) {sets : List Nat}
    (hnodup : sets.Nodup) : (sets.map d.missesPerSet).sum ≤ d.totalMisses := by
  have hset : ∀ set, d.missesPerSet set = missed.count set := fun set =>
    (h.perSet set).trans (wrap_of_lt (Nat.lt_of_le_of_lt List.count_le_length hfew))
  rw [h.total, wrap_of_lt hfew, List.map_congr_left fun set _ => hset set]
  exact sum_count_le hnodup missed

end SetsCounted

/-! ## The loop -/

/-- The entry has the set scored: there were misses on its line, and the set
has a twentieth of all misses and two frees. -/
def ConflictData.Scores (d : ConflictData) (cacheMap : Nat → CacheMapEntry) (i set : Nat) : Prop :=
  (∃ c, d.cme i = some c ∧ (cacheMap c).misses ≠ 0) ∧ d.setOfCme i = set
    ∧ d.totalMisses ≤ d.missesPerSet set * 20 ∧ 2 ≤ d.objNumPerSet set

/-- How far the loop has come: the scored sets are those of the entries seen,
distinct, each was scored with its exact share, of a twentieth or more, and
zeroed. -/
structure Scanned (d : ConflictData) (cacheMap : Nat → CacheMapEntry) (seen : List Nat)
    (a : ConflictScan) : Prop where
  sets : ∀ set, set ∈ a.scoredSets ↔ ∃ i ∈ seen, d.Scores cacheMap i set
  nodup : a.scoredSets.Nodup
  scores : a.scores = a.scoredSets.map fun set => percent d.totalMisses (d.missesPerSet set)
  part : ∀ set ∈ a.scoredSets, d.totalMisses ≤ d.missesPerSet set * 20
  zeroed : ∀ set, a.missesPerSet set = if set ∈ a.scoredSets then 0 else d.missesPerSet set

namespace Scanned

variable {d : ConflictData} {cacheMap : Nat → CacheMapEntry} {seen : List Nat} {a a' : ConflictScan}

theorem init (d : ConflictData) (cacheMap : Nat → CacheMapEntry) :
    Scanned d cacheMap [] { missesPerSet := d.missesPerSet } where
  sets _ := iff_of_false List.not_mem_nil fun ⟨_, hi, _⟩ => List.not_mem_nil hi
  nodup := List.nodup_nil
  scores := rfl
  part _ h := absurd h List.not_mem_nil
  zeroed _ := rfl

/-- An entry that has no set scored, or one that was. -/
theorem skip {i : Nat} (h : Scanned d cacheMap seen a)
    (hi : ∀ set, d.Scores cacheMap i set → set ∈ a.scoredSets) :
    Scanned d cacheMap (seen ++ [i]) a := by
  refine { h with sets := fun set => ?_ }
  rw [h.sets]
  constructor
  · rintro ⟨j, hj, hscores⟩
    exact ⟨j, List.mem_append_left _ hj, hscores⟩
  · rintro ⟨j, hj, hscores⟩
    rcases List.mem_append.mp hj with hj | hj
    · exact ⟨j, hj, hscores⟩
    · obtain rfl := List.mem_singleton.mp hj
      exact (h.sets set).mp (hi set hscores)

/-- An entry whose set is scored, for the first time. -/
theorem score {i set score : Nat} {allocatorMisses callKeys : Nat × Nat}
    (h : Scanned d cacheMap seen a) (hnew : set ∉ a.scoredSets)
    (hscores : d.Scores cacheMap i set)
    (hscore : score = percent d.totalMisses (d.missesPerSet set)) :
    Scanned d cacheMap (seen ++ [i])
      { missesPerSet := Function.update a.missesPerSet set 0
        scores := a.scores ++ [score]
        reports := a.reports ++ [⟨set, score, some allocatorMisses, callKeys⟩] } := by
  have hsets : ConflictScan.scoredSets
      { missesPerSet := Function.update a.missesPerSet set 0
        scores := a.scores ++ [score]
        reports := a.reports ++ [⟨set, score, some allocatorMisses, callKeys⟩] }
        = a.scoredSets ++ [set] := by
    simp [ConflictScan.scoredSets, List.filter_append]
  have hset := hscores.2.1
  have hshare := hscores.2.2.1
  refine ⟨fun set' => ?_, ?_, ?_, fun set' hset' => ?_, fun set' => ?_⟩
  · rw [hsets, List.mem_append, List.mem_singleton, h.sets]
    constructor
    · rintro (⟨j, hj, hold⟩ | rfl)
      · exact ⟨j, List.mem_append_left _ hj, hold⟩
      · exact ⟨i, List.mem_append_right _ (List.mem_singleton_self i), hscores⟩
    · rintro ⟨j, hj, hold⟩
      rcases List.mem_append.mp hj with hj | hj
      · exact .inl ⟨j, hj, hold⟩
      · obtain rfl := List.mem_singleton.mp hj
        exact .inr (hold.2.1.symm.trans hset)
  · rw [hsets, List.nodup_append]
    refine ⟨h.nodup, List.nodup_singleton set, ?_⟩
    rintro x hx y hy rfl
    exact hnew (List.mem_singleton.mp hy ▸ hx)
  · rw [hsets, List.map_append, ← h.scores, hscore]
    rfl
  · rw [hsets] at hset'
    rcases List.mem_append.mp hset' with hold | hlast
    · exact h.part set' hold
    · exact List.mem_singleton.mp hlast ▸ hshare
  · rw [hsets]
    show Function.update a.missesPerSet set 0 set' = _
    by_cases hs : set' = set
    · subst hs
      simp
    · rw [Function.update_of_ne hs, h.zeroed]
      simp [hs]

/-- A line printed of an entry that has no set scored. -/
theorem report {set percent : Nat} {callKeys : Nat × Nat} (h : Scanned d cacheMap seen a) :
    Scanned d cacheMap seen
      { a with reports := a.reports ++ [⟨set, percent, none, callKeys⟩] } := by
  have hsets : ConflictScan.scoredSets
      { a with reports := a.reports ++ [⟨set, percent, none, callKeys⟩] } = a.scoredSets := by
    simp [ConflictScan.scoredSets, List.filter_append]
  constructor
  · rw [hsets]
    exact h.sets
  · rw [hsets]
    exact h.nodup
  · rw [hsets]
    exact h.scores
  · rw [hsets]
    exact h.part
  · rw [hsets]
    exact h.zeroed

/-- One round, with counters small enough for the products. -/
theorem scoreEntry (h : Scanned d cacheMap seen a) (hpos : 0 < d.totalMisses)
    (hle : ∀ set, d.missesPerSet set ≤ d.totalMisses) (hfew : d.totalMisses * 100 < 2 ^ 32)
    {i c : Nat} (hc : d.cme i = some c) :
    ∃ a', d.scoreEntry cacheMap a i = some a' ∧ Scanned d cacheMap (seen ++ [i]) a' := by
  have hsmall : a.missesPerSet (d.setOfCme i) ≤ d.missesPerSet (d.setOfCme i) := by
    rw [h.zeroed]
    split
    · exact Nat.zero_le _
    · exact le_rfl
  have hpart := hle (d.setOfCme i)
  have h20 : wrap 32 (a.missesPerSet (d.setOfCme i) * 20) = a.missesPerSet (d.setOfCme i) * 20 :=
    wrap_of_lt (by omega)
  have h100 : wrap 32 (a.missesPerSet (d.setOfCme i) * 100)
      = a.missesPerSet (d.setOfCme i) * 100 := wrap_of_lt (by omega)
  simp only [ConflictData.scoreEntry, hc, Option.bind_eq_bind, Option.bind_some, h20, h100]
  generalize hset : d.setOfCme i = set at hsmall hpart ⊢
  have honly : ∀ set', d.Scores cacheMap i set' → set' = set := fun set' hscores =>
    hscores.2.1.symm.trans hset
  split
  · next hscored =>
      obtain ⟨hmissed, hshare⟩ := hscored
      -- a set that was scored has no misses left
      have hnew : set ∉ a.scoredSets := by
        intro hmem
        rw [h.zeroed, if_pos hmem] at hshare
        omega
      have hmisses : a.missesPerSet set = d.missesPerSet set := by rw [h.zeroed, if_neg hnew]
      split
      · next hfrees =>
          have hscores : d.Scores cacheMap i set :=
            ⟨⟨c, hc, hmissed⟩, hset, hmisses ▸ hshare, hfrees⟩
          have hbyte : percent d.totalMisses (d.missesPerSet set) < 2 ^ 8 :=
            Nat.lt_of_le_of_lt (percent_le hpart) (by decide)
          have hscore : wrap 8 (a.missesPerSet set * 100 / d.totalMisses)
              = a.missesPerSet set * 100 / d.totalMisses := by
            rw [hmisses]
            exact wrap_of_lt hbyte
          rw [hscore]
          exact ⟨_, rfl, h.score hnew hscores (by rw [hmisses]; rfl)⟩
      · next hfrees =>
          exact ⟨_, rfl, (h.skip fun set' hscores =>
            absurd (honly set' hscores ▸ hscores.2.2.2) hfrees).report⟩
  · next hunscored =>
      refine ⟨a, rfl, h.skip fun set' hscores => ?_⟩
      obtain rfl := honly set' hscores
      obtain ⟨⟨c', hc', hmissed⟩, -, hshare, -⟩ := hscores
      obtain rfl := Option.some.inj (hc.symm.trans hc')
      -- it would be scored if it still had its misses
      by_contra hnew
      rw [h.zeroed, if_neg hnew] at hunscored
      exact hunscored ⟨hmissed, hshare⟩

theorem scoreEntries (hpos : 0 < d.totalMisses)
    (hle : ∀ set, d.missesPerSet set ≤ d.totalMisses) (hfew : d.totalMisses * 100 < 2 ^ 32) :
    ∀ (entries : List Nat) {seen : List Nat} {a : ConflictScan}, Scanned d cacheMap seen a →
    (∀ i ∈ entries, ∃ c, d.cme i = some c) →
    ∃ a', entries.foldlM (d.scoreEntry cacheMap) a = some a'
      ∧ Scanned d cacheMap (seen ++ entries) a'
  | [], seen, a, h, _ => ⟨a, rfl, (List.append_nil seen).symm ▸ h⟩
  | i :: rest, seen, a, h, hentries => by
      obtain ⟨c, hc⟩ := hentries i (List.mem_cons_self ..)
      obtain ⟨a1, hstep, h1⟩ := h.scoreEntry hpos hle hfew hc
      obtain ⟨a2, hrest, h2⟩ := scoreEntries hpos hle hfew rest h1
        fun j hj => hentries j (List.mem_cons_of_mem _ hj)
      refine ⟨a2, by rw [List.foldlM_cons, hstep]; exact hrest, ?_⟩
      rw [List.append_assoc, List.singleton_append] at h2
      exact h2

end Scanned

/-- **The conflict report keeps within its buffer and its bytes**, for
every run with few enough misses and whatever the lines hold: with fifty
misses it scores each set that an entry has scored once, and no other. -/
theorem conflict_report_exact {past : List ConflictOp} {d : ConflictData}
    (h : Run ConflictData.step (fun _ _ _ => True) {} past d)
    (hfew : (missedSets past).length * 100 < 2 ^ 32) (cacheMap : Nat → CacheMapEntry) :
    ∃ out, d.printOutput cacheMap = some out
      ∧ (∀ set, set ∈ out.scan.scoredSets ↔
        50 ≤ d.totalMisses ∧ ∃ i < d.numOfCme, d.Scores cacheMap i set)
      ∧ out.scan.scores.length ≤ 20
      ∧ out.scan.scoredSets.Nodup
      ∧ out.scan.scores
        = out.scan.scoredSets.map (fun set => d.missesPerSet set * 100 / d.totalMisses)
      ∧ out.conflictScore
        = (if 50 ≤ d.totalMisses then some (weighted (sortScores out.scan.scores)) else none)
      ∧ weighted (sortScores out.scan.scores) ≤ 100 := by
  have hd := SetsCounted.run h
  have hlt : (missedSets past).length < 2 ^ 32 := by omega
  have htotal : d.totalMisses = (missedSets past).length := hd.total.trans (wrap_of_lt hlt)
  have hle : ∀ set, d.missesPerSet set ≤ d.totalMisses := by
    intro set
    simpa using hd.sum_le hlt (List.nodup_singleton set)
  unfold ConflictData.printOutput
  by_cases hfifty : 50 ≤ d.totalMisses
  · rw [if_pos hfifty]
    have hpos : 0 < d.totalMisses := by omega
    obtain ⟨a, hloop, ha⟩ := Scanned.scoreEntries hpos hle (by omega) (List.range d.numOfCme)
      (Scanned.init d cacheMap) fun i hi => hd.entry i (List.mem_range.mp hi)
    have hparts := hd.sum_le hlt ha.nodup
    have hlen : a.scores.length ≤ 20 := by
      rw [ha.scores, List.length_map, ← List.length_map d.missesPerSet]
      refine length_le_of_parts hpos (fun part hpart => ?_) hparts
      obtain ⟨set, hset, rfl⟩ := List.mem_map.mp hpart
      exact ha.part set hset
    have hsum : a.scores.sum ≤ 100 := by
      rw [ha.scores, ← Function.comp_def, ← List.map_map]
      exact sum_percent_le hparts
    have hscore : scoreLoop 64 (sortScores a.scores) 1 0
        = some (weighted (sortScores a.scores)) := by
      rw [scoreLoop_sorted 64 (by decide) hsum, if_pos (by omega)]
    refine ⟨⟨a, some (weighted (sortScores a.scores))⟩, ?_, fun set => ?_, hlen, ha.nodup,
      ha.scores, ?_, ?_⟩
    · simp only [hloop, hscore, Option.bind_eq_bind, Option.bind_some]
    · rw [and_iff_right hfifty]
      simpa using ha.sets set
    · rw [if_pos hfifty]
    · exact (weighted_le_sum _).trans (by rwa [sum_sortScores])
  · rw [if_neg hfifty]
    have hnone : ∀ set, set ∉ ConflictScan.scoredSets { missesPerSet := d.missesPerSet } :=
      fun set => List.not_mem_nil
    exact ⟨_, rfl, fun set => iff_of_false (hnone set) fun h => hfifty h.1, Nat.zero_le _,
      List.nodup_nil, rfl, by rw [if_neg hfifty], Nat.zero_le _⟩

/-- Fifty misses and two frees on one line: its set is scored, with all the
misses. -/
theorem conflict_report_one_set :
    ∃ past d, Run ConflictData.step (fun _ _ _ => True) {} past d
      ∧ d.numOfCme = 1 ∧ d.objNumPerSet 3 = 2
      ∧ ∃ out, d.printOutput (fun _ => { misses := 0x80#8 }) = some out
        ∧ out.scan.scoredSets = [3] ∧ out.scan.scores = [100]
        ∧ out.conflictScore = some (weighted (sortScores out.scan.scores)) := by
  let ops : List ConflictOp :=
    List.replicate 50 (.addMiss 0xc0 7 {}) ++ [.checkObj 7 1, .checkObj 7 1]
  have hone : ((ops.foldlM ConflictData.step {}).map fun d =>
      (d.totalMisses, d.numOfCme, d.objNumPerSet 3, d.cme 0, d.setOfCme 0, d.missesPerSet 3))
        = some (50, 1, 2, some 7, 3, 50) := by decide +kernel
  obtain ⟨d, hd, hvals⟩ := Option.map_eq_some_iff.mp hone
  simp only [Prod.mk.injEq] at hvals
  obtain ⟨htotal, hnum, hobj, hcme, hset, hmisses⟩ := hvals
  have hrun : Run ConflictData.step (fun _ _ _ => True) {} ops d :=
    Run.ofFoldlM (fun _ _ _ _ => trivial) hd
  obtain ⟨out, hout, hsets, -, hnodup, hscores, hscore, -⟩ :=
    conflict_report_exact hrun (by decide) fun _ => { misses := 0x80#8 }
  have honly : ∀ set ∈ out.scan.scoredSets, set = 3 := by
    intro set hmem
    obtain ⟨-, i, hi, -, hof, -⟩ := (hsets set).mp hmem
    obtain rfl : i = 0 := by omega
    exact hof.symm.trans hset
  have hmem : 3 ∈ out.scan.scoredSets :=
    (hsets 3).mpr ⟨by omega, 0, by omega, ⟨7, hcme, by decide⟩, hset, by omega, by omega⟩
  have hthree : out.scan.scoredSets = [3] :=
    List.perm_singleton.mp ((List.perm_ext_iff_of_nodup hnodup (List.nodup_singleton 3)).mpr
      fun set => ⟨fun h => List.mem_singleton.mpr (honly set h),
        fun h => List.mem_singleton.mp h ▸ hmem⟩)
  refine ⟨ops, d, hrun, hnum, hobj, out, hout, hthree, ?_, by rw [hscore, if_pos (by omega)]⟩
  rw [hscores, hthree, List.map_singleton, hmisses, htotal]

end MemPerf
