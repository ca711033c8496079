import MemPerf.ShadowWatch

/-!
# The report on tracked lines

The loop of `ShadowMemory::printOutput` over `coherencyCaches`: each line
whose score is not zero is labelled an allocator or an application cache
and scanned for true and false sharing. A line found shared gets its
miss byte cleared, which is what the conflict report looks at next.
-/

namespace MemPerf

open Word

/-! ## The scan over the words -/

structure SharingScan where
  lastTid : Nat := 0
  trueSharing : Bool := false
  falseSharing : Bool := false
deriving DecidableEq, Repr

/-- One round of the scan. -/
def SharingScan.scanWord (a : SharingScan) (row : Nat → Nat) : SharingScan :=
  let j := Search.firstIndex 16 fun j => row j == 0
  let a := { a with trueSharing := a.trueSharing || decide (2 ≤ j) }
  if a.lastTid = 0 then { a with lastTid := row 0 }
  else { a with falseSharing := a.falseSharing || decide (a.lastTid ≠ row 0 ∨ 2 ≤ j) }

def CoherencyData.sharing (d : CoherencyData) : SharingScan :=
  ((List.range numWord).map d.tidsPerWord).foldl SharingScan.scanWord {}

/-! ## The report -/

/-- What is printed about one line. `allocatorThreads` is `none` for an
application cache. -/
structure LineReport where
  cme : Option Nat
  score : Nat
  allocatorThreads : Option (Nat × Nat)
  callKey : Nat × Nat
  trueSharing : Bool
  falseSharing : Bool
deriving DecidableEq, Repr

/-- The share of the line's misses, a percentage kept in a byte. -/
def CoherencyData.score (totalMisses : Nat) (d : CoherencyData) : Nat :=
  wrap 8 (d.misses * 100 / totalMisses)

def CoherencyData.report (totalMisses : Nat) (d : CoherencyData) : LineReport where
  cme := d.cme
  score := d.score totalMisses
  allocatorThreads := if d.allocateTid.2 ≠ 0 then some d.allocateTid else none
  callKey := d.callKey
  trueSharing := d.sharing.trueSharing
  falseSharing := d.sharing.falseSharing

namespace ShadowMemory

/-- One round of the loop; `none` is the division by zero, or the null
pointer written through. -/
def printLine (s : ShadowMemory) (i : Nat) : Option (List LineReport × ShadowMemory) :=
  let status := s.coherencyCaches i
  let totalMisses := s.conflictData.totalMisses
  if totalMisses = 0 then none
  else if status.score totalMisses = 0 then some ([], s)
  else if status.sharing.trueSharing || status.sharing.falseSharing then do
    let cme ← status.cme
    some ([status.report totalMisses], s.modifyLine cme fun e => { e with misses := 0 })
  else some ([status.report totalMisses], s)

/-- The first `n` rounds. -/
def printLines (s : ShadowMemory) : Nat → Option (List LineReport × ShadowMemory)
  | 0 => some ([], s)
  | n + 1 => do
      let (reports, s) ← printLines s n
      let (report, s) ← s.printLine n
      some (reports ++ report, s)

/-- The coherency part of `printOutput`. -/
def printCoherencyCaches (s : ShadowMemory) : Option (List LineReport × ShadowMemory) :=
  s.printLines s.numOfCoherencyCaches

/-- The report of entry `i`, if its score is not zero. -/
def reportOf (s : ShadowMemory) (i : Nat) : Option LineReport :=
  if (s.coherencyCaches i).score s.conflictData.totalMisses = 0 then none
  else some ((s.coherencyCaches i).report s.conflictData.totalMisses)

/-- Reporting a line changes neither the table nor the totals, so every
report is made of the state at the start. -/
theorem printLine_spec {s s' : ShadowMemory} {i : Nat} {reports : List LineReport}
    (h : s.printLine i = some (reports, s')) :
    reports = (s.reportOf i).toList ∧ s'.coherencyCaches = s.coherencyCaches
    ∧ s'.conflictData = s.conflictData := by
  simp only [printLine] at h
  split at h
  · cases h
  · split at h
    · next hscore =>
        cases h
        simp [reportOf, hscore]
    · next hscore =>
        split at h
        · obtain ⟨cme, -, hs⟩ := Option.bind_eq_some_iff.mp h
          cases hs
          simp [reportOf, hscore]
        · cases h
          simp [reportOf, hscore]

theorem printLines_spec : ∀ (n : Nat) {s s' : ShadowMemory} {reports : List LineReport},
    s.printLines n = some (reports, s') →
    reports = (List.range n).filterMap s.reportOf ∧ s'.coherencyCaches = s.coherencyCaches
    ∧ s'.conflictData = s.conflictData
  | 0, s, s', reports, h => by
      cases h
      exact ⟨rfl, rfl, rfl⟩
  | n + 1, s, s', reports, h => by
      rw [printLines] at h
      obtain ⟨⟨front, s1⟩, hfront, h⟩ := Option.bind_eq_some_iff.mp h
      obtain ⟨⟨last, s2⟩, hlast, h⟩ := Option.bind_eq_some_iff.mp h
      cases h
      obtain ⟨rfl, hc1, hd1⟩ := printLines_spec n hfront
      obtain ⟨rfl, hc2, hd2⟩ := printLine_spec hlast
      have hrep : s1.reportOf n = s.reportOf n := by simp only [reportOf, hc1, hd1]
      refine ⟨?_, hc2.trans hc1, hd2.trans hd1⟩
      rw [List.range_succ, List.filterMap_append, hrep]
      simp [List.filterMap_cons]
      cases s.reportOf n <;> rfl

/-- A tracked line with a score has one report. -/
theorem report_of_entry {s s' : ShadowMemory} {reports : List LineReport}
    (h : s.printCoherencyCaches = some (reports, s')) {i c : Nat}
    (hi : i < s.numOfCoherencyCaches)
    (huniq : ∀ j < s.numOfCoherencyCaches, (s.coherencyCaches j).cme = some c → j = i)
    (hscore : (s.coherencyCaches i).score s.conflictData.totalMisses ≠ 0) :
    (s.coherencyCaches i).report s.conflictData.totalMisses ∈ reports
    ∧ ∀ report ∈ reports, report.cme = some c →
      report = (s.coherencyCaches i).report s.conflictData.totalMisses := by
  obtain ⟨rfl, -, -⟩ := printLines_spec _ h
  constructor
  · refine List.mem_filterMap.mpr ⟨i, List.mem_range.mpr hi, ?_⟩
    rw [reportOf, if_neg hscore]
  · intro report hmem hcme
    obtain ⟨j, hj, hrep⟩ := List.mem_filterMap.mp hmem
    rw [reportOf] at hrep
    split at hrep
    · cases hrep
    · obtain rfl := Option.some.inj hrep
      rw [huniq j (List.mem_range.mp hj) hcme]

end ShadowMemory

open ShadowMemory in
/-- A tracked line has one entry, and one report if it has a score: what is
true of the report of that entry is true of every report on the line. -/
theorem Watching.reported {w : Watched} (hw : Watching w) {s' : ShadowMemory}
    {reports : List LineReport} (hprint : w.mem.printCoherencyCaches = some (reports, s'))
    {r l c : Nat} (hl : w.mem.LineAt r l c) (htr : w.mem.tracked r l = true)
    {p : LineReport → Prop}
    (hp : ∀ i < w.mem.numOfCoherencyCaches, (w.mem.coherencyCaches i).cme = some c →
      p ((w.mem.coherencyCaches i).report w.mem.conflictData.totalMisses)) :
    ∃ i < w.mem.numOfCoherencyCaches, (w.mem.coherencyCaches i).cme = some c
      ∧ ((w.mem.coherencyCaches i).score w.mem.conflictData.totalMisses ≠ 0 →
        (∃ report ∈ reports, report.cme = some c)
        ∧ ∀ report ∈ reports, report.cme = some c → p report) := by
  obtain ⟨i, hi, hci⟩ := hw.member c ((tracked_eq hl).symm.trans htr)
  refine ⟨i, hi, hci, fun hscore => ?_⟩
  obtain ⟨hmem, huniq⟩ := report_of_entry hprint hi
    (fun j hj hcj => hw.entry_unique hj hi hcj hci) hscore
  refine ⟨⟨_, hmem, hci⟩, fun report hrep hc => ?_⟩
  obtain rfl := huniq report hrep hc
  exact hp i hi hci

/-! ## What the scan finds -/

namespace SharingScan

/-- Two threads on the word. -/
def Crowded (row : Nat → Nat) : Prop := 2 ≤ Slots.used 16 0 row

instance (row : Nat → Nat) : Decidable (Crowded row) := inferInstanceAs (Decidable (_ ≤ _))

/-- Once a thread was noted, every later word is compared with it. -/
theorem scan_noted {l : Nat} (hl : l ≠ 0) : ∀ (rows : List (Nat → Nat)) {a : SharingScan},
    a.lastTid = l → rows.foldl scanWord a =
      { lastTid := l
        trueSharing := a.trueSharing || decide (∃ row ∈ rows, Crowded row)
        falseSharing := a.falseSharing || decide (∃ row ∈ rows, l ≠ row 0 ∨ Crowded row) }
  | [], a, ha => by
      subst ha
      simp
  | row :: rest, a, ha => by
      have hstep : a.scanWord row = { lastTid := l
                                      trueSharing := a.trueSharing || decide (Crowded row)
                                      falseSharing := a.falseSharing
                                        || decide (l ≠ row 0 ∨ Crowded row) } := by
        subst ha
        simp only [scanWord, if_neg hl]
        rfl
      rw [List.foldl_cons, hstep, scan_noted hl rest rfl]
      simp only [List.mem_cons, exists_eq_or_imp, Bool.decide_or, Bool.or_assoc]

/-- Words before the first touched one are passed over. -/
theorem scan_untouched : ∀ (rows : List (Nat → Nat)) {a : SharingScan}, a.lastTid = 0 →
    (∀ row ∈ rows, row 0 = 0) → rows.foldl scanWord a = a
  | [], _, _, _ => rfl
  | row :: rest, a, ha, hrows => by
      have hused : Search.firstIndex 16 (fun j => row j == 0) = 0 :=
        Search.firstIndex_eq (by decide) (by simp [hrows row (List.mem_cons_self ..)]) (by simp)
      have hstep : a.scanWord row = a := by
        obtain ⟨lastTid, ts, fs⟩ := a
        obtain rfl : lastTid = 0 := ha
        simp [scanWord, hused, hrows row (List.mem_cons_self ..)]
      rw [List.foldl_cons, hstep]
      exact scan_untouched rest ha fun r hr => hrows r (List.mem_cons_of_mem _ hr)

/-- The scan from its first touched word on. -/
theorem scan_first {pre : List (Nat → Nat)} (post : List (Nat → Nat)) {row : Nat → Nat}
    (hpre : ∀ r ∈ pre, r 0 = 0)
    (hrow : row 0 ≠ 0) : (pre ++ row :: post).foldl scanWord {} =
      { lastTid := row 0
        trueSharing := decide (∃ r ∈ row :: post, Crowded r)
        falseSharing := decide (∃ r ∈ post, row 0 ≠ r 0 ∨ Crowded r) } := by
  have hstep : scanWord {} row = { lastTid := row 0, trueSharing := decide (Crowded row) } := by
    simp only [scanWord, Bool.false_or, if_true]
    rfl
  rw [List.foldl_append, scan_untouched pre rfl hpre, List.foldl_cons, hstep,
    scan_noted hrow post rfl]
  simp only [List.mem_cons, exists_eq_or_imp, Bool.decide_or, Bool.false_or]

end SharingScan

end MemPerf
