import MemPerf.ShadowReport

/-!
# Allocator caches and application caches

A tracked line is labelled an allocator cache when its entry has a
second owner. Owners are the threads of freed objects, collected into
two slots in which 0 means empty, and only from frees that reach the
line as the first or the partial last line of the object. So objects of
the main thread, whose index is 0, and objects that cover the line whole
(other than as their first line) do not count. `OwnersSeen` is when the
label says what it means all the same (`owners_verdict_iff`).
-/

namespace MemPerf

open StepSystem ShadowMemory

/-- The label, the two printed threads and the two call keys are right
about the frees of objects on the line while it was tracked. A call key
of 0 is an empty slot, for which nothing is printed. -/
structure OwnersRight (frees : List LineFree) (report : LineReport) : Prop where
  label : report.allocatorThreads.isSome = true ↔ ∃ f ∈ frees, ∃ g ∈ frees, f.tid ≠ g.tid
  threads : ∀ t₁ t₂, report.allocatorThreads = some (t₁, t₂) →
    t₁ ≠ t₂ ∧ (∃ f ∈ frees, f.tid = t₁) ∧ ∃ f ∈ frees, f.tid = t₂
  callKey0 : report.callKey.1 ≠ 0 → ∃ f ∈ frees, f.callKey = report.callKey.1
  callKey1 : report.callKey.2 ≠ 0 → ∃ f ∈ frees, f.callKey = report.callKey.2

/-- Where objects of two threads were freed, two of threads with
different non-zero indices were freed that reached the line as their
first or their partial last line. -/
def OwnersSeen (frees : List LineFree) : Prop :=
  (∃ f ∈ frees, ∃ g ∈ frees, f.tid ≠ g.tid) →
    ∃ f ∈ frees, ∃ g ∈ frees, f.part = true ∧ g.part = true ∧ f.tid ≠ 0 ∧ g.tid ≠ 0
      ∧ f.tid ≠ g.tid

/-- What the owner fields `d` hold of the frees of a line. -/
structure OwnerFacts (frees : List LineFree) (d : CoherencyData) : Prop where
  none : d.allocateTid.1 = 0 → d.allocateTid.2 = 0 ∧ ∀ f ∈ frees, f.part = true → f.tid = 0
  first : d.allocateTid.1 ≠ 0 → ∃ f ∈ frees, f.part = true ∧ f.tid = d.allocateTid.1
  one : d.allocateTid.2 = 0 → ∀ f ∈ frees, f.part = true → f.tid ≠ 0 →
    f.tid = d.allocateTid.1
  second : d.allocateTid.2 ≠ 0 → d.allocateTid.1 ≠ d.allocateTid.2
    ∧ ∃ f ∈ frees, f.part = true ∧ f.tid = d.allocateTid.2
  key0 : d.callKey.1 ≠ 0 → ∃ f ∈ frees, f.callKey = d.callKey.1
  key1 : d.callKey.2 ≠ 0 → ∃ f ∈ frees, f.callKey = d.callKey.2

theorem ownerFacts_nil : OwnerFacts [] {} where
  none _ := ⟨rfl, fun _ h => by cases h⟩
  first h := absurd rfl h
  one _ _ h := by cases h
  second h := absurd rfl h
  key0 h := absurd rfl h
  key1 h := absurd rfl h

theorem exists_mem_snoc {frees : List LineFree} {f : LineFree} {P : LineFree → Prop}
    (h : ∃ g ∈ frees, P g) : ∃ g ∈ frees ++ [f], P g := by
  obtain ⟨g, hg, hP⟩ := h
  exact ⟨g, List.mem_append_left _ hg, hP⟩

/-- A free that is not looked at. -/
theorem OwnerFacts.skip {frees : List LineFree} {d : CoherencyData} (h : OwnerFacts frees d)
    {f : LineFree} (hf : f.part = false) : OwnerFacts (frees ++ [f]) d := by
  have hmem : ∀ g ∈ frees ++ [f], g.part = true → g ∈ frees := by
    intro g hg hp
    rcases List.mem_append.mp hg with hg | hg
    · exact hg
    · rw [List.mem_singleton.mp hg, hf] at hp
      cases hp
  exact
    { none := fun h0 => ⟨(h.none h0).1, fun g hg hp => (h.none h0).2 g (hmem g hg hp) hp⟩
      first := fun h0 => exists_mem_snoc (h.first h0)
      one := fun h0 g hg hp => h.one h0 g (hmem g hg hp) hp
      second := fun h0 => ⟨(h.second h0).1, exists_mem_snoc (h.second h0).2⟩
      key0 := fun h0 => exists_mem_snoc (h.key0 h0)
      key1 := fun h0 => exists_mem_snoc (h.key1 h0) }

/-- A free that is recorded. -/
theorem OwnerFacts.record {frees : List LineFree} {d : CoherencyData} (h : OwnerFacts frees d)
    {f : LineFree} (hf : f.part = true) :
    OwnerFacts (frees ++ [f]) (d.recordOwner f.tid f.callKey) := by
  have hlast : ∀ {P : LineFree → Prop}, P f → ∃ g ∈ frees ++ [f], P g :=
    fun hP => ⟨f, by simp, hP⟩
  have hcases : ∀ g ∈ frees ++ [f], g ∈ frees ∨ g = f := by
    intro g hg
    rcases List.mem_append.mp hg with hg | hg
    · exact Or.inl hg
    · exact Or.inr (List.mem_singleton.mp hg)
  have hkey1 : ∀ keys : Nat × Nat, (keys.2 ≠ 0 → ∃ g ∈ frees, g.callKey = keys.2) →
      (if keys.1 ≠ f.callKey ∧ keys.2 = 0 then (keys.1, f.callKey) else keys).2 ≠ 0 →
      ∃ g ∈ frees ++ [f], g.callKey
        = (if keys.1 ≠ f.callKey ∧ keys.2 = 0 then (keys.1, f.callKey) else keys).2 := by
    intro keys hold
    split
    · exact fun _ => hlast rfl
    · exact fun h0 => exists_mem_snoc (hold h0)
  have hkey0 : ∀ keys : Nat × Nat,
      (if keys.1 ≠ f.callKey ∧ keys.2 = 0 then (keys.1, f.callKey) else keys).1 = keys.1 := by
    intro keys
    split <;> rfl
  by_cases hfirst : d.allocateTid.1 = 0
  · -- the first slot is empty, or holds the main thread, and is overwritten
    obtain ⟨hsecond, hzero⟩ := h.none hfirst
    have hrec : d.recordOwner f.tid f.callKey
        = { d with
            allocateTid := (f.tid, d.allocateTid.2)
            callKey := (f.callKey, d.callKey.2) } := by
      simp only [CoherencyData.recordOwner, hfirst, ne_eq, not_true, if_false]
    rw [hrec]
    exact
      { none := fun h0 => ⟨hsecond, fun g hg hp => by
          rcases hcases g hg with hg | rfl
          · exact hzero g hg hp
          · exact h0⟩
        first := fun _ => hlast ⟨hf, rfl⟩
        one := fun _ g hg hp hne => by
          rcases hcases g hg with hg | rfl
          · exact absurd (hzero g hg hp) hne
          · rfl
        second := fun h0 => absurd hsecond h0
        key0 := fun _ => hlast rfl
        key1 := fun h0 => exists_mem_snoc (h.key1 h0) }
  · by_cases hnew : d.allocateTid.1 ≠ f.tid ∧ d.allocateTid.2 = 0
    · have hrec : d.recordOwner f.tid f.callKey
          = { d with
              allocateTid := (d.allocateTid.1, f.tid)
              callKey := if d.callKey.1 ≠ f.callKey ∧ d.callKey.2 = 0
                then (d.callKey.1, f.callKey) else d.callKey } := by
        simp only [CoherencyData.recordOwner, hfirst, ne_eq, not_false_eq_true, if_true, hnew,
          and_self]
      rw [hrec]
      exact
        { none := fun h0 => absurd h0 hfirst
          first := fun h0 => exists_mem_snoc (h.first h0)
          one := fun h0 g hg hp hne => by
            rcases hcases g hg with hg | rfl
            · exact h.one hnew.2 g hg hp hne
            · exact absurd h0 hne
          second := fun _ => ⟨hnew.1, hlast ⟨hf, rfl⟩⟩
          key0 := fun h0 => by
            rw [hkey0] at h0 ⊢
            exact exists_mem_snoc (h.key0 h0)
          key1 := hkey1 d.callKey h.key1 }
    · have hrec : d.recordOwner f.tid f.callKey
          = { d with
              callKey := if d.callKey.1 ≠ f.callKey ∧ d.callKey.2 = 0
                then (d.callKey.1, f.callKey) else d.callKey } := by
        simp only [CoherencyData.recordOwner, ne_eq, hfirst, not_false_eq_true, if_true]
        rw [if_neg hnew]
      rw [hrec]
      exact
        { none := fun h0 => absurd h0 hfirst
          first := fun h0 => exists_mem_snoc (h.first h0)
          one := fun h0 g hg hp hne => by
            rcases hcases g hg with hg | rfl
            · exact h.one h0 g hg hp hne
            · by_contra hdiff
              exact hnew ⟨Ne.symm hdiff, h0⟩
          second := fun h0 => ⟨(h.second h0).1, exists_mem_snoc (h.second h0).2⟩
          key0 := fun h0 => by
            rw [hkey0] at h0 ⊢
            exact exists_mem_snoc (h.key0 h0)
          key1 := hkey1 d.callKey h.key1 }

theorem ownerFacts_ownersOf (frees : List LineFree) : OwnerFacts frees (ownersOf frees) := by
  induction frees using List.reverseRecOn with
  | nil => exact ownerFacts_nil
  | append_singleton frees f ih =>
      rw [ownersOf_snoc]
      by_cases hf : f.part = true
      · rw [if_pos hf]
        exact ih.record hf
      · rw [if_neg hf]
        exact ih.skip (by simpa using hf)

theorem OwnerFacts.congr {frees : List LineFree} {d d' : CoherencyData} (h : OwnerFacts frees d)
    (hd : SameOwners d' d) : OwnerFacts frees d' := by
  obtain ⟨none, first, one, second, key0, key1⟩ := h
  obtain ⟨h1, h2⟩ := hd
  rw [← h1] at none first one second
  rw [← h2] at key0 key1
  exact ⟨none, first, one, second, key0, key1⟩

/-- A second owner is there exactly when two frees that count were of
threads with different non-zero indices. -/
theorem OwnerFacts.second_iff {frees : List LineFree} {d : CoherencyData}
    (h : OwnerFacts frees d) : d.allocateTid.2 ≠ 0 ↔ ∃ f ∈ frees, ∃ g ∈ frees,
      f.part = true ∧ g.part = true ∧ f.tid ≠ 0 ∧ g.tid ≠ 0 ∧ f.tid ≠ g.tid := by
  constructor
  · intro h2
    obtain ⟨hne, g, hg, hgp, hgt⟩ := h.second h2
    have h1 : d.allocateTid.1 ≠ 0 := fun h0 => h2 (h.none h0).1
    obtain ⟨f, hf, hfp, hft⟩ := h.first h1
    exact ⟨f, hf, g, hg, hfp, hgp, hft ▸ h1, hgt ▸ h2, by rw [hft, hgt]; exact hne⟩
  · rintro ⟨f, hf, g, hg, hfp, hgp, hf0, hg0, hne⟩ h2
    exact hne ((h.one h2 f hf hfp hf0).trans (h.one h2 g hg hgp hg0).symm)

/-- The report of an entry is right exactly when the owners are seen. -/
theorem OwnerFacts.right_iff {frees : List LineFree} {d : CoherencyData}
    (h : OwnerFacts frees d) (totalMisses : Nat) :
    OwnersRight frees (d.report totalMisses) ↔ OwnersSeen frees := by
  have hlabel : (d.report totalMisses).allocatorThreads.isSome = true ↔ d.allocateTid.2 ≠ 0 := by
    simp only [CoherencyData.report]
    split <;> simp_all
  constructor
  · intro hr htwo
    exact h.second_iff.mp (hlabel.mp (hr.label.mpr htwo))
  · intro hseen
    refine ⟨?_, ?_, h.key0, h.key1⟩
    · rw [hlabel, h.second_iff]
      refine ⟨?_, hseen⟩
      rintro ⟨f, hf, g, hg, -, -, -, -, hne⟩
      exact ⟨f, hf, g, hg, hne⟩
    · intro t₁ t₂ heq
      simp only [CoherencyData.report] at heq
      split at heq
      · next h2 =>
          have hpair := Option.some.inj heq
          obtain ⟨hne, g, hg, -, hgt⟩ := h.second h2
          obtain ⟨f, hf, -, hft⟩ := h.first fun h0 => h2 (h.none h0).1
          rw [hpair] at hne hgt hft
          exact ⟨hne, ⟨f, hf, hft⟩, g, hg, hgt⟩
      · cases heq

/-! ## Runs -/

/-- **Owner verdicts**: the report on a tracked line with a score is
right about the owners exactly when they are seen. -/
theorem owners_verdict_iff {past : List ShadowOp} {w : Watched}
    (h : Run Watched.step (fun _ _ op => NoCleanup op) {} past w) {reports : List LineReport}
    {s' : ShadowMemory} (hprint : w.mem.printCoherencyCaches = some (reports, s'))
    {r l c : Nat} (hl : w.mem.LineAt r l c) (htr : w.mem.tracked r l = true) :
    ∃ i < w.mem.numOfCoherencyCaches, (w.mem.coherencyCaches i).cme = some c
      ∧ ((w.mem.coherencyCaches i).score w.mem.conflictData.totalMisses ≠ 0 →
        (∃ report ∈ reports, report.cme = some c)
        ∧ ∀ report ∈ reports, report.cme = some c →
          (OwnersRight (w.frees r l) report ↔ OwnersSeen (w.frees r l))) := by
  have hw : Watching w := Watching.run (fun _ _ _ hg => hg) h
  refine hw.reported hprint hl htr fun i hi hci => ?_
  have hfacts := (ownerFacts_ownersOf (w.frees r l)).congr (hw.owners i hi r l c hci hl)
  exact hfacts.right_iff _

/-- Two objects share a line; it gets tracked and both are freed. -/
def sharedLineRun (tid₁ tid₂ : Nat) : List ShadowOp :=
  .mallocUpdateObject 0x10000000000 32 :: .mallocUpdateObject 0x10000000020 32
    :: List.replicate 6 (.doMemoryAccess 1 0x10000000000 true)
    ++ [.freeUpdateObject 0x10000000000 ⟨5, tid₁, 32⟩,
      .freeUpdateObject 0x10000000020 ⟨6, tid₂, 32⟩]

theorem sharedLineRun_noCleanup (tid₁ tid₂ : Nat) : ∀ op ∈ sharedLineRun tid₁ tid₂,
    NoCleanup op := by
  intro op hop
  simp only [sharedLineRun, List.replicate, List.cons_append, List.nil_append, List.mem_cons,
    List.not_mem_nil, or_false] at hop
  rcases hop with rfl | rfl | rfl | rfl | rfl | rfl | rfl | rfl | rfl | rfl <;> trivial

/-- Threads 1 and 2 each owned one of the objects. -/
theorem owners_verdict_two_threads :
    ∃ w reports s', Run Watched.step (fun _ _ op => NoCleanup op) {} (sharedLineRun 1 2) w
      ∧ w.mem.printCoherencyCaches = some (reports, s')
      ∧ ∃ report ∈ reports, report.allocatorThreads = some (1, 2)
        ∧ OwnersRight (w.frees 1 0) report := by
  have hrunVals : (((sharedLineRun 1 2).foldlM Watched.step {}).map fun w =>
      (w.mem.table 1 0, w.mem.tracked 1 0, w.frees 1 0))
      = some (some 0, true, [⟨1, 5, true⟩, ⟨2, 6, true⟩]) := by decide +kernel
  have hprintVals : (((sharedLineRun 1 2).foldlM Watched.step {}).bind fun w =>
      w.mem.printCoherencyCaches.map fun out => (w.mem.numOfCoherencyCaches,
        (w.mem.coherencyCaches 0).score w.mem.conflictData.totalMisses,
        out.1.map LineReport.allocatorThreads)) = some (1, 83, [some (1, 2)]) := by decide +kernel
  obtain ⟨w, hw, hvals⟩ := Option.map_eq_some_iff.mp hrunVals
  simp only [Prod.mk.injEq] at hvals
  obtain ⟨htable, htracked, hfrees⟩ := hvals
  rw [hw, Option.bind_some] at hprintVals
  obtain ⟨⟨reports, s'⟩, hprint, hvals⟩ := Option.map_eq_some_iff.mp hprintVals
  simp only [Prod.mk.injEq] at hvals
  obtain ⟨hnum, hscore, hthreads⟩ := hvals
  have hrun : Run Watched.step (fun _ _ op => NoCleanup op) {} (sharedLineRun 1 2) w :=
    Run.ofFoldlM (fun op hop _ _ => sharedLineRun_noCleanup 1 2 op hop) hw
  obtain ⟨i, hi, -, hverdict⟩ := owners_verdict_iff hrun hprint
    (show w.mem.LineAt 1 0 0 from ⟨0, htable, rfl⟩) htracked
  obtain rfl : i = 0 := by omega
  obtain ⟨⟨report, hrep, hcme⟩, hright⟩ := hverdict (by rw [hscore]; decide)
  have hseen : OwnersSeen (w.frees 1 0) := by
    rw [hfrees]
    exact fun _ => ⟨⟨1, 5, true⟩, by simp, ⟨2, 6, true⟩, by simp, rfl, rfl, by decide, by decide,
      by decide⟩
  refine ⟨w, reports, s', hrun, hprint, report, hrep, ?_, (hright report hrep hcme).mpr hseen⟩
  have hmem : report.allocatorThreads ∈ reports.map LineReport.allocatorThreads :=
    List.mem_map.mpr ⟨report, hrep, rfl⟩
  rw [hthreads] at hmem
  exact List.mem_singleton.mp hmem

/-- The main thread owned one of the objects: its index 0 reads as an
empty slot and the line is labelled an application cache. -/
theorem main_thread_owner_missed :
    ¬ ∀ past w reports s' r l c, Run Watched.step (fun _ _ op => NoCleanup op) {} past w →
      w.mem.printCoherencyCaches = some (reports, s') → w.mem.LineAt r l c →
      ∀ report ∈ reports, report.cme = some c → OwnersRight (w.frees r l) report := by
  intro hclaim
  have hrunVals : (((sharedLineRun 0 1).foldlM Watched.step {}).map fun w =>
      (w.mem.table 1 0, w.frees 1 0))
      = some (some 0, [⟨0, 5, true⟩, ⟨1, 6, true⟩]) := by decide +kernel
  have hprintVals : (((sharedLineRun 0 1).foldlM Watched.step {}).bind fun w =>
      w.mem.printCoherencyCaches.map fun out =>
        out.1.map fun report => (report.cme, report.allocatorThreads))
      = some [(some 0, none)] := by decide +kernel
  obtain ⟨w, hw, hvals⟩ := Option.map_eq_some_iff.mp hrunVals
  simp only [Prod.mk.injEq] at hvals
  obtain ⟨htable, hfrees⟩ := hvals
  rw [hw, Option.bind_some] at hprintVals
  obtain ⟨⟨reports, s'⟩, hprint, hvals⟩ := Option.map_eq_some_iff.mp hprintVals
  have hrun : Run Watched.step (fun _ _ op => NoCleanup op) {} (sharedLineRun 0 1) w :=
    Run.ofFoldlM (fun op hop _ _ => sharedLineRun_noCleanup 0 1 op hop) hw
  obtain ⟨report, hrep, hreport⟩ : ∃ report ∈ reports,
      (report.cme, report.allocatorThreads) = (some 0, none) :=
    List.mem_map.mp (by rw [hvals]; exact List.mem_singleton.mpr rfl)
  obtain ⟨hcme, hnone⟩ := Prod.mk.inj hreport
  have hright := hclaim _ w reports s' 1 0 0 hrun hprint ⟨0, htable, rfl⟩ report hrep hcme
  have hlabel := hright.label.mpr (by
    rw [hfrees]
    exact ⟨⟨0, 5, true⟩, by simp, ⟨1, 6, true⟩, by simp, by decide⟩)
  rw [hnone] at hlabel
  cases hlabel

end MemPerf
