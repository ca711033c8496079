import MemPerf.SectionTotals

/-!
# The report of critical sections and system calls

At the end every thread adds its counters to the global ones, which are the
same sums, over the calls of all the threads. `printCriticalSections` and
`printSyscalls` print two of them with averages, over what was counted and
over the sampled calls. The line with an average in floating point is left
out.
-/

namespace MemPerf.Original

open Word StepSystem Tally Nesting

/-! ## globalize -/

/-- `GlobalStatus` has the members of `ThreadLocalStatus`. -/
def ThreadLocalStatus.globalize (l g : ThreadLocalStatus) : ThreadLocalStatus where
  cycles type := wrap 64 (g.cycles type + l.cycles type)
  numOfFunctions type := wrap 32 (g.numOfFunctions type + l.numOfFunctions type)
  numOfSampledCountingFunctions type :=
    wrap 32 (g.numOfSampledCountingFunctions type + l.numOfSampledCountingFunctions type)
  criticalSectionStatus type := (g.criticalSectionStatus type).add (l.criticalSectionStatus type)
  systemCallData systemCallType type :=
    (g.systemCallData systemCallType type).add (l.systemCallData systemCallType type)

/-- The global counters when the threads have added theirs. -/
def globalTotals (threads : List Nat) (s : CallMeters) : ThreadLocalStatus :=
  threads.foldl (fun g t => (s t).threadLocal.globalize g) {}

def callsOfAll (threads : List Nat) (past : List (Nat × CallEvent)) : List FinishedCall :=
  threads.flatMap fun t => callsOf t past

section

variable {p : SizeThresholds} {type : AllocationTypeForOutputData} {f g : FinishedCall → Nat}
  {calls calls' : List FinishedCall} {l l' : ThreadLocalStatus}

theorem wrap_tally_append {α : Type*} {f : α → Nat} {l r : List α} {w a b : Nat}
    (ha : a = wrap w (tally f l)) (hb : b = wrap w (tally f r)) :
    wrap w (a + b) = wrap w (tally f (l ++ r)) := by
  rw [ha, hb, wrap_wrap_add, tally_append]

theorem Totals.globalize (h : Totals p calls' l') (hg : Totals p calls l) :
    Totals p (calls ++ calls') (l'.globalize l) where
  sampled type := wrap_tally_append (hg.sampled type) (h.sampled type)
  cycles type := wrap_tally_append (hg.cycles type) (h.cycles type)
  sections type := wrap_tally_append (hg.sections type) (h.sections type)
  sectionCycles type := wrap_tally_append (hg.sectionCycles type) (h.sectionCycles type)
  systemCalls k type := wrap_tally_append (hg.systemCalls k type) (h.systemCalls k type)
  systemCallCycles k type :=
    wrap_tally_append (hg.systemCallCycles k type) (h.systemCallCycles k type)
  functions type := wrap_tally_append (hg.functions type) (h.functions type)

/-- The global counters are sums over the calls of all the threads. -/
theorem globalTotals_totals {s : CallMeters} {past : List (Nat × CallEvent)}
    (h : ∀ t, Totals p (callsOf t past) (s t).threadLocal) (threads : List Nat) :
    Totals p (callsOfAll threads past) (globalTotals threads s) := by
  induction threads using List.reverseRecOn with
  | nil => exact Totals.init p
  | append_singleton threads t ih =>
      have hcalls : callsOfAll (threads ++ [t]) past =
          callsOfAll threads past ++ callsOf t past := by
        simp [callsOfAll]
      rw [hcalls, globalTotals, List.foldl_append]
      exact (h t).globalize ih

/-! ## Averages -/

theorem weigh_le {k : Nat} : ∀ {calls : List FinishedCall}, (∀ c ∈ calls, f c ≤ k * g c) →
    weigh p type f calls ≤ k * weigh p type g calls
  | [], _ => Nat.zero_le _
  | c :: calls, h => by
      have ih : weigh p type f calls ≤ k * weigh p type g calls :=
        weigh_le fun c' hc' => h c' (List.mem_cons_of_mem _ hc')
      have hc := h c List.mem_cons_self
      unfold weigh at ih ⊢
      rw [tally_cons, tally_cons, Nat.mul_add]
      refine Nat.add_le_add ?_ ih
      split
      · calc c.weight * f c ≤ c.weight * (k * g c) := Nat.mul_le_mul_left _ hc
          _ = k * (c.weight * g c) := Nat.mul_left_comm ..
      · exact Nat.zero_le _

theorem weigh_one_le (p : SizeThresholds) (type : AllocationTypeForOutputData)
    (calls : List FinishedCall) : weigh p type (fun _ => 1) calls ≤ 20 * calls.length := by
  refine tally_le_mul fun c _ => ?_
  rw [FinishedCall.weight]
  split
  · split <;> simp
  · exact Nat.zero_le 20

/-- Where something was counted there was a call. -/
theorem weigh_one_pos (h : 0 < weigh p type f calls) : 0 < weigh p type (fun _ => 1) calls := by
  have hle : weigh p type f calls ≤ tally f calls * weigh p type (fun _ => 1) calls :=
    weigh_le fun c hc => (le_tally f hc).trans_eq (Nat.mul_one _).symm
  exact Nat.pos_of_mul_pos_left (h.trans_le hle)

/-- An average is no more than the largest one. -/
theorem weigh_div_le {w k : Nat} (h : ∀ c ∈ calls, f c ≤ k * g c) :
    wrap w (weigh p type f calls) / weigh p type g calls ≤ k := by
  refine Nat.div_le_of_le_mul ?_
  rw [Nat.mul_comm]
  exact (Nat.mod_le _ _).trans (weigh_le h)

/-- No section of a call is longer than the call. -/
theorem FinishedCall.Closed.held_le {c : FinishedCall} (h : c.Closed) :
    held c.marks c.finish ≤ (c.finish - c.start) * sections c.marks := by
  rw [held_eq h.ordered h.before, h.out]
  exact total_le h.after h.before

end

/-! ## printCriticalSections -/

/-- The types in the order of the report. -/
def reportedTypes : List AllocationTypeForOutputData :=
  [.serialSmallNewMalloc, .serialMediumNewMalloc, .serialSmallReusedMalloc,
    .serialMediumReusedMalloc, .serialLargeMalloc, .serialSmallFree, .serialMediumFree,
    .serialLargeFree, .serialNormalCalloc, .serialNormalRealloc, .serialNormalPosixMemalign,
    .serialNormalMemalign, .parallelSmallNewMalloc, .parallelMediumNewMalloc,
    .parallelSmallReusedMalloc, .parallelMediumReusedMalloc, .parallelLargeMalloc,
    .parallelSmallFree, .parallelMediumFree, .parallelLargeFree, .parallelNormalCalloc,
    .parallelNormalRealloc, .parallelNormalPosixMemalign, .parallelNormalMemalign]

/-- The lines for a type. -/
structure CountedReport where
  allocationType : AllocationTypeForOutputData
  count : Nat
  cycles : Nat
  cyclesPerCount : Nat
  cyclesPerCall : Nat
deriving DecidableEq, Repr

/-- The loop over the types; `none` is a division by zero. -/
def printCounted (count cycles calls : AllocationTypeForOutputData → Nat) :
    List AllocationTypeForOutputData → Option (List CountedReport)
  | [] => some []
  | type :: types =>
      if count type > 0 then
        if calls type = 0 then none
        else do
          let rest ← printCounted count cycles calls types
          some ({ allocationType := type
                  count := count type
                  cycles := cycles type
                  cyclesPerCount := cycles type / count type
                  cyclesPerCall := cycles type / calls type } :: rest)
      else printCounted count cycles calls types

def printCriticalSections (g : ThreadLocalStatus) : Option (List CountedReport) :=
  printCounted (fun type => (g.criticalSectionStatus type).numOfCriticalSections)
    (fun type => (g.criticalSectionStatus type).totalCyclesOfCriticalSections)
    g.numOfSampledCountingFunctions reportedTypes

/-- The loop of one type of system calls. -/
def printSyscalls (g : ThreadLocalStatus) (systemCallType : SystemCallType) :
    Option (List CountedReport) :=
  printCounted (fun type => (g.systemCallData systemCallType type).num)
    (fun type => (g.systemCallData systemCallType type).cycles)
    g.numOfSampledCountingFunctions reportedTypes

/-- What the lines for a type say of the calls, where a call counts `f` and
spends `h` on it. The averages are of words that may have wrapped around. -/
structure CountedReport.Shows (r : CountedReport) (p : SizeThresholds) (calls : List FinishedCall)
    (f h : FinishedCall → Nat) : Prop where
  count : r.count = wrap 32 (weigh p r.allocationType f calls)
  cycles : r.cycles = wrap 64 (weigh p r.allocationType h calls)
  perCount : r.cyclesPerCount = r.cycles / r.count
  perCall : r.cyclesPerCall = r.cycles / weigh p r.allocationType (fun _ => 1) calls

/-- The lines are for the types that have any. -/
structure ReportShows (p : SizeThresholds) (calls : List FinishedCall) (f h : FinishedCall → Nat)
    (types : List AllocationTypeForOutputData) (reports : List CountedReport) : Prop where
  types : reports.map CountedReport.allocationType =
    types.filter fun type => decide (0 < wrap 32 (weigh p type f calls))
  shows : ∀ r ∈ reports, r.Shows p calls f h

section

variable {p : SizeThresholds} {calls : List FinishedCall} {f h : FinishedCall → Nat}

namespace CountedReport.Shows

variable {r : CountedReport} {k : Nat}

theorem perCall_le (hr : r.Shows p calls f h) (hk : ∀ c ∈ calls, h c ≤ k) :
    r.cyclesPerCall ≤ k := by
  rw [hr.perCall, hr.cycles]
  exact weigh_div_le fun c hc => (hk c hc).trans_eq (Nat.mul_one k).symm

theorem perCount_le (hr : r.Shows p calls f h) (hk : ∀ c ∈ calls, h c ≤ k * f c)
    (hlt : weigh p r.allocationType f calls < 2 ^ 32) : r.cyclesPerCount ≤ k := by
  rw [hr.perCount, hr.count, hr.cycles, wrap_of_lt hlt]
  exact weigh_div_le hk

end CountedReport.Shows

/-- Where something was counted there was a sampled call. -/
theorem printCounted_shows {count cycles sampled : AllocationTypeForOutputData → Nat}
    (hcount : ∀ type, count type = wrap 32 (weigh p type f calls))
    (hcycles : ∀ type, cycles type = wrap 64 (weigh p type h calls))
    (hsampled : ∀ type, sampled type = weigh p type (fun _ => 1) calls) :
    ∀ types : List AllocationTypeForOutputData, ∃ reports,
      printCounted count cycles sampled types = some reports
        ∧ ReportShows p calls f h types reports
  | [] => ⟨[], rfl, rfl, fun _ hr => absurd hr List.not_mem_nil⟩
  | type :: types => by
      obtain ⟨rest, hrest, htypes, hshows⟩ := printCounted_shows hcount hcycles hsampled types
      unfold printCounted
      by_cases hsome : count type > 0
      · have hpos : 0 < wrap 32 (weigh p type f calls) := hcount type ▸ hsome
        have hcalled : sampled type ≠ 0 := by
          rw [hsampled]
          exact Nat.ne_of_gt (weigh_one_pos (hpos.trans_le (Nat.mod_le _ _)))
        rw [if_pos hsome, if_neg hcalled, hrest]
        refine ⟨_, rfl, ?_, ?_⟩
        · rw [List.map_cons, htypes, List.filter_cons, if_pos (decide_eq_true hpos)]
        · intro r hr
          obtain rfl | hr := List.mem_cons.mp hr
          · exact ⟨hcount type, hcycles type, rfl, congrArg _ (hsampled type)⟩
          · exact hshows r hr
      · have hnone : ¬0 < wrap 32 (weigh p type f calls) := hcount type ▸ hsome
        rw [if_neg hsome, hrest]
        refine ⟨rest, rfl, ?_, hshows⟩
        rw [htypes, List.filter_cons, if_neg fun htrue => hnone (of_decide_eq_true htrue)]

end

/-- **The report of a run**: with fewer than `2 ^ 32` calls, each counted
twenty times, nothing is divided by zero and the lines say what the calls
say. No average of the critical sections is more than the longest call. -/
theorem critical_section_report {p : SizeThresholds} {past : List (Nat × CallEvent)}
    {s : CallMeters} (h : Run (CallMeters.step p) EventPermitted CallMeters.init past s)
    (threads : List Nat) (hfew : 20 * (callsOfAll threads past).length < 2 ^ 32) :
    let calls := callsOfAll threads past
    let g := globalTotals threads s
    (∃ reports, printCriticalSections g = some reports
      ∧ ReportShows p calls (fun c => sections c.marks) (fun c => held c.marks c.finish)
        reportedTypes reports
      ∧ ∀ longest, (∀ c ∈ calls, c.finish - c.start ≤ longest) → ∀ r ∈ reports,
        r.cyclesPerCall ≤ longest
        ∧ (weigh p r.allocationType (fun c => sections c.marks) calls < 2 ^ 32 →
          r.cyclesPerCount ≤ longest))
    ∧ ∀ k, ∃ reports, printSyscalls g k = some reports
      ∧ ReportShows p calls (fun c => c.numOf k) (fun c => c.cyclesOf k) reportedTypes reports := by
  intro calls g
  have hfollows := callSession_follows h
  have htotals : Totals p calls g := globalTotals_totals (fun t => (hfollows t).totals) threads
  have hclosed : ∀ c ∈ calls, c.Closed := by
    intro c hc
    obtain ⟨t, -, hc⟩ := List.mem_flatMap.mp hc
    exact (hfollows t).closed c hc
  have hsampled : ∀ type, g.numOfSampledCountingFunctions type =
      weigh p type (fun _ => 1) calls := fun type =>
    (htotals.sampled type).trans (wrap_of_lt ((weigh_one_le p type calls).trans_lt hfew))
  constructor
  · obtain ⟨reports, hprinted, hshows⟩ :=
      printCounted_shows htotals.sections htotals.sectionCycles hsampled reportedTypes
    refine ⟨reports, hprinted, hshows, fun longest hlongest r hr => ⟨?_, ?_⟩⟩
    · refine (hshows.shows r hr).perCall_le fun c hc => ?_
      exact (held_le (hclosed c hc).after c.finish).trans (hlongest c hc)
    · refine (hshows.shows r hr).perCount_le fun c hc => ?_
      exact (hclosed c hc).held_le.trans (Nat.mul_le_mul_right _ (hlongest c hc))
  · intro k
    exact printCounted_shows (htotals.systemCalls k) (htotals.systemCallCycles k) hsampled
      reportedTypes

theorem critical_section_report_locked_twice : ∃ s,
    Run (CallMeters.step { largeObjectThreshold := 0x20000 }) EventPermitted CallMeters.init
      lockedTwice s ∧
    ∃ reports, printCriticalSections (globalTotals [1] s) = some reports
      ∧ reports.map CountedReport.allocationType = [.serialSmallNewMalloc]
      ∧ ∀ r ∈ reports, r.cyclesPerCall ≤ 20 := by
  obtain ⟨s, h⟩ := lockedTwice_run
  obtain ⟨⟨reports, hprinted, hshows, hlongest⟩, -⟩ :=
    critical_section_report h [1] (by decide +kernel)
  refine ⟨s, h, reports, hprinted, ?_, fun r hr => (hlongest 20 ?_ r hr).1⟩
  · rw [hshows.types]
    decide +kernel
  · intro c hc
    obtain rfl := List.mem_singleton.mp hc
    decide

end MemPerf.Original
