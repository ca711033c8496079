import MemPerf.Lib.Visits
import MemPerf.SampleReport

/-!
# The cache conflict detector

A page has 64 lines, and lines with the same number in their pages are
taken to compete for the same cache set. For each number the detector of a
thread counts the hits, the hits on another page than the hit before, and
the samples that the thread took in between.

The hits with one number are visits to pages, at times that are counts of
samples (`visits`). Page 0 is where the detector starts, so it is no page.
-/

namespace MemPerf.Original

open Word StepSystem Firsts Tally Visits MemPerf.Original.ShadowMemory

/-! ## What a hit does -/

theorem addAt_self {ι : Type*} [DecidableEq ι] (f : ι → Nat) (i : ι) (n : Nat) :
    addAt f i n i = wrap 32 (f i + n) := Function.update_self ..

theorem addAt_of_ne {ι : Type*} [DecidableEq ι] (f : ι → Nat) {i k : ι} (h : k ≠ i) (n : Nat) :
    addAt f i n k = f k := Function.update_of_ne h ..

namespace CacheConflictDetector

variable (m p i time : Nat) (d : CacheConflictDetector)

/-- The last hit was on another page. -/
def Moves : Prop := (d.lastHitMegaIndex i ≠ m ∨ d.lastHitPageIndex i ≠ p)
  ∧ (d.lastHitMegaIndex i ≠ 0 ∨ d.lastHitPageIndex i ≠ 0)

instance : Decidable (d.Moves m p i) := inferInstanceAs (Decidable (_ ∧ _))

/-- The counts of the other numbers stay. -/
theorem hit_of_ne {k : Nat} (h : k ≠ i) :
    (d.hit m p i time).numOfHitForCaches k = d.numOfHitForCaches k
    ∧ (d.hit m p i time).numOfDifferentHitForCaches k = d.numOfDifferentHitForCaches k
    ∧ (d.hit m p i time).totalHitIntervalForCaches k = d.totalHitIntervalForCaches k
    ∧ (d.hit m p i time).lastHitTimeForCaches k = d.lastHitTimeForCaches k
    ∧ (d.hit m p i time).lastHitMegaIndex k = d.lastHitMegaIndex k
    ∧ (d.hit m p i time).lastHitPageIndex k = d.lastHitPageIndex k := by
  unfold hit
  simp only
  split
  · split
    · simp only [addAt_of_ne _ h, Function.update_of_ne h, and_self]
    · simp only [addAt_of_ne _ h, Function.update_of_ne h, and_self]
  · simp only [addAt_of_ne _ h, Function.update_of_ne h, and_self]

theorem hit_self :
    (d.hit m p i time).numOfHitForCaches i = wrap 32 (d.numOfHitForCaches i + 1)
    ∧ (d.hit m p i time).numOfDifferentHitForCaches i
      = (if d.Moves m p i then wrap 32 (d.numOfDifferentHitForCaches i + 1)
        else d.numOfDifferentHitForCaches i)
    ∧ (d.hit m p i time).totalHitIntervalForCaches i
      = (if d.Moves m p i then
          wrap 32 (d.totalHitIntervalForCaches i + wsub 32 time (d.lastHitTimeForCaches i))
        else d.totalHitIntervalForCaches i)
    ∧ (d.hit m p i time).lastHitTimeForCaches i = time
    ∧ (d.hit m p i time).lastHitMegaIndex i = m
    ∧ (d.hit m p i time).lastHitPageIndex i = p := by
  unfold hit
  by_cases hplace : d.lastHitMegaIndex i ≠ m ∨ d.lastHitPageIndex i ≠ p
  · by_cases hbefore : d.lastHitMegaIndex i ≠ 0 ∨ d.lastHitPageIndex i ≠ 0
    · have hmoves : d.Moves m p i := ⟨hplace, hbefore⟩
      simp only [if_pos hplace, if_pos hbefore, if_pos hmoves, addAt_self, Function.update_self,
        and_self]
    · have hstays : ¬d.Moves m p i := fun h => hbefore h.2
      simp only [if_pos hplace, if_neg hbefore, if_neg hstays, addAt_self, Function.update_self,
        and_self]
  · have hstays : ¬d.Moves m p i := fun h => hplace h.1
    simp only [if_neg hplace, if_neg hstays, addAt_self, Function.update_self, true_and]
    rw [not_or, not_not, not_not] at hplace
    exact hplace

end CacheConflictDetector

/-! ## Visits -/

/-- How many samples thread `t` has taken. -/
def samplesOf (t : Nat) (log : List Sample) : Nat := tally (owned Sample.thread (fun _ => 1) t) log

/-- The pages of the thread's samples with line number `i`, with the number
of samples it had taken before. -/
def visits (t i : Nat) : List Sample → List (Nat × Nat)
  | [] => []
  | x :: log =>
      if x.thread = t ∧ x.line % 64 = i then (x.page, samplesOf t log) :: visits t i log
      else visits t i log

/-- The detector of thread `t`. -/
structure Detects (log : List Sample) (t : Nat) (d : CacheConflictDetector) : Prop where
  hits : ∀ i, d.numOfHitForCaches i = wrap 32 (visits t i log).length
  different : ∀ i, d.numOfDifferentHitForCaches i = wrap 32 (switches 0 (visits t i log))
  interval : ∀ i, d.totalHitIntervalForCaches i = wrap 32 (gaps 0 (visits t i log))
  time : ∀ i, d.lastHitTimeForCaches i = wrap 32 (lastTime (visits t i log))
  mega : ∀ i, d.lastHitMegaIndex i = lastPlace 0 (visits t i log) / 256
  page : ∀ i, d.lastHitPageIndex i = lastPlace 0 (visits t i log) % 256

theorem samplesOf_cons_self {x : Sample} {t : Nat} (h : x.thread = t) (log : List Sample) :
    samplesOf t (x :: log) = samplesOf t log + 1 := by
  rw [samplesOf, tally_cons, owned, if_pos h, Nat.add_comm]
  rfl

theorem samplesOf_cons_of_ne {x : Sample} {t : Nat} (h : x.thread ≠ t) (log : List Sample) :
    samplesOf t (x :: log) = samplesOf t log := by
  rw [samplesOf, tally_cons, owned, if_neg h, Nat.zero_add]
  rfl

/-- A visit was before the samples that are taken now. -/
theorem visits_before (t i : Nat) :
    ∀ {log : List Sample}, ∀ v ∈ visits t i log, v.2 < samplesOf t log
  | [], v, hv => absurd hv List.not_mem_nil
  | x :: log, v, hv => by
      have ih := @visits_before t i log
      by_cases hx : x.thread = t
      · rw [samplesOf_cons_self hx]
        rw [visits] at hv
        split at hv
        · obtain rfl | hv := List.mem_cons.mp hv
          · exact Nat.lt_succ_self _
          · exact Nat.lt_succ_of_lt (ih v hv)
        · exact Nat.lt_succ_of_lt (ih v hv)
      · rw [samplesOf_cons_of_ne hx]
        rw [visits, if_neg fun h => hx h.1] at hv
        exact ih v hv

theorem later_visits (t i : Nat) : ∀ log : List Sample, Later (visits t i log)
  | [] => .nil
  | x :: log => by
      rw [visits]
      split
      · exact (later_visits t i log).cons (visits_before t i)
      · exact later_visits t i log

theorem lastTime_le (t i : Nat) (log : List Sample) :
    lastTime (visits t i log) ≤ samplesOf t log := by
  cases hv : visits t i log with
  | nil => exact Nat.zero_le _
  | cons v rest => exact Nat.le_of_lt (visits_before t i v (hv ▸ List.mem_cons_self))

namespace Detects

variable {log : List Sample} {t : Nat} {d : CacheConflictDetector}

theorem init (t : Nat) : Detects [] t {} :=
  ⟨fun _ => rfl, fun _ => rfl, fun _ => rfl, fun _ => rfl, fun _ => (Nat.zero_div 256).symm,
    fun _ => rfl⟩

/-- A sample of another thread. -/
theorem cons_of_ne (h : Detects log t d) {x : Sample} (hx : x.thread ≠ t) :
    Detects (x :: log) t d := by
  have hsame : ∀ i, visits t i (x :: log) = visits t i log := fun i => if_neg fun hi => hx hi.1
  exact ⟨fun i => hsame i ▸ h.hits i, fun i => hsame i ▸ h.different i,
    fun i => hsame i ▸ h.interval i, fun i => hsame i ▸ h.time i, fun i => hsame i ▸ h.mega i,
    fun i => hsame i ▸ h.page i⟩

/-- A sample of the thread. -/
theorem record {x : Sample} (h : Detects log x.thread d) :
    Detects (x :: log) x.thread (d.hit (megaIndexOf x.address) (pageIndexOf x.address)
      (cacheIndexOf x.address) (wrap 32 (samplesOf x.thread log))) := by
  have hcache : cacheIndexOf x.address = x.line % 64 := by
    rw [cacheIndexOf_eq, Sample.line]
    omega
  have hmega : megaIndexOf x.address = x.page / 256 := megaIndexOf_eq x.address
  have hpage : pageIndexOf x.address = x.page % 256 := pageIndexOf_eq x.address
  rw [hcache, hmega, hpage]
  have hself : visits x.thread (x.line % 64) (x :: log)
      = (x.page, samplesOf x.thread log) :: visits x.thread (x.line % 64) log :=
    if_pos ⟨rfl, rfl⟩
  have hother : ∀ {i}, i ≠ x.line % 64 → visits x.thread i (x :: log) = visits x.thread i log :=
    fun hi => if_neg fun hx => hi hx.2.symm
  have hbefore := lastTime_le x.thread (x.line % 64) log
  have hmoves : d.Moves (x.page / 256) (x.page % 256) (x.line % 64) ↔
      x.page ≠ lastPlace 0 (visits x.thread (x.line % 64) log)
        ∧ lastPlace 0 (visits x.thread (x.line % 64) log) ≠ 0 := by
    rw [CacheConflictDetector.Moves, h.mega, h.page]
    omega
  obtain ⟨hhits, hdifferent, hinterval, htime, hlastMega, hlastPage⟩ :=
    d.hit_self (x.page / 256) (x.page % 256) (x.line % 64) (wrap 32 (samplesOf x.thread log))
  have hcases : ∀ {P : Nat → Prop}, P (x.line % 64) → (∀ i, i ≠ x.line % 64 → P i) → ∀ i, P i := by
    intro P hline hrest i
    by_cases hi : i = x.line % 64
    · exact hi ▸ hline
    · exact hrest i hi
  refine ⟨hcases ?_ fun i hi => ?_, hcases ?_ fun i hi => ?_, hcases ?_ fun i hi => ?_,
    hcases ?_ fun i hi => ?_, hcases ?_ fun i hi => ?_, hcases ?_ fun i hi => ?_⟩
  · rw [hhits, hself, h.hits, wrap_add_wrap, List.length_cons]
  · rw [hother hi, (d.hit_of_ne _ _ _ _ hi).1, h.hits]
  · rw [hdifferent, hself, switches_cons]
    simp only [hmoves]
    split
    · rw [h.different, wrap_add_wrap]
    · exact h.different _
  · rw [hother hi, (d.hit_of_ne _ _ _ _ hi).2.1, h.different]
  · rw [hinterval, hself, gaps_cons]
    simp only [hmoves]
    split
    · rw [h.interval, h.time, wsub_wrap_wrap hbefore, wrap_wrap_add]
    · exact h.interval _
  · rw [hother hi, (d.hit_of_ne _ _ _ _ hi).2.2.1, h.interval]
  · rw [htime, hself, lastTime]
  · rw [hother hi, (d.hit_of_ne _ _ _ _ hi).2.2.2.1, h.time]
  · rw [hlastMega, hself, lastPlace]
  · rw [hother hi, (d.hit_of_ne _ _ _ _ hi).2.2.2.2.1, h.mega]
  · rw [hlastPage, hself, lastPlace]
  · rw [hother hi, (d.hit_of_ne _ _ _ _ hi).2.2.2.2.2, h.page]

end Detects

/-! ## Every run -/

/-- One call. -/
theorem detects_step {e : Session} {v : FlatSampler} (h : Records e v)
    (hd : ∀ t, Detects e.log t (v.friendlinessStatus t).cacheConflictDetector) (op : SamplerOp)
    (t : Nat) :
    Detects (e.step op).log t ((v.step op).friendlinessStatus t).cacheConflictDetector := by
  cases op with
  | shadow op => exact hd t
  | doMemoryAccess thread address accessType =>
      have hcounted := h.counted_iff thread address accessType
      simp only [Session.step, FlatSampler.step, FlatSampler.doMemoryAccess, hcounted]
      split
      · by_cases ht : t = thread
        · subst ht
          simp only [Function.update_self]
          rw [recordAccess_detector, (h.status t).sampling]
          exact (hd t).record
        · simp only [Function.update_of_ne ht]
          exact (hd t).cons_of_ne (Ne.symm ht)
      · exact hd t

theorem detects_of_run {past : List SamplerOp} {s : Sampler}
    (h : Run Sampler.step SamplePermitted {} past s) :
    ∀ t, Detects (samples past) t (s.friendlinessStatus t).cacheConflictDetector := by
  have hinit : ∀ t, Detects (samples []) t
      ((({} : Sampler).friendlinessStatus t).cacheConflictDetector) := Detects.init
  refine h.inv (fun past s => ∀ t, Detects (samples past) t
    (s.friendlinessStatus t).cacheConflictDetector) hinit ?_
  intro past s op s' hrun hdetects hop hstep t
  obtain ⟨hvalid, hrecords⟩ := records_of_run hrun
  obtain ⟨-, hflat⟩ := hvalid.step hop.proper hstep
  have hstatus : s'.friendlinessStatus = (s.flatten.step op).friendlinessStatus :=
    congrArg FlatSampler.friendlinessStatus hflat
  rw [hstatus, samples, session_snoc]
  exact detects_step hrecords hdetects op t

theorem samplesOf_le (t : Nat) (log : List Sample) : samplesOf t log ≤ log.length := by
  refine tally_le_length fun x _ => ?_
  unfold owned
  split
  · exact Nat.le_refl 1
  · exact Nat.zero_le 1

/-- The visits of the 64 numbers are the samples. -/
theorem sum_length_visits (t : Nat) : ∀ log : List Sample,
    ((List.range 64).map fun i => (visits t i log).length).sum = samplesOf t log
  | [] => by simp [visits, samplesOf, tally]
  | x :: log => by
      have ih := sum_length_visits t log
      by_cases hx : x.thread = t
      · have hone : ((List.range 64).map fun i =>
            owned (fun y : Sample => y.line % 64) (fun _ => 1) i x).sum = 1 :=
          sum_owned_self _ List.nodup_range (List.mem_range.mpr (Nat.mod_lt _ (by decide)))
        have hlength : ∀ i, (visits t i (x :: log)).length =
            (visits t i log).length + owned (fun y : Sample => y.line % 64) (fun _ => 1) i x := by
          intro i
          by_cases hi : x.line % 64 = i
          · rw [visits, if_pos ⟨hx, hi⟩, owned, if_pos hi, List.length_cons]
          · rw [visits, if_neg fun h => hi h.2, owned, if_neg hi, Nat.add_zero]
        rw [List.map_congr_left fun i _ => hlength i, List.sum_map_add, ih, samplesOf_cons_self hx,
          hone]
      · have hsame : ∀ i, visits t i (x :: log) = visits t i log := fun i => if_neg fun h => hx h.1
        simp only [hsame]
        rw [ih, samplesOf_cons_of_ne hx]

theorem length_visits_le (t i : Nat) :
    ∀ log : List Sample, (visits t i log).length ≤ samplesOf t log
  | [] => Nat.le_refl 0
  | x :: log => by
      have ih := length_visits_le t i log
      by_cases hx : x.thread = t
      · rw [samplesOf_cons_self hx, visits]
        split
        · exact Nat.succ_le_succ ih
        · exact Nat.le_succ_of_le ih
      · rw [samplesOf_cons_of_ne hx, visits, if_neg fun h => hx h.1]
        exact ih

/-- **The conflict detector of every run**, below `2 ^ 32` samples: the hits
of the 64 numbers are the thread's samples, and between two hits on
different pages there was at least one sample, so that the intervals are no
fewer than the changes and no more than the samples. -/
theorem conflict_detector {past : List SamplerOp} {s : Sampler}
    (h : Run Sampler.step SamplePermitted {} past s) (hfew : (samples past).length < 2 ^ 32)
    (t : Nat) :
    let f := s.friendlinessStatus t
    let d := f.cacheConflictDetector
    ((List.range 64).map d.numOfHitForCaches).sum = f.numOfSampling
    ∧ ∀ i, d.numOfHitForCaches i = (visits t i (samples past)).length
      ∧ d.numOfDifferentHitForCaches i = switches 0 (visits t i (samples past))
      ∧ d.totalHitIntervalForCaches i = gaps 0 (visits t i (samples past))
      ∧ d.numOfDifferentHitForCaches i ≤ d.numOfHitForCaches i - 1
      ∧ d.numOfDifferentHitForCaches i ≤ d.totalHitIntervalForCaches i
      ∧ d.totalHitIntervalForCaches i ≤ f.numOfSampling := by
  intro f d
  have hsamples := samplesOf_le t (samples past)
  have hsampling : f.numOfSampling = samplesOf t (samples past) :=
    ((records_of_run h).2.status t).sampling.trans (wrap_of_lt (hsamples.trans_lt hfew))
  have hdetects := detects_of_run h t
  have hhits : ∀ i, d.numOfHitForCaches i = (visits t i (samples past)).length := fun i =>
    (hdetects.hits i).trans
      (wrap_of_lt (((length_visits_le t i _).trans hsamples).trans_lt hfew))
  refine ⟨?_, fun i => ?_⟩
  · rw [hsampling, List.map_congr_left fun i _ => hhits i]
    exact sum_length_visits t (samples past)
  · have hlater := later_visits t i (samples past)
    have hswitches := switches_le_gaps (z := 0) hlater
    have hgaps : gaps 0 (visits t i (samples past)) ≤ samplesOf t (samples past) :=
      (gaps_le hlater).trans (lastTime_le t i _)
    have hdifferent : d.numOfDifferentHitForCaches i = switches 0 (visits t i (samples past)) :=
      (hdetects.different i).trans (wrap_of_lt (by omega))
    have hinterval : d.totalHitIntervalForCaches i = gaps 0 (visits t i (samples past)) :=
      (hdetects.interval i).trans (wrap_of_lt (by omega))
    refine ⟨hhits i, hdifferent, hinterval, ?_, ?_, ?_⟩
    · rw [hdifferent, hhits]
      exact switches_le_length _
    · rw [hdifferent, hinterval]
      exact hswitches
    · rw [hinterval, hsampling]
      exact hgaps

theorem conflict_detector_shared_line : ∃ s, Run Sampler.step SamplePermitted {} sharedLine s
    ∧ ((List.range 64).map (s.friendlinessStatus 2).cacheConflictDetector.numOfHitForCaches).sum
      = (s.friendlinessStatus 2).numOfSampling := by
  obtain ⟨s, h⟩ := sharedLine_run
  have hfew := (length_samples_le sharedLine).trans_lt (show 4 < 2 ^ 32 by decide)
  exact ⟨s, h, (conflict_detector h hfew 2).1⟩

end MemPerf.Original
