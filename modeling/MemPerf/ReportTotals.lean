import MemPerf.LockBounds
import MemPerf.LockProfile
import MemPerf.Report

/-!
# What the report divides by

The report divides by the number of sampled calls of a class and, for a
lock, by the number of its calls. Both are counted by the call that uses
the lock: what it has noted of its locks and system calls goes to its
class when it is over, and the class gets one call more. So the classes
with locks or system calls are classes with calls, in each thread and, as
nothing wraps, in the sums over the threads. Charging a lock call to
another lock, as a full queue does, changes nothing about this.

The threads of a run share nothing that is recorded here: what a call
takes from the others (whether it is parallel, whether the lock is
contended) is an argument of the call. So the calls of each thread in
their order, and the order in which the threads end, are a whole run.
-/

namespace MemPerf

open Word Chained

/-! ## Events -/

/-- The system calls of a kind among the events. -/
def numOfSystemCalls (events : List AllocatorEvent) (type : SystemCallType) : Nat :=
  (events.filter fun event =>
    match event with
    | .lock _ => false
    | .system type' _ _ => decide (type' = type)).length

namespace CallRecorder

variable {s s₀ : CallRecorder} {events : List AllocatorEvent}

/-- What is noted after these events, from `s₀` on, with room for the
locks or without. -/
structure Noted (s₀ s : CallRecorder) (events : List AllocatorEvent) : Prop where
  allocatingType : s.allocating.allocatingType = s₀.allocating.allocatingType
  sampled : s.allocating.sampledForCountingEvent = s₀.allocating.sampledForCountingEvent
  threadLocal : s.threadLocal = s₀.threadLocal
  tidy : s.allocating.queueOfDetailLockData.Tidy
  overview : ∀ lockType, (s.allocating.overviewLockData lockType).counts.reduce =
    (LockCall.ofType (lockCalls events) lockType).reduce
  systems : ∀ type, (s.allocating.systemCallData type).num = wrap 32 (numOfSystemCalls events type)
  queue : (lockCalls events).length < 2 ^ 32 →
    s.allocating.queueOfDetailLockData.Within (lockCalls events).length
  table : ∀ n, LocksWithin s₀.lockUsage n → LocksWithin s.lockUsage n

theorem Noted.inside (h : Noted s₀ s events) (hin : s₀.Inside) : s.Inside := by
  rw [Inside, h.allocatingType, h.sampled]
  exact hin

theorem Noted.lock (h : Noted s₀ s events) (hin : s₀.Inside) (c : LockCall) :
    Noted s₀ (s.lockCall c) (events ++ [.lock c]) := by
  obtain ⟨overview, hs, hoverview⟩ := lockCall_spec (h.inside hin) c
  have hcalls : lockCalls (events ++ [.lock c]) = lockCalls events ++ [c] := by
    rw [lockCalls, List.filterMap_append]
    rfl
  have hsystems : ∀ type, numOfSystemCalls (events ++ [.lock c]) type =
      numOfSystemCalls events type := by
    intro type
    rw [numOfSystemCalls, List.filter_append, List.length_append]
    rfl
  rw [hs]
  refine ⟨h.allocatingType, h.sampled, h.threadLocal, h.tidy.record _ _, fun lockType => ?_,
    fun type => ?_, fun hlen => ?_, fun n hn => (h.table n hn).useLock c⟩
  · rw [hcalls]
    dsimp only
    rw [hoverview]
    exact LockCall.overview_snoc (h.overview lockType) c
  · rw [hsystems]
    exact h.systems type
  · rw [hcalls, List.length_append, List.length_singleton] at hlen ⊢
    exact (h.queue (by omega)).record h.tidy hlen _ c

theorem Noted.system (h : Noted s₀ s events) (hin : s₀.Inside) (type : SystemCallType)
    (timeStart timeStop : Nat) :
    Noted s₀ (s.systemCall type timeStart timeStop)
      (events ++ [.system type timeStart timeStop]) := by
  have hcalls : lockCalls (events ++ [.system type timeStart timeStop]) = lockCalls events := by
    rw [lockCalls, List.filterMap_append]
    exact List.append_nil _
  rw [systemCall, if_neg (h.inside hin).records]
  refine ⟨h.allocatingType, h.sampled, h.threadLocal, h.tidy, ?_, fun type' => ?_, ?_, h.table⟩
  · rw [hcalls]
    exact h.overview
  · have hnum := h.systems type'
    rw [numOfSystemCalls, List.filter_append, List.length_append, ← numOfSystemCalls]
    simp only [addOneSyscallToSyscallData]
    by_cases htype : type = type'
    · subst htype
      rw [Function.update_self, SystemCallData.addOneSystemCall, SystemCallData.add, hnum,
        wrap_add_wrap]
      simp
    · rw [Function.update_of_ne (Ne.symm htype), hnum]
      simp [htype]
  · rw [hcalls]
    exact h.queue

theorem Noted.foldl_event (h : Noted s₀ s events) (hin : s₀.Inside) (rest : List AllocatorEvent) :
    Noted s₀ (rest.foldl event s) (events ++ rest) := by
  induction rest generalizing s events with
  | nil =>
      rw [List.append_nil]
      exact h
  | cons e rest ih =>
      rw [List.foldl_cons, ← List.singleton_append, ← List.append_assoc]
      cases e with
      | lock c => exact ih (h.lock hin c)
      | system type timeStart timeStop => exact ih (h.system hin type timeStart timeStop)

end CallRecorder

/-! ## The calls of a class -/

/-- Sampled calls, each with its class. -/
abbrev ClassedCalls := List (Nat × TrackedCall)

def inClass (done : ClassedCalls) (type : Nat) : List TrackedCall :=
  (done.filter fun x => x.1 = type).map Prod.snd

theorem inClass_append (done rest : ClassedCalls) (type : Nat) :
    inClass (done ++ rest) type = inClass done type ++ inClass rest type := by
  rw [inClass, List.filter_append, List.map_append]
  rfl

theorem inClass_singleton (type' : Nat) (c : TrackedCall) (type : Nat) :
    inClass [(type', c)] type = if type = type' then [c] else [] := by
  by_cases h : type = type'
  · simp [inClass, h]
  · simp [inClass, h, Ne.symm h]

def lockTotals (calls : List TrackedCall) (lockType : LockType) : LockCounts :=
  (calls.map fun c => LockCall.ofType (lockCalls c.events) lockType).sum

def numOfLockCalls (calls : List TrackedCall) : Nat :=
  (calls.map fun c => (lockCalls c.events).length).sum

theorem numOfLockCalls_le_append (done rest : ClassedCalls) (type : Nat) :
    numOfLockCalls (inClass done type) ≤ numOfLockCalls (inClass (done ++ rest) type) := by
  rw [inClass_append, numOfLockCalls, numOfLockCalls, List.map_append, List.sum_append]
  exact Nat.le_add_right _ _

theorem numOfLockCalls_snoc (done : ClassedCalls) (type : Nat) (c : TrackedCall) (type' : Nat) :
    numOfLockCalls (inClass (done ++ [(type, c)]) type') =
      Function.update (fun t => numOfLockCalls (inClass done t)) type
        (numOfLockCalls (inClass done type) + (lockCalls c.events).length) type' := by
  rw [inClass_append, inClass_singleton, numOfLockCalls, List.map_append, List.sum_append]
  by_cases ht : type' = type
  · subst ht
    rw [Function.update_self, if_pos rfl, List.map_singleton, List.sum_singleton]
    rfl
  · rw [Function.update_of_ne ht, if_neg ht, List.map_nil, List.sum_nil, Nat.add_zero]
    rfl

def systemTotals (calls : List TrackedCall) (type : SystemCallType) : Nat :=
  (calls.map fun c => numOfSystemCalls c.events type).sum

/-- These counters, of a thread or of all of them, are the totals of the
sampled calls; for the lock table they are a bound. -/
structure Tallied (done : ClassedCalls) (numOfSampledCountingFunctions : Nat → Nat)
    (overviewLockData : LockType → OverviewLockData)
    (systemCallData : SystemCallType → Nat → SystemCallData)
    (lockUsage : HashMap Nat DetailLockData) : Prop where
  sampled : ∀ type < numOfAllocationType,
    numOfSampledCountingFunctions type = wrap 32 (inClass done type).length
  overview : ∀ lockType, ∀ type < numOfAllocationType,
    (overviewLockData lockType).counts type = (lockTotals (inClass done type) lockType).reduce
  systems : ∀ syscall, ∀ type < numOfAllocationType,
    (systemCallData syscall type).num = wrap 32 (systemTotals (inClass done type) syscall)
  locks : (∀ type, numOfLockCalls (inClass done type) < 2 ^ 32) →
    LocksWithin lockUsage fun type => numOfLockCalls (inClass done type)

theorem tallied_initial : Tallied [] (fun _ => 0) (fun _ => {}) (fun _ _ => {})
    (HashMap.init hashAddr maxLockNum maxLockNum_pos) where
  sampled _ _ := rfl
  overview _ _ _ := rfl
  systems _ _ _ := rfl
  locks _ := LocksWithin.init

namespace CallRecorder

variable {s s₀ : CallRecorder} {p : SizeThresholds} {info : PredictorInfo} {c : TrackedCall}
  {done : ClassedCalls}

/-- Between two calls a thread's counters are those of its calls. -/
structure Accounted (s : CallRecorder) (done : ClassedCalls) : Prop where
  clean : s.Clean
  tallied : Tallied done s.threadLocal.numOfSampledCountingFunctions s.threadLocal.overviewLockData
    s.threadLocal.systemCallData s.lockUsage

theorem accounted_initial : Accounted {} [] := ⟨ready_initial.toClean, tallied_initial⟩

/-- Before the first event nothing is noted. -/
theorem Clean.noted (h : s.Clean) (c : TrackedCall) : Noted (s.started c) (s.started c) [] := by
  obtain ⟨-, -, hqueue, hoverview, hsystem⟩ :=
    beforeRealFunction_spec s.allocating c.sampled c.function
  rw [h.queue] at hqueue
  refine ⟨rfl, rfl, rfl, ?_, fun lockType => ?_, fun type => ?_, fun _ => ?_, fun n hn => hn⟩
  · rw [started, hqueue]
    exact QueueOfDetailLockData.tidy_empty
  · rw [started, hoverview, h.overview]
    rfl
  · rw [started, hsystem, h.system]
    rfl
  · rw [started, hqueue]
    exact QueueOfDetailLockData.within_empty

/-- A sampled call is counted with what it has noted. -/
theorem Accounted.sampledCall (h : Accounted s done) (hs : c.sampled = true) :
    Accounted (s.profiled p c) (done ++ [(s.outputType p c, c)]) := by
  have hin := started_inside s hs
  have hnoted := (h.clean.noted c).foldl_event hin c.events
  rw [List.nil_append] at hnoted
  generalize hs₂ : c.events.foldl event (s.started c) = s₂ at hnoted
  have hreal : s.realFunction c = { s₂ with allocating := s₂.allocating.afterRealFunction c } := by
    rw [← hs₂]
    rfl
  obtain ⟨hsampled, hqueue, hoverview, hsystem⟩ := afterRealFunction_spec s₂.allocating c
  have hsampled₃ : (s.realFunction c).allocating.sampledForCountingEvent = true := by
    rw [hreal]
    exact hsampled.trans (hnoted.sampled.trans hin.2)
  obtain ⟨type, s', hs', htype, husage, htotals, hsystems, hcalls, hclean, hoverview', hsystem'⟩ :=
    updateThreadLocal_spec hsampled₃ p c.parallel
  have htype' : type = s.outputType p c := by
    rw [htype, hreal]
    exact allocationType_afterRealFunction hnoted.allocatingType p
  rw [hreal] at husage htotals hsystems hcalls hclean
  dsimp only at husage htotals hsystems hcalls hclean
  rw [hqueue] at husage hclean
  rw [hoverview, hnoted.threadLocal] at htotals
  rw [hsystem, hnoted.threadLocal] at hsystems
  rw [hnoted.threadLocal] at hcalls
  rw [profiled, hs', ← htype']
  obtain ⟨hbefore, hold⟩ := h
  refine ⟨⟨?_, hoverview', hsystem'⟩, fun t hlt => ?_, fun lockType t hlt => ?_,
    fun syscall t hlt => ?_, fun hfits => ?_⟩
  · rw [hclean, hnoted.tidy.cleanUpQueue]
  · rw [hcalls, inClass_append, inClass_singleton, List.length_append]
    by_cases ht : t = type
    · subst ht
      rw [Function.update_self, if_pos rfl]
      exact (congrArg (fun n => wrap 32 (n + 1)) (hold.sampled t hlt)).trans
        (wrap_add_wrap ..)
    · rw [Function.update_of_ne ht, if_neg ht]
      exact hold.sampled t hlt
  · rw [htotals, inClass_append, inClass_singleton, lockTotals, List.map_append, List.sum_append]
    by_cases ht : t = type
    · subst ht
      rw [Function.update_self, if_pos rfl, LockCounts.addUp_eq, List.map_singleton,
        List.sum_singleton]
      refine (LockCounts.reduce_congr_right (hnoted.overview lockType) _).trans ?_
      rw [started, hold.overview lockType t hlt, LockCounts.reduce_add]
      rfl
    · rw [Function.update_of_ne ht, if_neg ht, List.map_nil, List.sum_nil, add_zero]
      exact hold.overview lockType t hlt
  · rw [hsystems, inClass_append, inClass_singleton, systemTotals, List.map_append, List.sum_append]
    by_cases ht : t = type
    · subst ht
      rw [Function.update_self, if_pos rfl, SystemCallData.add, List.map_singleton,
        List.sum_singleton]
      simp only
      rw [hnoted.systems, started, hold.systems syscall t hlt, wrap_add_wrap, Nat.add_comm,
        wrap_add_wrap, Nat.add_comm]
      rfl
    · rw [Function.update_of_ne ht, if_neg ht, List.map_nil, List.sum_nil, Nat.add_zero]
      exact hold.systems syscall t hlt
  · have hnow := hfits type
    rw [numOfLockCalls_snoc, Function.update_self] at hnow
    have htable := hnoted.table _
      (hold.locks fun t => (numOfLockCalls_le_append done _ t).trans_lt (hfits t))
    rw [husage]
    refine ((hnoted.queue (by omega)).writingIntoHashTable htable hnow).mono fun t => ?_
    exact (numOfLockCalls_snoc done type c t).ge

theorem Accounted.unsampledCall (h : Accounted s done) (hs : c.sampled = false) :
    Accounted (s.profiled p c) done := by
  have hclean := h.clean.unsampledCall (p := p) hs
  obtain ⟨a, ha, -⟩ := unsampledCall_spec s hs p
  rw [profiled]
  rw [ha] at hclean ⊢
  exact ⟨hclean, h.tallied⟩

theorem Accounted.predictor (h : Accounted s done) (p : SizeThresholds) (info : PredictorInfo)
    (parallel : Bool) : Accounted (s.updateAllocatingInfoToPredictor p info parallel) done :=
  ⟨h.clean.predictor p info parallel, h.tallied⟩

/-! ## A thread -/

/-- The sampled calls of a thread, each with the class it is counted in. -/
def sampledCalls (p : SizeThresholds) (info : PredictorInfo) :
    CallRecorder → List TrackedCall → ClassedCalls
  | _, [] => []
  | s, c :: calls =>
      (if c.sampled then [(s.outputType p c, c)] else []) ++
        sampledCalls p info (s.trackedCall p info c) calls

/-- What one call more adds. -/
theorem Accounted.trackedCall (h : Accounted s done) (p : SizeThresholds) (info : PredictorInfo)
    (c : TrackedCall) : Accounted (s.trackedCall p info c)
      (done ++ if c.sampled then [(s.outputType p c, c)] else []) := by
  refine Accounted.predictor ?_ p info c.parallel
  cases hs : c.sampled with
  | false =>
      rw [if_neg (by decide), List.append_nil]
      exact h.unsampledCall hs
  | true =>
      rw [if_pos rfl]
      exact h.sampledCall hs

theorem Accounted.trackedCalls (h : Accounted s done) (calls : List TrackedCall) :
    Accounted (calls.foldl (fun s c => s.trackedCall p info c) s)
      (done ++ sampledCalls p info s calls) := by
  induction calls generalizing s done with
  | nil =>
      rw [sampledCalls, List.append_nil]
      exact h
  | cons c calls ih =>
      rw [List.foldl_cons, sampledCalls, ← List.append_assoc]
      exact ih (h.trackedCall p info c)

/-- A thread after these calls. -/
def afterTrackedCalls (p : SizeThresholds) (info : PredictorInfo)
    (calls : List TrackedCall) : CallRecorder :=
  calls.foldl (fun s c => s.trackedCall p info c) {}

theorem lockTable_afterTrackedCalls (p : SizeThresholds) (info : PredictorInfo)
    (calls : List TrackedCall) : LockTable (afterTrackedCalls p info calls).lockUsage := by
  induction calls using List.reverseRecOn with
  | nil => exact .init
  | append_singleton calls c ih =>
      rw [afterTrackedCalls, List.foldl_append]
      exact lockTable_trackedCall ih p info c

/-- What the thread brings when it ends. -/
def statistics (p : SizeThresholds) (info : PredictorInfo) (calls : List TrackedCall) :
    ThreadStatistics where
  threadLocal := (afterTrackedCalls p info calls).threadLocal
  lockUsage := (afterTrackedCalls p info calls).lockUsage
  lockTable := lockTable_afterTrackedCalls p info calls

theorem accounted_afterTrackedCalls (p : SizeThresholds) (info : PredictorInfo)
    (calls : List TrackedCall) :
    Accounted (afterTrackedCalls p info calls) (sampledCalls p info {} calls) :=
  accounted_initial.trackedCalls calls

end CallRecorder

/-! ## The threads together -/

theorem LockCounts.reduce_reduce_add (c d : LockCounts) :
    (c.reduce + d.reduce).reduce = (c + d).reduce := by
  rw [LockCounts.reduce_add, add_comm, LockCounts.reduce_add, add_comm]

theorem lockTotals_append (calls rest : List TrackedCall) (lockType : LockType) :
    lockTotals (calls ++ rest) lockType = lockTotals calls lockType + lockTotals rest lockType := by
  rw [lockTotals, List.map_append, List.sum_append]
  rfl

theorem systemTotals_append (calls rest : List TrackedCall) (type : SystemCallType) :
    systemTotals (calls ++ rest) type = systemTotals calls type + systemTotals rest type := by
  rw [systemTotals, List.map_append, List.sum_append]
  rfl

theorem numOfLockCalls_append (calls rest : List TrackedCall) :
    numOfLockCalls (calls ++ rest) = numOfLockCalls calls + numOfLockCalls rest := by
  rw [numOfLockCalls, List.map_append, List.sum_append]
  rfl

/-- The counters of all the threads that have ended. -/
def GlobalStatus.Tallied (g : GlobalStatus) (done : ClassedCalls) : Prop :=
  MemPerf.Tallied done g.numOfSampledCountingFunctions g.overviewLockData g.systemCallData
    g.globalLockUsage

theorem GlobalStatus.Tallied.globalize {g : GlobalStatus} {t : ThreadStatistics}
    {done rest : ClassedCalls} (h : g.Tallied done)
    (ht : MemPerf.Tallied rest t.threadLocal.numOfSampledCountingFunctions
      t.threadLocal.overviewLockData t.threadLocal.systemCallData t.lockUsage) :
    (globalize g t).Tallied (done ++ rest) where
  sampled type htype := by
    have hstep : (MemPerf.globalize g t).numOfSampledCountingFunctions type =
        wrap 32 (g.numOfSampledCountingFunctions type +
          t.threadLocal.numOfSampledCountingFunctions type) := if_pos htype
    rw [hstep, h.sampled type htype, ht.sampled type htype, wrap_wrap_add, inClass_append,
      List.length_append]
  overview lockType type htype := by
    have hstep : ((MemPerf.globalize g t).overviewLockData lockType).counts type =
        ((g.overviewLockData lockType).counts type).addUp
          ((t.threadLocal.overviewLockData lockType).counts type) := if_pos htype
    rw [hstep, h.overview lockType type htype, ht.overview lockType type htype, LockCounts.addUp_eq,
      LockCounts.reduce_reduce_add, inClass_append, lockTotals_append]
  systems syscall type htype := by
    rw [globalize_systemCallData htype, SystemCallData.add]
    simp only
    rw [h.systems syscall type htype, ht.systems syscall type htype, wrap_wrap_add, inClass_append,
      systemTotals_append]
  locks hfits := by
    simp only [inClass_append, numOfLockCalls_append] at hfits ⊢
    refine LocksWithin.globalize (h.locks fun type => ?_) (ht.locks fun type => ?_) hfits
    · exact (Nat.le_add_right _ _).trans_lt (hfits type)
    · exact (Nat.le_add_left _ _).trans_lt (hfits type)

section Threads

open CallRecorder

variable (p : SizeThresholds) (info : PredictorInfo) (threads : List (List TrackedCall))

/-- The sampled calls of all the threads. -/
def allSampledCalls : ClassedCalls := threads.flatMap (sampledCalls p info {})

/-- The statistics once the threads have ended in this order. -/
def endedThreads : GlobalStatus := globalizeAll (threads.map (statistics p info))

theorem tallied_endedThreads :
    (endedThreads p info threads).Tallied (allSampledCalls p info threads) := by
  induction threads using List.reverseRecOn with
  | nil => exact tallied_initial
  | append_singleton threads calls ih =>
      have hended : endedThreads p info (threads ++ [calls]) =
          globalize (endedThreads p info threads) (statistics p info calls) := by
        rw [endedThreads, List.map_append, globalizeAll, List.foldl_append]
        rfl
      have hcalls : allSampledCalls p info (threads ++ [calls]) =
          allSampledCalls p info threads ++ sampledCalls p info {} calls := by
        rw [allSampledCalls, List.flatMap_append, List.flatMap_singleton]
        rfl
      rw [hended, hcalls]
      exact ih.globalize (accounted_afterTrackedCalls p info calls).tallied

/-! ## The report -/

/-- Every total is below `2 ^ 32 / 100`. -/
structure TotalsFit (done : ClassedCalls) : Prop where
  sampled : ∀ type, 100 * (inClass done type).length < 2 ^ 32
  locks : ∀ lockType type, 100 * (lockTotals (inClass done type) lockType).numOfCalls < 2 ^ 32
  systems : ∀ syscall type, 100 * systemTotals (inClass done type) syscall < 2 ^ 32

/-- Nothing divides by zero, and no lock has more contended calls than
calls. -/
structure GlobalStatus.ReportSafe (g : GlobalStatus) : Prop where
  countingEvents : ∃ lines, g.printCountingEvents = some lines
  overviewLocks : ∃ lines, g.printOverviewLocks = some lines ∧
    ∀ ls ∈ lines, ∀ line ∈ ls, line.contentionRate ≤ 100
  detailLocks : ∃ lines, g.printDetailLocks = some lines ∧
    ∀ x ∈ lines, ∀ line ∈ x.2, line.contentionRate ≤ 100
  syscalls : ∃ lines, g.printSyscalls = some lines
  overviewCounts : ∀ lockType, g.Printable (g.overviewLockData lockType).counts
  detailCounts : g.globalLockUsage.Forall fun e => g.Printable e.value.counts
  systemCounts : ∀ syscall, ∀ type < numOfAllocationType, 0 < (g.systemCallData syscall type).num →
    0 < g.numOfSampledCountingFunctions type

theorem LockCall.ofType_contended (calls : List LockCall) (lockType : LockType) :
    (ofType calls lockType).Contended := by
  rw [ofType]
  induction calls.filter fun c => c.lockType = lockType with
  | nil => exact Nat.le_refl 0
  | cons c calls ih =>
      have hcounts : c.counts.Contended := Bool.toNat_le c.contended
      rw [List.map_cons, List.sum_cons]
      exact Nat.add_le_add hcounts ih

theorem lockTotals_contended (calls : List TrackedCall) (lockType : LockType) :
    (lockTotals calls lockType).Contended := by
  induction calls with
  | nil => exact Nat.le_refl 0
  | cons c calls ih => exact Nat.add_le_add (LockCall.ofType_contended _ lockType) ih

/-- Each lock call is of one of the types. -/
theorem LockCall.length_eq_ofType (calls : List LockCall) :
    calls.length = (lockTypes.map fun lockType => (ofType calls lockType).numOfCalls).sum := by
  induction calls using List.reverseRecOn with
  | nil => rfl
  | append_singleton calls c ih =>
      simp only [lockTypes, List.map_cons, List.map_nil, List.sum_cons, List.sum_nil] at ih
      simp only [lockTypes, ofType_snoc, LockCounts.add_numOfCalls, List.map_cons, List.map_nil,
        List.sum_cons, List.sum_nil, List.length_append, List.length_singleton, ih]
      cases c.lockType <;> simp [counts] <;> omega

theorem numOfLockCalls_eq (calls : List TrackedCall) : numOfLockCalls calls =
    (lockTypes.map fun lockType => (lockTotals calls lockType).numOfCalls).sum := by
  induction calls with
  | nil => rfl
  | cons c calls ih =>
      have hcons : ∀ lockType, lockTotals (c :: calls) lockType =
          LockCall.ofType (lockCalls c.events) lockType + lockTotals calls lockType := fun _ => rfl
      have hlen : numOfLockCalls (c :: calls)
          = (lockCalls c.events).length + numOfLockCalls calls := rfl
      rw [hlen, ih, LockCall.length_eq_ofType]
      simp only [hcons, LockCounts.add_numOfCalls, lockTypes, List.map_cons, List.map_nil,
        List.sum_cons, List.sum_nil]
      omega

namespace TotalsFit

variable {done : ClassedCalls} {g : GlobalStatus} {type : Nat}

theorem lockCalls_fit (h : TotalsFit done) (type : Nat) :
    numOfLockCalls (inClass done type) < 2 ^ 32 := by
  have hmutex := h.locks .mutex type
  have hspin := h.locks .spin type
  have hmutexTry := h.locks .mutexTry type
  have hspinTry := h.locks .spinTry type
  rw [numOfLockCalls_eq]
  simp only [lockTypes, List.map_cons, List.map_nil, List.sum_cons, List.sum_nil]
  omega

/-- A class of which a call has noted something has calls. -/
theorem sampled_pos (h : TotalsFit done) (hg : g.Tallied done) (htype : type < numOfAllocationType)
    (hcalls : inClass done type ≠ []) : 0 < g.numOfSampledCountingFunctions type := by
  have hfits := h.sampled type
  rw [hg.sampled type htype, wrap_of_lt (by omega)]
  exact List.length_pos_iff.mpr hcalls

theorem printable_overview (h : TotalsFit done) (hg : g.Tallied done) (lockType : LockType) :
    g.Printable (g.overviewLockData lockType).counts := by
  have hexact : ∀ type < numOfAllocationType,
      ((g.overviewLockData lockType).counts type).numOfCalls =
        (lockTotals (inClass done type) lockType).numOfCalls := by
    intro type htype
    have hfits := h.locks lockType type
    rw [hg.overview lockType type htype]
    exact wrap_of_lt (by omega)
  refine ⟨fun type htype hpos => ?_, fun type htype => ?_⟩
  · refine h.sampled_pos hg htype fun hnone => ?_
    rw [hexact type htype, hnone] at hpos
    exact Nat.lt_irrefl 0 hpos
  · have hcontended := lockTotals_contended (inClass done type) lockType
    rw [hexact type htype, hg.overview lockType type htype]
    exact (Nat.mod_le ..).trans hcontended

theorem printable_detail (h : TotalsFit done) (hg : g.Tallied done) :
    g.globalLockUsage.Forall fun e => g.Printable e.value.counts := by
  have hwithin := hg.locks h.lockCalls_fit
  intro i e he
  refine ⟨fun type htype hpos => ?_, fun type _ => hwithin.contended i e he type⟩
  refine h.sampled_pos hg htype fun hnone => ?_
  have hle := hwithin.calls_le he type
  rw [hnone] at hle
  exact absurd (hpos.trans_le hle) (Nat.lt_irrefl 0)

theorem sampled_of_system (h : TotalsFit done) (hg : g.Tallied done) (syscall : SystemCallType)
    (htype : type < numOfAllocationType) (hpos : 0 < (g.systemCallData syscall type).num) :
    0 < g.numOfSampledCountingFunctions type := by
  refine h.sampled_pos hg htype fun hnone => ?_
  rw [hg.systems syscall type htype, hnone] at hpos
  exact Nat.lt_irrefl 0 hpos

end TotalsFit

/-- The report of every run divides by nothing that is zero, and no rate is
over a hundred. -/
theorem report_arithmetic_safe (h : TotalsFit (allSampledCalls p info threads)) :
    (endedThreads p info threads).ReportSafe := by
  have htallied := tallied_endedThreads p info threads
  have hoverview := h.printable_overview htallied
  have hdetail := h.printable_detail htallied
  have hsystems := fun syscall type (htype : type < numOfAllocationType) =>
    h.sampled_of_system htallied syscall htype
  exact ⟨GlobalStatus.exists_printCountingEvents _,
    GlobalStatus.exists_printOverviewLocks hoverview,
    GlobalStatus.exists_printDetailLocks hdetail, GlobalStatus.exists_printSyscalls hsystems,
    hoverview, hdetail, hsystems⟩

end Threads

/-- A `malloc` whose allocator waits for a mutex and maps memory. -/
def busyMalloc : TrackedCall where
  function := .malloc 8
  sampled := true
  parallel := false
  isReuse := false
  cyclesBeforeRealFunction := 100
  cyclesAfterRealFunction := 200
  events := [.lock (.pthreadMutexLock 128 1 110 120), .system .mmap 130 150]

/-- Two threads with such a call each. -/
theorem report_arithmetic_safe_busy_malloc :
    (allSampledCalls {} {} [[busyMalloc], [busyMalloc]]).length = 2 ∧
      (endedThreads {} {} [[busyMalloc], [busyMalloc]]).ReportSafe := by
  -- without a threshold every object is large
  have hdone : allSampledCalls {} {} [[busyMalloc], [busyMalloc]] =
      [(4, busyMalloc), (4, busyMalloc)] := rfl
  refine ⟨rfl, report_arithmetic_safe {} {} [[busyMalloc], [busyMalloc]] ?_⟩
  rw [hdone]
  refine ⟨fun type => ?_, fun lockType type => ?_, fun syscall type => ?_⟩
  · by_cases h : type = 4
    · subst h
      decide
    · simp [inClass, Ne.symm h]
  · by_cases h : type = 4
    · subst h
      cases lockType <;> decide
    · simp [inClass, Ne.symm h, lockTotals]
  · by_cases h : type = 4
    · subst h
      cases syscall <;> decide
    · simp [inClass, Ne.symm h, systemTotals]

end MemPerf
