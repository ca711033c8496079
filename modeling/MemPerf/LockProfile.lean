import MemPerf.LockRecord
import MemPerf.Lib.Run

/-!
# The lock profile

What a sampled call leaves in `lockUsage` and in the overview of its
thread, after any run of the thread's calls, and which calls are profiled
exactly.
-/

namespace MemPerf

open Word Chained StepSystem

namespace CallRecorder

variable {s : CallRecorder}

/-! ## Whole calls -/

/-- The accumulators of the call are zero. -/
structure Clean (s : CallRecorder) : Prop where
  queue : s.allocating.queueOfDetailLockData = {}
  overview : ∀ lockType, s.allocating.overviewLockData lockType = {}
  system : ∀ type, s.allocating.systemCallData type = {}

/-- Between two calls. -/
structure Ready (s : CallRecorder) : Prop extends Clean s where
  counted : s.lockUsage.Counted
  ranges : s.lockUsage.Forall fun e => ∀ type, (e.value.counts type).InRange
  totals : ∀ lockType type, ((s.threadLocal.overviewLockData lockType).counts type).InRange

/-- The class of the call, from what it is called with. -/
def outputType (s : CallRecorder) (p : SizeThresholds) (c : TrackedCall) : Nat :=
  let a := (s.allocating.beforeRealFunction c.sampled c.function).afterRealFunction c
  let a := { a with
    allocatingType.objectSizeType := p.getObjectSizeType a.allocatingType.objectSize }
  a.allocationType c.parallel a.allocatingType.objectSizeType

theorem beforeRealFunction_spec (a : AllocatingStatus) (sampled : Bool) (f : TrackedFunction) :
    (a.beforeRealFunction sampled f).allocatingType.doingAllocation = true ∧
      (a.beforeRealFunction sampled f).sampledForCountingEvent = sampled ∧
      (a.beforeRealFunction sampled f).queueOfDetailLockData = a.queueOfDetailLockData ∧
      (a.beforeRealFunction sampled f).overviewLockData = a.overviewLockData ∧
      (a.beforeRealFunction sampled f).systemCallData = a.systemCallData := by
  cases f with
  | malloc size => exact ⟨rfl, rfl, rfl, rfl, rfl⟩
  | calloc nelem elsize => exact ⟨rfl, rfl, rfl, rfl, rfl⟩
  | free objStat => cases objStat <;> exact ⟨rfl, rfl, rfl, rfl, rfl⟩
  | realloc objStat size =>
      cases objStat with
      | none => exact ⟨rfl, rfl, rfl, rfl, rfl⟩
      | some objStat => cases objStat <;> exact ⟨rfl, rfl, rfl, rfl, rfl⟩
  | posixMemalign size => exact ⟨rfl, rfl, rfl, rfl, rfl⟩
  | memalign size => exact ⟨rfl, rfl, rfl, rfl, rfl⟩

/-- After the real function the kind of call is settled; the accumulators
are as the events left them. -/
theorem afterRealFunction_spec (a : AllocatingStatus) (c : TrackedCall) :
    (a.afterRealFunction c).sampledForCountingEvent = a.sampledForCountingEvent ∧
      (a.afterRealFunction c).queueOfDetailLockData = a.queueOfDetailLockData ∧
      (a.afterRealFunction c).overviewLockData = a.overviewLockData ∧
      (a.afterRealFunction c).systemCallData = a.systemCallData := by
  rw [AllocatingStatus.afterRealFunction]
  split
  · exact ⟨rfl, rfl, rfl, rfl⟩
  · rw [AllocatingStatus.updateAllocatingStatusAfterRealFunction]
    dsimp only
    split <;> exact ⟨rfl, rfl, rfl, rfl⟩

theorem afterRealFunction_allocatingType {a b : AllocatingStatus}
    (h : a.allocatingType = b.allocatingType) (c : TrackedCall) :
    (a.afterRealFunction c).allocatingType = (b.afterRealFunction c).allocatingType := by
  rw [AllocatingStatus.afterRealFunction, AllocatingStatus.afterRealFunction]
  split
  · simp only [AllocatingStatus.updateFreeingStatusAfterRealFunction, h]
  · simp only [AllocatingStatus.updateAllocatingStatusAfterRealFunction, h]
    split <;> simp

variable {p : SizeThresholds} {c : TrackedCall}

/-- The state in which the real function starts. -/
def started (s : CallRecorder) (c : TrackedCall) : CallRecorder :=
  { s with allocating := s.allocating.beforeRealFunction c.sampled c.function }

theorem started_inside (s : CallRecorder) (hs : c.sampled = true) : (s.started c).Inside := by
  obtain ⟨hdoing, hsampled, -⟩ := beforeRealFunction_spec s.allocating c.sampled c.function
  exact ⟨hdoing, hsampled.trans hs⟩

theorem Ready.recorded (h : s.Ready) (c : TrackedCall) :
    Recorded (s.started c) (s.started c) [] := by
  obtain ⟨-, -, hqueue, hoverview, -⟩ := beforeRealFunction_spec s.allocating c.sampled c.function
  rw [h.queue] at hqueue
  refine ⟨rfl, rfl, rfl, h.counted, h.ranges, fun _ _ => rfl, fun lock => by simp, ?_, ?_, ?_, ?_,
    ?_, fun lockType => ?_⟩
  · rw [started, hqueue]
    exact QueueOfDetailLockData.tidy_empty
  · rw [started, hqueue]
    rfl
  · intro i r hi
    rw [started, hqueue] at hi
    cases hi
  · intro lock hlock
    cases hlock
  · intro lock r _
    rw [started, hqueue]
    rfl
  · rw [started, hoverview, h.overview]
    rfl

/-- The sums of a sampled call go to its class, and the record is clean. -/
theorem updateThreadLocal_spec (hs : s.allocating.sampledForCountingEvent = true)
    (p : SizeThresholds) (parallel : Bool) :
    ∃ type s', s.updateAllocatingInfoToThreadLocalData p parallel = s' ∧
      type = { s.allocating with
        allocatingType.objectSizeType := p.getObjectSizeType s.allocating.allocatingType.objectSize
          }.allocationType parallel (p.getObjectSizeType s.allocating.allocatingType.objectSize) ∧
      s'.lockUsage = s.allocating.queueOfDetailLockData.writingIntoHashTable type s.lockUsage ∧
      (∀ lockType, (s'.threadLocal.overviewLockData lockType).counts =
        Function.update (s.threadLocal.overviewLockData lockType).counts type
          (((s.threadLocal.overviewLockData lockType).counts type).addUp
            (s.allocating.overviewLockData lockType).counts)) ∧
      (∀ syscall, s'.threadLocal.systemCallData syscall =
        Function.update (s.threadLocal.systemCallData syscall) type
          ((s.threadLocal.systemCallData syscall type).add (s.allocating.systemCallData syscall))) ∧
      s'.threadLocal.numOfSampledCountingFunctions =
        Function.update s.threadLocal.numOfSampledCountingFunctions type
          (wrap 32 (s.threadLocal.numOfSampledCountingFunctions type + 1)) ∧
      s'.allocating.queueOfDetailLockData = s.allocating.queueOfDetailLockData.cleanUpQueue ∧
      (∀ lockType, s'.allocating.overviewLockData lockType = {}) ∧
      ∀ syscall, s'.allocating.systemCallData syscall = {} := by
  rw [updateAllocatingInfoToThreadLocalData, if_pos hs]
  exact ⟨_, _, rfl, rfl, rfl, fun _ => rfl, fun _ => rfl, rfl, rfl, fun _ => rfl, fun _ => rfl⟩

/-- An entry after the queue is written out. -/
theorem detail_written {s s' : CallRecorder} {q : QueueOfDetailLockData} {type lock : Nat} {r : Ref}
    (h : s'.lockUsage = q.writingIntoHashTable type s.lockUsage)
    (hranges : s.lockUsage.Forall fun e => ∀ type, (e.value.counts type).InRange)
    (hr : s.lockUsage.ref? lock = some r) (t : Nat) :
    s'.detail lock t =
      if t = type then (s.detail lock t + q.pending r).reduce else s.detail lock t := by
  obtain ⟨d, hd⟩ := HashMap.deref_ref hr
  have hrange : (d.counts type).InRange := hranges r.1 _ (List.mem_of_getElem? hd) type
  have hr' : s'.lockUsage.ref? lock = some r := by
    rw [h, QueueOfDetailLockData.ref_writingIntoHashTable, hr]
  have hd' := QueueOfDetailLockData.deref_writingIntoHashTable q hd hrange
  rw [← h] at hd'
  rw [detail_of_ref hr' hd', detail_of_ref hr hd]
  by_cases ht : t = type
  · subst ht
    rw [if_pos rfl]
    exact Function.update_self ..
  · rw [if_neg ht]
    exact Function.update_of_ne ht ..

theorem allocationType_congr {a b : AllocatingStatus} (h : a.allocatingType = b.allocatingType)
    (parallel : Bool) (sizeType : ObjectSizeType) :
    a.allocationType parallel sizeType = b.allocationType parallel sizeType := by
  rw [AllocatingStatus.allocationType, AllocatingStatus.allocationType, h]

/-- The lock and system calls do not change the class. -/
theorem allocationType_afterRealFunction {a : AllocatingStatus}
    (h : a.allocatingType = (s.started c).allocating.allocatingType) (p : SizeThresholds) :
    { a.afterRealFunction c with
      allocatingType.objectSizeType :=
        p.getObjectSizeType (a.afterRealFunction c).allocatingType.objectSize }.allocationType
      c.parallel (p.getObjectSizeType (a.afterRealFunction c).allocatingType.objectSize) =
        s.outputType p c := by
  have hkind : (a.afterRealFunction c).allocatingType =
      ((s.allocating.beforeRealFunction c.sampled c.function).afterRealFunction c).allocatingType :=
    afterRealFunction_allocatingType h c
  rw [outputType, hkind]
  exact allocationType_congr (by simp only [hkind]) _ _

/-- What a sampled call leaves, when its locks find room. -/
theorem Ready.sampledCall (h : s.Ready) (hs : c.sampled = true)
    (hroom : Room s.lockUsage (lockCalls c.events)) :
    ∃ s', (s.realFunction c).updateAllocatingInfoToThreadLocalData p c.parallel = s' ∧
      (∀ lock type, s'.detail lock type =
        if type = s.outputType p c then
          (s.detail lock type + LockCall.charged (lockCalls c.events) lock).reduce
        else s.detail lock type) ∧
      (∀ lockType type, (s'.threadLocal.overviewLockData lockType).counts type =
        if type = s.outputType p c then
          ((s.threadLocal.overviewLockData lockType).counts type +
            LockCall.ofType (lockCalls c.events) lockType).reduce
        else (s.threadLocal.overviewLockData lockType).counts type) ∧
      s'.Ready := by
  have hin := started_inside s hs
  have hrec := (h.recorded c).events hin c.events hroom
  rw [List.nil_append] at hrec
  generalize hs₂ : c.events.foldl event (s.started c) = s₂ at hrec
  have hreal : s.realFunction c = { s₂ with allocating := s₂.allocating.afterRealFunction c } := by
    rw [← hs₂]
    rfl
  obtain ⟨hsampled, hqueue, hoverview, -⟩ := afterRealFunction_spec s₂.allocating c
  have hsampled₃ : (s.realFunction c).allocating.sampledForCountingEvent = true := by
    rw [hreal]
    exact hsampled.trans (hrec.sampled.trans hin.2)
  obtain ⟨type, s', hs', htype, husage, htotals, -, -, hclean, hoverview', hsystem⟩ :=
    updateThreadLocal_spec hsampled₃ p c.parallel
  have htype' : type = s.outputType p c := by
    rw [htype, hreal]
    exact allocationType_afterRealFunction hrec.allocatingType p
  rw [hreal] at husage htotals hclean
  dsimp only at husage htotals hclean
  rw [hqueue] at husage hclean
  rw [hoverview, hrec.threadLocal] at htotals
  refine ⟨s', hs', fun lock t => ?_, fun lockType t => ?_, ?_⟩
  · rw [← htype']
    have hdetail : s₂.detail lock t = s.detail lock t := hrec.detail lock t
    cases hr : s₂.lockUsage.ref? lock with
    | some r =>
        rw [detail_written husage hrec.ranges hr, hdetail]
        split
        · exact LockCounts.reduce_congr_right (hrec.pending lock r hr) _
        · rfl
    | none =>
        have hr' : s'.lockUsage.ref? lock = none := by
          rw [husage, QueueOfDetailLockData.ref_writingIntoHashTable, hr]
        rw [detail_of_none hr', ← hdetail, detail_of_none hr,
          LockCall.charged_of_absent ((hrec.refs lock).mp hr).2]
        split <;> rfl
  · rw [← htype', htotals]
    by_cases ht : t = type
    · subst ht
      rw [if_pos rfl, Function.update_self, LockCounts.addUp_eq]
      exact LockCounts.reduce_congr_right (hrec.overview lockType) _
    · rw [if_neg ht, Function.update_of_ne ht]
      rfl
  · refine ⟨⟨?_, hoverview', hsystem⟩, ?_, ?_, fun lockType t => ?_⟩
    · rw [hclean, hrec.tidy.cleanUpQueue]
    · rw [husage]
      exact QueueOfDetailLockData.counted_writingIntoHashTable _ _ hrec.counted
    · rw [husage]
      exact QueueOfDetailLockData.ranges_writingIntoHashTable _ _ hrec.ranges
    · rw [htotals]
      by_cases ht : t = type
      · subst ht
        rw [Function.update_self, LockCounts.addUp_eq]
        exact LockCounts.reduce_inRange _
      · rw [Function.update_of_ne ht]
        exact h.totals lockType t

/-- A call that is not sampled records nothing. -/
theorem events_of_unsampled (hs : s.allocating.sampledForCountingEvent = false)
    (events : List AllocatorEvent) : events.foldl event s = s := by
  induction events with
  | nil => rfl
  | cons e events ih =>
      have hsame : s.event e = s := by
        cases e with
        | lock c => rw [event, lockCall, if_pos (.inr (by simp [hs]))]
        | system type timeStart timeStop => rw [event, systemCall, if_pos (.inr (by simp [hs]))]
      rw [List.foldl_cons, hsame, ih]

/-- Nor does its record change. -/
theorem unsampledCall_spec (s : CallRecorder) (hs : c.sampled = false) (p : SizeThresholds) :
    ∃ a, (s.realFunction c).updateAllocatingInfoToThreadLocalData p c.parallel =
        { s with allocating := a } ∧
      a.queueOfDetailLockData = s.allocating.queueOfDetailLockData ∧
      a.overviewLockData = s.allocating.overviewLockData ∧
      a.systemCallData = s.allocating.systemCallData := by
  obtain ⟨-, hsampled, hqueue, hoverview, hsystem⟩ :=
    beforeRealFunction_spec s.allocating c.sampled c.function
  obtain ⟨hsampled', hqueue', hoverview', hsystem'⟩ :=
    afterRealFunction_spec (s.started c).allocating c
  have hstart : (s.started c).allocating.sampledForCountingEvent = false := hsampled.trans hs
  have hreal : s.realFunction c =
      { s.started c with allocating := (s.started c).allocating.afterRealFunction c } := by
    have hevents := events_of_unsampled hstart c.events
    rw [started] at hevents
    rw [realFunction]
    simp only [hevents]
    rfl
  have hoff : (s.realFunction c).allocating.sampledForCountingEvent = false := by
    rw [hreal]
    exact hsampled'.trans hstart
  rw [updateAllocatingInfoToThreadLocalData, if_neg (by simp [hoff]), hreal]
  exact ⟨_, rfl, hqueue'.trans hqueue, hoverview'.trans hoverview, hsystem'.trans hsystem⟩

theorem Clean.unsampledCall (h : s.Clean) (hs : c.sampled = false) :
    ((s.realFunction c).updateAllocatingInfoToThreadLocalData p c.parallel).Clean := by
  obtain ⟨a, ha, hqueue, hoverview, hsystem⟩ := unsampledCall_spec s hs p
  rw [ha]
  exact ⟨hqueue.trans h.queue,
    fun lockType => (congrFun hoverview lockType).trans (h.overview lockType),
    fun type => (congrFun hsystem type).trans (h.system type)⟩

theorem Ready.unsampledCall (h : s.Ready) (hs : c.sampled = false) :
    ((s.realFunction c).updateAllocatingInfoToThreadLocalData p c.parallel).Ready := by
  have hclean := h.toClean.unsampledCall (p := p) hs
  obtain ⟨a, ha, -⟩ := unsampledCall_spec s hs p
  rw [ha] at hclean ⊢
  exact ⟨hclean, h.counted, h.ranges, h.totals⟩

/-- The predictor leaves the record alone. -/
theorem Clean.predictor (h : s.Clean) (p : SizeThresholds) (info : PredictorInfo)
    (parallel : Bool) : (s.updateAllocatingInfoToPredictor p info parallel).Clean := by
  have hkeeps : ∀ a : AllocatingStatus,
      a.setAllocationTypeForPrediction.queueOfDetailLockData = a.queueOfDetailLockData ∧
      a.setAllocationTypeForPrediction.overviewLockData = a.overviewLockData ∧
      a.setAllocationTypeForPrediction.systemCallData = a.systemCallData := by
    intro a
    rw [AllocatingStatus.setAllocationTypeForPrediction]
    split
    · exact ⟨rfl, rfl, rfl⟩
    · split <;> split <;> exact ⟨rfl, rfl, rfl⟩
  rw [updateAllocatingInfoToPredictor]
  dsimp only
  split
  · refine ⟨?_, fun lockType => ?_, fun type => ?_⟩
    · exact (hkeeps _).1.trans h.queue
    · exact (congrFun (hkeeps _).2.1 lockType).trans (h.overview lockType)
    · exact (congrFun (hkeeps _).2.2 type).trans (h.system type)
  · exact ⟨h.queue, h.overview, h.system⟩

theorem Ready.predictor (h : s.Ready) (p : SizeThresholds) (info : PredictorInfo)
    (parallel : Bool) : (s.updateAllocatingInfoToPredictor p info parallel).Ready :=
  ⟨h.toClean.predictor p info parallel, h.counted, h.ranges, h.totals⟩

/-! ## Runs -/

variable {info : PredictorInfo} {past : List TrackedCall}

def step (p : SizeThresholds) (info : PredictorInfo) (s : CallRecorder) (c : TrackedCall) :
    Option CallRecorder :=
  some (s.trackedCall p info c)

/-- The locks of a sampled call find room in `lockUsage`. -/
def Roomy (s : CallRecorder) (c : TrackedCall) : Prop :=
  c.sampled = true → Room s.lockUsage (lockCalls c.events)

theorem ready_initial : ({} : CallRecorder).Ready where
  queue := rfl
  overview := fun _ => rfl
  system := fun _ => rfl
  counted := HashMap.init_counted hashAddr (by decide)
  ranges := HashMap.init_forall hashAddr (by decide) _
  totals := fun _ _ => LockCounts.zero_inRange

theorem run_ready (h : Run (step p info) (fun _ => Roomy) {} past s) : s.Ready := by
  refine h.invariant Ready ready_initial ?_
  intro past s c s' hs hroom hstep
  obtain rfl := Option.some.inj hstep
  refine Ready.predictor ?_ p info c.parallel
  cases hsampled : c.sampled with
  | false => exact hs.unsampledCall hsampled
  | true =>
      obtain ⟨s', hs', -, -, hready⟩ := hs.sampledCall (p := p) hsampled (hroom hsampled)
      rw [hs']
      exact hready

/-! ## Which calls are profiled exactly -/

/-- The state after a call's record is added up. -/
def profiled (s : CallRecorder) (p : SizeThresholds) (c : TrackedCall) : CallRecorder :=
  (s.realFunction c).updateAllocatingInfoToThreadLocalData p c.parallel

/-- Every lock and every lock type has grown by its own lock calls, in the
class of the call, and the accumulators are zero again. -/
structure Attributed (p : SizeThresholds) (s : CallRecorder) (c : TrackedCall) : Prop where
  detail : ∀ lock type, (s.profiled p c).detail lock type = s.detail lock type +
    if type = s.outputType p c then LockCall.onLock (lockCalls c.events) lock else 0
  overview : ∀ lockType type, ((s.profiled p c).threadLocal.overviewLockData lockType).counts type =
    (s.threadLocal.overviewLockData lockType).counts type +
      if type = s.outputType p c then LockCall.ofType (lockCalls c.events) lockType else 0
  clean : (s.profiled p c).Clean

/-- Every call after the thousandth is on its lock; no bucket of
`lockUsage` and no counter is full. -/
structure Faithful (p : SizeThresholds) (s : CallRecorder) (c : TrackedCall) : Prop where
  queued : ∀ call ∈ (lockCalls c.events).drop lengthOfQueue,
    LockCall.lastQueued (lockCalls c.events) = some call.lock
  room : Room s.lockUsage (lockCalls c.events)
  detail : ∀ lock,
    (s.detail lock (s.outputType p c) + LockCall.onLock (lockCalls c.events) lock).InRange
  overview : ∀ lockType,
    ((s.threadLocal.overviewLockData lockType).counts (s.outputType p c) +
      LockCall.ofType (lockCalls c.events) lockType).InRange

/-- Without room one of the locks has no entry afterwards. -/
theorem Ready.lost (h : s.Ready) (hs : c.sampled = true)
    (hroom : ¬ Room s.lockUsage (lockCalls c.events)) :
    ∃ call ∈ lockCalls c.events, ∀ type,
      s.detail call.lock type = 0 ∧ (s.profiled p c).detail call.lock type = 0 := by
  have hin := started_inside s hs
  obtain ⟨call, hcall, hnone, hhidden⟩ := exists_hidden h.counted hroom
  refine ⟨call, hcall, fun type => ⟨detail_of_none hnone type, detail_of_none ?_ type⟩⟩
  have husage : (s.realFunction c).lockUsage = (lockCalls c.events).foldl useLock s.lockUsage :=
    lockUsage_events hin c.events
  rw [← husage] at hhidden
  rw [profiled, updateAllocatingInfoToThreadLocalData]
  split
  · exact (QueueOfDetailLockData.ref_writingIntoHashTable ..).trans hhidden.ref_none
  · exact hhidden.ref_none

theorem Ready.attributed (h : s.Ready) (hs : c.sampled = true) (hf : Faithful p s c) :
    Attributed p s c := by
  obtain ⟨s', hs', hdetail, hoverview, hready⟩ := h.sampledCall (p := p) hs hf.room
  obtain rfl : s.profiled p c = s' := hs'
  refine ⟨fun lock type => ?_, fun lockType type => ?_, hready.toClean⟩
  · rw [hdetail, LockCall.charged_eq_onLock hf.queued]
    split
    · next htype =>
        subst htype
        exact (hf.detail lock).reduce
    · exact (add_zero _).symm
  · rw [hoverview]
    split
    · next htype =>
        subst htype
        exact (hf.overview lockType).reduce
    · exact (add_zero _).symm

theorem Ready.faithful (h : s.Ready) (hs : c.sampled = true) (ha : Attributed p s c) :
    Faithful p s c := by
  have hroom : Room s.lockUsage (lockCalls c.events) := by
    by_contra hno
    obtain ⟨call, hcall, hlost⟩ := h.lost (p := p) hs hno
    obtain ⟨hbefore, hafter⟩ := hlost (s.outputType p c)
    have hgrown := ha.detail call.lock (s.outputType p c)
    rw [if_pos rfl, hbefore, hafter, zero_add] at hgrown
    have hpos := LockCall.onLock_pos hcall
    rw [← hgrown] at hpos
    exact Nat.lt_irrefl 0 hpos
  obtain ⟨s', hs', hdetail, hoverview, -⟩ := h.sampledCall (p := p) hs hroom
  obtain rfl : s.profiled p c = s' := hs'
  -- what is stored is the exact sum
  have hexact : ∀ lock, (s.detail lock (s.outputType p c) +
      LockCall.charged (lockCalls c.events) lock).reduce =
      s.detail lock (s.outputType p c) + LockCall.onLock (lockCalls c.events) lock := by
    intro lock
    have hgrown := ha.detail lock (s.outputType p c)
    rwa [hdetail, if_pos rfl, if_pos rfl] at hgrown
  refine ⟨fun call hcall => ?_, hroom, fun lock => ?_, fun lockType => ?_⟩
  · by_contra hlast
    have hlt := LockCall.charged_lt_onLock hcall hlast
    have hcalls := congrArg LockCounts.numOfCalls (hexact call.lock)
    have hle : (s.detail call.lock (s.outputType p c) +
        LockCall.charged (lockCalls c.events) call.lock).reduce.numOfCalls ≤ _ := Nat.mod_le _ _
    rw [hcalls] at hle
    simp only [LockCounts.add_numOfCalls] at hle
    omega
  · rw [← hexact]
    exact LockCounts.reduce_inRange _
  · have hgrown := ha.overview lockType (s.outputType p c)
    rw [hoverview, if_pos rfl, if_pos rfl] at hgrown
    rw [← hgrown]
    exact LockCounts.reduce_inRange _

/-- After every run whose locks find room, a sampled call is profiled
exactly if and only if it is faithful. -/
theorem lock_profile_exact_iff (h : Run (step p info) (fun _ => Roomy) {} past s)
    (hs : c.sampled = true) : Attributed p s c ↔ Faithful p s c :=
  ⟨(run_ready h).faithful hs, (run_ready h).attributed hs⟩

/-- A `malloc` of 8 bytes whose allocator locks these mutexes. -/
def mutexCall (locks : List Nat) : TrackedCall where
  function := .malloc 8
  sampled := true
  parallel := false
  isReuse := false
  cyclesBeforeRealFunction := 100
  cyclesAfterRealFunction := 200
  events := locks.map fun lock => .lock (.pthreadMutexLock lock 0 110 120)

theorem lockCalls_mutexCall (locks : List Nat) :
    lockCalls (mutexCall locks).events =
      locks.map fun lock => .pthreadMutexLock lock 0 110 120 := by
  induction locks with
  | nil => rfl
  | cons lock locks ih => exact congrArg (.pthreadMutexLock lock 0 110 120 :: ·) ih

/-- An empty `lockUsage` has room for the locks of a short list. -/
theorem room_mutexCall {locks : List Nat} (h : locks.toFinset.card < 2 ^ 16) :
    Room ({} : CallRecorder).lockUsage (lockCalls (mutexCall locks).events) := by
  intro i
  have hlocks : (lockCalls (mutexCall locks).events).map LockCall.lock = locks := by
    rw [lockCalls_mutexCall, List.map_map]
    exact List.map_id locks
  have hle := Finset.card_filter_le (locks.toFinset) fun lock =>
    ({} : CallRecorder).lockUsage.ref? lock = none ∧
      ({} : CallRecorder).lockUsage.hashIndex lock = i
  rw [newLocks, hlocks]
  change 0 + _ < _
  omega

theorem detail_initial (lock type : Nat) : ({} : CallRecorder).detail lock type = 0 :=
  detail_of_none rfl type

/-- One uncontended mutex. -/
theorem lock_profile_exact_one_mutex :
    (lockCalls (mutexCall [128]).events).length = 1 ∧ Attributed {} {} (mutexCall [128]) := by
  have hrun : Run (step {} {}) (fun _ => Roomy) {} [] {} := .nil
  refine ⟨rfl, (lock_profile_exact_iff hrun rfl).mpr ⟨?_, ?_, ?_, ?_⟩⟩
  · intro call hcall
    cases hcall
  · exact room_mutexCall (by decide)
  · intro lock
    rw [detail_initial, zero_add, lockCalls_mutexCall]
    by_cases hlock : 128 = lock
    · subst hlock
      exact ⟨by decide, by decide, by decide⟩
    · have hnone : LockCall.onLock [LockCall.pthreadMutexLock 128 0 110 120] lock = 0 := by
        simp [LockCall.onLock, LockCall.pthreadMutexLock, hlock]
      exact hnone ▸ LockCounts.zero_inRange
  · intro lockType
    cases lockType <;> exact ⟨by decide, by decide, by decide⟩

/-- A thousand calls on one mutex, then one on another. -/
def fullQueueCall : TrackedCall := mutexCall (List.replicate 1000 128 ++ [256])

/-- The other mutex is locked once, and its entry stays zero. -/
theorem full_queue_loses_lock :
    (LockCall.onLock (lockCalls fullQueueCall.events) 256).numOfCalls = 1 ∧
      (∀ type, (({} : CallRecorder).profiled {} fullQueueCall).detail 256 type = 0) ∧
      ¬ Attributed {} {} fullQueueCall := by
  have hcalls : lockCalls fullQueueCall.events =
      List.replicate 1000 (.pthreadMutexLock 128 0 110 120)
        ++ [.pthreadMutexLock 256 0 110 120] := by
    rw [fullQueueCall, lockCalls_mutexCall, List.map_append, List.map_replicate]
    rfl
  have hother : ∀ n,
      LockCall.onLock (List.replicate n (.pthreadMutexLock 128 0 110 120)) 256 = 0 := by
    intro n
    rw [LockCall.onLock, List.filter_eq_nil_iff.mpr]
    · rfl
    · intro call hcall
      rw [List.eq_of_mem_replicate hcall]
      decide
  have hone : LockCall.onLock (lockCalls fullQueueCall.events) 256 =
      (LockCall.pthreadMutexLock 256 0 110 120).counts := by
    rw [hcalls, LockCall.onLock_snoc, hother, zero_add]
    rfl
  have htake : (lockCalls fullQueueCall.events).take lengthOfQueue =
      List.replicate 1000 (.pthreadMutexLock 128 0 110 120) := by
    rw [hcalls, List.take_left' (List.length_replicate ..)]
  have hlast : LockCall.lastQueued (lockCalls fullQueueCall.events) = some 128 := by
    rw [LockCall.lastQueued, htake, List.getLast?_replicate, if_neg (by decide)]
    rfl
  have hroom : Room ({} : CallRecorder).lockUsage (lockCalls fullQueueCall.events) := by
    refine room_mutexCall ?_
    rw [List.toFinset_append, List.toFinset_replicate_of_ne_zero (by decide)]
    decide
  obtain ⟨s', hs', hdetail, -, -⟩ :=
    ready_initial.sampledCall (p := {}) (c := fullQueueCall) rfl hroom
  obtain rfl : ({} : CallRecorder).profiled {} fullQueueCall = s' := hs'
  have hcharged : LockCall.charged (lockCalls fullQueueCall.events) 256 = 0 := by
    rw [LockCall.charged, htake, hother, hlast, if_neg (by decide), add_zero]
  have hzero : ∀ type, (({} : CallRecorder).profiled {} fullQueueCall).detail 256 type = 0 := by
    intro type
    rw [hdetail, detail_initial, hcharged]
    split <;> rfl
  refine ⟨by rw [hone]; rfl, hzero, fun ha => ?_⟩
  have hgrown := ha.detail 256 (({} : CallRecorder).outputType {} fullQueueCall)
  rw [hzero, detail_initial, if_pos rfl, hone] at hgrown
  cases congrArg LockCounts.numOfCalls hgrown

end CallRecorder

end MemPerf
