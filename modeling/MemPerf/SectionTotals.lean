import MemPerf.CriticalSections

/-!
# What the totals of a thread are totals of

What the history alone says about the calls of a thread: when each began and
ended, its locks with their ticks, its system calls. A call stands for
`weight` calls. The counters of the thread are sums over its sampled calls
(`Totals`); the cycles of its critical sections are the ticks in which it
had a lock (`Nesting.held`), each counted once however many locks it had.

A call is over when the profiler has booked it, and the locks it takes for
that count like those of the allocator. Its cycles are those up to the clock,
less 120 for each wrapper since the clock of the call before: the wrappers
behind the clock make the next call shorter.

A thread gives back in a call the locks it got in the call, and no others.
-/

namespace MemPerf.Original

open Word StepSystem Tally Nesting AllocationTypeForOutputData

/-! ## The calls of a thread -/

/-- A call of an allocation function, as far as it got. Nothing is noted in
a call that is not sampled. -/
structure AllocatorCall where
  function : AllocationFunction
  objectSize : Nat
  sampled : Bool
  start : Nat
  marks : List (Mark × Nat) := []
  systemCalls : List (SystemCallType × Nat) := []

namespace AllocatorCall

variable (c : AllocatorCall)

def numOf (type : SystemCallType) : Nat :=
  tally (fun s => if s.1 = type then 1 else 0) c.systemCalls

def cyclesOf (type : SystemCallType) : Nat :=
  tally (fun s => if s.1 = type then s.2 else 0) c.systemCalls

end AllocatorCall

/-- `cycles` are those of the real function, and `finish` is the last tick
of the call. -/
structure FinishedCall extends AllocatorCall where
  isReusedObject : Bool
  single : Bool
  cycles : Nat
  finish : Nat

namespace FinishedCall

variable (c : FinishedCall)

def type (p : SizeThresholds) : AllocationTypeForOutputData :=
  named c.function (!c.single) (getObjectSizeType p c.objectSize) c.isReusedObject

def weight : Nat := if c.objectSize < largeObject then 20 else 1

end FinishedCall

/-- The ticks of a call without those of its wrappers. -/
def ownCycles (start stop wrapped : Nat) : Nat :=
  if stop - start - wrap 64 (120 * wrapped) > abnormalValue then 0
  else stop - start - wrap 64 (120 * wrapped)

/-- `wrapped` is the number of wrappers since the clock was stopped last, and
`measured` holds the cycles of the current call when its clock is. -/
structure CallSession where
  current : Option AllocatorCall := none
  calls : List FinishedCall := []
  clock : Nat := 0
  wrapped : Nat := 0
  measured : Option Nat := none

namespace CallSession

variable (e : CallSession)

/-- The thread is in a sampled call. -/
def inSampled : Bool := e.current.any (·.sampled)

/-- A wrapper, one of `wrappers` that make the call longer. -/
def inCall (now wrappers : Nat) (f : AllocatorCall → AllocatorCall) : CallSession :=
  { e with
    clock := now
    current := e.current.map fun c => if c.sampled then f c else c
    wrapped := if e.inSampled then e.wrapped + wrappers else e.wrapped }

def step : CallEvent → CallSession
  | .allocate function objectSize sampled start =>
      { e with
        current := some { function, objectSize := wrap 32 objectSize, sampled, start }
        clock := start }
  | .free objectSize _ sampled start =>
      { e with
        current := some { function := .free, objectSize := wrap 32 objectSize, sampled, start }
        clock := start }
  | .lock now => e.inCall now 1 fun c => { c with marks := (.enter, now) :: c.marks }
  | .trylock result now =>
      e.inCall now 1 fun c =>
        { c with marks := if result ≠ 0 then c.marks else (.enter, now) :: c.marks }
  | .mutexUnlock now => e.inCall now 0 fun c => { c with marks := (.leave, now) :: c.marks }
  | .spinUnlock now => e.inCall now 1 fun c => { c with marks := (.leave, now) :: c.marks }
  | .systemCall type timeStart timeStop =>
      e.inCall timeStop 1 fun c =>
        { c with systemCalls := (type, timeStop - timeStart) :: c.systemCalls }
  | .stop now =>
      { e with
        clock := now
        measured := e.current.map fun c => ownCycles c.start now e.wrapped
        wrapped := 0 }
  | .done isReusedObject single =>
      let finished (c : AllocatorCall) (cycles : Nat) : FinishedCall :=
        { c with isReusedObject, single, cycles, finish := e.clock }
      { e with
        current := none
        measured := none
        calls := (Option.map₂ finished e.current e.measured).toList ++ e.calls }

end CallSession

/-- What is known of a thread after the events. -/
def callSession (t : Nat) (past : List (Nat × CallEvent)) : CallSession :=
  past.foldl (fun e i => if i.1 = t then e.step i.2 else e) {}

def callsOf (t : Nat) (past : List (Nat × CallEvent)) : List FinishedCall :=
  (callSession t past).calls

theorem callSession_snoc (t : Nat) (past : List (Nat × CallEvent)) (i : Nat × CallEvent) :
    callSession t (past ++ [i]) =
      if i.1 = t then (callSession t past).step i.2 else callSession t past := by
  rw [callSession, List.foldl_append]
  rfl

/-! ## What may happen -/

/-- The clock of a thread does not go back. -/
def CallEvent.Timely (clock : Nat) : CallEvent → Prop
  | .allocate _ _ _ now | .free _ _ _ now | .lock now | .trylock _ now | .mutexUnlock now
  | .spinUnlock now | .stop now => clock ≤ now ∧ now < 2 ^ 64
  | .systemCall _ timeStart timeStop =>
      clock ≤ timeStart ∧ timeStart ≤ timeStop ∧ timeStop < 2 ^ 64
  | .done _ _ => True

def CallSession.Allows (e : CallSession) : CallEvent → Prop
  | .lock _ | .trylock _ _ => ∀ c ∈ e.current, depth c.marks + 1 < 2 ^ 32
  | .mutexUnlock _ | .spinUnlock _ => ∀ c ∈ e.current, c.sampled = true → 0 < depth c.marks
  | .done _ _ => ∀ c ∈ e.current, depth c.marks = 0
  | _ => True

def EventPermitted (past : List (Nat × CallEvent)) (_ : CallMeters) (i : Nat × CallEvent) : Prop :=
  i.2.Timely (callSession i.1 past).clock ∧ (callSession i.1 past).Allows i.2

/-! ## The critical sections of a call -/

/-- The counters say of the locks what the marks say. -/
structure Meters (marks : List (Mark × Nat)) (c : CriticalSectionStatusInAllocatingStatus) :
    Prop where
  owning : c.numOfOwningLocks = depth marks
  sections : c.numOfCriticalSections = wrap 32 (sections marks)
  total : c.totalCyclesOfCriticalSections = wrap 64 (total marks)
  since : 0 < depth marks → c.cyclesBeforeCriticalSection = since marks

namespace Meters

variable {marks : List (Mark × Nat)} {c : CriticalSectionStatusInAllocatingStatus} {now : Nat}

theorem enter (h : Meters marks c) (hroom : depth marks + 1 < 2 ^ 32) (now : Nat) :
    Meters ((.enter, now) :: marks) (c.checkAndStartRecordingACriticalSection now) := by
  have howning : wrap 32 (c.numOfOwningLocks + 1) = depth marks + 1 := by
    rw [h.owning]
    exact wrap_of_lt hroom
  unfold CriticalSectionStatusInAllocatingStatus.checkAndStartRecordingACriticalSection
  simp only [howning]
  split
  · next hfirst =>
      have hout : depth marks = 0 := by omega
      exact ⟨rfl, h.sections, h.total, fun _ => (if_pos hout).symm⟩
  · next hinner =>
      have hin : depth marks ≠ 0 := fun hzero => hinner (by rw [hzero])
      exact ⟨rfl, h.sections, h.total, fun _ =>
        (h.since (Nat.pos_of_ne_zero hin)).trans (if_neg hin).symm⟩

theorem leave (h : Meters marks c) (hin : 0 < depth marks) (hlt : depth marks < 2 ^ 32)
    (hbefore : ∀ e ∈ marks, e.2 ≤ now) (hnow : now < 2 ^ 64) :
    Meters ((.leave, now) :: marks) (c.checkAndStopRecordingACriticalSection now) := by
  have howning : wsub 32 c.numOfOwningLocks 1 = depth marks - 1 := by
    rw [h.owning]
    exact wsub_of_le hin hlt
  unfold CriticalSectionStatusInAllocatingStatus.checkAndStopRecordingACriticalSection
  simp only [howning]
  split
  · next hzero =>
      have hlast : depth marks = 1 := by omega
      refine ⟨rfl, ?_, ?_, ?_⟩
      · show wrap 32 (c.numOfCriticalSections + 1) = _
        rw [h.sections, wrap_add_wrap, Nesting.sections, if_pos hlast]
      · show wrap 64 (c.totalCyclesOfCriticalSections + _) = _
        rw [h.total, h.since hin, wsub_of_le (since_le hbefore) hnow, wrap_add_wrap,
          Nesting.total, if_pos hlast]
      · intro hpos
        exact absurd hzero (Nat.ne_of_gt hpos)
  · next hinner =>
      have hnot : depth marks ≠ 1 := fun hone => hinner (by rw [hone])
      refine ⟨rfl, ?_, ?_, fun _ => h.since hin⟩
      · rw [Nesting.sections, if_neg hnot]
        exact h.sections
      · rw [Nesting.total, if_neg hnot]
        exact h.total

end Meters

/-! ## The call in progress -/

/-- The thread is in the call. -/
structure InCall (p : SizeThresholds) (c : AllocatorCall) (clock : Nat) (a : AllocatingStatus) :
    Prop where
  doing : a.allocatingType.doingAllocation = true
  function : a.allocatingType.allocatingFunction = c.function
  objectSize : a.allocatingType.objectSize = c.objectSize
  sizeType : a.allocatingType.objectSizeType = getObjectSizeType p c.objectSize
  sampled : a.sampledForCountingEvent = c.sampled
  start : a.cyclesBeforeRealFunction = c.start
  start_le : c.start ≤ clock
  ordered : Ordered c.marks
  after : ∀ e ∈ c.marks, c.start ≤ e.2
  before : ∀ e ∈ c.marks, e.2 ≤ clock
  depth_lt : depth c.marks < 2 ^ 32
  meters : Meters c.marks a.criticalSectionStatus
  unsampled : c.sampled = false → c.marks = [] ∧ c.systemCalls = []
  calls : ∀ type, (a.systemCallData type).num = wrap 32 (c.numOf type)
    ∧ (a.systemCallData type).cycles = wrap 64 (c.cyclesOf type)

/-- The thread is in no call. -/
structure Idle (a : AllocatingStatus) : Prop where
  doing : a.allocatingType.doingAllocation = false
  meters : Meters [] a.criticalSectionStatus
  calls : ∀ type, (a.systemCallData type).num = 0 ∧ (a.systemCallData type).cycles = 0

namespace InCall

variable {p : SizeThresholds} {c : AllocatorCall} {clock now : Nat} {a : AllocatingStatus}

theorem later (h : InCall p c clock a) (hnow : clock ≤ now) : InCall p c now a :=
  { h with
    start_le := h.start_le.trans hnow
    before := fun e he => (h.before e he).trans hnow }

theorem tracked_iff (h : InCall p c clock a) : a.Tracked ↔ c.sampled = true := by
  rw [AllocatingStatus.Tracked, h.doing, h.sampled]
  exact and_iff_right rfl

/-- The cycles of a wrapper are noted elsewhere. -/
theorem minusCycles (h : InCall p c clock a) : InCall p c clock (a.minusCycles 120) := { h with }

/-- A lock is got or given back. -/
theorem mark (h : InCall p c clock a) (hs : c.sampled = true) (hnow : clock ≤ now) {m : Mark}
    {status : CriticalSectionStatusInAllocatingStatus}
    (hlt : depth ((m, now) :: c.marks) < 2 ^ 32) (hmeters : Meters ((m, now) :: c.marks) status) :
    InCall p { c with marks := (m, now) :: c.marks } now
      { a with criticalSectionStatus := status } := by
  have hbefore : ∀ e ∈ c.marks, e.2 ≤ now := fun e he => (h.before e he).trans hnow
  refine { h with
    start_le := h.start_le.trans hnow
    ordered := List.pairwise_cons.mpr ⟨hbefore, h.ordered⟩
    after := ?_
    before := ?_
    depth_lt := hlt
    meters := hmeters
    unsampled := fun hno => absurd (hno.symm.trans hs) Bool.false_ne_true }
  · intro e he
    obtain rfl | he := List.mem_cons.mp he
    · exact h.start_le.trans hnow
    · exact h.after e he
  · intro e he
    obtain rfl | he := List.mem_cons.mp he
    · exact Nat.le_refl _
    · exact hbefore e he

theorem enter (h : InCall p c clock a) (hs : c.sampled = true) (hnow : clock ≤ now)
    (hroom : depth c.marks + 1 < 2 ^ 32) :
    InCall p { c with marks := (.enter, now) :: c.marks } now
      { a with
        criticalSectionStatus :=
          a.criticalSectionStatus.checkAndStartRecordingACriticalSection now } :=
  h.mark hs hnow hroom (h.meters.enter hroom now)

theorem leave (h : InCall p c clock a) (hs : c.sampled = true) (hnow : clock ≤ now)
    (hlt : now < 2 ^ 64) (hin : 0 < depth c.marks) :
    InCall p { c with marks := (.leave, now) :: c.marks } now
      (a.checkAndStopRecordingACriticalSection now) := by
  have hless : depth ((.leave, now) :: c.marks) < 2 ^ 32 := by
    have hdepth := h.depth_lt
    rw [depth]
    omega
  have hmeters := h.meters.leave hin h.depth_lt (fun e he => (h.before e he).trans hnow) hlt
  exact h.mark hs hnow hless hmeters

/-- A system call comes back. -/
theorem systemCall (h : InCall p c clock a) (hs : c.sampled = true) (type : SystemCallType)
    (cycles : Nat) :
    InCall p { c with systemCalls := (type, cycles) :: c.systemCalls } clock
      (a.addOneSyscallToSyscallData type cycles) := by
  refine { h with
    unsampled := fun hno => absurd (hno.symm.trans hs) Bool.false_ne_true
    calls := fun type' => ?_ }
  obtain ⟨hnum, hcycles⟩ := h.calls type'
  unfold AllocatingStatus.addOneSyscallToSyscallData AllocatorCall.numOf AllocatorCall.cyclesOf
  simp only [tally_cons]
  by_cases htype : type = type'
  · subst htype
    rw [Function.update_self, if_pos rfl, if_pos rfl]
    refine ⟨?_, ?_⟩
    · show wrap 32 ((a.systemCallData type).num + 1) = _
      rw [hnum, wrap_add_wrap, Nat.add_comm]
      rfl
    · show wrap 64 ((a.systemCallData type).cycles + cycles) = _
      rw [hcycles, wrap_add_wrap, Nat.add_comm]
      rfl
  · rw [Function.update_of_ne (Ne.symm htype), if_neg htype, if_neg htype, Nat.zero_add,
      Nat.zero_add]
    exact ⟨hnum, hcycles⟩

end InCall

namespace Idle

variable {a : AllocatingStatus}

theorem not_tracked (h : Idle a) : ¬a.Tracked := by
  rintro ⟨hdoing, -⟩
  exact Bool.false_ne_true (h.doing.symm.trans hdoing)

/-- A call begins. -/
theorem begins (h : Idle a) (p : SizeThresholds) (function : AllocationFunction) (size : Nat)
    (isReusedObject sampled : Bool) (now : Nat) :
    InCall p { function, objectSize := wrap 32 size, sampled, start := now } now
      { a with
        allocatingType := {
          allocatingFunction := function
          doingAllocation := true
          objectSize := wrap 32 size
          objectSizeType := getObjectSizeType p (wrap 32 size)
          isReusedObject }
        sampledForCountingEvent := sampled
        cyclesBeforeRealFunction := now } where
  doing := rfl
  function := rfl
  objectSize := rfl
  sizeType := rfl
  sampled := rfl
  start := rfl
  start_le := Nat.le_refl now
  ordered := List.Pairwise.nil
  after := fun _ he => absurd he List.not_mem_nil
  before := fun _ he => absurd he List.not_mem_nil
  depth_lt := Nat.two_pow_pos 32
  meters := h.meters
  unsampled := fun _ => ⟨rfl, rfl⟩
  calls := h.calls

end Idle

/-! ## The end of a call -/

theorem setAllocationTypeForOutputData_named (a : AllocatingStatus) (single : Bool) :
    (a.setAllocationTypeForOutputData single).allocationTypeForOutputData =
      named a.allocatingType.allocatingFunction (!single) a.allocatingType.objectSizeType
        a.allocatingType.isReusedObject := by
  unfold AllocatingStatus.setAllocationTypeForOutputData
  cases a.allocatingType.allocatingFunction <;> cases a.allocatingType.objectSizeType <;>
    cases a.allocatingType.isReusedObject <;> cases single <;> rfl

/-- Only the classes of `malloc` tell a reused object. -/
theorem named_of_ne_malloc {function : AllocationFunction} (h : function ≠ .malloc)
    (parallel : Bool) (sizeType : ObjectSizeType) (isReused isReused' : Bool) :
    named function parallel sizeType isReused = named function parallel sizeType isReused' := by
  cases function with
  | malloc => exact absurd rfl h
  | free => cases parallel <;> cases sizeType <;> rfl
  | calloc => cases parallel <;> rfl
  | realloc => cases parallel <;> rfl
  | posixMemalign => cases parallel <;> rfl
  | memalign => cases parallel <;> rfl

theorem stopCountCountingEvents_eq (a : AllocatingStatus) (now : Nat) :
    a.stopCountCountingEvents now =
      { a with
        cyclesAfterRealFunction := now
        cyclesMinus := 0
        cyclesInRealFunction :=
          if wsub 64 now a.cyclesBeforeRealFunction - a.cyclesMinus > abnormalValue then 0
          else wsub 64 now a.cyclesBeforeRealFunction - a.cyclesMinus } := by
  have hcut : (if wsub 64 now a.cyclesBeforeRealFunction > a.cyclesMinus then
      wsub 64 now a.cyclesBeforeRealFunction - a.cyclesMinus else 0) =
      wsub 64 now a.cyclesBeforeRealFunction - a.cyclesMinus := by
    split <;> omega
  unfold AllocatingStatus.stopCountCountingEvents AllocatingStatus.calculateCycleInRealFunction
    AllocatingStatus.removeAbnormalCycleValues
  simp only [hcut]
  split <;> rfl

/-- The call is over, and its counters are to be added. -/
structure Ended (p : SizeThresholds) (c : FinishedCall) (a : AllocatingStatus) : Prop where
  doing : a.allocatingType.doingAllocation = false
  type : a.allocationTypeForOutputData = c.type p
  objectSize : a.allocatingType.objectSize = c.objectSize
  sampled : a.sampledForCountingEvent = c.sampled
  cycles : a.cyclesInRealFunction = wrap 64 c.cycles
  owning : a.criticalSectionStatus.numOfOwningLocks = 0
  sections : a.criticalSectionStatus.numOfCriticalSections = wrap 32 (sections c.marks)
  held : a.criticalSectionStatus.totalCyclesOfCriticalSections = wrap 64 (held c.marks c.finish)
  unsampled : c.sampled = false → c.marks = [] ∧ c.systemCalls = []
  calls : ∀ type, (a.systemCallData type).num = wrap 32 (c.numOf type)
    ∧ (a.systemCallData type).cycles = wrap 64 (c.cyclesOf type)

theorem InCall.ends {p : SizeThresholds} {c : AllocatorCall} {clock : Nat}
    {a : AllocatingStatus} (h : InCall p c clock a) (hout : depth c.marks = 0)
    {cycles : Nat} (hcycles : a.cyclesInRealFunction = wrap 64 cycles)
    (isReusedObject single : Bool) :
    Ended p { c with isReusedObject, single, cycles, finish := clock }
      ((if a.allocatingType.allocatingFunction = .free then
          a.updateFreeingStatusAfterRealFunction
        else a.updateAllocatingStatusAfterRealFunction isReusedObject
        ).setAllocationTypeForOutputData single) := by
  have hheld : Nesting.held c.marks clock = Nesting.total c.marks := by
    rw [held_eq h.ordered h.before, hout]
    exact Nat.add_zero _
  have htotal : a.criticalSectionStatus.totalCyclesOfCriticalSections =
      wrap 64 (Nesting.held c.marks clock) := by
    rw [hheld]
    exact h.meters.total
  have howning : a.criticalSectionStatus.numOfOwningLocks = 0 := h.meters.owning.trans hout
  by_cases hfree : a.allocatingType.allocatingFunction = .free
  · rw [if_pos hfree, AllocatingStatus.updateFreeingStatusAfterRealFunction]
    refine ⟨rfl, ?_, h.objectSize, h.sampled, hcycles, howning, h.meters.sections, htotal,
      h.unsampled, h.calls⟩
    have hne : c.function ≠ .malloc := by
      rw [← h.function, hfree]
      decide
    rw [setAllocationTypeForOutputData_named, FinishedCall.type]
    show named a.allocatingType.allocatingFunction _ a.allocatingType.objectSizeType _ = _
    rw [h.function, h.sizeType]
    exact named_of_ne_malloc hne ..
  · rw [if_neg hfree, AllocatingStatus.updateAllocatingStatusAfterRealFunction]
    refine ⟨rfl, ?_, h.objectSize, h.sampled, hcycles, howning, h.meters.sections, htotal,
      h.unsampled, h.calls⟩
    rw [setAllocationTypeForOutputData_named, FinishedCall.type]
    show named a.allocatingType.allocatingFunction _ a.allocatingType.objectSizeType
      (if a.allocatingType.allocatingFunction = .malloc
        ∨ a.allocatingType.allocatingFunction = .realloc then isReusedObject
      else a.allocatingType.isReusedObject) = _
    rw [h.function, h.sizeType]
    by_cases hmalloc : c.function = .malloc
    · rw [if_pos (.inl hmalloc)]
    · exact named_of_ne_malloc hmalloc ..

/-! ## The totals of a thread -/

/-- A number over the sampled calls of a type, each for as many calls as it
stands for. -/
def weigh (p : SizeThresholds) (type : AllocationTypeForOutputData) (f : FinishedCall → Nat)
    (calls : List FinishedCall) : Nat :=
  tally (fun c => if c.sampled = true ∧ c.type p = type then c.weight * f c else 0) calls

/-- The counters of a thread are sums over its sampled calls. -/
structure SampledTotals (p : SizeThresholds) (calls : List FinishedCall) (l : ThreadLocalStatus) :
    Prop where
  sampled : ∀ type, l.numOfSampledCountingFunctions type = wrap 32 (weigh p type (fun _ => 1) calls)
  cycles : ∀ type, l.cycles type = wrap 64 (weigh p type FinishedCall.cycles calls)
  sections : ∀ type, (l.criticalSectionStatus type).numOfCriticalSections =
    wrap 32 (weigh p type (fun c => sections c.marks) calls)
  sectionCycles : ∀ type, (l.criticalSectionStatus type).totalCyclesOfCriticalSections =
    wrap 64 (weigh p type (fun c => held c.marks c.finish) calls)
  systemCalls : ∀ k type, (l.systemCallData k type).num =
    wrap 32 (weigh p type (fun c => c.numOf k) calls)
  systemCallCycles : ∀ k type, (l.systemCallData k type).cycles =
    wrap 64 (weigh p type (fun c => c.cyclesOf k) calls)

/-- And every call is counted. -/
structure Totals (p : SizeThresholds) (calls : List FinishedCall) (l : ThreadLocalStatus) : Prop
    extends SampledTotals p calls l where
  functions : ∀ type, l.numOfFunctions type =
    wrap 32 (tally (fun c => if c.type p = type then 1 else 0) calls)

theorem weigh_cons_sampled {p : SizeThresholds} {c : FinishedCall} (h : c.sampled = true)
    (type : AllocationTypeForOutputData) (f : FinishedCall → Nat) (calls : List FinishedCall) :
    weigh p type f (c :: calls) =
      weigh p type f calls + c.weight * if c.type p = type then f c else 0 := by
  rw [weigh, tally_cons, Nat.add_comm]
  by_cases htype : c.type p = type
  · rw [if_pos ⟨h, htype⟩, if_pos htype]
    rfl
  · rw [if_neg fun hboth => htype hboth.2, if_neg htype]
    rfl

theorem weigh_cons_unsampled {p : SizeThresholds} {c : FinishedCall} (h : c.sampled = false)
    (type : AllocationTypeForOutputData) (f : FinishedCall → Nat) (calls : List FinishedCall) :
    weigh p type f (c :: calls) = weigh p type f calls := by
  have hno : ¬(c.sampled = true ∧ c.type p = type) := by
    rintro ⟨hs, -⟩
    exact Bool.false_ne_true (h.symm.trans hs)
  rw [weigh, tally_cons, if_neg hno, Nat.zero_add]
  rfl

/-- One addition to a counter of one cell of an array. -/
theorem update_counted {ι β : Type*} [DecidableEq ι] (field : β → Nat) {g : ι → β} {i j : ι}
    {v : β} {w x d y : Nat} (hg : field (g i) = wrap w x) (hv : field v = wrap w (field (g j) + d))
    (hd : d = wrap w y) :
    field (Function.update g j v i) = wrap w (x + if j = i then y else 0) := by
  by_cases hij : j = i
  · subst hij
    rw [Function.update_self, if_pos rfl, hv, hg, hd, wrap_wrap_add]
  · rw [Function.update_of_ne (Ne.symm hij), if_neg hij, hg]
    rfl

/-- The loop adds what its body adds, as many times. -/
theorem addUp_iterate {a : AllocatingStatus} (field : ThreadLocalStatus → Nat) {w d : Nat}
    (h : ∀ l x, field l = wrap w x → field (l.addUp a) = wrap w (x + d)) :
    ∀ (n : Nat) {l : ThreadLocalStatus} {x : Nat}, field l = wrap w x →
      field ((fun l => l.addUp a)^[n] l) = wrap w (x + n * d)
  | 0, l, x, hx => by
      rw [Nat.zero_mul]
      exact hx
  | n + 1, l, x, hx => by
      have ih := addUp_iterate field h n (h l x hx)
      rw [Nat.succ_mul, Nat.add_comm (n * d) d, ← Nat.add_assoc]
      exact ih

section

variable {p : SizeThresholds} {c : FinishedCall} {calls : List FinishedCall} {a : AllocatingStatus}
  {l : ThreadLocalStatus}

theorem Totals.init (p : SizeThresholds) : Totals p [] {} :=
  ⟨⟨fun _ => rfl, fun _ => rfl, fun _ => rfl, fun _ => rfl, fun _ _ => rfl, fun _ _ => rfl⟩,
    fun _ => rfl⟩

/-- What a sampled call adds to a counter. -/
theorem Ended.add (ha : Ended p c a) (hs : c.sampled = true) (field : ThreadLocalStatus → Nat)
    {w : Nat} {f : FinishedCall → Nat} {type : AllocationTypeForOutputData}
    (hadd : ∀ l x, field l = wrap w x →
      field (l.addUp a) = wrap w (x + if a.allocationTypeForOutputData = type then f c else 0))
    (hfield : field l = wrap w (weigh p type f calls)) :
    field ((fun l => l.addUp a)^[c.weight] l) = wrap w (weigh p type f (c :: calls)) := by
  rw [addUp_iterate field hadd c.weight hfield, weigh_cons_sampled hs, ha.type]

theorem SampledTotals.addUp (h : SampledTotals p calls l) (ha : Ended p c a)
    (hs : c.sampled = true) :
    SampledTotals p (c :: calls) ((fun l => l.addUp a)^[c.weight] l) where
  sampled type :=
    ha.add hs (fun l => l.numOfSampledCountingFunctions type)
      (fun _ _ hx => update_counted id hx rfl (show 1 = wrap 32 1 from rfl)) (h.sampled type)
  cycles type :=
    ha.add hs (fun l => l.cycles type)
      (fun _ _ hx => update_counted id hx rfl ha.cycles) (h.cycles type)
  sections type :=
    ha.add hs (fun l => (l.criticalSectionStatus type).numOfCriticalSections)
      (fun _ _ hx =>
        update_counted CriticalSectionStatus.numOfCriticalSections hx rfl ha.sections)
      (h.sections type)
  sectionCycles type :=
    ha.add hs (fun l => (l.criticalSectionStatus type).totalCyclesOfCriticalSections)
      (fun _ _ hx =>
        update_counted CriticalSectionStatus.totalCyclesOfCriticalSections hx rfl ha.held)
      (h.sectionCycles type)
  systemCalls k type :=
    ha.add hs (fun l => (l.systemCallData k type).num)
      (fun _ _ hx => update_counted SystemCallData.num hx rfl (ha.calls k).1) (h.systemCalls k type)
  systemCallCycles k type :=
    ha.add hs (fun l => (l.systemCallData k type).cycles)
      (fun _ _ hx => update_counted SystemCallData.cycles hx rfl (ha.calls k).2)
      (h.systemCallCycles k type)

theorem SampledTotals.unsampled (h : SampledTotals p calls l) (hs : c.sampled = false) :
    SampledTotals p (c :: calls) l where
  sampled type := (h.sampled type).trans (congrArg _ (weigh_cons_unsampled hs ..).symm)
  cycles type := (h.cycles type).trans (congrArg _ (weigh_cons_unsampled hs ..).symm)
  sections type := (h.sections type).trans (congrArg _ (weigh_cons_unsampled hs ..).symm)
  sectionCycles type := (h.sectionCycles type).trans (congrArg _ (weigh_cons_unsampled hs ..).symm)
  systemCalls k type := (h.systemCalls k type).trans (congrArg _ (weigh_cons_unsampled hs ..).symm)
  systemCallCycles k type :=
    (h.systemCallCycles k type).trans (congrArg _ (weigh_cons_unsampled hs ..).symm)

/-- The call is counted, and its counters are added if it was sampled. -/
theorem Totals.done (h : Totals p calls l) (ha : Ended p c a) {counted : ThreadLocalStatus}
    (hcounted : counted = { l with
      numOfFunctions := Function.update l.numOfFunctions a.allocationTypeForOutputData
        (wrap 32 (l.numOfFunctions a.allocationTypeForOutputData + 1)) }) :
    Totals p (c :: calls)
      (if c.sampled then (fun l => l.addUp a)^[c.weight] counted else counted) := by
  have hkept : SampledTotals p calls counted := by
    subst hcounted
    exact ⟨h.sampled, h.cycles, h.sections, h.sectionCycles, h.systemCalls, h.systemCallCycles⟩
  have hfunctions : ∀ type, counted.numOfFunctions type =
      wrap 32 (tally (fun c => if c.type p = type then 1 else 0) (c :: calls)) := by
    intro type
    subst hcounted
    rw [tally_cons, ← ha.type]
    exact (update_counted id (h.functions type) rfl (show 1 = wrap 32 1 from rfl)).trans
      (congrArg _ (Nat.add_comm ..))
  cases hs : c.sampled with
  | true =>
      rw [if_pos rfl]
      -- the loop does not touch `numOfFunctions`
      exact ⟨hkept.addUp ha hs, fun type =>
        addUp_iterate (d := 0) (fun l => l.numOfFunctions type) (fun _ _ hx => hx) c.weight
          (hfunctions type)⟩
  | false =>
      rw [if_neg Bool.false_ne_true]
      exact ⟨hkept.unsampled hs, hfunctions⟩

/-- After the call the thread is as before, with one more call in its totals. -/
theorem Ended.update {m : CallMeter} {single : Bool}
    (ha : Ended p c (m.allocating.setAllocationTypeForOutputData single))
    (h : Totals p calls m.threadLocal) :
    Idle (m.updateAllocatingInfoToThreadLocalData single).allocating ∧
      Totals p (c :: calls) (m.updateAllocatingInfoToThreadLocalData single).threadLocal := by
  unfold CallMeter.updateAllocatingInfoToThreadLocalData
  generalize m.allocating.setAllocationTypeForOutputData single = a at ha
  have htotals := h.done ha rfl
  simp only [ha.sampled, ha.objectSize]
  cases hs : c.sampled with
  | true =>
      rw [hs] at htotals
      have hmeters : Meters [] a.criticalSectionStatus.cleanUp :=
        ⟨ha.owning, rfl, rfl, fun hpos => absurd hpos (Nat.lt_irrefl 0)⟩
      exact ⟨⟨ha.doing, hmeters, fun _ => ⟨rfl, rfl⟩⟩, htotals⟩
  | false =>
      rw [hs] at htotals
      obtain ⟨hmarks, hcalls⟩ := ha.unsampled hs
      have hsections := ha.sections
      have hheld := ha.held
      rw [hmarks] at hsections hheld
      have hnone : Nesting.held [] c.finish = 0 := by simp [Nesting.held, upTo, depth]
      rw [hnone] at hheld
      have hmeters : Meters [] a.criticalSectionStatus :=
        ⟨ha.owning, hsections, hheld, fun hpos => absurd hpos (Nat.lt_irrefl 0)⟩
      have hidle : ∀ type, (a.systemCallData type).num = 0
          ∧ (a.systemCallData type).cycles = 0 := by
        intro type
        obtain ⟨hnum, hcycles⟩ := ha.calls type
        rw [AllocatorCall.numOf, hcalls] at hnum
        rw [AllocatorCall.cyclesOf, hcalls] at hcycles
        exact ⟨hnum, hcycles⟩
      exact ⟨⟨ha.doing, hmeters, hidle⟩, htotals⟩

end

/-! ## Every run -/

/-- The locks of the call were got and given back while it went on. -/
structure FinishedCall.Closed (c : FinishedCall) : Prop where
  ordered : Ordered c.marks
  after : ∀ e ∈ c.marks, c.start ≤ e.2
  before : ∀ e ∈ c.marks, e.2 ≤ c.finish
  out : depth c.marks = 0

/-- The cycles of the current call, if its clock is stopped, and those the
next call is made shorter by. -/
structure CallSession.Measures (e : CallSession) (m : CallMeter) : Prop where
  minus : m.allocating.cyclesMinus = wrap 64 (120 * e.wrapped)
  stopped : m.stopped = e.measured.isSome
  measured : ∀ cycles ∈ e.measured, m.allocating.cyclesInRealFunction = wrap 64 cycles

/-- The counters follow the events. -/
structure CallSession.Follows (p : SizeThresholds) (e : CallSession) (m : CallMeter) : Prop where
  idle : e.current = none → Idle m.allocating
  inCall : ∀ c ∈ e.current, InCall p c e.clock m.allocating
  measures : e.Measures m
  totals : Totals p e.calls m.threadLocal
  closed : ∀ c ∈ e.calls, c.Closed

theorem ownCycles_lt (start stop wrapped : Nat) : ownCycles start stop wrapped < 2 ^ 64 := by
  unfold ownCycles
  split
  · exact Nat.two_pow_pos 64
  · next hle => exact (Nat.le_of_not_lt hle).trans_lt (by decide)

/-- The end of a call keeps what the next call is made shorter by. -/
theorem CallMeter.done_cyclesMinus (m : CallMeter) (isReusedObject single : Bool) :
    (m.done isReusedObject single).allocating.cyclesMinus = m.allocating.cyclesMinus := by
  have hupdate : ∀ m : CallMeter, (m.updateAllocatingInfoToThreadLocalData single
      ).allocating.cyclesMinus = m.allocating.cyclesMinus := by
    intro m
    unfold CallMeter.updateAllocatingInfoToThreadLocalData
    simp only
    split <;> rfl
  unfold CallMeter.done
  rw [hupdate]
  simp only
  split <;> rfl

theorem CallMeter.done_stopped (m : CallMeter) (isReusedObject single : Bool) :
    (m.done isReusedObject single).stopped = false := by
  have hupdate : ∀ m : CallMeter,
      (m.updateAllocatingInfoToThreadLocalData single).stopped = m.stopped := by
    intro m
    unfold CallMeter.updateAllocatingInfoToThreadLocalData
    simp only
    split <;> rfl
  exact hupdate _

/-- The end of a section leaves the cycles alone. -/
theorem AllocatingStatus.cyclesMinus_stopRecording (a : AllocatingStatus) (now : Nat) :
    (a.checkAndStopRecordingACriticalSection now).cyclesMinus = a.cyclesMinus := by
  unfold AllocatingStatus.checkAndStopRecordingACriticalSection
  rfl

theorem AllocatingStatus.cyclesInRealFunction_stopRecording (a : AllocatingStatus) (now : Nat) :
    (a.checkAndStopRecordingACriticalSection now).cyclesInRealFunction =
      a.cyclesInRealFunction := by
  unfold AllocatingStatus.checkAndStopRecordingACriticalSection
  rfl

theorem AllocatingStatus.cyclesMinus_minusCycles {a : AllocatingStatus} {n : Nat}
    (h : a.cyclesMinus = wrap 64 (120 * n)) :
    (a.minusCycles 120).cyclesMinus = wrap 64 (120 * (n + 1)) := by
  unfold AllocatingStatus.minusCycles
  simp only [h, wrap_add_wrap, Nat.mul_succ]

namespace CallSession.Follows

variable {p : SizeThresholds} {e : CallSession} {m m' : CallMeter}

theorem idle_of_not_doing (h : e.Follows p m)
    (hdoing : ¬m.allocating.allocatingType.doingAllocation = true) : Idle m.allocating := by
  cases hcall : e.current with
  | none => exact h.idle hcall
  | some c => exact absurd (h.inCall c hcall).doing hdoing

theorem current_of_doing (h : e.Follows p m)
    (hdoing : m.allocating.allocatingType.doingAllocation = true) : ∃ c, e.current = some c := by
  cases hcall : e.current with
  | none => exact absurd ((h.idle hcall).doing.symm.trans hdoing) Bool.false_ne_true
  | some c => exact ⟨c, rfl⟩

/-- A thread begins a call. -/
theorem begins (h : e.Follows p m) (hidle : Idle m.allocating) (function : AllocationFunction)
    (size : Nat) (isReusedObject sampled : Bool) (now : Nat) :
    Follows p
      { e with
        current := some { function, objectSize := wrap 32 size, sampled, start := now }
        clock := now }
      { m with
        allocating := { m.allocating with
          allocatingType := {
            allocatingFunction := function
            doingAllocation := true
            objectSize := wrap 32 size
            objectSizeType := getObjectSizeType p (wrap 32 size)
            isReusedObject }
          sampledForCountingEvent := sampled
          cyclesBeforeRealFunction := now } } where
  idle hno := absurd hno (Option.some_ne_none _)
  inCall c hc := by
    obtain rfl := Option.some.inj hc
    exact hidle.begins p function size isReusedObject sampled now
  measures := ⟨h.measures.minus, h.measures.stopped, h.measures.measured⟩
  totals := h.totals
  closed := h.closed

/-- The thread is in a sampled call when its wrappers think so. -/
theorem tracked_iff (h : e.Follows p m) : m.allocating.Tracked ↔ e.inSampled = true := by
  cases hcall : e.current with
  | none =>
      rw [CallSession.inSampled, hcall]
      exact iff_of_false (h.idle hcall).not_tracked Bool.false_ne_true
  | some c =>
      rw [CallSession.inSampled, hcall]
      exact (h.inCall c hcall).tracked_iff

/-- A wrapper does something in a sampled call only. -/
theorem wrapper (h : e.Follows p m) {now : Nat} (wrappers : Nat) (hnow : e.clock ≤ now)
    (f : AllocatingStatus → AllocatingStatus) {g : AllocatorCall → AllocatorCall}
    (hcall : ∀ c ∈ e.current, c.sampled = true → InCall p c e.clock m.allocating →
      InCall p (g c) now (f m.allocating))
    (hminus : ∀ a n, a.cyclesMinus = wrap 64 (120 * n) →
      (f a).cyclesMinus = wrap 64 (120 * (n + wrappers)))
    (hcycles : ∀ a, (f a).cyclesInRealFunction = a.cyclesInRealFunction) :
    (e.inCall now wrappers g).Follows p
      { m with
        allocating := if m.allocating.Tracked then f m.allocating else m.allocating } where
  idle hnone := by
    have hidle := h.idle (Option.map_eq_none_iff.mp hnone)
    rw [if_neg hidle.not_tracked]
    exact hidle
  inCall c' hc' := by
    obtain ⟨c, hc, rfl⟩ := Option.map_eq_some_iff.mp hc'
    have hin := h.inCall c hc
    by_cases hs : c.sampled = true
    · rw [if_pos hs, if_pos (hin.tracked_iff.mpr hs)]
      exact hcall c hc hs hin
    · rw [if_neg hs, if_neg fun htracked => hs (hin.tracked_iff.mp htracked)]
      exact hin.later hnow
  measures := by
    obtain ⟨hm, hstopped, hmeasured⟩ := h.measures
    by_cases htracked : m.allocating.Tracked
    · refine ⟨?_, hstopped, fun cycles hc => ?_⟩
      · simp only [CallSession.inCall, if_pos (h.tracked_iff.mp htracked), if_pos htracked]
        exact hminus m.allocating e.wrapped hm
      · simp only [if_pos htracked]
        exact (hcycles m.allocating).trans (hmeasured cycles hc)
    · refine ⟨?_, hstopped, fun cycles hc => ?_⟩
      · simp only [CallSession.inCall, if_neg (mt h.tracked_iff.mpr htracked), if_neg htracked]
        exact hm
      · simp only [if_neg htracked]
        exact hmeasured cycles hc
  totals := h.totals
  closed := h.closed

/-- The clock of the call is stopped. -/
theorem stop (h : e.Follows p m) {c : AllocatorCall} (hcall : e.current = some c) {now : Nat}
    (hnow : e.clock ≤ now) (hlt : now < 2 ^ 64) :
    (e.step (.stop now)).Follows p
      { m with allocating := m.allocating.stopCountCountingEvents now, stopped := true } := by
  have hin := h.inCall c hcall
  have hspent : wsub 64 now m.allocating.cyclesBeforeRealFunction = now - c.start := by
    rw [hin.start]
    exact wsub_of_le (hin.start_le.trans hnow) hlt
  have hcycles : (if wsub 64 now m.allocating.cyclesBeforeRealFunction
        - m.allocating.cyclesMinus > abnormalValue then 0
      else wsub 64 now m.allocating.cyclesBeforeRealFunction - m.allocating.cyclesMinus)
      = ownCycles c.start now e.wrapped := by
    rw [hspent, h.measures.minus]
    rfl
  simp only [CallSession.step, hcall, Option.map_some]
  rw [stopCountCountingEvents_eq, hcycles]
  refine ⟨fun hno => absurd hno (Option.some_ne_none c), ?_, ⟨rfl, rfl, ?_⟩, h.totals, h.closed⟩
  · intro c' hc'
    obtain rfl := Option.some.inj hc'
    exact { hin.later hnow with }
  · intro cycles hc
    obtain rfl := Option.some.inj hc
    exact (wrap_of_lt (ownCycles_lt ..)).symm

/-- The call is over. -/
theorem done (h : e.Follows p m) {c : AllocatorCall} (hcall : e.current = some c)
    (hstopped : m.stopped = true) (hout : depth c.marks = 0) (isReusedObject single : Bool) :
    (e.step (.done isReusedObject single)).Follows p (m.done isReusedObject single) := by
  have hin := h.inCall c hcall
  obtain ⟨cycles, hcycles⟩ := Option.isSome_iff_exists.mp (h.measures.stopped.symm.trans hstopped)
  have hended := hin.ends hout (h.measures.measured cycles hcycles) isReusedObject single
  obtain ⟨hidle, htotals⟩ := hended.update
    (m := { m with
      allocating :=
        if m.allocating.allocatingType.allocatingFunction = .free then
          m.allocating.updateFreeingStatusAfterRealFunction
        else m.allocating.updateAllocatingStatusAfterRealFunction isReusedObject
      stopped := false }) h.totals
  simp only [CallSession.step, hcall, hcycles, Option.map₂_some_some, Option.toList_some,
    List.singleton_append]
  refine ⟨fun _ => hidle, fun c' hc' => absurd hc' (Option.not_mem_none c'), ⟨?_, ?_, ?_⟩, htotals,
    ?_⟩
  · exact (m.done_cyclesMinus isReusedObject single).trans h.measures.minus
  · exact m.done_stopped isReusedObject single
  · exact fun cycles hc => absurd hc (Option.not_mem_none cycles)
  · intro c' hc'
    obtain rfl | hc' := List.mem_cons.mp hc'
    · exact ⟨hin.ordered, hin.after, hin.before, hout⟩
    · exact h.closed c' hc'

/-- Every event keeps the counters on what the history says. -/
theorem step (h : e.Follows p m) {i : CallEvent} (htimely : i.Timely e.clock) (hallows : e.Allows i)
    (hstep : m.step p i = some m') : (e.step i).Follows p m' := by
  cases i with
  | allocate function size sampled now =>
      simp only [CallMeter.step] at hstep
      split at hstep
      · cases hstep
      · next hok =>
          obtain rfl := Option.some.inj hstep
          have hidle := h.idle_of_not_doing fun hdoing => hok (.inl hdoing)
          exact h.begins hidle function size m.allocating.allocatingType.isReusedObject sampled now
  | free size isReusedObject sampled now =>
      simp only [CallMeter.step] at hstep
      split at hstep
      · cases hstep
      · next hok =>
          obtain rfl := Option.some.inj hstep
          exact h.begins (h.idle_of_not_doing hok) .free size isReusedObject sampled now
  | lock now =>
      obtain rfl := Option.some.inj hstep
      refine h.wrapper 1 htimely.1 (fun a =>
        { a.minusCycles 120 with
          criticalSectionStatus :=
            a.criticalSectionStatus.checkAndStartRecordingACriticalSection now }) ?_
        (fun _ _ hn => AllocatingStatus.cyclesMinus_minusCycles hn) (fun _ => rfl)
      intro c hc hs hin
      exact hin.minusCycles.enter hs htimely.1 (hallows c hc)
  | trylock result now =>
      obtain rfl := Option.some.inj hstep
      refine h.wrapper 1 htimely.1 (fun a =>
        (if result ≠ 0 then a
        else { a with
          criticalSectionStatus :=
            a.criticalSectionStatus.checkAndStartRecordingACriticalSection now
          }).minusCycles 120) ?_ ?_ ?_
      · intro c hc hs hin
        by_cases hresult : result ≠ 0
        · simp only [if_pos hresult]
          exact (hin.later htimely.1).minusCycles
        · simp only [if_neg hresult]
          exact (hin.enter hs htimely.1 (hallows c hc)).minusCycles
      · intro a n hn
        refine AllocatingStatus.cyclesMinus_minusCycles ?_
        split <;> exact hn
      · intro a
        simp only [AllocatingStatus.minusCycles]
        split <;> rfl
  | mutexUnlock now =>
      obtain rfl := Option.some.inj hstep
      refine h.wrapper 0 htimely.1 (fun a => a.checkAndStopRecordingACriticalSection now) ?_ ?_ ?_
      · intro c hc hs hin
        exact hin.leave hs htimely.1 htimely.2 (hallows c hc hs)
      · intro a n hn
        rw [AllocatingStatus.cyclesMinus_stopRecording, Nat.add_zero]
        exact hn
      · intro a
        exact a.cyclesInRealFunction_stopRecording now
  | spinUnlock now =>
      obtain rfl := Option.some.inj hstep
      refine h.wrapper 1 htimely.1
        (fun a => (a.minusCycles 120).checkAndStopRecordingACriticalSection now) ?_ ?_ ?_
      · intro c hc hs hin
        exact hin.minusCycles.leave hs htimely.1 htimely.2 (hallows c hc hs)
      · intro a n hn
        rw [AllocatingStatus.cyclesMinus_stopRecording]
        exact AllocatingStatus.cyclesMinus_minusCycles hn
      · intro a
        exact (a.minusCycles 120).cyclesInRealFunction_stopRecording now
  | systemCall type timeStart timeStop =>
      obtain rfl := Option.some.inj hstep
      obtain ⟨hstart, hstop, hlt⟩ := htimely
      have hspent : wsub 64 timeStop timeStart = timeStop - timeStart := wsub_of_le hstop hlt
      refine h.wrapper 1 (hstart.trans hstop)
        (fun a => (a.minusCycles 120).addOneSyscallToSyscallData type (wsub 64 timeStop timeStart))
        ?_ (fun _ _ hn => AllocatingStatus.cyclesMinus_minusCycles hn) (fun _ => rfl)
      intro c hc hs hin
      rw [hspent]
      exact (hin.later (hstart.trans hstop)).minusCycles.systemCall hs type _
  | stop now =>
      simp only [CallMeter.step] at hstep
      split at hstep
      · next hok =>
          obtain rfl := Option.some.inj hstep
          obtain ⟨c, hcall⟩ := h.current_of_doing hok.1
          exact h.stop hcall htimely.1 htimely.2
      · cases hstep
  | done isReusedObject single =>
      simp only [CallMeter.step] at hstep
      split at hstep
      · next hok =>
          obtain rfl := Option.some.inj hstep
          obtain ⟨c, hcall⟩ := h.current_of_doing hok.1
          exact h.done hcall hok.2 (hallows c hcall) isReusedObject single
      · cases hstep

end CallSession.Follows

variable {p : SizeThresholds} {past : List (Nat × CallEvent)} {s : CallMeters}

theorem callSession_follows (h : Run (CallMeters.step p) EventPermitted CallMeters.init past s)
    (t : Nat) : (callSession t past).Follows p (s t) := by
  refine h.inv (fun past s => ∀ t, (callSession t past).Follows p (s t)) ?_ ?_ t
  · intro t
    exact ⟨fun _ => ⟨rfl, ⟨rfl, rfl, rfl, fun _ => rfl⟩, fun _ => ⟨rfl, rfl⟩⟩,
      fun c hc => absurd hc (Option.not_mem_none c),
      ⟨rfl, rfl, fun c hc => absurd hc (Option.not_mem_none c)⟩, Totals.init p,
      fun c hc => absurd hc List.not_mem_nil⟩
  · rintro past s ⟨t', i⟩ s' - ih hpermitted hstep t
    obtain ⟨m', hm', rfl⟩ := Option.map_eq_some_iff.mp hstep
    rw [callSession_snoc]
    by_cases ht : t' = t
    · subst ht
      rw [if_pos rfl, Function.update_self]
      exact (ih t').step hpermitted.1 hpermitted.2 hm'
    · rw [if_neg ht, Function.update_of_ne (Ne.symm ht)]
      exact ih t

/-- **The totals of a thread are sums over its sampled calls**, whatever it
was interrupted by, and the cycles of the critical sections of a call are no
more than the ticks of the call. Between two calls the counters of locks and
system calls are clean. -/
theorem section_totals (h : Run (CallMeters.step p) EventPermitted CallMeters.init past s)
    (t : Nat) : Totals p (callsOf t past) (s t).threadLocal ∧
      (∀ c ∈ callsOf t past, held c.marks c.finish ≤ c.finish - c.start) ∧
      ((callSession t past).current = none → Idle (s t).allocating) := by
  have hfollows := callSession_follows h t
  exact ⟨hfollows.totals, fun c hc => held_le (hfollows.closed c hc).after c.finish,
    hfollows.idle⟩

/-! ## Two locks at once, and a peak -/

def lockedTwice : List (Nat × CallEvent) :=
  [(1, .allocate .malloc 48 true 10), (1, .lock 12), (1, .lock 14), (1, .mutexUnlock 18),
    (1, .mutexUnlock 20), (1, .stop 24), (1, .trylock 0 26), (1, .mutexUnlock 29),
    (1, .done false true)]

theorem lockedTwice_run : ∃ s, Run (CallMeters.step { largeObjectThreshold := 0x20000 })
    EventPermitted CallMeters.init lockedTwice s := by
  have hsome : (lockedTwice.foldlM (CallMeters.step { largeObjectThreshold := 0x20000 })
      CallMeters.init).isSome = true := by decide +kernel
  obtain ⟨s, hs⟩ := Option.isSome_iff_exists.mp hsome
  simp only [lockedTwice, List.foldlM_cons, List.foldlM_nil, Option.bind_eq_bind,
    Option.bind_eq_some_iff, Option.pure_def, Option.some.injEq] at hs
  obtain ⟨s₁, h₁, s₂, h₂, s₃, h₃, s₄, h₄, s₅, h₅, s₆, h₆, s₇, h₇, s₈, h₈, s₉, h₉, rfl⟩ := hs
  have hat : ∀ {clock now : Nat}, clock ≤ now → now ≤ 30 → clock ≤ now ∧ now < 2 ^ 64 :=
    fun hle hnow => ⟨hle, hnow.trans_lt (by decide)⟩
  have hcall : ∀ {P : AllocatorCall → Prop} {c : AllocatorCall}, P c → ∀ c' ∈ some c, P c' := by
    intro P c hc c' hc'
    obtain rfl := Option.some.inj hc'
    exact hc
  refine ⟨s₉, ((((((((Run.nil.snoc ⟨hat ?_ ?_, trivial⟩ h₁).snoc ⟨hat ?_ ?_, hcall ?_⟩ h₂).snoc
    ⟨hat ?_ ?_, hcall ?_⟩ h₃).snoc ⟨hat ?_ ?_, hcall fun _ => ?_⟩ h₄).snoc
    ⟨hat ?_ ?_, hcall fun _ => ?_⟩ h₅).snoc ⟨hat ?_ ?_, trivial⟩ h₆).snoc
    ⟨hat ?_ ?_, hcall ?_⟩ h₇).snoc ⟨hat ?_ ?_, hcall fun _ => ?_⟩ h₈).snoc
    ⟨trivial, hcall ?_⟩ h₉⟩
  all_goals decide

theorem section_totals_locked_twice : ∃ s,
    Run (CallMeters.step { largeObjectThreshold := 0x20000 }) EventPermitted CallMeters.init
      lockedTwice s ∧
    ((s 1).threadLocal.criticalSectionStatus
      .serialSmallNewMalloc).totalCyclesOfCriticalSections = 20 * (8 + 3) := by
  obtain ⟨s, h⟩ := lockedTwice_run
  refine ⟨s, h, ?_⟩
  rw [(section_totals h 1).1.sectionCycles]
  decide +kernel

end MemPerf.Original
