import MemPerf.LockProfile

/-!
# The class of a call for the predictor

`updateAllocatingInfoToPredictor` counts a call under a class. A sampled
call takes the class it was profiled under and shifts it by the
difference of two size types; a call that is not sampled computes the
class anew. Both read fields that earlier calls of the thread may have
left. `className` is what the class should say.
-/

namespace MemPerf

open Word StepSystem

/-- The enumerators, in the source's order. -/
inductive AllocationTypeForOutputData where
  | serialSmallNewMalloc
  | serialSmallReusedMalloc
  | serialMediumNewMalloc
  | serialMediumReusedMalloc
  | serialLargeMalloc
  | parallelSmallNewMalloc
  | parallelSmallReusedMalloc
  | parallelMediumNewMalloc
  | parallelMediumReusedMalloc
  | parallelLargeMalloc
  | serialSmallFree
  | serialMediumFree
  | serialLargeFree
  | parallelSmallFree
  | parallelMediumFree
  | parallelLargeFree
  | serialNormalCalloc
  | parallelNormalCalloc
  | serialNormalRealloc
  | parallelNormalRealloc
  | serialNormalPosixMemalign
  | parallelNormalPosixMemalign
  | serialNormalMemalign
  | parallelNormalMemalign
deriving DecidableEq, Repr

namespace AllocationTypeForOutputData

/-- The enumerator's value. -/
def toNat (type : AllocationTypeForOutputData) : Nat := type.ctorIdx

/-- The member whose name says all this. -/
def named : AllocationFunction → Bool → ObjectSizeType → Bool → AllocationTypeForOutputData
  | .malloc, false, .small, false => .serialSmallNewMalloc
  | .malloc, false, .small, true => .serialSmallReusedMalloc
  | .malloc, false, .medium, false => .serialMediumNewMalloc
  | .malloc, false, .medium, true => .serialMediumReusedMalloc
  | .malloc, false, .large, _ => .serialLargeMalloc
  | .malloc, true, .small, false => .parallelSmallNewMalloc
  | .malloc, true, .small, true => .parallelSmallReusedMalloc
  | .malloc, true, .medium, false => .parallelMediumNewMalloc
  | .malloc, true, .medium, true => .parallelMediumReusedMalloc
  | .malloc, true, .large, _ => .parallelLargeMalloc
  | .free, false, .small, _ => .serialSmallFree
  | .free, false, .medium, _ => .serialMediumFree
  | .free, false, .large, _ => .serialLargeFree
  | .free, true, .small, _ => .parallelSmallFree
  | .free, true, .medium, _ => .parallelMediumFree
  | .free, true, .large, _ => .parallelLargeFree
  | .calloc, false, _, _ => .serialNormalCalloc
  | .calloc, true, _, _ => .parallelNormalCalloc
  | .realloc, false, _, _ => .serialNormalRealloc
  | .realloc, true, _, _ => .parallelNormalRealloc
  | .posixMemalign, false, _, _ => .serialNormalPosixMemalign
  | .posixMemalign, true, _, _ => .parallelNormalPosixMemalign
  | .memalign, false, _, _ => .serialNormalMemalign
  | .memalign, true, _, _ => .parallelNormalMemalign

theorem toNat_injective : Function.Injective toNat := by
  intro type type' h
  cases type <;> cases type' <;> first | rfl | cases h

/-- Two classes of frees are the same only for the same size type. -/
theorem named_free_iff {parallel isReuse isReuse' : Bool} {sizeType sizeType' : ObjectSizeType} :
    named .free parallel sizeType isReuse = named .free parallel sizeType' isReuse' ↔
      sizeType = sizeType' := by
  cases parallel <;> cases sizeType <;> cases sizeType' <;> simp [named]

end AllocationTypeForOutputData

open AllocationTypeForOutputData

/-! ## The two ways to a class -/

/-- Only `malloc` and `free` have classes by size. -/
def AllocationFunction.bySize : AllocationFunction → Bool
  | .malloc | .free => true
  | _ => false

namespace AllocatingStatus

/-- The arithmetic names the right member unless a reused `malloc` is
large for one of the two size types only. -/
theorem allocationType_eq_iff (a : AllocatingStatus) (parallel : Bool) (sizeType : ObjectSizeType) :
    a.allocationType parallel sizeType =
        (named a.allocatingType.allocatingFunction parallel sizeType
          a.allocatingType.isReuse).toNat ↔
      (a.allocatingType.allocatingFunction = .malloc → a.allocatingType.isReuse = true →
        (a.allocatingType.objectSizeType = .large ↔ sizeType = .large)) := by
  rw [allocationType]
  generalize a.allocatingType.allocatingFunction = f
  generalize a.allocatingType.isReuse = isReuse
  generalize a.allocatingType.objectSizeType = objectSizeType
  cases f <;> cases parallel <;> cases sizeType <;> cases isReuse <;>
    cases objectSizeType <;> decide

/-- The shift: from the class of one size type to that of the other. -/
theorem setAllocationTypeForPrediction_spec {a : AllocatingStatus} {parallel : Bool}
    (h : a.allocationTypeForOutputData =
      a.allocationType parallel a.allocatingType.objectSizeType) :
    a.setAllocationTypeForPrediction.allocationTypeForPrediction =
      if a.allocatingType.allocatingFunction.bySize = true ∨
          a.allocatingType.objectSizeType = a.allocatingType.objectSizeTypeForPrediction then
        a.allocationType parallel a.allocatingType.objectSizeTypeForPrediction
      else a.allocationTypeForPrediction := by
  rw [setAllocationTypeForPrediction, h, allocationType, allocationType]
  generalize a.allocatingType.isReuse = isReuse
  generalize hf : a.allocatingType.allocatingFunction = f
  generalize a.allocatingType.objectSizeType = real
  generalize a.allocatingType.objectSizeTypeForPrediction = predicted
  cases f <;> cases real <;> cases predicted <;> first
    | rfl
    | cases parallel <;> cases isReuse <;> rfl

end AllocatingStatus

/-! ## One call -/

def TrackedFunction.allocationFunction : TrackedFunction → AllocationFunction
  | .malloc _ => .malloc
  | .calloc .. => .calloc
  | .free _ => .free
  | .realloc .. => .realloc
  | .posixMemalign _ => .posixMemalign
  | .memalign _ => .memalign

/-- A call, with the size of the block it frees as the program asked for
it: the table may not know the block, or know another size of it. -/
structure SizedCall extends TrackedCall where
  freedSize : Nat
deriving DecidableEq, Repr

namespace SizedCall

variable (c : SizedCall)

def size : Nat :=
  match c.function with
  | .malloc size => size
  | .calloc nelem elsize => nelem * elsize
  | .free _ => c.freedSize
  | .realloc _ size => size
  | .posixMemalign size => size
  | .memalign size => size

/-- `getObjectSizeTypeForPrediction` takes an `unsigned int`. -/
def predictedSizeType (p : SizeThresholds) (info : PredictorInfo) : ObjectSizeType :=
  info.getObjectSizeTypeForPrediction p.hasMiddleObjectThreshold (wrap 32 c.size)

/-- What the call alone says. -/
def className (p : SizeThresholds) (info : PredictorInfo) : AllocationTypeForOutputData :=
  named c.function.allocationFunction c.parallel (c.predictedSizeType p info) c.isReuse

end SizedCall

namespace CallRecorder

variable {p : SizeThresholds} {info : PredictorInfo} {s : CallRecorder} {c : TrackedCall}

/-- The size the call is recorded with. -/
def recordedSize (s : CallRecorder) (c : TrackedCall) : Nat :=
  match c.function with
  | .malloc size => wrap 32 size
  | .calloc nelem elsize => wrap 32 (nelem * elsize)
  | .free (some size) => wrap 32 size
  | .free none => s.allocating.allocatingType.objectSize
  | .realloc _ size => wrap 32 size
  | .posixMemalign size => wrap 32 size
  | .memalign size => wrap 32 size

/-- The lock and system calls leave the kind of the call alone. -/
theorem event_allocating (s : CallRecorder) (e : AllocatorEvent) :
    (s.event e).allocating.allocatingType = s.allocating.allocatingType ∧
      (s.event e).allocating.sampledForCountingEvent = s.allocating.sampledForCountingEvent ∧
      (s.event e).allocating.allocationTypeForPrediction =
        s.allocating.allocationTypeForPrediction := by
  by_cases hin : s.Inside
  · cases e with
    | lock c =>
        obtain ⟨overview, hcall, -⟩ := lockCall_spec hin c
        rw [event, hcall]
        exact ⟨rfl, rfl, rfl⟩
    | system type timeStart timeStop =>
        rw [event, systemCall, if_neg hin.records]
        exact ⟨rfl, rfl, rfl⟩
  · have hout : s.outsideTrackedAllocation = true ∨
        ¬ s.allocating.sampledForCountingEvent = true := by
      by_contra hno
      rw [outsideTrackedAllocation] at hno
      simp only [Inside] at hin
      simp_all
    cases e with
    | lock c =>
        rw [event, lockCall, if_pos hout]
        exact ⟨rfl, rfl, rfl⟩
    | system type timeStart timeStop =>
        rw [event, systemCall, if_pos hout]
        exact ⟨rfl, rfl, rfl⟩

theorem events_allocating (events : List AllocatorEvent) (s : CallRecorder) :
    (events.foldl event s).allocating.allocatingType = s.allocating.allocatingType ∧
      (events.foldl event s).allocating.sampledForCountingEvent =
        s.allocating.sampledForCountingEvent ∧
      (events.foldl event s).allocating.allocationTypeForPrediction =
        s.allocating.allocationTypeForPrediction := by
  induction events generalizing s with
  | nil => exact ⟨rfl, rfl, rfl⟩
  | cons e events ih =>
      obtain ⟨htype, hsampled, hprediction⟩ := event_allocating s e
      rw [List.foldl_cons, (ih (s.event e)).1, (ih (s.event e)).2.1, (ih (s.event e)).2.2]
      exact ⟨htype, hsampled, hprediction⟩

theorem beforeRealFunction_type (s : CallRecorder) (c : TrackedCall) :
    (s.started c).allocating.allocatingType.allocatingFunction = c.function.allocationFunction ∧
      (s.started c).allocating.allocatingType.objectSize = s.recordedSize c ∧
      (s.started c).allocating.allocatingType.objectSizeType =
        s.allocating.allocatingType.objectSizeType ∧
      (s.started c).allocating.allocationTypeForPrediction =
        s.allocating.allocationTypeForPrediction := by
  rw [started, recordedSize]
  cases c.function with
  | malloc size => exact ⟨rfl, rfl, rfl, rfl⟩
  | calloc nelem elsize => exact ⟨rfl, rfl, rfl, rfl⟩
  | free objStat => cases objStat <;> exact ⟨rfl, rfl, rfl, rfl⟩
  | realloc objStat size =>
      cases objStat with
      | none => exact ⟨rfl, rfl, rfl, rfl⟩
      | some objStat => cases objStat <;> exact ⟨rfl, rfl, rfl, rfl⟩
  | posixMemalign size => exact ⟨rfl, rfl, rfl, rfl⟩
  | memalign size => exact ⟨rfl, rfl, rfl, rfl⟩

theorem afterRealFunction_type {a : AllocatingStatus} {c : TrackedCall}
    (h : a.allocatingType.allocatingFunction = c.function.allocationFunction) :
    (a.afterRealFunction c).allocatingType.allocatingFunction = c.function.allocationFunction ∧
      (a.afterRealFunction c).allocatingType.objectSize = a.allocatingType.objectSize ∧
      (a.afterRealFunction c).allocatingType.objectSizeType = a.allocatingType.objectSizeType ∧
      (a.afterRealFunction c).allocationTypeForPrediction = a.allocationTypeForPrediction ∧
      (c.function.allocationFunction = .malloc →
        (a.afterRealFunction c).allocatingType.isReuse = c.isReuse) := by
  rw [AllocatingStatus.afterRealFunction]
  cases hf : c.function with
  | free objStat =>
      rw [hf] at h
      exact ⟨h, rfl, rfl, rfl, fun hmalloc => by cases hmalloc⟩
  | _ =>
      rw [hf] at h
      simp [AllocatingStatus.updateAllocatingStatusAfterRealFunction, h,
        TrackedFunction.allocationFunction]

/-- What the real function and its locks leave of the call's record. -/
theorem realFunction_allocating (s : CallRecorder) (c : TrackedCall) :
    (s.realFunction c).allocating.sampledForCountingEvent = c.sampled ∧
      (s.realFunction c).allocating.allocatingType.allocatingFunction =
        c.function.allocationFunction ∧
      (s.realFunction c).allocating.allocatingType.objectSize = s.recordedSize c ∧
      (s.realFunction c).allocating.allocatingType.objectSizeType =
        s.allocating.allocatingType.objectSizeType ∧
      (s.realFunction c).allocating.allocationTypeForPrediction =
        s.allocating.allocationTypeForPrediction ∧
      (c.function.allocationFunction = .malloc →
        (s.realFunction c).allocating.allocatingType.isReuse = c.isReuse) := by
  obtain ⟨-, hsampled, -⟩ := beforeRealFunction_spec s.allocating c.sampled c.function
  obtain ⟨hfunction, hsize, hsizeType, hprediction⟩ := beforeRealFunction_type s c
  obtain ⟨htype, hsampled₂, hprediction₂⟩ := events_allocating c.events (s.started c)
  generalize hs₂ : c.events.foldl event (s.started c) = s₂ at htype hsampled₂ hprediction₂
  have hreal : s.realFunction c = { s₂ with allocating := s₂.allocating.afterRealFunction c } := by
    rw [← hs₂]
    rfl
  rw [← htype] at hfunction hsize hsizeType
  obtain ⟨hfunction', hsize', hsizeType', hprediction', hreuse⟩ := afterRealFunction_type hfunction
  rw [hreal]
  exact ⟨(afterRealFunction_spec _ c).1.trans (hsampled₂.trans hsampled), hfunction',
    hsize'.trans hsize, hsizeType'.trans hsizeType,
    hprediction'.trans (hprediction₂.trans hprediction), hreuse⟩

/-- The size type the class is computed from: an unsampled call has that of
an earlier call. -/
def recordedSizeType (s : CallRecorder) (p : SizeThresholds) (c : TrackedCall) : ObjectSizeType :=
  if c.sampled then p.getObjectSizeType (s.recordedSize c)
  else s.allocating.allocatingType.objectSizeType

/-- The size type of the predictor, of the size the call is recorded with. -/
def recordedPrediction (s : CallRecorder) (p : SizeThresholds) (info : PredictorInfo)
    (c : TrackedCall) : ObjectSizeType :=
  info.getObjectSizeTypeForPrediction p.hasMiddleObjectThreshold (s.recordedSize c)

/-- What profiling a sampled call leaves for the predictor. -/
theorem updateThreadLocal_class (hs : s.allocating.sampledForCountingEvent = true)
    (p : SizeThresholds) (parallel : Bool) :
    ∃ s', s.updateAllocatingInfoToThreadLocalData p parallel = s' ∧
      s'.allocating.allocatingType = { s.allocating.allocatingType with
        objectSizeType := p.getObjectSizeType s.allocating.allocatingType.objectSize } ∧
      s'.allocating.allocationTypeForOutputData =
        s'.allocating.allocationType parallel s'.allocating.allocatingType.objectSizeType ∧
      s'.allocating.sampledForCountingEvent = true ∧
      s'.allocating.allocationTypeForPrediction = s.allocating.allocationTypeForPrediction := by
  rw [updateAllocatingInfoToThreadLocalData, if_pos hs]
  exact ⟨_, rfl, rfl, rfl, hs, rfl⟩

/-- The record with the size type of the predictor. -/
def withPrediction (s : CallRecorder) (p : SizeThresholds) (info : PredictorInfo) :
    AllocatingStatus :=
  { s.allocating with
    allocatingType.objectSizeTypeForPrediction :=
      info.getObjectSizeTypeForPrediction p.hasMiddleObjectThreshold
        s.allocating.allocatingType.objectSize }

theorem updatePredictor_sampled (hs : s.allocating.sampledForCountingEvent = true)
    (p : SizeThresholds) (info : PredictorInfo) (parallel : Bool) :
    (s.updateAllocatingInfoToPredictor p info parallel).allocating.allocationTypeForPrediction =
      (s.withPrediction p info).setAllocationTypeForPrediction.allocationTypeForPrediction :=
  congrArg AllocatingStatus.allocationTypeForPrediction (if_pos hs)

theorem updatePredictor_unsampled (hs : s.allocating.sampledForCountingEvent = false)
    (p : SizeThresholds) (info : PredictorInfo) (parallel : Bool) :
    (s.updateAllocatingInfoToPredictor p info parallel).allocating.allocationTypeForPrediction =
      (s.withPrediction p info).allocationType parallel
        (s.withPrediction p info).allocatingType.objectSizeTypeForPrediction :=
  congrArg AllocatingStatus.allocationTypeForPrediction (if_neg (by simp [hs]))

/-- The class a call is counted under. -/
theorem trackedCall_prediction (p : SizeThresholds) (info : PredictorInfo) (s : CallRecorder)
    (c : TrackedCall) :
    ∃ a : AllocatingStatus, a.allocatingType.allocatingFunction = c.function.allocationFunction ∧
      (c.function.allocationFunction = .malloc → a.allocatingType.isReuse = c.isReuse) ∧
      a.allocatingType.objectSizeType = s.recordedSizeType p c ∧
      (s.trackedCall p info c).allocating.allocationTypeForPrediction =
        if c.sampled = true ∧ c.function.allocationFunction.bySize = false ∧
            s.recordedSizeType p c ≠ s.recordedPrediction p info c then
          s.allocating.allocationTypeForPrediction
        else a.allocationType c.parallel (s.recordedPrediction p info c) := by
  obtain ⟨hsampled, hfunction, hsize, hsizeType, hprediction, hreuse⟩ := realFunction_allocating s c
  rw [trackedCall]
  generalize s.realFunction c = s₁ at *
  cases hc : c.sampled with
  | false =>
      rw [hc] at hsampled
      have hsame : s₁.updateAllocatingInfoToThreadLocalData p c.parallel = s₁ :=
        if_neg (by simp [hsampled])
      refine ⟨s₁.withPrediction p info, hfunction, hreuse, ?_, ?_⟩
      · rw [recordedSizeType, if_neg (by simp [hc])]
        exact hsizeType
      · rw [hsame, updatePredictor_unsampled hsampled, if_neg (by simp),
          recordedPrediction, ← hsize]
        rfl
  | true =>
      rw [hc] at hsampled
      obtain ⟨s₂, hs₂, hkind, houtput, hsampled₂, hprediction₂⟩ :=
        updateThreadLocal_class hsampled p c.parallel
      have houtput' : (s₂.withPrediction p info).allocationTypeForOutputData =
          (s₂.withPrediction p info).allocationType c.parallel
            (s₂.withPrediction p info).allocatingType.objectSizeType := houtput
      have hfunction' : (s₂.withPrediction p info).allocatingType.allocatingFunction =
          c.function.allocationFunction := by
        rw [withPrediction, hkind]
        exact hfunction
      have hreal : (s₂.withPrediction p info).allocatingType.objectSizeType =
          s.recordedSizeType p c := by
        rw [withPrediction, hkind, recordedSizeType, if_pos hc, ← hsize]
      have hpredicted : (s₂.withPrediction p info).allocatingType.objectSizeTypeForPrediction =
          s.recordedPrediction p info c := by
        rw [withPrediction, hkind, recordedPrediction, ← hsize]
      have hold : (s₂.withPrediction p info).allocationTypeForPrediction =
          s.allocating.allocationTypeForPrediction := hprediction₂.trans hprediction
      refine ⟨s₂.withPrediction p info, hfunction', ?_, hreal, ?_⟩
      · rw [withPrediction, hkind]
        exact hreuse
      · rw [hs₂, updatePredictor_sampled hsampled₂,
          AllocatingStatus.setAllocationTypeForPrediction_spec houtput', hfunction', hreal,
          hpredicted, hold]
        cases c.function.allocationFunction.bySize with
        | true => simp
        | false =>
            by_cases heq : s.recordedSizeType p c = s.recordedPrediction p info c <;> simp [heq]

/-- The predictor counts the call under the class that names it. -/
def Named (p : SizeThresholds) (info : PredictorInfo) (s : CallRecorder) (c : SizedCall) : Prop :=
  (s.trackedCall p info c.toTrackedCall).allocating.allocationTypeForPrediction =
    (c.className p info).toNat

/-- When it does: a reused `malloc` is large for both size types or for
none, a freed block is found with a size of the right type, and for the
other sampled calls the two size types agree or the class of the call
before happens to be the right one. -/
def Classifiable (p : SizeThresholds) (info : PredictorInfo) (s : CallRecorder) (c : SizedCall) :
    Prop :=
  match c.function with
  | .malloc _ => c.isReuse = true →
      (s.recordedSizeType p c.toTrackedCall = .large ↔ c.predictedSizeType p info = .large)
  | .free _ => s.recordedPrediction p info c.toTrackedCall = c.predictedSizeType p info
  | _ => c.sampled = true → s.recordedSizeType p c.toTrackedCall = c.predictedSizeType p info ∨
      s.allocating.allocationTypeForPrediction = (c.className p info).toNat

theorem recordedPrediction_eq {c : SizedCall} (h : c.function.allocationFunction ≠ .free)
    (p : SizeThresholds) (info : PredictorInfo) (s : CallRecorder) :
    s.recordedPrediction p info c.toTrackedCall = c.predictedSizeType p info := by
  have hsize : s.recordedSize c.toTrackedCall = wrap 32 c.size := by
    rw [recordedSize, SizedCall.size]
    cases hf : c.function with
    | free objStat => exact absurd (by rw [hf]; rfl) h
    | _ => rfl
  rw [recordedPrediction, hsize, SizedCall.predictedSizeType]

/-- A call without classes by size keeps its name or the class before. -/
theorem named_iff_of_not_bySize {c : SizedCall} (h : c.function.allocationFunction.bySize = false)
    (p : SizeThresholds) (info : PredictorInfo) (s : CallRecorder) :
    Named p info s c ↔ (c.sampled = true →
      s.recordedSizeType p c.toTrackedCall = c.predictedSizeType p info ∨
        s.allocating.allocationTypeForPrediction = (c.className p info).toNat) := by
  obtain ⟨a, hfunction, -, hreal, hclass⟩ := trackedCall_prediction p info s c.toTrackedCall
  have hfree : c.function.allocationFunction ≠ .free := by
    rintro hf
    rw [hf] at h
    cases h
  have hname : a.allocationType c.parallel (c.predictedSizeType p info) =
      (c.className p info).toNat := by
    have hmalloc : c.function.allocationFunction = .malloc → a.allocatingType.isReuse = true →
        (a.allocatingType.objectSizeType = .large ↔ c.predictedSizeType p info = .large) := by
      intro hf
      rw [hf] at h
      cases h
    rw [← hfunction] at hmalloc
    rw [(a.allocationType_eq_iff _ _).mpr hmalloc, hfunction, SizedCall.className]
    revert h
    cases c.function.allocationFunction <;> cases c.parallel <;>
      simp [AllocationFunction.bySize, named]
  rw [Named, hclass, recordedPrediction_eq hfree, hname]
  by_cases hs : c.sampled = true
  · by_cases heq : s.recordedSizeType p c.toTrackedCall = c.predictedSizeType p info <;>
      simp [hs, h, heq]
  · simp [hs]

/-- A call is counted under the class that names it exactly then. -/
theorem named_iff (p : SizeThresholds) (info : PredictorInfo) (s : CallRecorder) (c : SizedCall) :
    Named p info s c ↔ Classifiable p info s c := by
  obtain ⟨a, hfunction, hreuse, hreal, hclass⟩ := trackedCall_prediction p info s c.toTrackedCall
  have hname := a.allocationType_eq_iff c.parallel (s.recordedPrediction p info c.toTrackedCall)
  rw [hfunction, hreal] at hname
  rw [Classifiable]
  cases hf : c.function with
  | malloc size =>
      have hmalloc : c.function.allocationFunction = .malloc := by rw [hf]; rfl
      have hpredicted := recordedPrediction_eq (by rw [hmalloc]; decide) p info s
      rw [Named, hclass, if_neg (by simp [hmalloc, AllocationFunction.bySize]), SizedCall.className,
        ← hreuse hmalloc, ← hpredicted, hname]
      simp [hmalloc]
  | free objStat =>
      have hfree : c.function.allocationFunction = .free := by rw [hf]; rfl
      have hright := hname.mpr (by simp [hfree])
      rw [Named, hclass, if_neg (by simp [hfree, AllocationFunction.bySize]), hright,
        toNat_injective.eq_iff, SizedCall.className, hfree, named_free_iff]
  | _ =>
      exact named_iff_of_not_bySize (by rw [hf]; rfl) p info s

/-! ## Runs -/

/-- The thread's state after these calls. -/
def afterCalls (p : SizeThresholds) (info : PredictorInfo) (calls : List SizedCall) :
    CallRecorder :=
  calls.foldl (fun s c => s.trackedCall p info c.toTrackedCall) {}

/-- What holds of every call of a run, in the state it is made in. -/
def Throughout (P : CallRecorder → SizedCall → Prop) (p : SizeThresholds) (info : PredictorInfo)
    (calls : List SizedCall) : Prop :=
  ∀ past c rest, calls = past ++ c :: rest → P (afterCalls p info past) c

/-- A run is classed by its calls alone if and only if all of them can be. -/
theorem prediction_class_iff (p : SizeThresholds) (info : PredictorInfo) (calls : List SizedCall) :
    Throughout (Named p info) p info calls ↔ Throughout (Classifiable p info) p info calls := by
  constructor
  · intro h past c rest hcalls
    exact (named_iff p info _ c).mp (h past c rest hcalls)
  · intro h past c rest hcalls
    exact (named_iff p info _ c).mpr (h past c rest hcalls)

/-- A sampled `calloc(1, 100)`. -/
def sampledCalloc : SizedCall where
  function := .calloc 1 100
  sampled := true
  parallel := false
  isReuse := false
  cyclesBeforeRealFunction := 100
  cyclesAfterRealFunction := 200
  events := []
  freedSize := 0

/-- 100 bytes are small for the program and large for the predictor: the
first call of the run keeps the class 0, that of a small new `malloc`. -/
theorem sampled_calloc_counted_as_malloc :
    (({} : CallRecorder).trackedCall { largeObjectThreshold := 1000 }
        { replacedLargeObjectThreshold := 10 } sampledCalloc.toTrackedCall
      ).allocating.allocationTypeForPrediction = serialSmallNewMalloc.toNat ∧
      sampledCalloc.className { largeObjectThreshold := 1000 }
        { replacedLargeObjectThreshold := 10 } = .serialNormalCalloc ∧
      ¬ Throughout (Named { largeObjectThreshold := 1000 } { replacedLargeObjectThreshold := 10 })
        { largeObjectThreshold := 1000 } { replacedLargeObjectThreshold := 10 }
          [sampledCalloc] := by
  refine ⟨by decide, by decide, fun h => ?_⟩
  have hnamed := h [] sampledCalloc [] rfl
  rw [named_iff] at hnamed
  have hcondition := hnamed rfl
  revert hcondition
  decide

/-- With the program's own thresholds a sampled call is classed right, if
the table knows the block it frees. -/
theorem named_of_same_thresholds {p : SizeThresholds} {info : PredictorInfo} {c : SizedCall}
    (hsame : ∀ size, info.getObjectSizeTypeForPrediction p.hasMiddleObjectThreshold size =
      p.getObjectSizeType size)
    (hs : c.sampled = true)
    (hfree : ∀ objStat, c.function = .free objStat → objStat = some c.freedSize)
    (s : CallRecorder) : Named p info s c := by
  have hrecorded : s.recordedSize c.toTrackedCall = wrap 32 c.size := by
    rw [recordedSize, SizedCall.size]
    cases hf : c.function with
    | free objStat => rw [hfree objStat hf]
    | _ => rfl
  have hsizes : s.recordedSizeType p c.toTrackedCall = c.predictedSizeType p info := by
    rw [recordedSizeType, if_pos hs, hrecorded, SizedCall.predictedSizeType, hsame]
  rw [named_iff, Classifiable]
  cases hf : c.function with
  | malloc size => exact fun _ => by rw [hsizes]
  | free objStat => rw [recordedPrediction, hrecorded, SizedCall.predictedSizeType]
  | _ => exact fun _ => .inl hsizes

end CallRecorder

end MemPerf
