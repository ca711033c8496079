import MemPerf.Interposition
import MemPerf.Lib.Coverage
import MemPerf.Lib.Run

/-!
# What the main thread gets back

The allocations, resizes and frees of the main thread, in every phase of
the profiler, with the bytes of the memory. The real allocator keeps the C
contract. The buffer of the profiler is handed out upwards, never twice,
and holds zeros where it was not handed out yet.

Two things go wrong. A resize before the profiler is initialised, or of a
block from before, gives a new block and copies nothing into it. And
nothing looks at the end of the buffer.
-/

namespace MemPerf

open Word Coverage StepSystem

/-- What the profiler is doing when a call is made. -/
structure Phase where
  profilerInitialized : Bool
  conclusionHasStarted : Bool
  doingAllocation : Bool
deriving DecidableEq, Repr

/-- The index of the main thread is 0. -/
def Phase.caller (phase : Phase) : CallerStatus where
  runningThreadIndex := 0
  profilerInitialized := phase.profilerInitialized
  conclusionHasStarted := phase.conclusionHasStarted
  doingAllocation := phase.doingAllocation

/-- What a real function returns, and the memory it leaves. -/
structure RealResult where
  object : Nat
  memory : Nat → UInt8

/-- A block that is held, and whether `MyMalloc` handed it out. -/
structure ProgramBlock where
  span : Span
  fromMyMalloc : Bool
deriving DecidableEq, Repr

/-- The memory when the program starts. `startPointer` is a static array,
all zeros; other fields of `ProfilerMemory` stand right after it. -/
structure StaticMemory where
  startPointer : Nat
  memory : Nat → UInt8
  pos : 0 < startPointer
  fits : startPointer + profilerMemorySize < 2 ^ 64
  zero : ∀ a, startPointer ≤ a → a < startPointer + profilerMemorySize → memory a = 0

structure MainThread where
  profilerMemory : ProfilerMemory
  memory : Nat → UInt8
  blocks : List ProgramBlock := []

/-- The calls, with what the real function would return; what the program
writes in between; and the profiler's own use of `MyMalloc`. -/
inductive MainCall where
  | yymalloc (phase : Phase) (sz : Nat) (real : RealResult)
  | yycalloc (phase : Phase) (nelem elsize : Nat) (real : RealResult)
  | yyfree (phase : Phase) (ptr : Nat) (real : RealResult)
  | yyrealloc (phase : Phase) (ptr sz : Nat) (real : RealResult)
  | yyposixMemalign (phase : Phase) (size : Nat) (real : RealResult)
  | yymemalign (phase : Phase) (size : Nat) (real : RealResult)
  | write (address : Nat) (value : UInt8)
  | readPredictorInfoFile

/-- The state a call leaves, what it returns, and the pointer it hands to
`RealX::free` or `RealX::realloc`. -/
structure Outcome where
  state : MainThread
  object : Nat := 0
  passed : Option Nat := none

namespace MainThread

/-- Nothing has been called. -/
def initial (a : StaticMemory) : MainThread where
  profilerMemory := { startPointer := a.startPointer }
  memory := a.memory

variable (s : MainThread)

/-- `MyMalloc::malloc`. -/
def myMalloc (size : Nat) : Outcome :=
  let (m, object) := s.profilerMemory.mallocWithoutLock size
  { state := { s with profilerMemory := m, blocks := ⟨⟨object, size⟩, true⟩ :: s.blocks }
    object }

/-- A real function that returns a new block, or a null pointer. -/
def realAllocation (size : Nat) (real : RealResult) : Outcome where
  state :=
    { s with
      memory := real.memory
      blocks := if real.object = 0 then s.blocks else ⟨⟨real.object, size⟩, false⟩ :: s.blocks }
  object := real.object

/-- The block at `ptr` is no longer held. -/
def release (ptr : Nat) : MainThread :=
  { s with blocks := s.blocks.filter fun b => decide (b.span.start ≠ ptr) }

def allocate (route : Route) (size : Nat) (real : RealResult) : Outcome :=
  match route with
  | .nothing => { state := s }
  | .myMalloc => s.myMalloc size
  | _ => s.realAllocation size real

/-- A `realloc` that the real function refuses leaves the old block. -/
def realRealloc (ptr sz : Nat) (real : RealResult) : Outcome :=
  if real.object = 0 ∧ sz ≠ 0 then
    { state := { s with memory := real.memory }, passed := some ptr }
  else { (s.release ptr).realAllocation sz real with passed := some ptr }

/-- After `MyMalloc::ifInProfilerMemoryThenFree`, which frees nothing. -/
def checked : MainThread :=
  { s with profilerMemory := s.profilerMemory.checkAndInitialize }

def inProfilerMemory (ptr : Nat) : Bool := (s.profilerMemory.ifInProfilerMemoryThenFree ptr).2

def call : MainCall → Outcome
  | .yymalloc phase sz real => s.allocate (phase.caller.yymalloc sz) sz real
  | .yycalloc phase nelem elsize real =>
      match phase.caller.yycalloc nelem elsize with
      | .nothing => { state := s }
      | .myMalloc => s.myMalloc (wrap 64 (nelem * elsize))
      | _ => s.realAllocation (nelem * elsize) real
  | .yyfree phase ptr real =>
      if ptr = 0 then { state := s }
      else
        match phase.caller.yyfree (s.inProfilerMemory ptr) with
        | .nothing => { state := s.checked.release ptr }
        | _ => { state := { s.checked.release ptr with memory := real.memory }, passed := some ptr }
  | .yyrealloc phase ptr sz real =>
      match phase.caller.yyrealloc (s.inProfilerMemory ptr) with
      | .nothing => { state := s.checked }
      | .myMalloc => (s.checked.release ptr).myMalloc sz
      | .realMalloc => (s.checked.release ptr).realAllocation sz real
      | _ => s.checked.realRealloc ptr sz real
  | .yyposixMemalign phase size real => s.allocate (phase.caller.yyposixMemalign size) size real
  | .yymemalign phase size real => s.allocate (phase.caller.yymemalign size) size real
  | .write address value => { state := { s with memory := Function.update s.memory address value } }
  | .readPredictorInfoFile => s.myMalloc 65535

def step (c : MainCall) : Option MainThread := some (s.call c).state

/-! ## The contract of the real functions -/

def arrayEnd : Nat := s.profilerMemory.startPointer + profilerMemorySize

/-- The bytes of these blocks and of the buffer are as before. -/
structure Keeps (blocks : List ProgramBlock) (memory : Nat → UInt8) : Prop where
  blocks : ∀ b ∈ blocks, ∀ a, b.span.Covers a → memory a = s.memory a
  array : ∀ a, s.profilerMemory.startPointer ≤ a → a < s.arrayEnd → memory a = s.memory a

/-- An object in memory that is neither held nor static. -/
structure NewObject (blocks : List ProgramBlock) (size object : Nat) : Prop where
  outside : object < s.profilerMemory.startPointer ∧
    object + size ≤ s.profilerMemory.startPointer ∨ s.arrayEnd < object
  apart : ∀ b ∈ blocks, (Span.mk object size).Apart b.span

structure RealMalloc (blocks : List ProgramBlock) (size : Nat) (real : RealResult) : Prop where
  keeps : s.Keeps blocks real.memory
  object : real.object ≠ 0 → s.NewObject blocks size real.object

/-- Zeros for the exact product. -/
structure RealCalloc (nelem elsize : Nat) (real : RealResult) : Prop
    extends s.RealMalloc s.blocks (nelem * elsize) real where
  zero : real.object ≠ 0 → ∀ i < nelem * elsize, real.memory (real.object + i) = 0

structure RealRealloc (ptr sz : Nat) (real : RealResult) : Prop where
  refused : real.object = 0 → sz ≠ 0 → s.Keeps s.blocks real.memory
  keeps : s.Keeps (s.release ptr).blocks real.memory
  object : real.object ≠ 0 → s.NewObject (s.release ptr).blocks sz real.object
  contents : real.object ≠ 0 → ∀ b ∈ s.blocks, b.span.start = ptr →
    ∀ i < min b.span.len sz, real.memory (real.object + i) = s.memory (ptr + i)

/-- NULL, or a block that is held. -/
def MayPass (ptr : Nat) : Prop := ptr = 0 ∨ ∃ b ∈ s.blocks, b.span.start = ptr

/-- The program passes on what it holds and writes into it, and the real
function that is called keeps the contract. -/
def Permitted : MainCall → Prop
  | .yymalloc _ sz real => s.RealMalloc s.blocks sz real
  | .yycalloc _ nelem elsize real => s.RealCalloc nelem elsize real
  | .yyfree _ ptr real => s.MayPass ptr ∧ s.Keeps (s.release ptr).blocks real.memory
  | .yyrealloc phase ptr sz real => s.MayPass ptr ∧
      match phase.caller.yyrealloc (s.inProfilerMemory ptr) with
      | .realMalloc => s.RealMalloc (s.release ptr).blocks sz real
      | .real | .tracked => s.RealRealloc ptr sz real
      | _ => True
  | .yyposixMemalign _ size real => s.RealMalloc s.blocks size real
  | .yymemalign _ size real => s.RealMalloc s.blocks size real
  | .write address _ => ∃ b ∈ s.blocks, b.span.Covers address
  | .readPredictorInfoFile => True

/-! ## What the program may expect -/

/-- Where a block may be: in the part of the buffer that was handed out, or
outside of the buffer. -/
def Placed (b : ProgramBlock) : Prop :=
  if b.fromMyMalloc then
    s.profilerMemory.startPointer ≤ b.span.start ∧
      b.span.start + b.span.len ≤ s.profilerMemory.checkAndInitialize.overheadPointer ∧
      b.span.start + b.span.len ≤ s.arrayEnd
  else
    b.span.start ≠ 0 ∧ (b.span.start < s.profilerMemory.startPointer ∧
      b.span.start + b.span.len ≤ s.profilerMemory.startPointer ∨ s.arrayEnd < b.span.start)

end MainThread

/-- The call has returned a block of `size` bytes that nobody else holds. -/
def Outcome.Returns (o : Outcome) (size : Nat) : Prop :=
  ∃ b rest, o.state.blocks = b :: rest ∧ b.span = ⟨o.object, size⟩ ∧ o.state.Placed b ∧
    ∀ b' ∈ rest, b.span.Apart b'.span

namespace MainThread

variable (s : MainThread)

/-- A resize returns a block with the old contents, or the real function
has refused. -/
def Resizes (c : MainCall) (b : ProgramBlock) (sz : Nat) (real : RealResult) : Prop :=
  (s.call c).object = 0 ∧ real.object = 0 ∧ (s.call c).passed = some b.span.start ∨
    (s.call c).Returns sz ∧ ∀ i < min b.span.len sz,
      (s.call c).state.memory ((s.call c).object + i) = s.memory (b.span.start + i)

structure Transparent (c : MainCall) : Prop where
  resizes : ∀ phase ptr sz real, c = .yyrealloc phase ptr sz real → 0 < sz →
    ∀ b ∈ s.blocks, b.span.start = ptr → s.Resizes c b sz real
  zeroFilled : ∀ phase nelem elsize real, c = .yycalloc phase nelem elsize real →
    (s.call c).object = 0 ∨ (s.call c).Returns (nelem * elsize) ∧
      ∀ i < nelem * elsize, (s.call c).state.memory ((s.call c).object + i) = 0
  kept : ∀ ptr, (s.call c).passed = some ptr →
    ∀ b ∈ s.blocks, b.span.start = ptr → b.fromMyMalloc = false
  freed : ∀ phase ptr real, c = .yyfree phase ptr real → phase.profilerInitialized = true →
    ∀ b ∈ s.blocks, b.span.start = ptr → b.fromMyMalloc = false → (s.call c).passed = some ptr

/-- The rest of the buffer is as long as that. -/
def Room (size : Nat) : Prop :=
  s.profilerMemory.checkAndInitialize.overheadPointer + size ≤ s.arrayEnd

/-- What `MyMalloc` hands out fits into the buffer, and a block is resized
by `RealX::realloc`. -/
def Careful : MainCall → Prop
  | .yymalloc phase sz _ => phase.caller.yymalloc sz = .myMalloc → s.Room sz
  | .yycalloc phase nelem elsize _ =>
      phase.caller.yycalloc nelem elsize = .myMalloc → s.Room (nelem * elsize)
  | .yymemalign phase size _ => phase.caller.yymemalign size = .myMalloc → s.Room size
  | .yyrealloc phase ptr sz _ =>
      (phase.profilerInitialized = false → s.Room sz) ∧
        (0 < sz → ∀ b ∈ s.blocks, b.span.start = ptr →
          phase.profilerInitialized = true ∧ b.fromMyMalloc = false)
  | .readPredictorInfoFile => s.Room 65535
  | _ => True

end MainThread

/-! ## The buffer -/

namespace MainThread

variable {s : MainThread} {size ptr : Nat} {real : RealResult} {b : ProgramBlock}

/-- The buffer is handed out up to the overhead pointer and zero above it,
and the blocks that are held have no byte in common. -/
structure Sound (s : MainThread) : Prop where
  pos : 0 < s.profilerMemory.startPointer
  fits : s.arrayEnd < 2 ^ 64
  endPointer : s.profilerMemory.checkAndInitialize.endPointer = s.arrayEnd
  overhead_ge : s.profilerMemory.startPointer ≤ s.profilerMemory.checkAndInitialize.overheadPointer
  overhead_le : s.profilerMemory.checkAndInitialize.overheadPointer ≤ s.arrayEnd
  zero : ∀ a, s.profilerMemory.checkAndInitialize.overheadPointer ≤ a → a < s.arrayEnd →
    s.memory a = 0
  placed : ∀ b ∈ s.blocks, s.Placed b
  apart : (s.blocks.map ProgramBlock.span).Pairwise Span.Apart

theorem Sound.initial (a : StaticMemory) : Sound (.initial a) where
  pos := a.pos
  fits := a.fits
  endPointer := wrap_of_lt a.fits
  overhead_ge := Nat.le_refl _
  overhead_le := Nat.le_add_right _ _
  zero := a.zero
  placed _ hb := by cases hb
  apart := List.Pairwise.nil

theorem Sound.checked (h : Sound s) : Sound s.checked := by
  have hplaced : ∀ b, s.Placed b → s.checked.Placed b := by
    intro b hb
    simp only [Placed, MainThread.checked, arrayEnd,
      ProfilerMemory.checkAndInitialize_startPointer,
      ProfilerMemory.checkAndInitialize_idem] at hb ⊢
    exact hb
  constructor
  all_goals
    simp only [MainThread.checked, arrayEnd, ProfilerMemory.checkAndInitialize_startPointer,
      ProfilerMemory.checkAndInitialize_idem]
  · exact h.pos
  · exact h.fits
  · exact h.endPointer
  · exact h.overhead_ge
  · exact h.overhead_le
  · exact h.zero
  · exact fun b hb => hplaced b (h.placed b hb)
  · exact h.apart

theorem Sound.release (h : Sound s) (ptr : Nat) : Sound (s.release ptr) where
  pos := h.pos
  fits := h.fits
  endPointer := h.endPointer
  overhead_ge := h.overhead_ge
  overhead_le := h.overhead_le
  zero := h.zero
  placed b hb := h.placed b (List.mem_filter.mp hb).1
  apart := h.apart.sublist (List.filter_sublist.map _)

/-- The place of a held block, if it starts in the buffer and if not. -/
theorem Sound.inProfilerMemory (h : Sound s) (hb : b ∈ s.blocks) :
    s.inProfilerMemory b.span.start = b.fromMyMalloc := by
  have hplaced := h.placed b hb
  rw [Placed] at hplaced
  have hend := h.endPointer
  simp only [MainThread.inProfilerMemory, ProfilerMemory.ifInProfilerMemoryThenFree,
    ProfilerMemory.inMemory, ProfilerMemory.checkAndInitialize_startPointer, hend]
  cases hfrom : b.fromMyMalloc with
  | true =>
      rw [if_pos hfrom] at hplaced
      obtain ⟨hstart, -, hlast⟩ := hplaced
      exact decide_eq_true ⟨hstart, by omega⟩
  | false =>
      rw [if_neg (by simp [hfrom])] at hplaced
      refine decide_eq_false ?_
      omega

/-! ## The two ways to get a block -/

/-- A size there is room for is no word that wrapped. -/
theorem Sound.wrap_room (h : Sound s) (hroom : s.Room size) : wrap 64 size = size := by
  have hfits := h.fits
  rw [Room] at hroom
  exact wrap_of_lt (by omega)

/-- The next bytes of the buffer are nobody's. -/
theorem Sound.apart_overhead (h : Sound s) (hroom : s.Room size) (hb : b ∈ s.blocks) :
    (Span.mk s.profilerMemory.checkAndInitialize.overheadPointer size).Apart b.span := by
  have hplaced := h.placed b hb
  have hge := h.overhead_ge
  rw [Placed] at hplaced
  rw [Room] at hroom
  intro a hnew hold
  simp only [Span.Covers] at hnew hold
  split at hplaced
  · omega
  · omega

theorem Placed.grow {s' : MainThread} (hb : s.Placed b)
    (hstart : s'.profilerMemory.startPointer = s.profilerMemory.startPointer)
    (hoverhead : s.profilerMemory.checkAndInitialize.overheadPointer ≤
      s'.profilerMemory.checkAndInitialize.overheadPointer) : s'.Placed b := by
  rw [Placed] at hb ⊢
  rw [arrayEnd, hstart]
  split
  · next hfrom =>
      rw [if_pos hfrom] at hb
      exact ⟨hb.1, hb.2.1.trans hoverhead, hb.2.2⟩
  · next hfrom =>
      rw [if_neg hfrom] at hb
      exact hb

/-- `MyMalloc::malloc` while there is room. -/
theorem Sound.myMalloc (h : Sound s) (hroom : s.Room size) :
    Sound (s.myMalloc size).state ∧ (s.myMalloc size).Returns size ∧
      ∀ i < size, (s.myMalloc size).state.memory ((s.myMalloc size).object + i) = 0 := by
  have hlt : s.profilerMemory.checkAndInitialize.overheadPointer + size < 2 ^ 64 :=
    hroom.trans_lt h.fits
  obtain ⟨hobject, hoverhead⟩ := ProfilerMemory.mallocWithoutLock_eq hlt
  have hstart : (s.myMalloc size).state.profilerMemory.startPointer =
      s.profilerMemory.startPointer := ProfilerMemory.mallocWithoutLock_startPointer
  have hend : (s.myMalloc size).state.arrayEnd = s.arrayEnd := by rw [arrayEnd, hstart, arrayEnd]
  have hover : (s.myMalloc size).state.profilerMemory.checkAndInitialize.overheadPointer =
      s.profilerMemory.checkAndInitialize.overheadPointer + size := hoverhead
  have hge := h.overhead_ge
  have hnew : (s.myMalloc size).state.Placed
      ⟨⟨(s.myMalloc size).object, size⟩, true⟩ := by
    have hobject' : (s.myMalloc size).object =
        s.profilerMemory.checkAndInitialize.overheadPointer := hobject
    rw [Placed, if_pos rfl, hstart, hover, hend, hobject']
    exact ⟨hge, Nat.le_refl _, hroom⟩
  have hothers : ∀ b ∈ s.blocks, (Span.mk (s.myMalloc size).object size).Apart b.span := by
    intro b hb
    have happart := h.apart_overhead hroom hb
    rw [← hobject] at happart
    exact happart
  refine ⟨?_, ⟨_, s.blocks, rfl, rfl, hnew, hothers⟩, fun i hi => ?_⟩
  · refine ⟨hstart ▸ h.pos, hend ▸ h.fits, ?_, ?_, ?_, ?_, ?_, ?_⟩
    · rw [hend, ← h.endPointer]
      exact ProfilerMemory.mallocWithoutLock_endPointer
    · rw [hstart, hover]
      omega
    · rw [hover, hend]
      exact hroom
    · intro a ha ha'
      rw [hover] at ha
      exact h.zero a (by omega) (hend ▸ ha')
    · intro b hb
      rcases List.mem_cons.mp hb with rfl | hb
      · exact hnew
      · exact (h.placed b hb).grow hstart (by rw [hover]; omega)
    · refine List.pairwise_cons.mpr ⟨fun span hspan => ?_, h.apart⟩
      obtain ⟨b, hb, rfl⟩ := List.mem_map.mp hspan
      exact hothers b hb
  · have hobject' : (s.myMalloc size).object =
        s.profilerMemory.checkAndInitialize.overheadPointer := hobject
    rw [hobject']
    rw [Room] at hroom
    exact h.zero _ (by omega) (by omega)

/-- A real function leaves the state sound. -/
theorem Sound.keeps (h : Sound s) {memory : Nat → UInt8} (hkeeps : s.Keeps s.blocks memory) :
    Sound { s with memory } where
  pos := h.pos
  fits := h.fits
  endPointer := h.endPointer
  overhead_ge := h.overhead_ge
  overhead_le := h.overhead_le
  zero a ha ha' := by
    have hge := h.overhead_ge
    exact (hkeeps.array a (hge.trans ha) ha').trans (h.zero a ha ha')
  placed := h.placed
  apart := h.apart

/-- A real function that returns a new object. -/
theorem Sound.realAllocation (h : Sound s) (hreal : s.RealMalloc s.blocks size real) :
    Sound (s.realAllocation size real).state ∧
      (real.object ≠ 0 → (s.realAllocation size real).Returns size) := by
  have hsound := h.keeps hreal.keeps
  by_cases hnull : real.object = 0
  · refine ⟨?_, fun hne => absurd hnull hne⟩
    rw [MainThread.realAllocation, if_pos hnull]
    exact hsound
  · obtain ⟨houtside, happart⟩ := hreal.object hnull
    have hplaced : ({ s with memory := real.memory } : MainThread).Placed
        ⟨⟨real.object, size⟩, false⟩ := by
      rw [Placed, if_neg (by simp)]
      exact ⟨hnull, houtside⟩
    rw [MainThread.realAllocation, if_neg hnull]
    refine ⟨?_, fun _ => ⟨_, s.blocks, rfl, rfl, hplaced, happart⟩⟩
    refine ⟨h.pos, h.fits, h.endPointer, h.overhead_ge, h.overhead_le, hsound.zero, ?_, ?_⟩
    · intro b hb
      rcases List.mem_cons.mp hb with rfl | hb
      · exact hplaced
      · exact h.placed b hb
    · refine List.pairwise_cons.mpr ⟨fun span hspan => ?_, h.apart⟩
      obtain ⟨b, hb, rfl⟩ := List.mem_map.mp hspan
      exact happart b hb

theorem Keeps.checked {blocks : List ProgramBlock} {memory : Nat → UInt8}
    (h : s.Keeps blocks memory) : s.checked.Keeps blocks memory where
  blocks := h.blocks
  array := by
    simp only [MainThread.checked, arrayEnd, ProfilerMemory.checkAndInitialize_startPointer]
    exact h.array

theorem NewObject.checked {blocks : List ProgramBlock} {object : Nat}
    (h : s.NewObject blocks size object) : s.checked.NewObject blocks size object where
  outside := by
    simp only [MainThread.checked, arrayEnd, ProfilerMemory.checkAndInitialize_startPointer]
    exact h.outside
  apart := h.apart

theorem RealMalloc.checked {blocks : List ProgramBlock} (h : s.RealMalloc blocks size real) :
    s.checked.RealMalloc blocks size real :=
  ⟨h.keeps.checked, fun hnull => (h.object hnull).checked⟩

/-- The real functions do not know what the program still holds. -/
theorem Keeps.release {blocks : List ProgramBlock} {memory : Nat → UInt8}
    (h : s.Keeps blocks memory) (ptr : Nat) : (s.release ptr).Keeps blocks memory :=
  ⟨h.blocks, h.array⟩

theorem RealMalloc.release {blocks : List ProgramBlock} (h : s.RealMalloc blocks size real)
    (ptr : Nat) : (s.release ptr).RealMalloc blocks size real :=
  ⟨h.keeps.release ptr, fun hnull => ⟨(h.object hnull).outside, (h.object hnull).apart⟩⟩

/-! ## The calls -/

theorem Sound.allocate (h : Sound s) {route : Route}
    (hreal : s.RealMalloc s.blocks size real) (hroom : route = .myMalloc → s.Room size) :
    Sound (s.allocate route size real).state := by
  cases route with
  | nothing => exact h
  | myMalloc => exact (h.myMalloc (hroom rfl)).1
  | realMalloc => exact (h.realAllocation hreal).1
  | real => exact (h.realAllocation hreal).1
  | tracked => exact (h.realAllocation hreal).1

theorem checked_room : s.checked.Room size ↔ s.Room size := by
  simp only [Room, MainThread.checked, arrayEnd, ProfilerMemory.checkAndInitialize_startPointer,
    ProfilerMemory.checkAndInitialize_idem]

/-- `RealX::realloc`, of a null pointer or of a block of the real
allocator. -/
theorem Sound.realRealloc {sz : Nat} (h : Sound s) (hreal : s.RealRealloc ptr sz real) :
    Sound (s.realRealloc ptr sz real).state := by
  rw [MainThread.realRealloc]
  split
  · next hrefused => exact h.keeps (hreal.refused hrefused.1 hrefused.2)
  · have hmalloc : s.RealMalloc (s.release ptr).blocks sz real := ⟨hreal.keeps, hreal.object⟩
    exact ((h.release ptr).realAllocation (hmalloc.release ptr)).1

theorem RealRealloc.checked {sz : Nat} (h : s.RealRealloc ptr sz real) :
    s.checked.RealRealloc ptr sz real where
  refused hnull hsz := (h.refused hnull hsz).checked
  keeps := h.keeps.checked
  object hnull := (h.object hnull).checked
  contents := h.contents

/-- Before initialisation a call never reaches the real `realloc`. -/
theorem yyrealloc_myMalloc {phase : Phase} {inside : Bool}
    (h : phase.caller.yyrealloc inside = .myMalloc) : phase.profilerInitialized = false := by
  cases hphase : phase.profilerInitialized with
  | false => rfl
  | true =>
      simp only [CallerStatus.yyrealloc, Phase.caller, CallerStatus.profilerNotInitialized, hphase,
        Bool.not_true, Bool.false_eq_true, and_false, if_false] at h
      split at h
      · cases h
      · split at h <;> cases h

/-- Afterwards it does, for a block that is not in the buffer. -/
theorem yyrealloc_real {phase : Phase} (h : phase.profilerInitialized = true) :
    phase.caller.yyrealloc false = .real ∨ phase.caller.yyrealloc false = .tracked := by
  simp only [CallerStatus.yyrealloc, Phase.caller, CallerStatus.profilerNotInitialized, h,
    Bool.not_true, Bool.false_eq_true, and_false, if_false]
  split
  · exact Or.inl rfl
  · exact Or.inr rfl

theorem Sound.call (h : Sound s) (c : MainCall) (hp : s.Permitted c) (hc : s.Careful c) :
    Sound (s.call c).state := by
  cases c with
  | yymalloc phase sz real => exact h.allocate hp hc
  | yycalloc phase nelem elsize real =>
      have hreal : s.RealMalloc s.blocks (nelem * elsize) real := hp.toRealMalloc
      rw [MainThread.call]
      cases hroute : phase.caller.yycalloc nelem elsize with
      | nothing => exact h
      | myMalloc =>
          have hroom := hc hroute
          simp only [h.wrap_room hroom]
          exact (h.myMalloc hroom).1
      | realMalloc => exact (h.realAllocation hreal).1
      | real => exact (h.realAllocation hreal).1
      | tracked => exact (h.realAllocation hreal).1
  | yyfree phase ptr real =>
      rw [MainThread.call]
      split
      · exact h
      · have hkeeps := (h.checked.release ptr).keeps (hp.2.checked.release ptr)
        cases phase.caller.yyfree (s.inProfilerMemory ptr) with
        | nothing => exact h.checked.release ptr
        | myMalloc => exact hkeeps
        | realMalloc => exact hkeeps
        | real => exact hkeeps
        | tracked => exact hkeeps
  | yyrealloc phase ptr sz real =>
      obtain ⟨-, hreal⟩ := hp
      rw [MainThread.call]
      cases hroute : phase.caller.yyrealloc (s.inProfilerMemory ptr) with
      | nothing => exact h.checked
      | myMalloc =>
          refine ((h.checked.release ptr).myMalloc ?_).1
          exact checked_room.mpr (hc.1 (yyrealloc_myMalloc hroute))
      | realMalloc =>
          rw [hroute] at hreal
          exact ((h.checked.release ptr).realAllocation (hreal.checked.release ptr)).1
      | real =>
          rw [hroute] at hreal
          exact h.checked.realRealloc hreal.checked
      | tracked =>
          rw [hroute] at hreal
          exact h.checked.realRealloc hreal.checked
  | yyposixMemalign phase size real =>
      refine h.allocate hp fun hroute => ?_
      simp only [CallerStatus.yyposixMemalign] at hroute
      split at hroute
      · cases hroute
      · split at hroute <;> cases hroute
  | yymemalign phase size real => exact h.allocate hp hc
  | write address value =>
      obtain ⟨b, hb, hcovers⟩ := hp
      have hplaced := h.placed b hb
      have hsame : ∀ a, s.profilerMemory.checkAndInitialize.overheadPointer ≤ a → a < s.arrayEnd →
          a ≠ address := by
        have hge := h.overhead_ge
        simp only [Span.Covers] at hcovers
        rw [Placed] at hplaced
        rintro a ha ha' rfl
        split at hplaced
        · omega
        · omega
      refine ⟨h.pos, h.fits, h.endPointer, h.overhead_ge, h.overhead_le, fun a ha ha' => ?_,
        h.placed, h.apart⟩
      exact (Function.update_of_ne (hsame a ha ha') _ _).trans (h.zero a ha ha')
  | readPredictorInfoFile => exact (h.myMalloc hc).1

/-! ## Every call is transparent -/

theorem yyfree_real {phase : Phase} (h : phase.profilerInitialized = true) :
    phase.caller.yyfree false = .real ∨ phase.caller.yyfree false = .tracked := by
  simp only [CallerStatus.yyfree, Phase.caller, CallerStatus.profilerNotInitialized, h,
    Bool.not_true, Bool.false_eq_true, or_self, if_false]
  split
  · exact Or.inl rfl
  · exact Or.inr rfl

theorem yyfree_inside (phase : Phase) : phase.caller.yyfree true = .nothing := by
  rw [CallerStatus.yyfree, if_pos (Or.inl rfl)]

theorem yyrealloc_inside (phase : Phase) :
    phase.caller.yyrealloc true = .myMalloc ∨ phase.caller.yyrealloc true = .realMalloc := by
  simp only [CallerStatus.yyrealloc, if_true]
  split
  · exact Or.inl rfl
  · exact Or.inr rfl

/-- A block of the real allocator is resized by the real function. -/
theorem Sound.resizes {phase : Phase} {sz : Nat} (h : Sound s)
    (hp : s.Permitted (.yyrealloc phase ptr sz real)) (hsz : 0 < sz) (hb : b ∈ s.blocks)
    (hstart : b.span.start = ptr) (hinit : phase.profilerInitialized = true)
    (hreal : b.fromMyMalloc = false) : s.Resizes (.yyrealloc phase ptr sz real) b sz real := by
  subst hstart
  have hinside := h.inProfilerMemory hb
  rw [hreal] at hinside
  obtain ⟨hcall, hrealloc⟩ : s.call (.yyrealloc phase b.span.start sz real) =
      s.checked.realRealloc b.span.start sz real ∧ s.RealRealloc b.span.start sz real := by
    have hcontract := hp.2
    rw [MainThread.call, hinside] at *
    rcases yyrealloc_real hinit with hroute | hroute
    · rw [hroute] at hcontract ⊢
      exact ⟨rfl, hcontract⟩
    · rw [hroute] at hcontract ⊢
      exact ⟨rfl, hcontract⟩
  rw [Resizes, hcall, MainThread.realRealloc]
  by_cases hnull : real.object = 0
  · rw [if_pos ⟨hnull, by omega⟩]
    exact Or.inl ⟨rfl, hnull, rfl⟩
  · rw [if_neg fun hrefused => hnull hrefused.1]
    have hmalloc : s.RealMalloc (s.release b.span.start).blocks sz real :=
      ⟨hrealloc.keeps, hrealloc.object⟩
    have hreturns := ((h.checked.release b.span.start).realAllocation
      (hmalloc.checked.release b.span.start)).2 hnull
    exact Or.inr ⟨hreturns, hrealloc.contents hnull b hb rfl⟩

theorem Sound.zeroFilled {phase : Phase} {nelem elsize : Nat} (h : Sound s)
    (hp : s.Permitted (.yycalloc phase nelem elsize real))
    (hc : s.Careful (.yycalloc phase nelem elsize real)) :
    (s.call (.yycalloc phase nelem elsize real)).object = 0 ∨
      (s.call (.yycalloc phase nelem elsize real)).Returns (nelem * elsize) ∧
        ∀ i < nelem * elsize, (s.call (.yycalloc phase nelem elsize real)).state.memory
          ((s.call (.yycalloc phase nelem elsize real)).object + i) = 0 := by
  have hcalloc : s.RealCalloc nelem elsize real := hp
  have hreal : (s.realAllocation (nelem * elsize) real).object = 0 ∨
      (s.realAllocation (nelem * elsize) real).Returns (nelem * elsize) ∧
        ∀ i < nelem * elsize, (s.realAllocation (nelem * elsize) real).state.memory
          ((s.realAllocation (nelem * elsize) real).object + i) = 0 := by
    by_cases hnull : real.object = 0
    · exact Or.inl hnull
    · exact Or.inr ⟨(h.realAllocation hcalloc.toRealMalloc).2 hnull, hcalloc.zero hnull⟩
  rw [MainThread.call]
  cases hroute : phase.caller.yycalloc nelem elsize with
  | nothing => exact Or.inl rfl
  | myMalloc =>
      have hroom := hc hroute
      simp only [h.wrap_room hroom]
      exact Or.inr (h.myMalloc hroom).2
  | realMalloc => exact hreal
  | real => exact hreal
  | tracked => exact hreal

/-- Only pointers that are not into the buffer are passed on. -/
theorem passed_outside {c : MainCall} (h : (s.call c).passed = some ptr) :
    s.inProfilerMemory ptr = false := by
  have hallocate : ∀ route size real, (s.allocate route size real).passed = none := by
    intro route size real
    cases route <;> rfl
  cases c with
  | yymalloc phase sz real => rw [MainThread.call, hallocate] at h; cases h
  | yycalloc phase nelem elsize real =>
      rw [MainThread.call] at h
      cases hroute : phase.caller.yycalloc nelem elsize <;> rw [hroute] at h <;> cases h
  | yyfree phase p real =>
      rw [MainThread.call] at h
      split at h
      · cases h
      · cases hinside : s.inProfilerMemory p with
        | true => rw [hinside, yyfree_inside] at h; cases h
        | false =>
            cases hroute : phase.caller.yyfree (s.inProfilerMemory p) <;> rw [hroute] at h <;>
              cases h <;> exact hinside
  | yyrealloc phase p sz real =>
      rw [MainThread.call] at h
      have hpassed : ∀ s : MainThread, (s.realRealloc p sz real).passed = some p := by
        intro s
        rw [MainThread.realRealloc]
        split <;> rfl
      cases hinside : s.inProfilerMemory p with
      | true =>
          rw [hinside] at h
          rcases yyrealloc_inside phase with hroute | hroute <;> rw [hroute] at h <;> cases h
      | false =>
          cases hroute : phase.caller.yyrealloc (s.inProfilerMemory p) <;> rw [hroute] at h
          · cases h
          · cases h
          · cases h
          · rw [hpassed] at h
            cases h
            exact hinside
          · rw [hpassed] at h
            cases h
            exact hinside
  | yyposixMemalign phase size real => rw [MainThread.call, hallocate] at h; cases h
  | yymemalign phase size real => rw [MainThread.call, hallocate] at h; cases h
  | write address value => cases h
  | readPredictorInfoFile => cases h

theorem Sound.transparent (h : Sound s) (c : MainCall) (hp : s.Permitted c) (hc : s.Careful c) :
    s.Transparent c where
  resizes phase ptr sz real hcall hsz b hb hstart := by
    subst hcall
    obtain ⟨hinit, hreal⟩ := hc.2 hsz b hb hstart
    exact h.resizes hp hsz hb hstart hinit hreal
  zeroFilled phase nelem elsize real hcall := by
    subst hcall
    exact h.zeroFilled hp hc
  kept ptr hpassed b hb hstart := by
    rw [← h.inProfilerMemory hb, hstart]
    exact passed_outside hpassed
  freed phase ptr real hcall hinit b hb hstart hreal := by
    subst hcall hstart
    have hinside := h.inProfilerMemory hb
    have hplaced := h.placed b hb
    rw [Placed, if_neg (by simp [hreal])] at hplaced
    rw [hreal] at hinside
    rw [MainThread.call, if_neg hplaced.1, hinside]
    rcases yyfree_real hinit with hroute | hroute <;> rw [hroute]

end MainThread

/-- As long as the buffer has room and blocks are resized by the real
`realloc`, the program does not notice the profiler. -/
theorem main_thread_transparent {a : StaticMemory} {past : List MainCall} {s : MainThread}
    (h : Run MainThread.step (fun _ s c => s.Permitted c ∧ s.Careful c) (.initial a) past s)
    {c : MainCall} (hp : s.Permitted c) (hc : s.Careful c) : s.Transparent c := by
  have hsound : s.Sound := h.invariant MainThread.Sound (.initial a) fun _ s c s' hs hg hstep => by
    cases hstep
    exact hs.call c hg.1 hg.2
  exact hsound.transparent c hp hc

/-- A program whose memory is all zeros. -/
def zeroedMemory : StaticMemory where
  startPointer := 4096
  memory _ := 0
  pos := by decide
  fits := by decide
  zero _ _ _ := rfl

/-- A real function that returns `object` and leaves zeros. -/
def zeroedResult (object : Nat) : RealResult where
  object
  memory _ := 0

/-- After initialisation, a block of the real allocator is enlarged. -/
theorem main_thread_transparent_resize : ∃ past s,
    Run MainThread.step (fun _ s c => s.Permitted c ∧ s.Careful c) (.initial zeroedMemory) past s ∧
      s.Transparent (.yyrealloc ⟨true, false, false⟩ (2 ^ 40) 32 (zeroedResult (2 ^ 41))) := by
  have hmalloc : (MainThread.initial zeroedMemory).Permitted
      (.yymalloc ⟨true, false, false⟩ 16 (zeroedResult (2 ^ 40))) :=
    ⟨⟨fun _ _ _ _ => rfl, fun _ _ _ => rfl⟩, fun _ => ⟨Or.inr (by decide), fun b hb => by cases hb⟩⟩
  have hrun : Run MainThread.step (fun _ s c => s.Permitted c ∧ s.Careful c)
      (.initial zeroedMemory) [.yymalloc ⟨true, false, false⟩ 16 (zeroedResult (2 ^ 40))] _ :=
    Run.nil.snoc ⟨hmalloc, fun hroute => by cases hroute⟩ rfl
  refine ⟨_, _, hrun, main_thread_transparent hrun ⟨Or.inr ⟨_, List.mem_singleton_self _, rfl⟩, ?_⟩
    ⟨fun hphase => (by cases hphase), fun _ b hb _ => ⟨rfl, ?_⟩⟩⟩
  · exact ⟨fun hnull => absurd hnull (by decide), ⟨fun _ _ _ _ => rfl, fun _ _ _ => rfl⟩,
      fun _ => ⟨Or.inr (by decide), fun b hb => by cases hb⟩, fun _ _ _ _ _ _ => rfl⟩
  · rw [List.mem_singleton.mp hb]

/-- Before initialisation a resize loses what was written. -/
theorem resize_loses_contents : ¬ ∀ (a : StaticMemory) (past : List MainCall) (s : MainThread)
    (c : MainCall), Run MainThread.step (fun _ s c => s.Permitted c) (.initial a) past s →
      s.Permitted c → s.Transparent c := by
  intro h
  have hmalloc : (MainThread.initial zeroedMemory).Permitted
      (.yymalloc ⟨false, false, false⟩ 8 (zeroedResult 0)) :=
    ⟨⟨fun _ _ _ _ => rfl, fun _ _ _ => rfl⟩, fun hnull => absurd rfl hnull⟩
  have hwrite : ((MainThread.initial zeroedMemory).call
      (.yymalloc ⟨false, false, false⟩ 8 (zeroedResult 0))).state.Permitted (.write 4096 7) :=
    ⟨⟨⟨4096, 8⟩, true⟩, by decide, by decide⟩
  have htransparent :=
    h zeroedMemory _ _ (.yyrealloc ⟨false, false, false⟩ 4096 16 (zeroedResult 0))
    ((Run.nil.snoc hmalloc rfl).snoc hwrite rfl)
    ⟨Or.inr ⟨⟨⟨4096, 8⟩, true⟩, by decide, rfl⟩, trivial⟩
  rcases htransparent.resizes _ _ _ _ rfl (by decide) ⟨⟨4096, 8⟩, true⟩ (by decide) rfl with
    ⟨hnull, -⟩ | ⟨-, hcontents⟩
  · exact absurd hnull (by decide)
  · exact absurd (hcontents 0 (by decide)) (by decide)

end MemPerf
