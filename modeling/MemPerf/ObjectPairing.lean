import MemPerf.AllocatingStatus
import MemPerf.Interposition
import MemPerf.ShadowAccounting

/-!
# Which frees undo which allocations

The allocations and frees of the program while the profiler records them:
what they do to `objStatusMap` and, through it, to the shadow memory.
`yymalloc` and `yyrealloc` enter the object they return, the other
allocation functions do not; every free asks the map, and entries stay in
it for good.
-/

namespace MemPerf

open Word Chained Coverage StepSystem

/-- `MAX_OBJ_NUM`. -/
@[simp] abbrev maxObjNum : Nat := 4194304

namespace ObjTable

/-- The call key is what `Callsite::getCallKey` returns. -/
def allocUpdate (m : HashMap Nat ObjStat) (size address callKey tid : Nat) :
    HashMap Nat ObjStat × Bool :=
  match m.find address with
  | none => (m.insert address { callKey, tid, size }, false)
  | some _ => (m.modify address fun _ => { callKey, tid, size }, true)

def freeUpdate (m : HashMap Nat ObjStat) (address : Nat) : Option ObjStat := m.find address

end ObjTable

/-- The table, the shadow memory, and what was done to it, oldest first. -/
structure ObjectRecorder where
  objStatusMap : HashMap Nat ObjStat := HashMap.init hashAddr maxObjNum (by decide)
  shadow : ShadowMemory := {}
  updates : List ShadowOp := []

/-- A call, with the thread that makes it and the object the real function
returns. Objects may come from the real allocator in other ways: before
the profiler is initialised, for instance. -/
inductive HeapCall where
  | yymalloc (tid sz object callKey : Nat)
  | yycalloc (tid nelem elsize object : Nat)
  | yyfree (tid ptr : Nat)
  | yyrealloc (tid ptr sz object callKey : Nat)
  | yyposixMemalign (tid size object : Nat)
  | yymemalign (tid size object : Nat)
  | untracked (size object : Nat)
deriving DecidableEq, Repr

/-- The status of every thread in the runs here. -/
def CallerStatus.recording (tid : Nat) : CallerStatus where
  runningThreadIndex := tid
  profilerInitialized := true
  conclusionHasStarted := false
  doingAllocation := false

theorem CallerStatus.recording_yymalloc {tid sz : Nat} (h : sz ≠ 0) :
    (CallerStatus.recording tid).yymalloc sz = .tracked := by
  simp [yymalloc, h, allocationRoute, recording, profilerNotInitialized, outsideTrackedAllocation]

theorem CallerStatus.recording_yyfree (tid : Nat) (inProfilerMemory : Bool) :
    (CallerStatus.recording tid).yyfree inProfilerMemory =
      if inProfilerMemory then .nothing else .tracked := by
  simp [yyfree, recording, profilerNotInitialized, outsideTrackedAllocation]

theorem CallerStatus.recording_yyrealloc (tid : Nat) (inProfilerMemory : Bool) :
    (CallerStatus.recording tid).yyrealloc inProfilerMemory =
      if inProfilerMemory then .realMalloc else .tracked := by
  simp [yyrealloc, recording, profilerNotInitialized, outsideTrackedAllocation]

namespace ObjectRecorder

variable (p : ObjectRecorder)

/-- The two calls of `updateMemoryStatusAfterAllocation`. -/
def updateMemoryStatusAfterAllocation (objectSize objectAddress callKey tid : Nat) :
    Option ObjectRecorder :=
  (p.shadow.mallocUpdateObject objectAddress objectSize).map fun shadow =>
    { objStatusMap := (ObjTable.allocUpdate p.objStatusMap objectSize objectAddress callKey tid).1
      shadow
      updates := p.updates ++ [.mallocUpdateObject objectAddress objectSize] }

def updateMemoryStatusBeforeFree (objectAddress : Nat) : Option ObjectRecorder :=
  match ObjTable.freeUpdate p.objStatusMap objectAddress with
  | some objStat =>
      if objStat.size ≠ 0 then
        (p.shadow.freeUpdateObject objectAddress objStat).map fun shadow =>
          { p with shadow, updates := p.updates ++ [.freeUpdateObject objectAddress objStat] }
      else some p
  | none => some p

/-- `m` is the buffer of the profiler. Only `MALLOC` and `REALLOC` enter an
object in the table. -/
def step (m : ProfilerMemory) : HeapCall → Option ObjectRecorder
  | .yymalloc tid sz object callKey =>
      match (CallerStatus.recording tid).yymalloc sz with
      | .tracked => p.updateMemoryStatusAfterAllocation (wrap 32 sz) object callKey tid
      | _ => some p
  | .yyfree tid ptr =>
      if ptr = 0 then some p
      else
        match (CallerStatus.recording tid).yyfree (m.ifInProfilerMemoryThenFree ptr).2 with
        | .tracked => p.updateMemoryStatusBeforeFree ptr
        | _ => some p
  | .yyrealloc tid ptr sz object callKey =>
      match (CallerStatus.recording tid).yyrealloc (m.ifInProfilerMemoryThenFree ptr).2 with
      | .tracked => do
          let p ← (if ptr ≠ 0 then p.updateMemoryStatusBeforeFree ptr else some p)
          p.updateMemoryStatusAfterAllocation (wrap 32 sz) object callKey tid
      | _ => some p
  | .yycalloc .. => some p
  | .yyposixMemalign .. => some p
  | .yymemalign .. => some p
  | .untracked .. => some p

end ObjectRecorder

/-! ## The real allocator -/

/-- A block of the real allocator; `recorded` ones come from a tracked
`yymalloc` or `yyrealloc`. -/
structure HeapBlock where
  span : Span
  recorded : Bool
deriving DecidableEq, Repr

/-- The live blocks without the one at `ptr`. -/
def dropBlock (ptr : Nat) (live : List HeapBlock) : List HeapBlock :=
  live.filter fun b => decide (b.span.start ≠ ptr)

/-- The live blocks after one more call. -/
def heapStep (m : ProfilerMemory) (live : List HeapBlock) : HeapCall → List HeapBlock
  | .yymalloc _ sz object _ => ⟨⟨object, sz⟩, true⟩ :: live
  | .yycalloc _ nelem elsize object => ⟨⟨object, nelem * elsize⟩, false⟩ :: live
  | .yyfree _ ptr => dropBlock ptr live
  | .yyrealloc _ ptr sz object _ =>
      ⟨⟨object, sz⟩, !(m.ifInProfilerMemoryThenFree ptr).2⟩ :: dropBlock ptr live
  | .yyposixMemalign _ size object => ⟨⟨object, size⟩, false⟩ :: live
  | .yymemalign _ size object => ⟨⟨object, size⟩, false⟩ :: live
  | .untracked size object => ⟨⟨object, size⟩, false⟩ :: live

def liveBlocks (m : ProfilerMemory) (past : List HeapCall) : List HeapBlock :=
  past.foldl (heapStep m) []

theorem liveBlocks_snoc (m : ProfilerMemory) (past : List HeapCall) (call : HeapCall) :
    liveBlocks m (past ++ [call]) = heapStep m (liveBlocks m past) call := by
  simp [liveBlocks]

/-- What the real allocator may return. -/
structure Fits (m : ProfilerMemory) (live : List HeapBlock) (size object : Nat) : Prop where
  size_pos : 0 < size
  size_lt : size < 2 ^ 32
  object_ne : object ≠ 0
  outside : (m.ifInProfilerMemoryThenFree object).2 = false
  apart : ∀ b ∈ live, Span.Apart ⟨object, size⟩ b.span

/-- What the program may free. -/
def Owned (m : ProfilerMemory) (live : List HeapBlock) (ptr : Nat) : Prop :=
  ptr = 0 ∨ (m.ifInProfilerMemoryThenFree ptr).2 = true ∨ ∃ b ∈ live, b.span.start = ptr

/-- The calls that may come next. -/
def HeapCall.Permitted (m : ProfilerMemory) (live : List HeapBlock) : HeapCall → Prop
  | .yymalloc _ sz object _ => Fits m live sz object
  | .yycalloc _ nelem elsize object => Fits m live (nelem * elsize) object
  | .yyfree _ ptr => Owned m live ptr
  | .yyrealloc _ ptr sz object _ => Owned m live ptr ∧ Fits m (dropBlock ptr live) sz object
  | .yyposixMemalign _ size object => Fits m live size object
  | .yymemalign _ size object => Fits m live size object
  | .untracked size object => Fits m live size object

/-- A new entry finds room in the count of its bucket. -/
def HeapCall.HasRoom (p : ObjectRecorder) : HeapCall → Prop
  | .yymalloc _ _ object _ | .yyrealloc _ _ _ object _ =>
      p.objStatusMap.find object = none → (p.objStatusMap.home object).list.length + 1 < 2 ^ 16
  | _ => True

/-- A block that is freed or resized is a recorded one, or the table has no
entry for its address. -/
def HeapCall.Unambiguous (live : List HeapBlock) (p : ObjectRecorder) : HeapCall → Prop
  | .yyfree _ ptr | .yyrealloc _ ptr _ _ _ =>
      ∀ b ∈ live, b.span.start = ptr → b.recorded = true ∨ p.objStatusMap.find ptr = none
  | _ => True

/-! ## What is to hold -/

/-- The recorded ones among the blocks. -/
def recordedSpans (live : List HeapBlock) : List Span :=
  (live.filter HeapBlock.recorded).map HeapBlock.span

/-- Every free finds exactly one object with its address and size that was
added and not yet freed. -/
def Matched (updates : List ShadowOp) : Prop :=
  ∀ front address objStat, front ++ [.freeUpdateObject address objStat] <+: updates →
    (liveObjects front).count ⟨address, objStat.size⟩ = 1

/-- The frees so far undo allocations, the allocations that stand are those
of the recorded live blocks, and no count is negative. -/
structure Paired (live : List HeapBlock) (p : ObjectRecorder) : Prop where
  matched : Matched p.updates
  outstanding : (liveObjects p.updates).Perm (recordedSpans live)
  pages : ∀ range index, 0 ≤ (p.shadow.pageMap range index).numUsedBytes
  lines : ∀ c, 0 ≤ (p.shadow.cacheMap c).numUsedBytes

/-! ## Lists of live blocks -/

variable {m : ProfilerMemory} {live : List HeapBlock} {updates : List ShadowOp}

theorem recordedSpans_cons (b : HeapBlock) (live : List HeapBlock) :
    recordedSpans (b :: live) =
      if b.recorded = true then b.span :: recordedSpans live else recordedSpans live := by
  cases hb : b.recorded <;> simp [recordedSpans, hb]

theorem mem_recordedSpans {o : Span} :
    o ∈ recordedSpans live ↔ ∃ b ∈ live, b.recorded = true ∧ b.span = o := by
  simp [recordedSpans, and_assoc]

/-- Live blocks have bytes, and no two have one in common. -/
structure Separate (live : List HeapBlock) : Prop where
  apart : live.Pairwise fun b b' => b.span.Apart b'.span
  pos : ∀ b ∈ live, 0 < b.span.len

theorem Separate.start_inj (h : Separate live) {b b' : HeapBlock} (hb : b ∈ live) (hb' : b' ∈ live)
    (hstart : b.span.start = b'.span.start) : b = b' := by
  by_contra hne
  have hsymm : Std.Symm fun b b' : HeapBlock => b.span.Apart b'.span := ⟨fun _ _ hab => hab.symm⟩
  have hap : b.span.Apart b'.span := h.apart.forall hb hb' hne
  have hpos := h.pos b hb
  have hpos' := h.pos b' hb'
  exact hap b.span.start ⟨Nat.le_refl _, by omega⟩ ⟨by omega, by omega⟩

theorem Separate.cons (h : Separate live) {size object : Nat} (hfit : Fits m live size object)
    (recorded : Bool) : Separate (⟨⟨object, size⟩, recorded⟩ :: live) where
  apart := List.pairwise_cons.mpr ⟨hfit.apart, h.apart⟩
  pos := by
    intro b hb
    rcases List.mem_cons.mp hb with rfl | hb
    · exact hfit.size_pos
    · exact h.pos b hb

theorem Separate.drop (h : Separate live) (ptr : Nat) : Separate (dropBlock ptr live) where
  apart := h.apart.filter _
  pos b hb := h.pos b (List.mem_of_mem_filter hb)

theorem mem_dropBlock {ptr : Nat} {b : HeapBlock} :
    b ∈ dropBlock ptr live ↔ b ∈ live ∧ b.span.start ≠ ptr := by
  simp [dropBlock]

/-- A pointer at which no block starts frees none. -/
theorem dropBlock_eq_self {ptr : Nat} (h : ∀ b ∈ live, b.span.start ≠ ptr) :
    dropBlock ptr live = live := by
  rw [dropBlock, List.filter_eq_self]
  intro b hb
  simpa using h b hb

/-- No block starts at a null pointer or inside the buffer. -/
def Placed (m : ProfilerMemory) (live : List HeapBlock) : Prop :=
  ∀ b ∈ live, b.span.start ≠ 0 ∧ (m.ifInProfilerMemoryThenFree b.span.start).2 = false

theorem Placed.cons (h : Placed m live) {size object : Nat} (hfit : Fits m live size object)
    (recorded : Bool) : Placed m (⟨⟨object, size⟩, recorded⟩ :: live) := by
  intro b hb
  rcases List.mem_cons.mp hb with rfl | hb
  · exact ⟨hfit.object_ne, hfit.outside⟩
  · exact h b hb

theorem Placed.drop (h : Placed m live) (ptr : Nat) : Placed m (dropBlock ptr live) :=
  fun b hb => h b (mem_dropBlock.mp hb).1

theorem Separate.recordedSpans_nodup (h : Separate live) : (recordedSpans live).Nodup := by
  have hfilter : (live.filter HeapBlock.recorded).Nodup := by
    refine (h.apart.filter _).imp_of_mem ?_
    rintro b b' hb - hab rfl
    have hpos := h.pos b (List.mem_of_mem_filter hb)
    exact hab b.span.start ⟨Nat.le_refl _, by omega⟩ ⟨Nat.le_refl _, by omega⟩
  refine hfilter.map_on ?_
  intro b hb b' hb' hspan
  exact h.start_inj (List.mem_of_mem_filter hb) (List.mem_of_mem_filter hb') (by rw [hspan])

theorem Separate.recordedSpans_drop (h : Separate live) {b : HeapBlock} (hb : b ∈ live) :
    recordedSpans (dropBlock b.span.start live) = (recordedSpans live).erase b.span := by
  rw [(h.recordedSpans_nodup).erase_eq_filter, recordedSpans, recordedSpans, dropBlock,
    List.filter_map, List.filter_filter, List.filter_filter]
  congr 1
  refine List.filter_congr fun b' hb' => ?_
  by_cases hstart : b'.span.start = b.span.start
  · rw [h.start_inj hb' hb hstart]
    simp
  · have hspan : b'.span ≠ b.span := fun heq => hstart (by rw [heq])
    simp [hstart, hspan, Bool.and_comm]

theorem Separate.not_mem_recordedSpans (h : Separate live) {b : HeapBlock} (hb : b ∈ live)
    (hrec : b.recorded = false) {n : Nat} : ⟨b.span.start, n⟩ ∉ recordedSpans live := by
  intro hmem
  obtain ⟨b', hb', hrec', hspan⟩ := mem_recordedSpans.mp hmem
  have hstart : b'.span.start = b.span.start := by rw [hspan]
  rw [h.start_inj hb' hb hstart, hrec] at hrec'
  cases hrec'

/-! ## The trace of updates -/

theorem matched_nil : Matched [] := by
  intro front address objStat hfirst
  simp at hfirst

theorem matched_snoc {op : ShadowOp} :
    Matched (updates ++ [op]) ↔ Matched updates ∧
      ∀ address objStat, op = .freeUpdateObject address objStat →
        (liveObjects updates).count ⟨address, objStat.size⟩ = 1 := by
  constructor
  · intro h
    refine ⟨fun front address objStat hfirst => ?_, ?_⟩
    · exact h front address objStat (hfirst.trans (List.prefix_append ..))
    · rintro address objStat rfl
      exact h updates address objStat (List.prefix_refl _)
  · rintro ⟨h, hlast⟩ front address objStat hfirst
    rcases List.prefix_concat_iff.mp hfirst with heq | hold
    · obtain ⟨rfl, hop⟩ := List.append_inj' heq rfl
      exact hlast address objStat (List.singleton_inj.mp hop).symm
    · exact h front address objStat hold

theorem Matched.mono {updates' : List ShadowOp} (h : Matched updates')
    (hfirst : updates <+: updates') : Matched updates :=
  fun front address objStat hfront => h front address objStat (hfront.trans hfirst)

theorem liveObjects_append_malloc (updates : List ShadowOp) (object size : Nat) :
    liveObjects (updates ++ [.mallocUpdateObject object size]) =
      ⟨object, size⟩ :: liveObjects updates :=
  liveObjects_snoc ..

theorem liveObjects_append_free (updates : List ShadowOp) (ptr : Nat) (objStat : ObjStat) :
    liveObjects (updates ++ [.freeUpdateObject ptr objStat]) =
      (liveObjects updates).erase ⟨ptr, objStat.size⟩ :=
  liveObjects_snoc ..

/-- An allocation enters its object, over an older entry if there is one. -/
theorem ObjTable.allocUpdate_spec {t : HashMap Nat ObjStat} (h : t.Counted) {address : Nat}
    (size callKey tid : Nat)
    (hroom : t.find address = none → (t.home address).list.length + 1 < 2 ^ 16) :
    (ObjTable.allocUpdate t size address callKey tid).1.Counted ∧
      ∀ key, (ObjTable.allocUpdate t size address callKey tid).1.find key =
        if key = address then some { callKey, tid, size } else t.find key := by
  rw [ObjTable.allocUpdate]
  cases hfind : t.find address with
  | none => exact ⟨h.insert (hroom hfind), h.find_insert (hroom hfind) hfind⟩
  | some status =>
      refine ⟨h.modify _ _, fun key => ?_⟩
      rw [HashMap.find_modify]
      by_cases hkey : key = address
      · rw [if_pos hkey, if_pos hkey, hkey, hfind]
        rfl
      · rw [if_neg hkey, if_neg hkey]

theorem ObjTable.allocUpdate_sized {t : HashMap Nat ObjStat}
    (h : t.Forall fun e => e.value.size ≠ 0) {size : Nat} (hsize : size ≠ 0)
    (address callKey tid : Nat) :
    (ObjTable.allocUpdate t size address callKey tid).1.Forall fun e => e.value.size ≠ 0 := by
  rw [ObjTable.allocUpdate]
  cases t.find address with
  | none => exact h.insert hsize
  | some status => exact h.modify fun _ _ => hsize

/-! ## The invariant -/

/-- The table holds an entry for every recorded block, the shadow memory
counts these blocks, and every free so far was one of them. -/
structure Recording (m : ProfilerMemory) (live : List HeapBlock) (p : ObjectRecorder) : Prop where
  separate : Separate live
  placed : Placed m live
  counted : p.objStatusMap.Counted
  sized : p.objStatusMap.Forall fun e => e.value.size ≠ 0
  entries : ∀ b ∈ live, b.recorded = true →
    ∃ o, p.objStatusMap.find b.span.start = some o ∧ o.size = b.span.len
  outstanding : (liveObjects p.updates).Perm (recordedSpans live)
  matched : Matched p.updates
  accounts : Accounts (liveObjects p.updates) p.shadow

namespace Recording

variable {p p' : ObjectRecorder} {ptr size object : Nat}

theorem initial (m : ProfilerMemory) : Recording m [] {} where
  separate := ⟨.nil, fun _ hb => by cases hb⟩
  placed := fun _ hb => by cases hb
  counted := HashMap.init_counted hashAddr (by decide)
  sized := HashMap.init_forall hashAddr (by decide) _
  entries := fun _ hb => by cases hb
  outstanding := .nil
  matched := matched_nil
  accounts := accounts_init

theorem paired (h : Recording m live p) : Paired live p where
  matched := h.matched
  outstanding := h.outstanding
  pages range index := by
    rw [h.accounts.counts.pages]
    exact Int.natCast_nonneg _
  lines c := by
    obtain ⟨w, -, hw⟩ := h.accounts.cell c
    rw [hw]
    exact Int.natCast_nonneg _

/-- A block the profiler does not record. -/
theorem untracked (h : Recording m live p) (hfit : Fits m live size object) :
    Recording m (⟨⟨object, size⟩, false⟩ :: live) p where
  separate := h.separate.cons hfit false
  placed := h.placed.cons hfit false
  counted := h.counted
  sized := h.sized
  entries := by
    intro b hb hrec
    rcases List.mem_cons.mp hb with rfl | hb
    · cases hrec
    · exact h.entries b hb hrec
  outstanding := h.outstanding
  matched := h.matched
  accounts := h.accounts

/-- A tracked `yymalloc`, or the second half of a `yyrealloc`. -/
theorem alloc (h : Recording m live p) (hfit : Fits m live size object) {callKey tid : Nat}
    (hroom : p.objStatusMap.find object = none →
      (p.objStatusMap.home object).list.length + 1 < 2 ^ 16)
    (hstep : p.updateMemoryStatusAfterAllocation (wrap 32 size) object callKey tid = some p') :
    Recording m (⟨⟨object, size⟩, true⟩ :: live) p' := by
  rw [ObjectRecorder.updateMemoryStatusAfterAllocation, wrap_of_lt hfit.size_lt] at hstep
  obtain ⟨shadow, hshadow, rfl⟩ := Option.map_eq_some_iff.mp hstep
  obtain ⟨hcounted, hfind⟩ := ObjTable.allocUpdate_spec h.counted size callKey tid hroom
  have hout : ∀ o ∈ liveObjects p.updates, Span.Apart ⟨object, size⟩ o := by
    intro o ho
    obtain ⟨b, hb, -, rfl⟩ := mem_recordedSpans.mp (h.outstanding.mem_iff.mp ho)
    exact hfit.apart b hb
  exact {
    separate := h.separate.cons hfit true
    placed := h.placed.cons hfit true
    counted := hcounted
    sized := ObjTable.allocUpdate_sized h.sized (Nat.pos_iff_ne_zero.mp hfit.size_pos) _ _ _
    entries := by
      intro b hb hrec
      rcases List.mem_cons.mp hb with rfl | hb
      · exact ⟨_, by rw [hfind, if_pos rfl], rfl⟩
      · have hne : b.span.start ≠ object := by
          intro heq
          have hpos := h.separate.pos b hb
          exact hfit.apart b hb object ⟨Nat.le_refl _, by have := hfit.size_pos; simp only; omega⟩
            ⟨by omega, by omega⟩
        rw [hfind, if_neg hne]
        exact h.entries b hb hrec
    outstanding := by
      rw [liveObjects_append_malloc, recordedSpans_cons, if_pos rfl]
      exact h.outstanding.cons _
    matched := matched_snoc.mpr ⟨h.matched, fun _ _ hop => by cases hop⟩
    accounts := by
      rw [liveObjects_append_malloc]
      exact h.accounts.malloc hout hshadow }

/-- A free of a block that is a recorded one or has no entry. -/
theorem release (h : Recording m live p) {b : HeapBlock} (hb : b ∈ live)
    (hclear : b.recorded = true ∨ p.objStatusMap.find b.span.start = none)
    (hstep : p.updateMemoryStatusBeforeFree b.span.start = some p') :
    Recording m (dropBlock b.span.start live) p' := by
  have hdrop := h.separate.recordedSpans_drop hb
  rw [ObjectRecorder.updateMemoryStatusBeforeFree, ObjTable.freeUpdate] at hstep
  cases hrec : b.recorded with
  | true =>
      obtain ⟨o, hfind, hsize⟩ := h.entries b hb hrec
      have hpos := h.separate.pos b hb
      have hmem : b.span ∈ liveObjects p.updates :=
        h.outstanding.mem_iff.mpr (mem_recordedSpans.mpr ⟨b, hb, hrec, rfl⟩)
      have hspan : (⟨b.span.start, o.size⟩ : Span) = b.span := by rw [hsize]
      rw [hfind] at hstep
      simp only [if_pos (show o.size ≠ 0 by omega)] at hstep
      obtain ⟨shadow, hshadow, rfl⟩ := Option.map_eq_some_iff.mp hstep
      exact {
        separate := h.separate.drop _
        placed := h.placed.drop _
        counted := h.counted
        sized := h.sized
        entries := fun b' hb' => h.entries b' (mem_dropBlock.mp hb').1
        outstanding := by
          rw [liveObjects_append_free, hspan, hdrop]
          exact h.outstanding.erase _
        matched := by
          refine matched_snoc.mpr ⟨h.matched, ?_⟩
          intro address objStat hop
          obtain ⟨rfl, rfl⟩ := ShadowOp.freeUpdateObject.inj hop
          rw [hspan, h.outstanding.count_eq]
          exact List.count_eq_one_of_mem h.separate.recordedSpans_nodup
            (h.outstanding.mem_iff.mp hmem)
        accounts := by
          rw [liveObjects_append_free]
          exact h.accounts.free (hspan ▸ hmem) hshadow }
  | false =>
      have hnone : p.objStatusMap.find b.span.start = none := hclear.resolve_left (by simp [hrec])
      rw [hnone] at hstep
      obtain rfl := Option.some.inj hstep
      rw [List.erase_of_not_mem (h.separate.not_mem_recordedSpans hb hrec)] at hdrop
      exact {
        separate := h.separate.drop _
        placed := h.placed.drop _
        counted := h.counted
        sized := h.sized
        entries := fun b' hb' => h.entries b' (mem_dropBlock.mp hb').1
        outstanding := hdrop ▸ h.outstanding
        matched := h.matched
        accounts := h.accounts }

/-- A free of an unrecorded block with an entry undoes nothing. -/
theorem stale_free (h : Recording m live p) {b : HeapBlock} (hb : b ∈ live)
    (hrec : b.recorded = false) {o : ObjStat} (hfind : p.objStatusMap.find b.span.start = some o)
    (hstep : p.updateMemoryStatusBeforeFree b.span.start = some p') : ¬ Matched p'.updates := by
  have hsize : o.size ≠ 0 := h.sized.find hfind
  rw [ObjectRecorder.updateMemoryStatusBeforeFree, ObjTable.freeUpdate, hfind] at hstep
  simp only [if_pos hsize] at hstep
  obtain ⟨shadow, -, rfl⟩ := Option.map_eq_some_iff.mp hstep
  intro hmatched
  have hcount := (matched_snoc.mp hmatched).2 _ _ rfl
  rw [h.outstanding.count_eq, List.count_eq_zero_of_not_mem
    (h.separate.not_mem_recordedSpans hb hrec)] at hcount
  cases hcount

theorem objStatusMap_beforeFree (hstep : p.updateMemoryStatusBeforeFree ptr = some p') :
    p'.objStatusMap = p.objStatusMap := by
  rw [ObjectRecorder.updateMemoryStatusBeforeFree] at hstep
  split at hstep
  · split at hstep
    · obtain ⟨shadow, -, rfl⟩ := Option.map_eq_some_iff.mp hstep
      rfl
    · obtain rfl := Option.some.inj hstep
      rfl
  · obtain rfl := Option.some.inj hstep
    rfl

/-- What `ptr` is, if the program may free it. -/
theorem owned_cases (h : Recording m live p) (hown : Owned m live ptr) :
    (dropBlock ptr live = live ∧ (ptr = 0 ∨ (m.ifInProfilerMemoryThenFree ptr).2 = true)) ∨
      ptr ≠ 0 ∧ (m.ifInProfilerMemoryThenFree ptr).2 = false ∧ ∃ b ∈ live, b.span.start = ptr := by
  by_cases hblock : ∃ b ∈ live, b.span.start = ptr
  · obtain ⟨b, hb, rfl⟩ := hblock
    obtain ⟨hne, hout⟩ := h.placed b hb
    exact .inr ⟨hne, hout, b, hb, rfl⟩
  · refine .inl ⟨dropBlock_eq_self fun b hb hstart => hblock ⟨b, hb, hstart⟩, ?_⟩
    rcases hown with hzero | hinside | hb
    · exact .inl hzero
    · exact .inr hinside
    · exact absurd hb hblock

/-- One more call. -/
theorem call {call : HeapCall} (h : Recording m live p) (hpermitted : call.Permitted m live)
    (hroom : call.HasRoom p) (hclear : call.Unambiguous live p)
    (hstep : p.step m call = some p') : Recording m (heapStep m live call) p' := by
  cases call with
  | yymalloc tid sz object callKey =>
      have hne : sz ≠ 0 := Nat.pos_iff_ne_zero.mp hpermitted.size_pos
      simp only [ObjectRecorder.step, CallerStatus.recording_yymalloc hne] at hstep
      exact h.alloc hpermitted hroom hstep
  | yyfree tid ptr =>
      rw [ObjectRecorder.step, CallerStatus.recording_yyfree] at hstep
      rw [heapStep]
      rcases h.owned_cases hpermitted with ⟨hsame, hskip⟩ | ⟨hne, hout, b, hb, rfl⟩
      · have hkept : p' = p := by
          rcases hskip with rfl | hinside
          · exact (Option.some.inj hstep).symm
          · rw [hinside] at hstep
            split at hstep <;> exact (Option.some.inj hstep).symm
        rw [hkept, hsame]
        exact h
      · rw [if_neg hne, hout] at hstep
        exact h.release hb (hclear b hb rfl) hstep
  | yyrealloc tid ptr sz object callKey =>
      obtain ⟨hown, hfit⟩ := hpermitted
      rw [ObjectRecorder.step, CallerStatus.recording_yyrealloc] at hstep
      rw [heapStep]
      cases hinside : (m.ifInProfilerMemoryThenFree ptr).2 with
      | true =>
          rw [hinside] at hstep
          obtain rfl := Option.some.inj hstep
          rcases h.owned_cases hown with ⟨hsame, -⟩ | ⟨-, hout, -⟩
          · rw [hsame] at hfit ⊢
            exact h.untracked hfit
          · rw [hinside] at hout
            cases hout
      | false =>
          rw [hinside] at hstep
          obtain ⟨p₁, hfree, halloc⟩ := Option.bind_eq_some_iff.mp hstep
          rcases h.owned_cases hown with ⟨hsame, hskip⟩ | ⟨hne, -, b, hb, rfl⟩
          · obtain rfl : ptr = 0 := hskip.resolve_right (by simp [hinside])
            obtain rfl := Option.some.inj hfree
            rw [hsame] at hfit ⊢
            exact h.alloc hfit hroom halloc
          · rw [if_pos hne] at hfree
            have h₁ := h.release hb (hclear b hb rfl) hfree
            exact h₁.alloc hfit (by rw [objStatusMap_beforeFree hfree]; exact hroom) halloc
  | yycalloc tid nelem elsize object =>
      obtain rfl := Option.some.inj hstep
      exact h.untracked hpermitted
  | yyposixMemalign tid size object =>
      obtain rfl := Option.some.inj hstep
      exact h.untracked hpermitted
  | yymemalign tid size object =>
      obtain rfl := Option.some.inj hstep
      exact h.untracked hpermitted
  | untracked size object =>
      obtain rfl := Option.some.inj hstep
      exact h.untracked hpermitted

theorem updates_afterAllocation {callKey tid : Nat}
    (hstep : p.updateMemoryStatusAfterAllocation size object callKey tid = some p') :
    p.updates <+: p'.updates := by
  obtain ⟨shadow, -, rfl⟩ := Option.map_eq_some_iff.mp hstep
  exact List.prefix_append ..

/-- A call after which the frees are still matched met the condition. -/
theorem unambiguous {call : HeapCall} (h : Recording m live p)
    (hstep : p.step m call = some p') (hmatched : Matched p'.updates) :
    call.Unambiguous live p := by
  have hfree : ∀ {b : HeapBlock} {p₁ : ObjectRecorder}, b ∈ live →
      p.updateMemoryStatusBeforeFree b.span.start = some p₁ → p₁.updates <+: p'.updates →
      b.recorded = true ∨ p.objStatusMap.find b.span.start = none := by
    intro b p₁ hb hfree hgrown
    by_contra hno
    rw [not_or] at hno
    obtain ⟨o, ho⟩ := Option.ne_none_iff_exists'.mp hno.2
    exact h.stale_free hb (by simpa using hno.1) ho hfree (hmatched.mono hgrown)
  cases call with
  | yyfree tid ptr =>
      rintro b hb rfl
      obtain ⟨hne, hout⟩ := h.placed b hb
      rw [ObjectRecorder.step, CallerStatus.recording_yyfree, if_neg hne, hout] at hstep
      exact hfree hb hstep (List.prefix_refl _)
  | yyrealloc tid ptr sz object callKey =>
      rintro b hb rfl
      obtain ⟨hne, hout⟩ := h.placed b hb
      rw [ObjectRecorder.step, CallerStatus.recording_yyrealloc, hout] at hstep
      obtain ⟨p₁, hfirst, halloc⟩ := Option.bind_eq_some_iff.mp hstep
      rw [if_pos hne] at hfirst
      exact hfree hb hfirst (updates_afterAllocation halloc)
  | _ => exact trivial

end Recording

/-! ## Runs -/

variable {past : List HeapCall} {p : ObjectRecorder}

/-- The environment of a run: the real allocator and the program keep
their part, and no bucket of the table is full. -/
def Guarded (m : ProfilerMemory) (past : List HeapCall) (p : ObjectRecorder) (call : HeapCall) :
    Prop :=
  call.Permitted m (liveBlocks m past) ∧ call.HasRoom p

/-- The object a call enters in the table. -/
def HeapCall.entered (m : ProfilerMemory) : HeapCall → Option Nat
  | .yymalloc _ _ object _ => some object
  | .yyrealloc _ ptr _ object _ =>
      if (m.ifInProfilerMemoryThenFree ptr).2 then none else some object
  | _ => none

/-- One call adds an entry for the object it enters, if it enters one. -/
theorem ObjectRecorder.step_table {p p' : ObjectRecorder} {call : HeapCall}
    (hcounted : p.objStatusMap.Counted) (hpermitted : call.Permitted m live)
    (hroom : call.HasRoom p) (hstep : p.step m call = some p') :
    p'.objStatusMap.Counted ∧ ∀ key, p'.objStatusMap.find key ≠ none ↔
      p.objStatusMap.find key ≠ none ∨ call.entered m = some key := by
  have halloc : ∀ {p₁ : ObjectRecorder} {size object callKey tid : Nat},
      p₁.objStatusMap = p.objStatusMap →
      (p.objStatusMap.find object = none → (p.objStatusMap.home object).list.length + 1 < 2 ^ 16) →
      p₁.updateMemoryStatusAfterAllocation size object callKey tid = some p' →
      p'.objStatusMap.Counted ∧ ∀ key, p'.objStatusMap.find key ≠ none ↔
        p.objStatusMap.find key ≠ none ∨ some object = some key := by
    intro p₁ size object callKey tid hsame hroom halloc
    obtain ⟨shadow, -, rfl⟩ := Option.map_eq_some_iff.mp halloc
    obtain ⟨hcounted', hfind⟩ := ObjTable.allocUpdate_spec hcounted size callKey tid hroom
    rw [hsame]
    refine ⟨hcounted', fun key => ?_⟩
    rw [hfind]
    by_cases hkey : key = object
    · simp [hkey]
    · simp [hkey, Ne.symm hkey]
  have hsame : p'.objStatusMap = p.objStatusMap → call.entered m = none →
      p'.objStatusMap.Counted ∧ ∀ key, p'.objStatusMap.find key ≠ none ↔
        p.objStatusMap.find key ≠ none ∨ call.entered m = some key := by
    intro hmap hnone
    rw [hmap, hnone]
    exact ⟨hcounted, fun key => by simp⟩
  cases call with
  | yymalloc tid sz object callKey =>
      have hne : sz ≠ 0 := Nat.pos_iff_ne_zero.mp hpermitted.size_pos
      simp only [ObjectRecorder.step, CallerStatus.recording_yymalloc hne] at hstep
      exact halloc rfl hroom hstep
  | yyfree tid ptr =>
      refine hsame ?_ rfl
      rw [ObjectRecorder.step, CallerStatus.recording_yyfree] at hstep
      split at hstep
      · rw [Option.some.inj hstep]
      · cases hinside : (m.ifInProfilerMemoryThenFree ptr).2 with
        | true =>
            rw [hinside] at hstep
            rw [Option.some.inj hstep]
        | false =>
            rw [hinside] at hstep
            exact Recording.objStatusMap_beforeFree hstep
  | yyrealloc tid ptr sz object callKey =>
      rw [ObjectRecorder.step, CallerStatus.recording_yyrealloc] at hstep
      cases hinside : (m.ifInProfilerMemoryThenFree ptr).2 with
      | true =>
          rw [hinside] at hstep
          exact hsame (by rw [Option.some.inj hstep]) (by simp [HeapCall.entered, hinside])
      | false =>
          rw [hinside] at hstep
          obtain ⟨p₁, hfree, hafter⟩ := Option.bind_eq_some_iff.mp hstep
          have hmap : p₁.objStatusMap = p.objStatusMap := by
            split at hfree
            · exact Recording.objStatusMap_beforeFree hfree
            · rw [Option.some.inj hfree]
          have hentered :
              (HeapCall.yyrealloc tid ptr sz object callKey).entered m = some object := by
            simp [HeapCall.entered, hinside]
          rw [hentered]
          exact halloc hmap hroom hafter
  | _ =>
      obtain rfl := Option.some.inj hstep
      exact hsame rfl rfl

/-- The table has an entry for an address exactly if a call entered it. -/
theorem find_ne_none_iff (h : Run (ObjectRecorder.step · m) (Guarded m) {} past p) :
    p.objStatusMap.Counted ∧
      ∀ key, p.objStatusMap.find key ≠ none ↔ ∃ call ∈ past, call.entered m = some key := by
  refine h.inv (fun past p => p.objStatusMap.Counted ∧
    ∀ key, p.objStatusMap.find key ≠ none ↔ ∃ call ∈ past, call.entered m = some key) ?_ ?_
  · refine ⟨HashMap.init_counted hashAddr (by decide), fun key => ?_⟩
    have hnone : ({} : ObjectRecorder).objStatusMap.find key = none := rfl
    simp [hnone]
  · rintro past p call p' - ⟨hcounted, hfind⟩ hguard hstep
    obtain ⟨hcounted', hfind'⟩ := ObjectRecorder.step_table hcounted hguard.1 hguard.2 hstep
    refine ⟨hcounted', fun key => ?_⟩
    rw [hfind', hfind]
    simp [or_and_right, exists_or]

/-- Every state of the run is paired. -/
def PairedThroughout (m : ProfilerMemory) (past : List HeapCall) : Prop :=
  ∀ front p, front <+: past → Run (ObjectRecorder.step · m) (Guarded m) {} front p →
    Paired (liveBlocks m front) p

/-- Every call of the run meets the condition. -/
def UnambiguousThroughout (m : ProfilerMemory) (past : List HeapCall) : Prop :=
  ∀ front call p, front ++ [call] <+: past → Run (ObjectRecorder.step · m) (Guarded m) {} front p →
    call.Unambiguous (liveBlocks m front) p

theorem recording_of_unambiguous (h : Run (ObjectRecorder.step · m) (Guarded m) {} past p) :
    UnambiguousThroughout m past → Recording m (liveBlocks m past) p := by
  induction h with
  | nil => exact fun _ => Recording.initial m
  | @snoc past p call p' hrun hguard hstep ih =>
      intro hall
      have hpast : Recording m (liveBlocks m past) p :=
        ih fun front i q hfirst => hall front i q (hfirst.trans (List.prefix_append ..))
      rw [liveBlocks_snoc]
      exact hpast.call hguard.1 hguard.2 (hall past call p (List.prefix_refl _) hrun) hstep

/-- A run is paired throughout if and only if every free and `realloc` of
it is unambiguous. -/
theorem object_pairing_iff (h : Run (ObjectRecorder.step · m) (Guarded m) {} past p) :
    PairedThroughout m past ↔ UnambiguousThroughout m past := by
  constructor
  · induction h with
    | nil =>
        rintro - front call q hfirst
        simp at hfirst
    | @snoc past call p p' hrun hguard hstep ih =>
        intro hall
        have hpast := ih fun front q hfirst => hall front q (hfirst.trans (List.prefix_append ..))
        intro front i q hfirst hq
        rcases List.prefix_concat_iff.mp hfirst with heq | hold
        · obtain ⟨rfl, hi⟩ := List.append_inj' heq rfl
          obtain rfl := List.singleton_inj.mp hi
          obtain rfl := hrun.deterministic hq
          have hpaired := hall _ p' (List.prefix_refl _) (hrun.snoc hguard hstep)
          exact (recording_of_unambiguous hrun hpast).unambiguous hstep hpaired.matched
        · exact hpast front i q hold hq
  · rintro hall front q hfirst hrun
    refine (recording_of_unambiguous hrun ?_).paired
    exact fun front' i q' hfront => hall front' i q' (hfront.trans hfirst)

/-- The buffer of the runs below. -/
def buffer : ProfilerMemory := { startPointer := 4096 }

/-- The block `[2^40, 2^40 + 64)` may be returned while nothing is live. -/
theorem fits_buffer : Fits buffer [] 64 0x10000000000 where
  size_pos := by decide
  size_lt := by decide
  object_ne := by decide
  outside := by decide
  apart := fun _ hb => by cases hb

theorem guarded_yymalloc : Guarded buffer [] {} (.yymalloc 0 64 0x10000000000 1) :=
  ⟨fits_buffer, fun _ => by decide⟩

theorem guarded_yyfree (p : ObjectRecorder) :
    Guarded buffer [.yymalloc 0 64 0x10000000000 1] p (.yyfree 0 0x10000000000) :=
  ⟨.inr (.inr ⟨_, List.mem_singleton.mpr rfl, rfl⟩), trivial⟩

/-- A `malloc` and its free. -/
theorem object_pairing_one_block :
    ∃ p, Run (ObjectRecorder.step · buffer) (Guarded buffer) {}
        [.yymalloc 0 64 0x10000000000 1, .yyfree 0 0x10000000000] p ∧
      PairedThroughout buffer [.yymalloc 0 64 0x10000000000 1, .yyfree 0 0x10000000000] := by
  have h0 : Run (ObjectRecorder.step · buffer) (Guarded buffer) {} [] {} := .nil
  have hrun := (h0.snoc guarded_yymalloc rfl).snoc (guarded_yyfree _) rfl
  refine ⟨_, hrun, (object_pairing_iff hrun).mpr ?_⟩
  intro front call p hfirst _
  rcases List.prefix_concat_iff.mp hfirst with heq | hfirst
  · obtain ⟨rfl, hcall⟩ := List.append_inj' heq rfl
    obtain rfl := List.singleton_inj.mp hcall
    intro b hb _
    obtain rfl := List.mem_singleton.mp hb
    exact .inl rfl
  · rcases List.prefix_concat_iff.mp hfirst with heq | hfirst
    · obtain ⟨rfl, hcall⟩ := List.append_inj' heq rfl
      obtain rfl := List.singleton_inj.mp hcall
      exact trivial
    · simp at hfirst

/-- The address is handed out again by `calloc`, whose object is not
entered, and freed again: the page counts 64 bytes less than none. -/
theorem calloc_freed_as_malloc :
    ∃ p, Run (ObjectRecorder.step · buffer) (Guarded buffer) {}
        [.yymalloc 0 64 0x10000000000 1, .yyfree 0 0x10000000000,
          .yycalloc 0 1 64 0x10000000000, .yyfree 0 0x10000000000] p ∧
      p.updates = [.mallocUpdateObject 0x10000000000 64,
        .freeUpdateObject 0x10000000000 ⟨1, 0, 64⟩, .freeUpdateObject 0x10000000000 ⟨1, 0, 64⟩] ∧
      (p.shadow.pageMap 1 0).numUsedBytes = -64 ∧
      ¬ PairedThroughout buffer [.yymalloc 0 64 0x10000000000 1, .yyfree 0 0x10000000000,
        .yycalloc 0 1 64 0x10000000000, .yyfree 0 0x10000000000] := by
  have h0 : Run (ObjectRecorder.step · buffer) (Guarded buffer) {} [] {} := .nil
  have h2 := (h0.snoc guarded_yymalloc rfl).snoc (guarded_yyfree _) rfl
  have hcalloc : ∀ p, Guarded buffer [.yymalloc 0 64 0x10000000000 1, .yyfree 0 0x10000000000] p
      (.yycalloc 0 1 64 0x10000000000) := fun _ => ⟨fits_buffer, trivial⟩
  have hfree : ∀ p, Guarded buffer [.yymalloc 0 64 0x10000000000 1, .yyfree 0 0x10000000000,
      .yycalloc 0 1 64 0x10000000000] p (.yyfree 0 0x10000000000) :=
    fun _ => ⟨.inr (.inr ⟨_, List.mem_singleton.mpr rfl, rfl⟩), trivial⟩
  have hrun := (h2.snoc (hcalloc _) rfl).snoc (hfree _) rfl
  refine ⟨_, hrun, rfl, by decide, fun hall => ?_⟩
  have hpages := (hall _ _ (List.prefix_refl _) hrun).pages 1 0
  revert hpages
  decide

end MemPerf
