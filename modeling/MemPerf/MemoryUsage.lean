import MemPerf.WasteReport

/-!
# Recorded peaks

`MemoryUsage::addToMemoryUsage` of the `MEMORY` build. When the memory in
use has grown enough since the last peak, the counters of `MemoryWaste` and
the map of call sites are recorded. Both are structures of pointers:
`updateStatus` receives a copy of the pointers, `recordMem` copies the
header of the map.
-/

namespace MemPerf.Temp

open Chained Rows Word StepSystem

/-- `ONE_MB` -/
@[simp] abbrev oneMB : Int := 1048576

namespace MemoryWasteStatus

/-- The body of the loops of `cleanAbnormalValues`, on one cell. -/
def cleanAbnormalValue (x : Int) : Int := if 0x1000000000 < x then 0 else x

def cleanAbnormalValues (p : ProgramStatus) (totalNumOfThread : Nat) (c : MemoryWasteStatus) :
    MemoryWasteStatus :=
  { c with internalFragment :=
      mapRows p.numberOfClassSizes totalNumOfThread cleanAbnormalValue c.internalFragment }

/-- The copies of `updateStatus`. -/
def copyFrom (p : ProgramStatus) (totalNumOfThread : Nat) (r newStatus : MemoryWasteStatus) :
    MemoryWasteStatus :=
  let m := totalNumOfThread * p.numberOfClassSizes
  { internalFragment := copy m r.internalFragment newStatus.internalFragment
    numOfAllocatedObjects := copy m r.numOfAllocatedObjects newStatus.numOfAllocatedObjects
    numOfFreelistObjects := copy m r.numOfFreelistObjects newStatus.numOfFreelistObjects
    numOfNewAllocations := copy m r.numOfNewAllocations newStatus.numOfNewAllocations
    numOfReusedAllocations := copy m r.numOfReusedAllocations newStatus.numOfReusedAllocations
    numOfFree := copy m r.numOfFree newStatus.numOfFree
    blowupFlag := copy p.numberOfClassSizes r.blowupFlag newStatus.blowupFlag }

theorem copyFrom_snapshotOf (p : ProgramStatus) (totalNumOfThread : Nat)
    (r newStatus : MemoryWasteStatus) :
    (r.copyFrom p totalNumOfThread newStatus).SnapshotOf p totalNumOfThread newStatus := by
  refine ⟨fun t ht c hc => ?_, fun c hc => copy_of_lt hc _ _⟩
  have hlt : p.arrayIndex t c < totalNumOfThread * p.numberOfClassSizes := index_lt ht hc
  exact ⟨copy_of_lt hlt _ _, copy_of_lt hlt _ _, copy_of_lt hlt _ _, copy_of_lt hlt _ _,
    copy_of_lt hlt _ _, copy_of_lt hlt _ _⟩

/-- No cell of an existing thread is above the abnormal value. -/
def Normal (p : ProgramStatus) (totalNumOfThread : Nat) (c : MemoryWasteStatus) : Prop :=
  ∀ t < totalNumOfThread, ∀ i < p.numberOfClassSizes,
    c.internalFragment (p.arrayIndex t i) ≤ 0x1000000000

theorem cleanAbnormalValue_eq_self {x : Int} : cleanAbnormalValue x = x ↔ x ≤ 0x1000000000 := by
  unfold cleanAbnormalValue
  split <;> omega

theorem cleanAbnormalValues_eq_self_iff {p : ProgramStatus} {totalNumOfThread : Nat}
    {c : MemoryWasteStatus} :
    c.cleanAbnormalValues p totalNumOfThread = c ↔ c.Normal p totalNumOfThread := by
  have hfield : c.cleanAbnormalValues p totalNumOfThread = c ↔
      mapRows p.numberOfClassSizes totalNumOfThread cleanAbnormalValue c.internalFragment =
        c.internalFragment :=
    ⟨fun h => congrArg internalFragment h, fun h => by rw [cleanAbnormalValues, h]⟩
  rw [hfield, mapRows_eq_self_iff]
  simp only [cleanAbnormalValue_eq_self]
  rfl

end MemoryWasteStatus

namespace MemoryWaste

/-- `recordStatus.updateStatus(currentStatus)`: the argument holds the live
arrays, so they are cleaned before they are copied. -/
def compareMemoryUsageAndRecordStatus (p : ProgramStatus) (s : MemoryWaste) : MemoryWaste :=
  let newStatus := s.currentStatus.cleanAbnormalValues p s.totalNumOfThread
  { s with
    currentStatus := newStatus
    recordStatus := s.recordStatus.copyFrom p s.totalNumOfThread newStatus }

end MemoryWaste

structure TotalMemoryUsage where
  realMemoryUsage : Int := 0
  totalMemoryUsage : Int := 0
deriving DecidableEq, Repr

namespace TotalMemoryUsage

def isLowerThan (u newTotalMemoryUsage : TotalMemoryUsage) : Bool :=
  u.totalMemoryUsage < newTotalMemoryUsage.totalMemoryUsage ||
    (u.totalMemoryUsage == newTotalMemoryUsage.totalMemoryUsage &&
      u.realMemoryUsage < newTotalMemoryUsage.realMemoryUsage)

/-- `unsigned int` byte counts added to 64-bit totals. -/
def add (u : TotalMemoryUsage) (size newTouchePageBytes : Nat) : TotalMemoryUsage :=
  { realMemoryUsage := swrap 64 (u.realMemoryUsage + size)
    totalMemoryUsage := swrap 64 (u.totalMemoryUsage + newTouchePageBytes) }

end TotalMemoryUsage

structure MemoryUsage where
  waste : MemoryWaste
  /-- thread-local -/
  threadLocalMemoryUsage : Nat → TotalMemoryUsage := fun _ => {}
  /-- thread-local -/
  maxThreadLocalMemoryUsage : Nat → TotalMemoryUsage := fun _ => {}
  globalMemoryUsage : TotalMemoryUsage := {}
  maxGlobalMemoryUsage : TotalMemoryUsage := {}
  maxRealMemoryUsage : Int := 0

namespace MemoryUsage

/-- The memory in use passed the last peak by enough, without
`FREQUENT_UPDATE_MEMORY`. -/
def passesPeak (globalMemoryUsage maxGlobalMemoryUsage : TotalMemoryUsage) : Bool :=
  10 * oneMB ≤ globalMemoryUsage.totalMemoryUsage &&
    (maxGlobalMemoryUsage.totalMemoryUsage + 200 * oneMB < globalMemoryUsage.totalMemoryUsage ||
      maxGlobalMemoryUsage.totalMemoryUsage * 2 < globalMemoryUsage.totalMemoryUsage)

/-- `tryLock` is what `mtx.try_lock()` returns, if it is called. -/
def addToMemoryUsage (p : ProgramStatus) (s : MemoryUsage) (thread size newTouchePageBytes : Nat)
    (tryLock : Bool) : MemoryUsage :=
  let threadUsage := (s.threadLocalMemoryUsage thread).add size newTouchePageBytes
  let globalUsage := s.globalMemoryUsage.add size newTouchePageBytes
  let s := { s with
    threadLocalMemoryUsage := Function.update s.threadLocalMemoryUsage thread threadUsage
    maxThreadLocalMemoryUsage :=
      if (s.maxThreadLocalMemoryUsage thread).isLowerThan threadUsage then
        Function.update s.maxThreadLocalMemoryUsage thread threadUsage
      else s.maxThreadLocalMemoryUsage
    globalMemoryUsage := globalUsage
    maxRealMemoryUsage := max s.maxRealMemoryUsage globalUsage.realMemoryUsage }
  if passesPeak globalUsage s.maxGlobalMemoryUsage && tryLock then
    { s with
      maxGlobalMemoryUsage := globalUsage
      waste := MemoryWaste.compareMemoryUsageAndRecordStatus p
        { s.waste with backtrace := s.waste.backtrace.recordMem } }
  else s

inductive Action where
  | call (call : MemoryWaste.Call)
  | subMem (callsiteKey size : Nat)
  | addLeak (callsiteKey size : Nat)
  | addToMemoryUsage (thread size newTouchePageBytes : Nat) (tryLock : Bool)
deriving DecidableEq, Repr

def step (p : ProgramStatus) (s : MemoryUsage) : Action → Option MemoryUsage
  | .call call => (s.waste.step p call).map fun waste => { s with waste }
  | .subMem callsiteKey size =>
      some { s with waste := { s.waste with
        backtrace := s.waste.backtrace.subMem callsiteKey size } }
  | .addLeak callsiteKey size =>
      some { s with waste := { s.waste with
        backtrace := s.waste.backtrace.addLeak callsiteKey size } }
  | .addToMemoryUsage thread size newTouchePageBytes tryLock =>
      some (s.addToMemoryUsage p thread size newTouchePageBytes tryLock)

/-! ## What a step records -/

/-- The step records a new peak. -/
def Records (s : MemoryUsage) : Action → Prop
  | .addToMemoryUsage _ size newTouchePageBytes tryLock =>
      passesPeak (s.globalMemoryUsage.add size newTouchePageBytes) s.maxGlobalMemoryUsage = true ∧
        tryLock = true
  | _ => False

instance (s : MemoryUsage) : ∀ a, Decidable (Records s a)
  | .addToMemoryUsage _ size newTouchePageBytes tryLock =>
      inferInstanceAs (Decidable (passesPeak (s.globalMemoryUsage.add size newTouchePageBytes)
        s.maxGlobalMemoryUsage = true ∧ tryLock = true))
  | .call _ | .subMem _ _ | .addLeak _ _ => inferInstanceAs (Decidable False)

variable {p : ProgramStatus} {s s' : MemoryUsage} {a : Action}

theorem records_waste (ha : Records s a) (hs : s.step p a = some s') :
    s'.waste = MemoryWaste.compareMemoryUsageAndRecordStatus p
      { s.waste with backtrace := s.waste.backtrace.recordMem } := by
  cases a with
  | addToMemoryUsage thread size newTouchePageBytes tryLock =>
      obtain rfl := Option.some.inj hs
      simp only [addToMemoryUsage]
      rw [if_pos (by simpa [Records] using ha)]
  | call call => exact ha.elim
  | subMem callsiteKey size => exact ha.elim
  | addLeak callsiteKey size => exact ha.elim

theorem addToMemoryUsage_waste {thread size newTouchePageBytes : Nat} {tryLock : Bool}
    (ha : ¬ Records s (.addToMemoryUsage thread size newTouchePageBytes tryLock)) :
    (s.addToMemoryUsage p thread size newTouchePageBytes tryLock).waste = s.waste := by
  simp only [addToMemoryUsage]
  rw [if_neg (by simpa [Records] using ha)]

/-- The call site a step takes bytes off, and how many. -/
def takes (s : MemoryUsage) : Action → Option (Nat × Nat)
  | .call (.freeUpdate _ address) =>
      ((s.waste.objStatusMap.find address).filter ObjectStatus.allocated).map fun status =>
        (status.callKey, status.sizeClassSizeAndIndex.size)
  | .subMem callsiteKey size => some (callsiteKey, size)
  | _ => none

/-- Between two recorded peaks the record is touched through the map of
call sites only. -/
theorem quiet_cases (ha : ¬ Records s a) (hs : s.step p a = some s') :
    s'.waste.recordStatus = s.waste.recordStatus ∧
    (s'.waste.backtrace = s.waste.backtrace ∨
      (∃ key size, takes s a = some (key, size) ∧
        s'.waste.backtrace = s.waste.backtrace.subMem key size) ∨
      ∃ key size, s'.waste.backtrace = s.waste.backtrace.addLeak key size) := by
  cases a with
  | call call =>
      obtain ⟨waste, hw, rfl⟩ := Option.map_eq_some_iff.mp hs
      cases call with
      | allocUpdate thread size address callsiteKey =>
          rcases MemoryWaste.alloc_cases hw with
            ⟨k, cache, -, -, rfl⟩ | ⟨old, status, cache, -, -, rfl⟩
          · exact ⟨rfl, .inl rfl⟩
          · exact ⟨rfl, .inl rfl⟩
      | freeUpdate thread address =>
          rcases MemoryWaste.free_cases hw with rfl | ⟨status, hfind, halloc, rfl⟩
          · exact ⟨rfl, .inl rfl⟩
          · refine ⟨rfl, .inr (.inl ⟨status.callKey, status.sizeClassSizeAndIndex.size, ?_, rfl⟩)⟩
            simp [takes, hfind, halloc]
      | newThread =>
          obtain ⟨-, rfl⟩ := MemoryWaste.newThread_cases hw
          exact ⟨rfl, .inl rfl⟩
  | subMem callsiteKey size =>
      obtain rfl := Option.some.inj hs
      exact ⟨rfl, .inr (.inl ⟨callsiteKey, size, rfl, rfl⟩)⟩
  | addLeak callsiteKey size =>
      obtain rfl := Option.some.inj hs
      exact ⟨rfl, .inr (.inr ⟨callsiteKey, size, rfl⟩)⟩
  | addToMemoryUsage thread size newTouchePageBytes tryLock =>
      obtain rfl := Option.some.inj hs
      rw [addToMemoryUsage_waste ha]
      exact ⟨rfl, .inl rfl⟩

/-! ## Whole runs -/

/-- What the recording of a peak in `s` left in `t`. -/
structure Recorded (p : ProgramStatus) (s t : MemoryUsage) : Prop where
  rows : t.waste.recordStatus.SnapshotOf p s.waste.totalNumOfThread s.waste.currentStatus
  pairs : t.waste.backtrace.pairs t.waste.backtrace.btMemMapRecord =
    s.waste.backtrace.pairs s.waste.backtrace.btMemMap

/-- The live counters and the map of call sites are the same. -/
structure SameLive (s t : MemoryUsage) : Prop where
  currentStatus : t.waste.currentStatus = s.waste.currentStatus
  btMemMap : t.waste.backtrace.buckets t.waste.backtrace.btMemMap =
    s.waste.backtrace.buckets s.waste.backtrace.btMemMap

/-- The step cleans no live counter and takes nothing off a recorded call
site. -/
structure Stable (p : ProgramStatus) (s : MemoryUsage) (a : Action) : Prop where
  normal : Records s a → s.waste.currentStatus.Normal p s.waste.totalNumOfThread
  keeps : ∀ key size, takes s a = some (key, size) → s.waste.backtrace.Keeps key size

/-- A recording keeps the live data exactly when there is nothing to clean. -/
theorem sameLive_iff (ha : Records s a) (hs : s.step p a = some s') :
    SameLive s s' ↔ s.waste.currentStatus.Normal p s.waste.totalNumOfThread := by
  have hw := records_waste ha hs
  constructor
  · intro h
    have hc := h.currentStatus
    rw [hw] at hc
    exact MemoryWasteStatus.cleanAbnormalValues_eq_self_iff.mp hc
  · intro h
    refine ⟨?_, by rw [hw]; rfl⟩
    rw [hw]
    exact MemoryWasteStatus.cleanAbnormalValues_eq_self_iff.mpr h

theorem recorded_of_records (ha : Records s a) (hs : s.step p a = some s')
    (hnormal : s.waste.currentStatus.Normal p s.waste.totalNumOfThread) : Recorded p s s' := by
  have hw := records_waste ha hs
  have hclean : s.waste.currentStatus.cleanAbnormalValues p s.waste.totalNumOfThread =
      s.waste.currentStatus := MemoryWasteStatus.cleanAbnormalValues_eq_self_iff.mpr hnormal
  refine ⟨?_, by rw [hw]; rfl⟩
  rw [hw, MemoryWaste.compareMemoryUsageAndRecordStatus, hclean]
  exact MemoryWasteStatus.copyFrom_snapshotOf p _ _ _

theorem step_words (hb : s.waste.backtrace.Words) (hs : s.step p a = some s') :
    s'.waste.backtrace.Words := by
  by_cases ha : Records s a
  · rw [records_waste ha hs]
    exact hb
  · rcases (quiet_cases ha hs).2 with heq | ⟨key, size, -, heq⟩ | ⟨key, size, heq⟩
    · rwa [heq]
    · rw [heq]
      exact hb.modify fun status _ => wsub_lt 64 _ _
    · rw [heq]
      exact hb.modify fun status hstatus => hstatus

/-- A quiet step keeps what was recorded. -/
theorem Recorded.step {r : MemoryUsage} (h : Recorded p r s) (hb : s.waste.backtrace.Words)
    (hquiet : ¬ Records s a) (ha : Stable p s a) (hs : s.step p a = some s') :
    Recorded p r s' := by
  obtain ⟨hrecord, hbt⟩ := quiet_cases hquiet hs
  refine ⟨by rw [hrecord]; exact h.rows, ?_⟩
  rcases hbt with heq | ⟨key, size, htakes, heq⟩ | ⟨key, size, heq⟩
  · rw [heq]
    exact h.pairs
  · rw [heq, Backtrace.subMem_btMemMapRecord, (ha.keeps key size htakes).pairs hb]
    exact h.pairs
  · rw [heq, Backtrace.addLeak_btMemMapRecord, Backtrace.addLeak_pairs]
    exact h.pairs

/-- **A recorded peak is a stable snapshot**, in whatever state it is
recorded, when it finds no counter to clean and no later step takes bytes
off a call site of the map. -/
theorem recorded_peak_stable {t u : MemoryUsage} {after : List Action}
    (hb : s.waste.backtrace.Words) (ha : Stable p s a) (hpeak : Records s a)
    (ht : s.step p a = some t)
    (hafter : Run (step p) (fun _ s a => Stable p s a ∧ ¬ Records s a) t after u) :
    SameLive s t ∧ Recorded p s u := by
  have hrun : u.waste.backtrace.Words ∧ Recorded p s u := by
    refine hafter.inv (fun _ u => u.waste.backtrace.Words ∧ Recorded p s u)
      ⟨step_words hb ht, recorded_of_records hpeak ht (ha.normal hpeak)⟩ ?_
    rintro past u a u' - ⟨hwords, hrecorded⟩ ⟨hstable, hquiet⟩ hs
    exact ⟨step_words hwords hs, hrecorded.step hwords hquiet hstable hs⟩
  exact ⟨(sameLive_iff hpeak ht).mpr (ha.normal hpeak), hrun.2⟩

instance (b : Backtrace) (callsiteKey size : Nat) : Decidable (b.Keeps callsiteKey size) :=
  inferInstanceAs (Decidable (_ ∨ _))

instance (p : ProgramStatus) (totalNumOfThread : Nat) (c : MemoryWasteStatus) :
    Decidable (c.Normal p totalNumOfThread) :=
  inferInstanceAs (Decidable (∀ t < totalNumOfThread, ∀ i < p.numberOfClassSizes, _))

instance (p : ProgramStatus) (s : MemoryUsage) (a : Action) : Decidable (Stable p s a) :=
  decidable_of_iff ((Records s a → s.waste.currentStatus.Normal p s.waste.totalNumOfThread) ∧
      ∀ k ∈ takes s a, s.waste.backtrace.Keeps k.1 k.2)
    ⟨fun h => ⟨h.1, fun key size hk => h.2 (key, size) hk⟩,
      fun h => ⟨h.normal, fun k hk => h.keeps k.1 k.2 hk⟩⟩

/-- Later calls count on and free an object of a call site that is not in
the map. -/
theorem recorded_peak_stable_other_site :
    let s : MemoryUsage := { waste := .init (.ofSite 1 64) }
    ∃ t u, s.step .bumpTable (.addToMemoryUsage 0 64 12582912 true) = some t ∧
      Run (step .bumpTable) (fun _ s a => Stable .bumpTable s a ∧ ¬ Records s a) t
        [.call .newThread, .call (.allocUpdate 0 30 4096 2), .call (.freeUpdate 0 4096),
          .addLeak 1 30] u ∧
      SameLive s t ∧ Recorded .bumpTable s u := by
  intro s
  let after : List Action := [.call .newThread, .call (.allocUpdate 0 30 4096 2),
    .call (.freeUpdate 0 4096), .addLeak 1 30]
  let t := s.addToMemoryUsage .bumpTable 0 64 12582912 true
  let checked : MemoryUsage → Action → Option MemoryUsage := fun s a =>
    if Stable .bumpTable s a ∧ ¬ Records s a then s.step .bumpTable a else none
  have hthreads : ((after.foldlM checked t).map fun u => u.waste.totalNumOfThread) = some 1 := by
    decide +kernel
  obtain ⟨u, hu, -⟩ := Option.map_eq_some_iff.mp hthreads
  have hrun : Run (step .bumpTable) (fun _ s a => Stable .bumpTable s a ∧ ¬ Records s a) t
      after u := Run.ofChecked hu
  exact ⟨t, u, rfl, hrun, recorded_peak_stable (Backtrace.ofSite_words (by decide))
    (a := .addToMemoryUsage 0 64 12582912 true) (by decide +kernel) (by decide +kernel) rfl hrun⟩

/-- The object of a recorded call site is freed: its bytes go missing from
the record. -/
theorem recorded_peak_loses_bytes :
    ∃ s t u : MemoryUsage,
      Run (step .bumpTable) (fun _ _ _ => True) { waste := .init (.ofSite 1 12582912) }
        [.call .newThread, .call (.allocUpdate 0 12582912 4096 1)] s ∧
      Records s (.addToMemoryUsage 0 12582912 12582912 true) ∧
      s.step .bumpTable (.addToMemoryUsage 0 12582912 12582912 true) = some t ∧
      Run (step .bumpTable) (fun _ s a => ¬ Records s a) t [.call (.freeUpdate 0 4096)] u ∧
      ¬ Recorded .bumpTable s u := by
  let before : List Action := [.call .newThread, .call (.allocUpdate 0 12582912 4096 1)]
  let peak : Action := .addToMemoryUsage 0 12582912 12582912 true
  let free : Action := .call (.freeUpdate 0 4096)
  have hvals : ((before.foldlM (step .bumpTable) { waste := .init (.ofSite 1 12582912) }).bind
      fun s => (s.step .bumpTable peak).bind fun t => (t.step .bumpTable free).map fun u =>
        (decide (Records s peak), s.waste.backtrace.pairs s.waste.backtrace.btMemMap,
          u.waste.backtrace.pairs u.waste.backtrace.btMemMapRecord)) =
      some (true, [(1, 12582912)], [(1, 0)]) := by
    decide +kernel
  obtain ⟨s, hs, hvals⟩ := Option.bind_eq_some_iff.mp hvals
  obtain ⟨t, ht, hvals⟩ := Option.bind_eq_some_iff.mp hvals
  obtain ⟨u, hu, hvals⟩ := Option.map_eq_some_iff.mp hvals
  obtain ⟨hpeak, hlive, hrecord⟩ : decide (Records s peak) = true ∧
      s.waste.backtrace.pairs s.waste.backtrace.btMemMap = [(1, 12582912)] ∧
      u.waste.backtrace.pairs u.waste.backtrace.btMemMapRecord = [(1, 0)] := by
    simpa only [Prod.mk.injEq] using hvals
  refine ⟨s, t, u, Run.ofFoldlM (fun _ _ _ _ => trivial) hs, of_decide_eq_true hpeak, ht,
    Run.snoc .nil (fun h => h) hu, fun h => ?_⟩
  have hsame := h.pairs
  rw [hlive, hrecord] at hsame
  exact absurd hsame (by decide)

end MemoryUsage

end MemPerf.Temp
