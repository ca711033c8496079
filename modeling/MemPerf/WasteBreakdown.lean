import MemPerf.UsagePeaks

/-!
# The parts of the recorded peak

`MemoryWaste::globalizeRecordAndGetTotalValues` sums the counters of the
record over the classes and clips the two sums to what the recorded peak
leaves above the memory really in use; what is left after both is external
fragmentation. The clips take the smaller number, so they pass a negative
room on: a peak with more real than total memory, which page accounting
does not rule out, has a negative internal fragmentation.
-/

namespace MemPerf.Temp

open Rows StepSystem Word

namespace MemoryWasteGlobalStatus

/-- The body of the loop sets each of four cells to its maximum with 0. -/
def cleanAbnormalValues (p : ProgramStatus) (g : MemoryWasteGlobalStatus) :
    MemoryWasteGlobalStatus :=
  let clean (a : Nat → Int) (c : Nat) : Int := if c < p.numberOfClassSizes then max (a c) 0 else a c
  { g with
    internalFragment := clean g.internalFragment
    numOfAllocatedObjects := clean g.numOfAllocatedObjects
    numOfFreelistObjects := clean g.numOfFreelistObjects
    memoryBlowup := clean g.memoryBlowup }

end MemoryWasteGlobalStatus

structure MemoryWasteTotalValue where
  internalFragment : Int := 0
  numOfAllocatedObjects : Int := 0
  numOfFreelistObjects : Int := 0
  numOfNewAllocations : Nat := 0
  numOfReusedAllocations : Nat := 0
  numOfFree : Nat := 0
  externalFragment : Int := 0
  memoryBlowup : Int := 0
deriving DecidableEq, Repr

namespace MemoryWasteTotalValue

/-- The body of the loop of `getTotalValues`. -/
def addClass (g : MemoryWasteGlobalStatus) (v : MemoryWasteTotalValue) (c : Nat) :
    MemoryWasteTotalValue :=
  { v with
    internalFragment := swrap 64 (v.internalFragment + g.internalFragment c)
    numOfAllocatedObjects := swrap 32 (v.numOfAllocatedObjects + g.numOfAllocatedObjects c)
    numOfFreelistObjects := swrap 32 (v.numOfFreelistObjects + g.numOfFreelistObjects c)
    numOfNewAllocations := wrap 32 (v.numOfNewAllocations + g.numOfNewAllocations c)
    numOfReusedAllocations := wrap 32 (v.numOfReusedAllocations + g.numOfReusedAllocations c)
    numOfFree := wrap 32 (v.numOfFree + g.numOfFree c)
    memoryBlowup := swrap 64 (v.memoryBlowup + g.memoryBlowup c) }

def getTotalValues (p : ProgramStatus) (g : MemoryWasteGlobalStatus) (v : MemoryWasteTotalValue) :
    MemoryWasteTotalValue :=
  (List.range p.numberOfClassSizes).foldl (addClass g) v

/-- `maxGlobalMemoryUsage.totalMemoryUsage - maxGlobalMemoryUsage.realMemoryUsage` -/
def unused (peak : TotalMemoryUsage) : Int :=
  swrap 64 (peak.totalMemoryUsage - peak.realMemoryUsage)

def clearAbnormalValues (peak : TotalMemoryUsage) (v : MemoryWasteTotalValue) :
    MemoryWasteTotalValue :=
  let internalFragment := min (unused peak) v.internalFragment
  { v with
    internalFragment
    memoryBlowup := min (swrap 64 (unused peak - internalFragment)) v.memoryBlowup }

def getExternalFragment (peak : TotalMemoryUsage) (v : MemoryWasteTotalValue) :
    MemoryWasteTotalValue :=
  let externalFragment := swrap 64 (swrap 64 (unused peak - v.internalFragment) - v.memoryBlowup)
  { v with externalFragment := max externalFragment 0 }

end MemoryWasteTotalValue

namespace MemoryWaste

/-- The class sums the total values are taken from, before the cleaning. -/
def classSums (p : ProgramStatus) (totalNumOfThread : Nat) (recordStatus : MemoryWasteStatus) :
    MemoryWasteGlobalStatus :=
  (MemoryWasteGlobalStatus.globalize p totalNumOfThread recordStatus {}).calculateBlowup p
    recordStatus

def globalizeRecordAndGetTotalValues (p : ProgramStatus) (totalNumOfThread : Nat)
    (recordStatus : MemoryWasteStatus) (peak : TotalMemoryUsage) : MemoryWasteTotalValue :=
  let globalStatus := (classSums p totalNumOfThread recordStatus).cleanAbnormalValues p
  ((MemoryWasteTotalValue.getTotalValues p globalStatus {}).clearAbnormalValues
    peak).getExternalFragment peak

end MemoryWaste

/-- The parts are no negative numbers and make up the peak. -/
structure AddsUp (peak : TotalMemoryUsage) (v : MemoryWasteTotalValue) : Prop where
  internalFragment : 0 ≤ v.internalFragment
  memoryBlowup : 0 ≤ v.memoryBlowup
  externalFragment : 0 ≤ v.externalFragment
  total : peak.realMemoryUsage + v.internalFragment + v.memoryBlowup + v.externalFragment =
    peak.totalMemoryUsage

/-! ## Clipping -/

/-- A recorded peak: two numbers an `int64_t` holds, neither negative. -/
def TotalMemoryUsage.Nonneg (u : TotalMemoryUsage) : Prop :=
  0 ≤ u.realMemoryUsage ∧ 0 ≤ u.totalMemoryUsage ∧ u.InRange

instance (u : TotalMemoryUsage) : Decidable u.Nonneg := inferInstanceAs (Decidable (_ ∧ _))

namespace MemoryWasteTotalValue

variable {peak : TotalMemoryUsage} {v : MemoryWasteTotalValue}

theorem unused_eq (h : peak.Nonneg) :
    unused peak = peak.totalMemoryUsage - peak.realMemoryUsage := by
  obtain ⟨hreal, htotal, ⟨-, hreal'⟩, -, htotal'⟩ := h
  exact TotalMemoryUsage.swrap_eq (by omega) (by omega)

/-- The two clips and the rest, for any sums. A negative room, and a
negative sum, are passed on. -/
theorem clipped_addsUp_iff (h : peak.Nonneg) :
    AddsUp peak ((v.clearAbnormalValues peak).getExternalFragment peak) ↔
      peak.realMemoryUsage ≤ peak.totalMemoryUsage ∧ 0 ≤ v.internalFragment ∧
        0 ≤ v.memoryBlowup := by
  have hunused := unused_eq h
  obtain ⟨hreal, htotal, -, -, htotal'⟩ := h
  constructor
  · intro hadds
    have hinternal := hadds.internalFragment
    have hblowup := hadds.memoryBlowup
    simp only [getExternalFragment, clearAbnormalValues, hunused] at hinternal hblowup
    exact ⟨by omega, by omega, by omega⟩
  · rintro ⟨hroom, hinternal, hblowup⟩
    -- nothing wraps: every difference lies between 0 and the total
    have hrest : swrap 64 (unused peak - min (unused peak) v.internalFragment) =
        unused peak - min (unused peak) v.internalFragment :=
      TotalMemoryUsage.swrap_eq (by omega) (by omega)
    have hlast : swrap 64 (unused peak - min (unused peak) v.internalFragment -
          min (unused peak - min (unused peak) v.internalFragment) v.memoryBlowup) =
        unused peak - min (unused peak) v.internalFragment -
          min (unused peak - min (unused peak) v.internalFragment) v.memoryBlowup :=
      TotalMemoryUsage.swrap_eq (by omega) (by omega)
    have hvalues : (v.clearAbnormalValues peak).getExternalFragment peak =
        { v with
          internalFragment := min (unused peak) v.internalFragment
          memoryBlowup := min (unused peak - min (unused peak) v.internalFragment) v.memoryBlowup
          externalFragment := max (unused peak - min (unused peak) v.internalFragment -
            min (unused peak - min (unused peak) v.internalFragment) v.memoryBlowup) 0 } := by
      simp only [getExternalFragment, clearAbnormalValues, hrest, hlast]
    rw [hvalues]
    constructor <;> simp only <;> omega

/-- The loop adds up the class sums in the field's own arithmetic. -/
theorem getTotalValues_field (field : MemoryWasteTotalValue → Int)
    {cells : MemoryWasteGlobalStatus → Nat → Int} {w : Nat}
    (hclass : ∀ g v c, field (addClass g v c) = swrap w (field v + cells g c))
    (p : ProgramStatus) (g : MemoryWasteGlobalStatus) (v : MemoryWasteTotalValue) :
    field (getTotalValues p g v) = accumulate w (cells g) p.numberOfClassSizes (field v) :=
  (List.foldl_hom field fun v c => (hclass g v c).symm).symm

end MemoryWasteTotalValue

/-! ## The total values -/

/-- A sum over the classes of the numbers that are not negative, as an
`int64_t` holds it. -/
def classTotal (p : ProgramStatus) (sums : Nat → Int) : Int :=
  swrap 64 (∑ c ∈ Finset.range p.numberOfClassSizes, max (sums c) 0)

theorem accumulate_clean (p : ProgramStatus) (sums : Nat → Int) :
    accumulate 64 (fun c => if c < p.numberOfClassSizes then max (sums c) 0 else sums c)
      p.numberOfClassSizes 0 = classTotal p sums := by
  have hclean : ∑ c ∈ Finset.range p.numberOfClassSizes,
      (if c < p.numberOfClassSizes then max (sums c) 0 else sums c) =
      ∑ c ∈ Finset.range p.numberOfClassSizes, max (sums c) 0 :=
    Finset.sum_congr rfl fun c hc => if_pos (Finset.mem_range.mp hc)
  refine accumulate_eq ?_ ?_ ?_
  · rw [hclean]
    exact (swrap_modEq 64 _).symm
  · have := Int.le_bmod (x := ∑ c ∈ Finset.range p.numberOfClassSizes, max (sums c) 0)
      (m := 2 ^ 64) (by norm_num)
    unfold classTotal swrap
    omega
  · have := Int.bmod_lt (x := ∑ c ∈ Finset.range p.numberOfClassSizes, max (sums c) 0)
      (m := 2 ^ 64) (by norm_num)
    unfold classTotal swrap
    omega

theorem MemoryWaste.globalize_addsUp_iff {p : ProgramStatus} {totalNumOfThread : Nat}
    {recordStatus : MemoryWasteStatus} {peak : TotalMemoryUsage} (h : peak.Nonneg) :
    AddsUp peak (globalizeRecordAndGetTotalValues p totalNumOfThread recordStatus peak) ↔
      peak.realMemoryUsage ≤ peak.totalMemoryUsage ∧
        0 ≤ classTotal p (classSums p totalNumOfThread recordStatus).internalFragment ∧
        0 ≤ classTotal p (classSums p totalNumOfThread recordStatus).memoryBlowup := by
  rw [globalizeRecordAndGetTotalValues, MemoryWasteTotalValue.clipped_addsUp_iff h,
    MemoryWasteTotalValue.getTotalValues_field (·.internalFragment) (fun _ _ _ => rfl),
    MemoryWasteTotalValue.getTotalValues_field (·.memoryBlowup) (fun _ _ _ => rfl)]
  simp only [MemoryWasteGlobalStatus.cleanAbnormalValues, accumulate_clean]

namespace MemoryUsage

/-- After the call neither usage of the process is negative, and nothing
overflows. -/
def StaysNonneg (s : MemoryUsage) (c : UsageCall) : Prop :=
  s.Fits c ∧ 0 ≤ (s.globalMemoryUsage.plus c.real c.total).realMemoryUsage ∧
    0 ≤ (s.globalMemoryUsage.plus c.real c.total).totalMemoryUsage

instance (s : MemoryUsage) (c : UsageCall) : Decidable (s.StaysNonneg c) :=
  inferInstanceAs (Decidable (_ ∧ _))

variable {p : ProgramStatus} {waste : MemoryWaste} {past : List UsageCall} {s : MemoryUsage}

/-- What is recorded was in use. -/
theorem recorded_nonneg
    (hrun : Run (usageStep p) (fun _ s c => s.StaysNonneg c) { waste } past s) :
    s.maxGlobalMemoryUsage.Nonneg := by
  have hzero : ({} : TotalMemoryUsage).Nonneg := by decide
  refine hrun.invariant (fun s => s.maxGlobalMemoryUsage.Nonneg) hzero
    fun past s c s' h hguard hs => ?_
  obtain ⟨hfits, hreal, htotal⟩ := hguard
  rcases step_recorded hfits hs with ⟨hsame, -⟩ | ⟨hrecorded, -⟩
  · rw [hsame]
    exact h
  · rw [hrecorded, (step_usage hfits hs).1]
    exact ⟨hreal, htotal, hfits.2.1⟩

/-- For every peak a run records, and every record. -/
theorem waste_breakdown_iff
    (hrun : Run (usageStep p) (fun _ s c => s.StaysNonneg c) { waste } past s)
    (totalNumOfThread : Nat) (recordStatus : MemoryWasteStatus) :
    AddsUp s.maxGlobalMemoryUsage (MemoryWaste.globalizeRecordAndGetTotalValues p totalNumOfThread
        recordStatus s.maxGlobalMemoryUsage) ↔
      s.maxGlobalMemoryUsage.realMemoryUsage ≤ s.maxGlobalMemoryUsage.totalMemoryUsage ∧
        0 ≤ classTotal p (MemoryWaste.classSums p totalNumOfThread recordStatus).internalFragment ∧
        0 ≤ classTotal p (MemoryWaste.classSums p totalNumOfThread recordStatus).memoryBlowup :=
  MemoryWaste.globalize_addsUp_iff (recorded_nonneg hrun)

/-- 20 MB touched for 15 MB, 1 MB of it internal fragmentation. -/
theorem waste_breakdown_one_class :
    ∃ s, Run (usageStep .bumpTable) (fun _ s c => s.StaysNonneg c) { waste := .init .init }
        [.addToMemoryUsage 1 15728640 20971520] s ∧
      AddsUp s.maxGlobalMemoryUsage (MemoryWaste.globalizeRecordAndGetTotalValues .bumpTable 1
        { internalFragment := fun i => if i = 2 then 1048576 else 0 } s.maxGlobalMemoryUsage) := by
  obtain ⟨s, hstep⟩ : ∃ s, usageStep .bumpTable { waste := .init .init }
      (.addToMemoryUsage 1 15728640 20971520) = some s := ⟨_, rfl⟩
  have hrun : Run (usageStep .bumpTable) (fun _ s c => s.StaysNonneg c) { waste := .init .init }
      [.addToMemoryUsage 1 15728640 20971520] s := Run.nil.snoc (by decide) hstep
  obtain rfl := Option.some.inj hstep
  exact ⟨_, hrun, (waste_breakdown_iff hrun 1 _).mpr ⟨by decide, by decide, by decide⟩⟩

/-- 12 MB in use, of which 11 MB were touched: the record says that minus
1 MB is internal fragmentation. -/
theorem waste_breakdown_untouched :
    ∃ s, Run (usageStep .bumpTable) (fun _ s c => s.StaysNonneg c) { waste := .init .init }
        [.addToMemoryUsage 1 12582912 11534336] s ∧
      s.maxGlobalMemoryUsage = ⟨12582912, 11534336⟩ ∧
      (MemoryWaste.globalizeRecordAndGetTotalValues .bumpTable 1 {}
        s.maxGlobalMemoryUsage).internalFragment = -1048576 ∧
      ¬ AddsUp s.maxGlobalMemoryUsage (MemoryWaste.globalizeRecordAndGetTotalValues .bumpTable 1 {}
        s.maxGlobalMemoryUsage) := by
  have hinternal : (MemoryWaste.globalizeRecordAndGetTotalValues .bumpTable 1 {}
      ⟨12582912, 11534336⟩).internalFragment = -1048576 := by decide
  refine ⟨_, Run.nil.snoc (by decide) rfl, by decide, hinternal, fun h => ?_⟩
  exact absurd (hinternal ▸ h.internalFragment) (by decide)

end MemoryUsage

end MemPerf.Temp
