import Mathlib.Data.Prod.Lex
import MemPerf.Lib.Seen
import MemPerf.MemoryUsage

/-!
# How far the peaks are behind

A sequential run of `addToMemoryUsage`, `subRealSizeFromMemoryUsage` and
`subTotalSizeFromMemoryUsage`. The maxima are kept in the add path only.
That is enough: a subtraction takes the usage down in the order the maxima
are taken in, so it can neither pass a maximum nor get further away from
the recorded peak.
-/

namespace MemPerf.Temp

open StepSystem Word

namespace TotalMemoryUsage

/-- The order of `isLowerThan`: by total, then by real. -/
def key (u : TotalMemoryUsage) : ℤ ×ₗ ℤ := toLex (u.totalMemoryUsage, u.realMemoryUsage)

theorem isLowerThan_iff {u v : TotalMemoryUsage} : u.isLowerThan v = true ↔ u.key < v.key := by
  simp [isLowerThan, key, Prod.Lex.toLex_lt_toLex]

/-- The exact change of a usage. -/
def plus (u : TotalMemoryUsage) (real total : Int) : TotalMemoryUsage :=
  { realMemoryUsage := u.realMemoryUsage + real, totalMemoryUsage := u.totalMemoryUsage + total }

def subReal (u : TotalMemoryUsage) (size : Nat) : TotalMemoryUsage :=
  { u with realMemoryUsage := swrap 64 (u.realMemoryUsage - size) }

def subTotal (u : TotalMemoryUsage) (size : Nat) : TotalMemoryUsage :=
  { u with totalMemoryUsage := swrap 64 (u.totalMemoryUsage - size) }

/-- Both parts are values of an `int64_t`. -/
def InRange (u : TotalMemoryUsage) : Prop :=
  (-2 ^ 63 ≤ u.realMemoryUsage ∧ u.realMemoryUsage < 2 ^ 63) ∧
    -2 ^ 63 ≤ u.totalMemoryUsage ∧ u.totalMemoryUsage < 2 ^ 63

instance (u : TotalMemoryUsage) : Decidable u.InRange := inferInstanceAs (Decidable (_ ∧ _))

theorem swrap_eq {x : Int} (hlo : -2 ^ 63 ≤ x) (hhi : x < 2 ^ 63) : swrap 64 x = x :=
  swrap_of_range (by norm_num; omega) (by norm_num; omega)

variable {u : TotalMemoryUsage} {size newTouchePageBytes : Nat}

theorem add_eq_plus (h : (u.plus size newTouchePageBytes).InRange) :
    u.add size newTouchePageBytes = u.plus size newTouchePageBytes := by
  simp only [InRange, plus] at h ⊢
  rw [add, swrap_eq h.1.1 h.1.2, swrap_eq h.2.1 h.2.2]

theorem subReal_eq_plus (h : (u.plus (-size) 0).InRange) : u.subReal size = u.plus (-size) 0 := by
  simp only [InRange, plus, Int.add_zero] at h ⊢
  rw [subReal, Int.sub_eq_add_neg, swrap_eq h.1.1 h.1.2]

theorem subTotal_eq_plus (h : (u.plus 0 (-size)).InRange) : u.subTotal size = u.plus 0 (-size) := by
  simp only [InRange, plus, Int.add_zero] at h ⊢
  rw [subTotal, Int.sub_eq_add_neg, swrap_eq h.2.1 h.2.2]

/-- A change that takes neither part up does not take the usage up. -/
theorem key_plus_le {real total : Int} (hreal : real ≤ 0) (htotal : total ≤ 0) :
    (u.plus real total).key ≤ u.key := by
  rw [key, key, Prod.Lex.toLex_le_toLex]
  simp only [plus]
  omega

end TotalMemoryUsage

namespace MemoryUsage

inductive UsageCall where
  | addToMemoryUsage (thread size newTouchePageBytes : Nat)
  | subRealSizeFromMemoryUsage (thread size : Nat)
  | subTotalSizeFromMemoryUsage (thread size : Nat)
deriving DecidableEq, Repr

def subRealSizeFromMemoryUsage (s : MemoryUsage) (thread size : Nat) : MemoryUsage :=
  { s with
    threadLocalMemoryUsage := Function.update s.threadLocalMemoryUsage thread
      ((s.threadLocalMemoryUsage thread).subReal size)
    globalMemoryUsage := s.globalMemoryUsage.subReal size }

def subTotalSizeFromMemoryUsage (s : MemoryUsage) (thread size : Nat) : MemoryUsage :=
  { s with
    threadLocalMemoryUsage := Function.update s.threadLocalMemoryUsage thread
      ((s.threadLocalMemoryUsage thread).subTotal size)
    globalMemoryUsage := s.globalMemoryUsage.subTotal size }

/-- One call after another: `mtx` is free whenever it is tried. -/
def usageStep (p : ProgramStatus) (s : MemoryUsage) : UsageCall → Option MemoryUsage
  | .addToMemoryUsage thread size newTouchePageBytes =>
      some (s.addToMemoryUsage p thread size newTouchePageBytes true)
  | .subRealSizeFromMemoryUsage thread size => some (s.subRealSizeFromMemoryUsage thread size)
  | .subTotalSizeFromMemoryUsage thread size => some (s.subTotalSizeFromMemoryUsage thread size)

namespace UsageCall

def thread : UsageCall → Nat
  | .addToMemoryUsage thread _ _ | .subRealSizeFromMemoryUsage thread _
  | .subTotalSizeFromMemoryUsage thread _ => thread

/-- What a call adds to the real memory in use. -/
def real : UsageCall → Int
  | .addToMemoryUsage _ size _ => size
  | .subRealSizeFromMemoryUsage _ size => -size
  | .subTotalSizeFromMemoryUsage _ _ => 0

/-- What a call adds to the total memory in use. -/
def total : UsageCall → Int
  | .addToMemoryUsage _ _ newTouchePageBytes => newTouchePageBytes
  | .subRealSizeFromMemoryUsage _ _ => 0
  | .subTotalSizeFromMemoryUsage _ size => -size

end UsageCall

/-- No 64-bit sum of the call overflows: the new usages, and the two
thresholds an addition compares with. -/
def Fits (s : MemoryUsage) (c : UsageCall) : Prop :=
  ((s.threadLocalMemoryUsage c.thread).plus c.real c.total).InRange ∧
    (s.globalMemoryUsage.plus c.real c.total).InRange ∧
    s.maxGlobalMemoryUsage.totalMemoryUsage + 200 * oneMB < 2 ^ 63 ∧
    s.maxGlobalMemoryUsage.totalMemoryUsage * 2 < 2 ^ 63

instance (s : MemoryUsage) (c : UsageCall) : Decidable (s.Fits c) :=
  inferInstanceAs (Decidable (_ ∧ _))

variable {p : ProgramStatus} {s s' : MemoryUsage} {c : UsageCall}

/-! ## What a call does -/

/-- A call adds its two numbers to the usage of its thread and to the
global one. -/
theorem step_usage (h : s.Fits c) (hs : s.usageStep p c = some s') :
    s'.globalMemoryUsage = s.globalMemoryUsage.plus c.real c.total ∧
      s'.threadLocalMemoryUsage = Function.update s.threadLocalMemoryUsage c.thread
        ((s.threadLocalMemoryUsage c.thread).plus c.real c.total) := by
  obtain ⟨hthread, hglobal, -⟩ := h
  cases c with
  | addToMemoryUsage thread size newTouchePageBytes =>
      obtain rfl := Option.some.inj hs
      have hg := TotalMemoryUsage.add_eq_plus hglobal
      have ht := TotalMemoryUsage.add_eq_plus hthread
      simp only [addToMemoryUsage]
      split <;> exact ⟨hg, congrArg (Function.update s.threadLocalMemoryUsage thread) ht⟩
  | subRealSizeFromMemoryUsage thread size =>
      obtain rfl := Option.some.inj hs
      exact ⟨TotalMemoryUsage.subReal_eq_plus hglobal,
        congrArg (Function.update s.threadLocalMemoryUsage thread)
          (TotalMemoryUsage.subReal_eq_plus hthread)⟩
  | subTotalSizeFromMemoryUsage thread size =>
      obtain rfl := Option.some.inj hs
      exact ⟨TotalMemoryUsage.subTotal_eq_plus hglobal,
        congrArg (Function.update s.threadLocalMemoryUsage thread)
          (TotalMemoryUsage.subTotal_eq_plus hthread)⟩

/-- The two maxima that every addition compares. -/
theorem addToMemoryUsage_maxima (s : MemoryUsage) (thread size newTouchePageBytes : Nat)
    (tryLock : Bool) :
    let s' := s.addToMemoryUsage p thread size newTouchePageBytes tryLock
    s'.maxThreadLocalMemoryUsage =
      (if (s.maxThreadLocalMemoryUsage thread).isLowerThan (s'.threadLocalMemoryUsage thread) then
        Function.update s.maxThreadLocalMemoryUsage thread (s'.threadLocalMemoryUsage thread)
      else s.maxThreadLocalMemoryUsage) ∧
    s'.maxRealMemoryUsage = max s.maxRealMemoryUsage s'.globalMemoryUsage.realMemoryUsage := by
  simp only [addToMemoryUsage]
  split <;> simp only [Function.update_self, and_self]

/-- What a call does to the maxima: an addition compares, a subtraction
leaves them. -/
theorem step_maxima (h : s.Fits c) (hs : s.usageStep p c = some s')
    (hthread : ∀ t, (s.threadLocalMemoryUsage t).key ≤ (s.maxThreadLocalMemoryUsage t).key)
    (hreal : s.globalMemoryUsage.realMemoryUsage ≤ s.maxRealMemoryUsage) :
    (∀ t, (s'.maxThreadLocalMemoryUsage t).key =
      max (s'.threadLocalMemoryUsage t).key (s.maxThreadLocalMemoryUsage t).key) ∧
    s'.maxRealMemoryUsage = max s'.globalMemoryUsage.realMemoryUsage s.maxRealMemoryUsage := by
  obtain ⟨hglobal, hlocal⟩ := step_usage h hs
  -- a usage that went down, or is another thread's, is not above its maximum
  have hkeep : ∀ t, (t = c.thread → c.real ≤ 0 ∧ c.total ≤ 0) →
      (s'.threadLocalMemoryUsage t).key ≤ (s.maxThreadLocalMemoryUsage t).key := by
    intro t ht
    rw [hlocal]
    by_cases hc : t = c.thread
    · subst hc
      rw [Function.update_self]
      exact (TotalMemoryUsage.key_plus_le (ht rfl).1 (ht rfl).2).trans (hthread _)
    · rw [Function.update_of_ne hc]
      exact hthread t
  cases c with
  | addToMemoryUsage thread size newTouchePageBytes =>
      obtain rfl := Option.some.inj hs
      obtain ⟨hmax, hmaxReal⟩ :=
        addToMemoryUsage_maxima (p := p) s thread size newTouchePageBytes true
      refine ⟨fun t => ?_, by rw [hmaxReal, max_comm]⟩
      by_cases ht : t = thread
      · subst ht
        rw [hmax]
        split
        · next hlower =>
            rw [TotalMemoryUsage.isLowerThan_iff] at hlower
            rw [Function.update_self, max_eq_left (le_of_lt hlower)]
        · next hnot =>
            rw [TotalMemoryUsage.isLowerThan_iff] at hnot
            rw [max_eq_right (not_lt.mp hnot)]
      · have hsame : (s.addToMemoryUsage p thread size newTouchePageBytes
            true).maxThreadLocalMemoryUsage t = s.maxThreadLocalMemoryUsage t := by
          rw [hmax]
          split
          · exact Function.update_of_ne ht ..
          · rfl
        rw [hsame, max_eq_right (hkeep t fun h => absurd h ht)]
  | subRealSizeFromMemoryUsage thread size =>
      obtain rfl := Option.some.inj hs
      refine ⟨fun t =>
        (max_eq_right (hkeep t fun _ => ⟨by simp [UsageCall.real], le_rfl⟩)).symm, ?_⟩
      refine (max_eq_right (le_trans ?_ hreal)).symm
      rw [hglobal]
      simp [TotalMemoryUsage.plus, UsageCall.real]
  | subTotalSizeFromMemoryUsage thread size =>
      obtain rfl := Option.some.inj hs
      refine ⟨fun t =>
        (max_eq_right (hkeep t fun _ => ⟨le_rfl, by simp [UsageCall.total]⟩)).symm, ?_⟩
      refine (max_eq_right (le_trans ?_ hreal)).symm
      rw [hglobal]
      simp [TotalMemoryUsage.plus, UsageCall.real]

/-- A call leaves the recorded peak, and the usage no higher or not far
enough above it, or it records the usage it leads to. -/
theorem step_recorded (h : s.Fits c) (hs : s.usageStep p c = some s') :
    s'.maxGlobalMemoryUsage = s.maxGlobalMemoryUsage ∧
      (s'.globalMemoryUsage.totalMemoryUsage ≤ s.globalMemoryUsage.totalMemoryUsage ∨
        passesPeak s'.globalMemoryUsage s.maxGlobalMemoryUsage = false) ∨
    s'.maxGlobalMemoryUsage = s'.globalMemoryUsage ∧
      passesPeak s'.globalMemoryUsage s.maxGlobalMemoryUsage = true := by
  have hglobal := (step_usage h hs).1
  cases c with
  | addToMemoryUsage thread size newTouchePageBytes =>
      obtain rfl := Option.some.inj hs
      simp only [addToMemoryUsage, Bool.and_true]
      split
      · next hpasses => exact .inr ⟨rfl, hpasses⟩
      · next hpasses => exact .inl ⟨rfl, .inr (Bool.not_eq_true _ ▸ hpasses)⟩
  | subRealSizeFromMemoryUsage thread size =>
      obtain rfl := Option.some.inj hs
      refine .inl ⟨rfl, .inl (le_of_eq ?_)⟩
      rw [hglobal]
      exact Int.add_zero _
  | subTotalSizeFromMemoryUsage thread size =>
      obtain rfl := Option.some.inj hs
      refine .inl ⟨rfl, .inl ?_⟩
      rw [hglobal]
      simp [TotalMemoryUsage.plus, UsageCall.total]

/-! ## Runs -/

/-- The usage is small, or not far above the recorded peak. -/
def Near (s : MemoryUsage) : Prop :=
  s.globalMemoryUsage.totalMemoryUsage < 10 * oneMB ∨
    s.globalMemoryUsage.totalMemoryUsage ≤
      min (s.maxGlobalMemoryUsage.totalMemoryUsage + 200 * oneMB)
        (2 * s.maxGlobalMemoryUsage.totalMemoryUsage)

theorem passesPeak_iff {g m : TotalMemoryUsage} :
    passesPeak g m = true ↔ 10 * oneMB ≤ g.totalMemoryUsage ∧
      (m.totalMemoryUsage + 200 * oneMB < g.totalMemoryUsage ∨
        m.totalMemoryUsage * 2 < g.totalMemoryUsage) := by
  simp [passesPeak]

theorem Near.step (hnear : s.Near) (h : s.Fits c) (hs : s.usageStep p c = some s') : s'.Near := by
  rcases step_recorded h hs with ⟨hsame, hdown | hnot⟩ | ⟨hrecorded, hpasses⟩
  · unfold Near at hnear ⊢
    rw [hsame]
    omega
  · rw [← Bool.not_eq_true, passesPeak_iff] at hnot
    unfold Near
    rw [hsame]
    omega
  · rw [passesPeak_iff] at hpasses
    unfold Near
    rw [hrecorded]
    simp only [oneMB] at hpasses ⊢
    omega

/-- The values of `f` in the states of a run of calls. -/
abbrev seen {α : Type*} (p : ProgramStatus) (waste : MemoryWaste) (f : MemoryUsage → α)
    (past : List UsageCall) : Set α :=
  Seen (usageStep p) (fun _ s c => s.Fits c) { waste } f past

/-- What the peaks of a state are, in terms of the states before it. -/
structure Peaks (p : ProgramStatus) (waste : MemoryWaste) (past : List UsageCall)
    (s : MemoryUsage) : Prop where
  near : s.Near
  recorded : s.maxGlobalMemoryUsage = {} ∨
    s.maxGlobalMemoryUsage ∈ seen p waste globalMemoryUsage past
  ascending : ∀ total ∈ seen p waste (fun s => s.maxGlobalMemoryUsage.totalMemoryUsage) past,
    total ≤ s.maxGlobalMemoryUsage.totalMemoryUsage
  thread : ∀ t, IsGreatest (seen p waste (fun s => (s.threadLocalMemoryUsage t).key) past)
    (s.maxThreadLocalMemoryUsage t).key
  real : IsGreatest (seen p waste (fun s => s.globalMemoryUsage.realMemoryUsage) past)
    s.maxRealMemoryUsage

theorem Peaks.initial (p : ProgramStatus) (waste : MemoryWaste) : Peaks p waste [] { waste } where
  near := .inl (by norm_num)
  recorded := .inl rfl
  ascending := fun total h => by
    rw [seen, seen_nil] at h
    exact le_of_eq h
  thread := fun t => by
    rw [seen, seen_nil]
    exact isGreatest_singleton
  real := by
    rw [seen, seen_nil]
    exact isGreatest_singleton

/-- Every sequential run of calls from zero. -/
theorem usage_peaks {waste : MemoryWaste} {past : List UsageCall} {s : MemoryUsage}
    (hrun : Run (usageStep p) (fun _ s c => s.Fits c) { waste } past s) : Peaks p waste past s := by
  refine hrun.inv (Peaks p waste) (.initial p waste) fun past s c s' hrun h hfits hs => ?_
  have hrun' := hrun.snoc hfits hs
  obtain ⟨hthread, hreal⟩ := step_maxima hfits hs
    (fun t => (h.thread t).2 (hrun.now fun s => (s.threadLocalMemoryUsage t).key))
    (h.real.2 (hrun.now fun s => s.globalMemoryUsage.realMemoryUsage))
  have hzero : 0 ≤ s.maxGlobalMemoryUsage.totalMemoryUsage := by
    refine h.ascending 0 (seen_mono _ [] past ?_)
    rw [seen_nil]
    rfl
  constructor
  · exact h.near.step hfits hs
  · rcases step_recorded hfits hs with ⟨hsame, -⟩ | ⟨hrecorded, -⟩
    · rw [hsame]
      exact h.recorded.imp_right fun hseen => seen_mono _ past _ hseen
    · rw [hrecorded]
      exact .inr (hrun'.now globalMemoryUsage)
  · have hup : s.maxGlobalMemoryUsage.totalMemoryUsage
        ≤ s'.maxGlobalMemoryUsage.totalMemoryUsage := by
      rcases step_recorded hfits hs with ⟨hsame, -⟩ | ⟨hrecorded, hpasses⟩
      · rw [hsame]
      · rw [passesPeak_iff] at hpasses
        rw [hrecorded]
        simp only [oneMB] at hpasses
        omega
    intro total htotal
    rw [seen, seen_snoc _ hrun'] at htotal
    rcases htotal with rfl | hbefore
    · exact le_refl _
    · exact (h.ascending total hbefore).trans hup
  · exact fun t => isGreatest_snoc (h.thread t) hrun' (hthread t)
  · exact isGreatest_snoc h.real hrun' hreal

/-- 20 MB touched at once, a page given back. -/
theorem usage_peaks_two_calls :
    ∃ s, [UsageCall.addToMemoryUsage 1 100 20971520, .subTotalSizeFromMemoryUsage 1 4096].foldlM
        (usageStep .bumpTable) { waste := .init .init } = some s ∧
      s.globalMemoryUsage = ⟨100, 20967424⟩ ∧ s.maxGlobalMemoryUsage = ⟨100, 20971520⟩ ∧
      Peaks .bumpTable (.init .init)
        [.addToMemoryUsage 1 100 20971520, .subTotalSizeFromMemoryUsage 1 4096] s :=
  ⟨_, rfl, by decide, by decide,
    usage_peaks ((Run.nil.snoc (by decide) rfl).snoc (by decide) rfl)⟩

end MemoryUsage

end MemPerf.Temp
