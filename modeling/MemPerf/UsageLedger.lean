import MemPerf.Lib.InFlight
import MemPerf.PageLedger
import MemPerf.WasteBreakdown

/-!
# The counters of memory

`realMemoryUsage` counts the bytes the program has asked for,
`totalMemoryUsage` those of the pages it has touched. A call of the
program goes to three places one after another: the status of the object,
the tables, the counters. Calls of other threads come in between, but not
inside one of the steps: that a page is found untouched and that it is
touched is one.

This module has the calls and what they do to the objects: at any moment
the tables know the objects they should (`Ledger`). An object is in use
from the moment the allocator returns it until the call of `free` is
through with it. The allocator gives out nothing in use and no object of
more than `2 ^ 32 - 8192` bytes, and nothing in use is unmapped; an address
is not freed before the call that allocates it has returned, and cleanups
are safe (`CleanupSafe`).
-/

namespace MemPerf.Original

open Word StepSystem PageWalk Coverage InFlight MemPerf.Original.ShadowMemory
open MemPerf.Temp (TotalMemoryUsage)

/-! ## Objects and counters -/

/-- The size of an object, and whether it is allocated. -/
structure ObjectStatus where
  size : Nat
  allocated : Bool
deriving DecidableEq, Repr

/-- What `MemoryWaste::allocUpdate` does to the map of objects. -/
def allocUpdate (objStatusMap : Nat → Option ObjectStatus) (size address : Nat) :
    Nat → Option ObjectStatus :=
  match objStatusMap address with
  | none => Function.update objStatusMap address (some { size, allocated := true })
  | some status =>
      let status := if status.size = size then status else { status with size }
      Function.update objStatusMap address (some { status with allocated := true })

/-- The size `MemoryWaste::freeUpdate` returns, and the map. -/
def freeUpdate (objStatusMap : Nat → Option ObjectStatus) (address : Nat) :
    Nat × (Nat → Option ObjectStatus) :=
  match objStatusMap address with
  | none => (0, objStatusMap)
  | some status =>
      if status.allocated = false then (0, objStatusMap)
      else (status.size,
        Function.update objStatusMap address (some { status with allocated := false }))

structure MemoryUsage where
  /-- thread-local -/
  threadLocalMemoryUsage : Nat → TotalMemoryUsage := fun _ => {}
  /-- thread-local -/
  maxThreadLocalMemoryUsage : Nat → TotalMemoryUsage := fun _ => {}
  globalMemoryUsage : TotalMemoryUsage := {}
  maxGlobalMemoryUsage : TotalMemoryUsage := {}
  maxRealMemoryUsage : Int := 0
  updateTimes : Nat := 0

namespace MemoryUsage

/-- `tryLock` is what `mtx.try_lock()` returns, if it is called. -/
def addToMemoryUsage (u : MemoryUsage) (thread size newTouchePageBytes : Nat) (tryLock : Bool) :
    MemoryUsage :=
  let threadUsage := (u.threadLocalMemoryUsage thread).add size newTouchePageBytes
  let globalUsage := u.globalMemoryUsage.add size newTouchePageBytes
  let u := { u with
    threadLocalMemoryUsage := Function.update u.threadLocalMemoryUsage thread threadUsage
    maxThreadLocalMemoryUsage :=
      if (u.maxThreadLocalMemoryUsage thread).isLowerThan threadUsage then
        Function.update u.maxThreadLocalMemoryUsage thread threadUsage
      else u.maxThreadLocalMemoryUsage
    globalMemoryUsage := globalUsage
    maxRealMemoryUsage := max u.maxRealMemoryUsage globalUsage.realMemoryUsage }
  if Temp.MemoryUsage.passesPeak globalUsage u.maxGlobalMemoryUsage && tryLock then
    { u with
      maxGlobalMemoryUsage := globalUsage
      updateTimes := wrap 32 (u.updateTimes + 1) }
  else u

def subRealSizeFromMemoryUsage (u : MemoryUsage) (thread size : Nat) : MemoryUsage :=
  { u with
    threadLocalMemoryUsage := Function.update u.threadLocalMemoryUsage thread
      ((u.threadLocalMemoryUsage thread).subReal size)
    globalMemoryUsage := u.globalMemoryUsage.subReal size }

def subTotalSizeFromMemoryUsage (u : MemoryUsage) (thread size : Nat) : MemoryUsage :=
  { u with
    threadLocalMemoryUsage := Function.update u.threadLocalMemoryUsage thread
      ((u.threadLocalMemoryUsage thread).subTotal size)
    globalMemoryUsage := u.globalMemoryUsage.subTotal size }

end MemoryUsage

/-! ## Calls -/

/-- How far a thread's call is: what it will go to next, with what it knows
by then. -/
inductive Phase where
  | idle
  | object (address size : Nat) (isFree : Bool)
  | lines (address size : Nat) (isFree : Bool) (objectNewTouchedPageSize : Nat)
  | counters (address size : Nat) (isFree : Bool) (objectNewTouchedPageSize : Nat)
  | cleaned (cleanedPageSize : Nat)
deriving DecidableEq, Repr

/-- `trace` and `objects` are for the statements only: the calls into the
shadow memory so far, and the objects that allocation calls have returned
and that were not freed since. -/
structure Profiler where
  objStatusMap : Nat → Option ObjectStatus := fun _ => none
  shadow : ShadowMemory := {}
  usage : MemoryUsage := {}
  phase : Nat → Phase := fun _ => .idle
  trace : List ShadowOp := []
  objects : List Span := []

/-- The calls a thread starts: `updateMemoryStatusAfterAllocation`,
`updateMemoryStatusBeforeFree`, and what `munmap` and `madvise` do. `next`
goes on with the call. -/
inductive Action where
  | allocation (address size : Nat)
  | free (address : Nat)
  | cleanup (uintaddr length : Nat)
  | next (tryLock : Bool)
deriving DecidableEq, Repr

namespace Profiler

variable (s : Profiler)

def goto (thread : Nat) (phase : Phase) : Profiler :=
  { s with phase := Function.update s.phase thread phase }

def updateMemoryStatusAfterAllocation (thread address size : Nat) : Profiler :=
  { s.goto thread (.object address size false) with
    objStatusMap := allocUpdate s.objStatusMap size address }

def updateMemoryStatusBeforeFree (thread address : Nat) : Profiler :=
  let (size, objStatusMap) := freeUpdate s.objStatusMap address
  if size = 0 then { s with objStatusMap }
  else
    { s.goto thread (.object address size true) with
      objStatusMap
      objects := s.objects.erase ⟨address, size⟩ }

def cleanup (thread uintaddr length : Nat) : Option Profiler := do
  let (cleanedPageSize, w) ← s.shadow.cleanupPages uintaddr length
  some { s.goto thread (.cleaned cleanedPageSize) with
    shadow := w.shadow
    trace := s.trace ++ [.cleanupPages uintaddr length] }

/-- The first half of `updateObject`. -/
def updatePages (thread address size : Nat) (isFree : Bool) : Option Profiler :=
  if address = 0 ∨ size = 0 then some (s.goto thread (.counters address size isFree 0))
  else if megaIndexOf address > numMegabyteMapEntries then none
  else do
    let pages ← s.shadow.updatePages address (megaIndexOf address) (pageIndexOf address) size isFree
    some { s.goto thread (.lines address size isFree (wrap 32 (pages.numPages * pagesize))) with
      shadow := pages.shadow
      trace := s.trace ++ [.updatePages address size isFree] }

/-- The second half. -/
def updateCacheLines (thread address size : Nat) (isFree : Bool)
    (objectNewTouchedPageSize : Nat) : Option Profiler := do
  let lines ← s.shadow.updateCacheLines thread (megaIndexOf address) (pageIndexOf address)
    (cacheIndexOf address) (address &&& cachelineSizeMask) size isFree
  some { s.goto thread (.counters address size isFree objectNewTouchedPageSize) with
    shadow := lines.shadow
    trace := s.trace ++ [.updateCacheLines thread address size isFree] }

/-- The counters, and the call returns. -/
def updateCounters (thread address size : Nat) (isFree : Bool)
    (objectNewTouchedPageSize : Nat) (tryLock : Bool) : Profiler :=
  if isFree then
    { s.goto thread .idle with usage := s.usage.subRealSizeFromMemoryUsage thread size }
  else
    { s.goto thread .idle with
      usage := s.usage.addToMemoryUsage thread size objectNewTouchedPageSize tryLock
      objects := ⟨address, size⟩ :: s.objects }

def step (s : Profiler) : Nat × Action → Option Profiler
  | (thread, action) =>
      match s.phase thread, action with
      | .idle, .allocation address size =>
          some (s.updateMemoryStatusAfterAllocation thread address size)
      | .idle, .free address => some (s.updateMemoryStatusBeforeFree thread address)
      | .idle, .cleanup uintaddr length => s.cleanup thread uintaddr length
      | .object address size isFree, .next _ => s.updatePages thread address size isFree
      | .lines address size isFree objectNewTouchedPageSize, .next _ =>
          s.updateCacheLines thread address size isFree objectNewTouchedPageSize
      | .counters address size isFree objectNewTouchedPageSize, .next tryLock =>
          some (s.updateCounters thread address size isFree objectNewTouchedPageSize tryLock)
      | .cleaned cleanedPageSize, .next _ =>
          some { s.goto thread .idle with
            usage := s.usage.subTotalSizeFromMemoryUsage thread cleanedPageSize }
      | _, _ => none

end Profiler

/-! ## One step -/

/-- What a step of thread `t` can be. -/
inductive Profiler.Goes (s : Profiler) (t : Nat) : Action → Profiler → Prop
  | allocation {address size : Nat} (hphase : s.phase t = .idle) :
      Goes s t (.allocation address size) (s.updateMemoryStatusAfterAllocation t address size)
  | unknown {address : Nat} (hphase : s.phase t = .idle)
      (hsize : (freeUpdate s.objStatusMap address).1 = 0) :
      Goes s t (.free address)
        { s with objStatusMap := (freeUpdate s.objStatusMap address).2 }
  | free {address size : Nat} (hphase : s.phase t = .idle)
      (hstatus : s.objStatusMap address = some ⟨size, true⟩) (hsize : size ≠ 0) :
      Goes s t (.free address) { s.goto t (.object address size true) with
        objStatusMap := Function.update s.objStatusMap address (some ⟨size, false⟩)
        objects := s.objects.erase ⟨address, size⟩ }
  | cleanup {uintaddr length cleanedPageSize : Nat} {w : PageWalk} (hphase : s.phase t = .idle)
      (hw : s.shadow.cleanupPages uintaddr length = some (cleanedPageSize, w)) :
      Goes s t (.cleanup uintaddr length) { s.goto t (.cleaned cleanedPageSize) with
        shadow := w.shadow
        trace := s.trace ++ [.cleanupPages uintaddr length] }
  | nothing {address size : Nat} {isFree tryLock : Bool}
      (hphase : s.phase t = .object address size isFree) (hnone : address = 0 ∨ size = 0) :
      Goes s t (.next tryLock) (s.goto t (.counters address size isFree 0))
  | pages {address size : Nat} {isFree tryLock : Bool} {w : PageWalk}
      (hphase : s.phase t = .object address size isFree)
      (hw : s.shadow.updatePages address (megaIndexOf address) (pageIndexOf address) size isFree
        = some w) :
      Goes s t (.next tryLock)
        { s.goto t (.lines address size isFree (wrap 32 (w.numPages * pagesize))) with
          shadow := w.shadow
          trace := s.trace ++ [.updatePages address size isFree] }
  | lines {address size objectNewTouchedPageSize : Nat} {isFree tryLock : Bool} {w : PageWalk}
      (hphase : s.phase t = .lines address size isFree objectNewTouchedPageSize)
      (hw : s.shadow.updateCacheLines t (megaIndexOf address) (pageIndexOf address)
        (cacheIndexOf address) (address &&& cachelineSizeMask) size isFree = some w) :
      Goes s t (.next tryLock)
        { s.goto t (.counters address size isFree objectNewTouchedPageSize) with
          shadow := w.shadow
          trace := s.trace ++ [.updateCacheLines t address size isFree] }
  | counters {address size objectNewTouchedPageSize : Nat} {isFree tryLock : Bool}
      (hphase : s.phase t = .counters address size isFree objectNewTouchedPageSize) :
      Goes s t (.next tryLock)
        (s.updateCounters t address size isFree objectNewTouchedPageSize tryLock)
  | cleaned {cleanedPageSize : Nat} {tryLock : Bool}
      (hphase : s.phase t = .cleaned cleanedPageSize) :
      Goes s t (.next tryLock) { s.goto t .idle with
        usage := s.usage.subTotalSizeFromMemoryUsage t cleanedPageSize }

theorem freeUpdate_cases (objStatusMap : Nat → Option ObjectStatus) (address : Nat) :
    (freeUpdate objStatusMap address).1 = 0 ∨
      ∃ size, objStatusMap address = some ⟨size, true⟩ ∧ size ≠ 0 ∧
        freeUpdate objStatusMap address =
          (size, Function.update objStatusMap address (some ⟨size, false⟩)) := by
  unfold freeUpdate
  split
  · exact .inl rfl
  · next status hstatus =>
      obtain ⟨size, allocated⟩ := status
      cases allocated with
      | false => exact .inl rfl
      | true =>
          by_cases hsize : size = 0
          · exact .inl hsize
          · exact .inr ⟨size, hstatus, hsize, rfl⟩

theorem Profiler.goes_of_step {s s' : Profiler} {t : Nat} {a : Action}
    (h : s.step (t, a) = some s') : s.Goes t a s' := by
  simp only [Profiler.step] at h
  split at h
  · next hphase =>
      cases h
      exact .allocation hphase
  · next address hphase =>
      cases h
      unfold updateMemoryStatusBeforeFree
      rcases freeUpdate_cases s.objStatusMap address with hzero | ⟨size, hstatus, hsize, hfree⟩
      · simp only [hzero, if_true]
        exact .unknown hphase hzero
      · simp only [hfree, if_neg hsize]
        exact .free hphase hstatus hsize
  · next hphase =>
      obtain ⟨⟨c, w⟩, hw, h⟩ := Option.bind_eq_some_iff.mp h
      cases h
      exact .cleanup hphase hw
  · next hphase =>
      unfold Profiler.updatePages at h
      split at h
      · next hnone =>
          cases h
          exact .nothing hphase hnone
      · split at h
        · cases h
        · obtain ⟨w, hw, h⟩ := Option.bind_eq_some_iff.mp h
          cases h
          exact .pages hphase hw
  · next hphase =>
      obtain ⟨w, hw, h⟩ := Option.bind_eq_some_iff.mp h
      cases h
      exact .lines hphase hw
  · next hphase =>
      cases h
      exact .counters hphase
  · next hphase =>
      cases h
      exact .cleaned hphase
  · cases h

/-! ## What the calls in progress hold -/

namespace Phase

/-- The object of the call, in use until the call is through. -/
def inUse : Phase → List Span
  | .object address size _ => [⟨address, size⟩]
  | .lines address size _ _ => [⟨address, size⟩]
  | .counters address size _ _ => [⟨address, size⟩]
  | .idle => []
  | .cleaned _ => []

/-- The object, while the pages count it. -/
def onPages : Phase → List Span
  | .object address size true => [⟨address, size⟩]
  | .lines address size false _ => [⟨address, size⟩]
  | .counters address size false _ => [⟨address, size⟩]
  | _ => []

/-- The object, while the lines count it. -/
def onLines : Phase → List Span
  | .object address size true => [⟨address, size⟩]
  | .lines address size true _ => [⟨address, size⟩]
  | .counters address size false _ => [⟨address, size⟩]
  | _ => []

/-- The object, once its pages are touched. -/
def touching : Phase → List Span
  | .object address size true => [⟨address, size⟩]
  | .lines address size _ _ => [⟨address, size⟩]
  | .counters address size _ _ => [⟨address, size⟩]
  | _ => []

/-- What an allocation has still to add to the total. -/
def newBytes : Phase → Int
  | .lines _ _ false objectNewTouchedPageSize => objectNewTouchedPageSize
  | .counters _ _ false objectNewTouchedPageSize => objectNewTouchedPageSize
  | _ => 0

/-- What a cleanup has still to subtract from it. -/
def cleanedBytes : Phase → Int
  | .cleaned cleanedPageSize => cleanedPageSize
  | _ => 0

/-- What a call of `free` has still to subtract from the real usage. -/
def freedBytes : Phase → Int
  | .object _ size true => size
  | .lines _ size true _ => size
  | .counters _ size true _ => size
  | _ => 0

/-- The call allocates the object. -/
def Allocates (o : Span) : Phase → Prop
  | .object address size false => o = ⟨address, size⟩
  | .lines address size false _ => o = ⟨address, size⟩
  | .counters address size false _ => o = ⟨address, size⟩
  | _ => False

theorem onPages_subset (x : Phase) : x.onPages ⊆ x.inUse := by
  unfold onPages inUse
  split <;> simp

theorem onLines_subset (x : Phase) : x.onLines ⊆ x.inUse := by
  unfold onLines inUse
  split <;> simp

theorem touching_sublist (x : Phase) : x.touching.Sublist x.inUse := by
  unfold touching inUse
  split <;> simp

theorem freedBytes_le (x : Phase) : x.freedBytes ≤ ((x.touching.map Span.len).sum : Int) := by
  unfold freedBytes
  split
  case h_4 => exact Int.natCast_nonneg _
  all_goals exact le_refl _

theorem newBytes_nonneg (x : Phase) : 0 ≤ x.newBytes := by
  unfold newBytes
  split <;> omega

theorem cleanedBytes_nonneg (x : Phase) : 0 ≤ x.cleanedBytes := by
  unfold cleanedBytes
  split <;> omega

theorem freedBytes_nonneg (x : Phase) : 0 ≤ x.freedBytes := by
  unfold freedBytes
  split <;> omega

end Phase

/-- The objects in use: those the program holds, and those of the calls in
progress. -/
def Profiler.inUse (n : Nat) (s : Profiler) : List Span :=
  s.objects ++ gather n Phase.inUse s.phase

/-- What the program and the allocator keep to. -/
def CallPermitted (n : Nat) (s : Profiler) : Nat × Action → Prop
  | (thread, action) => thread < n ∧
      match action with
      | .allocation address size => address ≠ 0 ∧ 0 < size ∧ size + 8192 ≤ 2 ^ 32
          ∧ ∀ o ∈ s.inUse n, Span.Apart ⟨address, size⟩ o
      | .free address => ∀ t < n, ∀ size, ¬ (s.phase t).Allocates ⟨address, size⟩
      | .cleanup uintaddr length => Proper s.shadow (.cleanupPages uintaddr length)
          ∧ Unused (s.inUse n) uintaddr length
      | .next _ => True

/-! ## The objects -/

theorem pageObjects_snoc (past : List ShadowOp) (op : ShadowOp) :
    pageObjects (past ++ [op]) = op.onPages (pageObjects past) := by
  rw [pageObjects, List.foldl_append]
  rfl

theorem lineObjects_snoc (past : List ShadowOp) (op : ShadowOp) :
    lineObjects (past ++ [op]) = op.onLines (lineObjects past) := by
  rw [lineObjects, List.foldl_append]
  rfl

/-- The tables have followed the calls so far, and know the objects they
should. -/
structure Ledger (n : Nat) (s : Profiler) : Prop where
  shadowRun : Run ShadowMemory.step Permitted {} s.trace s.shadow
  pages : (pageObjects s.trace).Perm (s.objects ++ gather n Phase.onPages s.phase)
  lines : (lineObjects s.trace).Perm (s.objects ++ gather n Phase.onLines s.phase)
  apart : (s.inUse n).Pairwise Span.Apart
  sized : ∀ o ∈ s.inUse n, o.start ≠ 0 ∧ 0 < o.len ∧ o.len + 8192 ≤ 2 ^ 32
  status : ∀ address size, s.objStatusMap address = some ⟨size, true⟩ →
    ⟨address, size⟩ ∈ s.objects ∨ ∃ t < n, (s.phase t).Allocates ⟨address, size⟩

section update

variable {n t : Nat} {s : Profiler} {o : Span} {isFree : Bool} {hold : Phase → List Span}
  {M : List Span}

/-- An object goes to a list that is kept for the tables, or leaves it. -/
theorem Ledger.updates (h : Ledger n s) (ht : t < n)
    (hM : M.Perm (s.objects ++ gather n hold s.phase)) (hsub : ∀ x, hold x ⊆ x.inUse)
    (hphase : (s.phase t).inUse = [o]) (hhold : hold (s.phase t) = if isFree then [o] else []) :
    Updates o.start o.len isFree M := by
  have hM' := hM.trans ((gather_perm hold s.phase ht).append_left s.objects)
  rw [hhold] at hM'
  cases isFree with
  | true => exact hM'.mem_iff.mpr (by simp)
  | false =>
      have hsplit : (s.inUse n).Perm (o :: (s.objects ++ others n t Phase.inUse s.phase)) := by
        have hall := (gather_perm Phase.inUse s.phase ht).append_left s.objects
        rw [hphase] at hall
        exact hall.trans List.perm_middle
      have hsym : ∀ {o o' : Span}, o.Apart o' → o'.Apart o := Span.Apart.symm
      have hapart := (List.pairwise_cons.mp (hsplit.pairwise h.apart hsym)).1
      intro o' ho'
      have hmem := hM'.mem_iff.mp ho'
      simp only [Bool.false_eq_true, if_false, List.nil_append, List.mem_append] at hmem
      refine hapart o' (List.mem_append.mpr (hmem.imp_right fun hother => ?_))
      exact others_subset s.phase hsub hother

/-- The list afterwards. -/
theorem updateLive_perm {x : Phase} (ht : t < n)
    (hM : M.Perm (s.objects ++ gather n hold s.phase))
    (hhold : hold (s.phase t) = if isFree then [o] else [])
    (hx : hold x = if isFree then [] else [o]) :
    (updateLive o.start o.len isFree M).Perm
      (s.objects ++ gather n hold (Function.update s.phase t x)) := by
  refine perm_update hold s.phase ht hM fun rest hrest => ?_
  rw [hhold] at hrest
  rw [hx]
  cases isFree with
  | true =>
      have hmiddle : M.Perm (o :: (s.objects ++ rest)) := hrest.trans List.perm_middle
      have herase := hmiddle.erase o
      rwa [List.erase_cons_head] at herase
  | false => exact (hrest.cons o).trans List.perm_middle.symm

end update

section step

variable {n t : Nat} {s s' : Profiler}

/-- Objects in use that change hands. -/
theorem inUse_perm {L M : List Span} {x : Phase} (ht : t < n)
    (hmove : ∀ rest, (s.inUse n).Perm (s.objects ++ ((s.phase t).inUse ++ rest)) →
      M.Perm (L ++ (x.inUse ++ rest))) :
    M.Perm (L ++ gather n Phase.inUse (Function.update s.phase t x)) :=
  perm_update Phase.inUse s.phase ht (.refl _) hmove

theorem Ledger.of_perm (h : Ledger n s) {L : List Span} (hperm : (s.inUse n).Perm L) :
    L.Pairwise Span.Apart ∧ ∀ o ∈ L, o.start ≠ 0 ∧ 0 < o.len ∧ o.len + 8192 ≤ 2 ^ 32 := by
  have hsym : ∀ {o o' : Span}, o.Apart o' → o'.Apart o := Span.Apart.symm
  exact ⟨hperm.pairwise h.apart hsym, fun o ho => h.sized o (hperm.mem_iff.mpr ho)⟩

theorem Profiler.mem_inUse (ht : t < n) {o : Span} (ho : o ∈ (s.phase t).inUse) : o ∈ s.inUse n :=
  List.mem_append_right _ ((mem_gather Phase.inUse s.phase).mpr ⟨t, ht, ho⟩)

/-- Phases that agree on the object they allocate. -/
theorem Ledger.status_goto (h : Ledger n s) {x : Phase}
    (hx : ∀ o, (s.phase t).Allocates o → x.Allocates o) {address size : Nat}
    (hstatus : s.objStatusMap address = some ⟨size, true⟩) :
    ⟨address, size⟩ ∈ s.objects ∨
      ∃ t' < n, (Function.update s.phase t x t').Allocates ⟨address, size⟩ := by
  refine (h.status address size hstatus).imp_right ?_
  rintro ⟨t', ht', halloc⟩
  refine ⟨t', ht', ?_⟩
  by_cases heq : t' = t
  · subst heq
    rw [Function.update_self]
    exact hx _ halloc
  · rwa [Function.update_of_ne heq]

theorem allocUpdate_eq (objStatusMap : Nat → Option ObjectStatus) (size address : Nat) :
    allocUpdate objStatusMap size address =
      Function.update objStatusMap address (some ⟨size, true⟩) := by
  unfold allocUpdate
  split
  · rfl
  · next status _ =>
      simp only
      split
      · next hsize => rw [hsize]
      · rfl

theorem Ledger.allocation (h : Ledger n s) (ht : t < n) {address size : Nat}
    (hphase : s.phase t = .idle) (hstart : address ≠ 0) (hsize : 0 < size)
    (hlarge : size + 8192 ≤ 2 ^ 32) (hapart : ∀ o ∈ s.inUse n, Span.Apart ⟨address, size⟩ o) :
    Ledger n (s.updateMemoryStatusAfterAllocation t address size) := by
  have hperm : (⟨address, size⟩ :: s.inUse n).Perm (s.objects ++ gather n Phase.inUse
      (Function.update s.phase t (.object address size false))) := by
    refine inUse_perm ht fun rest hrest => ?_
    rw [hphase] at hrest
    exact (hrest.cons _).trans List.perm_middle.symm
  have hsym : ∀ {o o' : Span}, o.Apart o' → o'.Apart o := Span.Apart.symm
  refine ⟨h.shadowRun, ?_, ?_, hperm.pairwise (h.apart.cons hapart) hsym, fun o ho => ?_,
    fun a k hstatus => ?_⟩
  · refine perm_update Phase.onPages s.phase ht h.pages fun rest hrest => ?_
    rwa [hphase] at hrest
  · refine perm_update Phase.onLines s.phase ht h.lines fun rest hrest => ?_
    rwa [hphase] at hrest
  · rcases List.mem_cons.mp (hperm.mem_iff.mpr ho) with rfl | ho
    · exact ⟨hstart, hsize, hlarge⟩
    · exact h.sized o ho
  · by_cases ha : a = address
    · subst ha
      have hk : allocUpdate s.objStatusMap size a a = some ⟨k, true⟩ := hstatus
      rw [allocUpdate_eq, Function.update_self] at hk
      cases hk
      refine .inr ⟨t, ht, ?_⟩
      show (Function.update s.phase t _ t).Allocates ⟨a, size⟩
      rw [Function.update_self]
      rfl
    · have hold : s.objStatusMap a = some ⟨k, true⟩ := by
        rw [← hstatus]
        exact ((congrFun (allocUpdate_eq s.objStatusMap size address) a).trans
          (Function.update_of_ne ha ..)).symm
      refine h.status_goto (fun _ halloc => ?_) hold
      rw [hphase] at halloc
      exact halloc.elim

theorem Ledger.unknown (h : Ledger n s) {address : Nat} :
    Ledger n { s with objStatusMap := (freeUpdate s.objStatusMap address).2 } := by
  refine ⟨h.shadowRun, h.pages, h.lines, h.apart, h.sized, fun a k hstatus => h.status a k ?_⟩
  simp only [freeUpdate] at hstatus
  split at hstatus
  · exact hstatus
  · split at hstatus
    · exact hstatus
    · simp only at hstatus
      by_cases ha : a = address
      · subst ha
        rw [Function.update_self] at hstatus
        cases hstatus
      · rwa [Function.update_of_ne ha] at hstatus

theorem Ledger.free (h : Ledger n s) (ht : t < n) {address size : Nat}
    (hphase : s.phase t = .idle) (ho : ⟨address, size⟩ ∈ s.objects) :
    Ledger n { s.goto t (.object address size true) with
      objStatusMap := Function.update s.objStatusMap address (some ⟨size, false⟩)
      objects := s.objects.erase ⟨address, size⟩ } := by
  -- the object goes from the program to the call
  have hmove : ∀ {M rest : List Span}, M.Perm (s.objects ++ ([] ++ rest)) →
      M.Perm (s.objects.erase ⟨address, size⟩ ++ ([⟨address, size⟩] ++ rest)) := by
    intro M rest hM
    exact hM.trans (((List.perm_cons_erase ho).append_right rest).trans List.perm_middle.symm)
  have hperm := inUse_perm (s := s) (L := s.objects.erase ⟨address, size⟩)
    (x := .object address size true) ht fun rest hrest => hmove (by rwa [hphase] at hrest)
  obtain ⟨hapart, hsized⟩ := h.of_perm hperm
  refine ⟨h.shadowRun, ?_, ?_, hapart, hsized, fun a k hstatus => ?_⟩
  · refine perm_update Phase.onPages s.phase ht h.pages fun rest hrest => hmove ?_
    rwa [hphase] at hrest
  · refine perm_update Phase.onLines s.phase ht h.lines fun rest hrest => hmove ?_
    rwa [hphase] at hrest
  · by_cases ha : a = address
    · subst ha
      simp only [Function.update_self] at hstatus
      cases hstatus
    · simp only [Function.update_of_ne ha] at hstatus
      rcases h.status_goto (t := t) (x := .object address size true)
        (fun _ halloc => by rw [hphase] at halloc; exact halloc.elim) hstatus with hmem | halloc
      · have hne : Span.mk a k ≠ ⟨address, size⟩ := fun heq => ha (congrArg Span.start heq)
        exact .inl ((List.mem_erase_of_ne hne).mpr hmem)
      · exact .inr halloc

/-- What the tables know of is in use. -/
theorem Ledger.unused (h : Ledger n s) {uintaddr length : Nat}
    (hunused : Unused (s.inUse n) uintaddr length) :
    Unused (pageObjects s.trace) uintaddr length ∧
      Unused (lineObjects s.trace) uintaddr length := by
  have hsub : ∀ {hold : Phase → List Span} {M : List Span}, (∀ x, hold x ⊆ x.inUse) →
      M.Perm (s.objects ++ gather n hold s.phase) → Unused M uintaddr length := by
    intro hold M hhold hM o ho a hcov
    refine hunused o ?_ a hcov
    rcases List.mem_append.mp (hM.mem_iff.mp ho) with ho | ho
    · exact List.mem_append_left _ ho
    · obtain ⟨t, ht, ho⟩ := (mem_gather hold s.phase).mp ho
      exact Profiler.mem_inUse ht (hhold _ ho)
  exact ⟨hsub Phase.onPages_subset h.pages, hsub Phase.onLines_subset h.lines⟩

/-- A step after which the same objects are in use, known to the tables and
allocated as before. -/
theorem Ledger.goto (h : Ledger n s) (ht : t < n) {x : Phase} {s' : Profiler}
    (hphases : s'.phase = Function.update s.phase t x) (hobjects : s'.objects = s.objects)
    (hstatus : s'.objStatusMap = s.objStatusMap) (hinUse : x.inUse = (s.phase t).inUse)
    (halloc : ∀ o, (s.phase t).Allocates o → x.Allocates o)
    (hrun : Run ShadowMemory.step Permitted {} s'.trace s'.shadow)
    (hpages : (pageObjects s'.trace).Perm
      (s.objects ++ gather n Phase.onPages (Function.update s.phase t x)))
    (hlines : (lineObjects s'.trace).Perm
      (s.objects ++ gather n Phase.onLines (Function.update s.phase t x))) : Ledger n s' := by
  have hperm := inUse_perm (s := s) (L := s.objects) (x := x) ht fun rest hrest => by
    rwa [hinUse]
  obtain ⟨hapart, hsized⟩ := h.of_perm hperm
  refine ⟨hrun, ?_, ?_, ?_, ?_, fun address size hold => ?_⟩
  · rwa [hphases, hobjects]
  · rwa [hphases, hobjects]
  · rwa [Profiler.inUse, hphases, hobjects]
  · rwa [Profiler.inUse, hphases, hobjects]
  · rw [hphases, hobjects]
    exact h.status_goto halloc (hstatus ▸ hold)

theorem Ledger.cleanup (h : Ledger n s) (ht : t < n) {uintaddr length cleanedPageSize : Nat}
    {w : PageWalk} (hphase : s.phase t = .idle)
    (hw : s.shadow.cleanupPages uintaddr length = some (cleanedPageSize, w))
    (hproper : Proper s.shadow (.cleanupPages uintaddr length))
    (hunused : Unused (s.inUse n) uintaddr length) :
    Ledger n { s.goto t (.cleaned cleanedPageSize) with
      shadow := w.shadow
      trace := s.trace ++ [.cleanupPages uintaddr length] } := by
  have hstep : s.shadow.step (.cleanupPages uintaddr length) = some w.shadow := by
    rw [ShadowMemory.step, hw, Option.map_some]
  refine h.goto ht rfl rfl rfl (by rw [hphase]; rfl) (fun o halloc => ?_)
    (h.shadowRun.snoc ⟨hproper, h.unused hunused⟩ hstep) ?_ ?_
  · rw [hphase] at halloc
    exact halloc.elim
  · rw [pageObjects_snoc]
    refine perm_update Phase.onPages s.phase ht h.pages fun rest hrest => ?_
    rwa [hphase] at hrest
  · rw [lineObjects_snoc]
    refine perm_update Phase.onLines s.phase ht h.lines fun rest hrest => ?_
    rwa [hphase] at hrest

theorem Ledger.updatePages (h : Ledger n s) (ht : t < n) {address size bytes : Nat}
    {isFree : Bool} {w : PageWalk} (hphase : s.phase t = .object address size isFree)
    (hw : s.shadow.updatePages address (megaIndexOf address) (pageIndexOf address) size isFree
      = some w) :
    Ledger n { s.goto t (.lines address size isFree bytes) with
      shadow := w.shadow
      trace := s.trace ++ [.updatePages address size isFree] } := by
  have hsize := (h.sized _ (Profiler.mem_inUse ht (by
    rw [hphase]
    exact List.mem_singleton_self _))).2.1
  have hhold : (s.phase t).onPages = if isFree then [⟨address, size⟩] else [] := by
    rw [hphase]
    cases isFree <;> rfl
  have hop := h.updates (o := ⟨address, size⟩) ht h.pages Phase.onPages_subset (by rw [hphase]; rfl)
    hhold
  have hstep : s.shadow.step (.updatePages address size isFree) = some w.shadow := by
    rw [ShadowMemory.step, hw, Option.map_some]
  refine h.goto ht rfl rfl rfl (by rw [hphase]; rfl) (fun o halloc => ?_)
    (h.shadowRun.snoc ⟨hsize, hop⟩ hstep) ?_ ?_
  · rw [hphase] at halloc
    cases isFree with
    | true => exact halloc.elim
    | false => exact halloc
  · rw [pageObjects_snoc]
    exact updateLive_perm ht h.pages hhold (by cases isFree <;> rfl)
  · rw [lineObjects_snoc]
    refine perm_update Phase.onLines s.phase ht h.lines fun rest hrest => ?_
    rw [hphase] at hrest
    cases isFree <;> exact hrest

theorem Ledger.updateCacheLines (h : Ledger n s) (ht : t < n) {address size bytes : Nat}
    {isFree : Bool} {w : PageWalk} (hphase : s.phase t = .lines address size isFree bytes)
    (hw : s.shadow.updateCacheLines t (megaIndexOf address) (pageIndexOf address)
      (cacheIndexOf address) (address &&& cachelineSizeMask) size isFree = some w) :
    Ledger n { s.goto t (.counters address size isFree bytes) with
      shadow := w.shadow
      trace := s.trace ++ [.updateCacheLines t address size isFree] } := by
  have hsize := (h.sized _ (Profiler.mem_inUse ht (by
    rw [hphase]
    exact List.mem_singleton_self _))).2.1
  have hhold : (s.phase t).onLines = if isFree then [⟨address, size⟩] else [] := by
    rw [hphase]
    cases isFree <;> rfl
  have hop := h.updates (o := ⟨address, size⟩) ht h.lines Phase.onLines_subset (by rw [hphase]; rfl)
    hhold
  have hstep : s.shadow.step (.updateCacheLines t address size isFree) = some w.shadow := by
    rw [ShadowMemory.step, hw, Option.map_some]
  refine h.goto ht rfl rfl rfl (by rw [hphase]; rfl) (fun o halloc => ?_)
    (h.shadowRun.snoc ⟨hsize, hop⟩ hstep) ?_ ?_
  · rw [hphase] at halloc
    cases isFree with
    | true => exact halloc.elim
    | false => exact halloc
  · rw [pageObjects_snoc]
    refine perm_update Phase.onPages s.phase ht h.pages fun rest hrest => ?_
    rw [hphase] at hrest
    cases isFree <;> exact hrest
  · rw [lineObjects_snoc]
    exact updateLive_perm ht h.lines hhold (by cases isFree <;> rfl)

/-- A call that allocates or frees returns. -/
theorem Ledger.updateCounters (h : Ledger n s) (ht : t < n) {address size bytes : Nat}
    {isFree tryLock : Bool} (hphase : s.phase t = .counters address size isFree bytes) :
    Ledger n (s.updateCounters t address size isFree bytes tryLock) := by
  cases isFree with
  | true =>
      -- the object is no more in use
      have hperm : (s.inUse n).Perm (⟨address, size⟩ ::
          (s.objects ++ gather n Phase.inUse (Function.update s.phase t .idle))) := by
        have hall := (gather_perm Phase.inUse s.phase ht).append_left s.objects
        rw [hphase] at hall
        exact (hall.trans List.perm_middle).trans
          (((gather_update Phase.inUse s.phase ht .idle).symm.append_left s.objects).cons _)
      obtain ⟨hapart, hsized⟩ := h.of_perm hperm
      refine ⟨h.shadowRun, ?_, ?_, (List.pairwise_cons.mp hapart).2,
        fun o ho => hsized o (List.mem_cons_of_mem _ ho), fun a k hstatus => ?_⟩
      · refine perm_update Phase.onPages s.phase ht h.pages fun rest hrest => ?_
        rwa [hphase] at hrest
      · refine perm_update Phase.onLines s.phase ht h.lines fun rest hrest => ?_
        rwa [hphase] at hrest
      · refine h.status_goto (fun b halloc => ?_) hstatus
        rw [hphase] at halloc
        exact halloc.elim
  | false =>
      -- the program gets it
      have hmove : ∀ {M rest : List Span}, M.Perm (s.objects ++ ([⟨address, size⟩] ++ rest)) →
          M.Perm (⟨address, size⟩ :: s.objects ++ ([] ++ rest)) :=
        fun hM => hM.trans List.perm_middle
      have hperm := inUse_perm (s := s) (L := ⟨address, size⟩ :: s.objects) (x := .idle) ht
        fun rest hrest => hmove (by rwa [hphase] at hrest)
      obtain ⟨hapart, hsized⟩ := h.of_perm hperm
      refine ⟨h.shadowRun, ?_, ?_, hapart, hsized, fun a k hstatus => ?_⟩
      · refine perm_update Phase.onPages s.phase ht h.pages fun rest hrest => hmove ?_
        rwa [hphase] at hrest
      · refine perm_update Phase.onLines s.phase ht h.lines fun rest hrest => hmove ?_
        rwa [hphase] at hrest
      · rcases h.status a k hstatus with hmem | ⟨t', ht', halloc⟩
        · exact .inl (List.mem_cons_of_mem _ hmem)
        · by_cases heq : t' = t
          · subst heq
            rw [hphase] at halloc
            exact .inl (halloc ▸ List.mem_cons_self)
          · refine .inr ⟨t', ht', ?_⟩
            show (Function.update s.phase t .idle t').Allocates ⟨a, k⟩
            rwa [Function.update_of_ne heq]

theorem Ledger.cleaned (h : Ledger n s) (ht : t < n) {cleanedPageSize : Nat}
    (hphase : s.phase t = .cleaned cleanedPageSize) :
    Ledger n { s.goto t .idle with
      usage := s.usage.subTotalSizeFromMemoryUsage t cleanedPageSize } := by
  refine h.goto ht rfl rfl rfl (by rw [hphase]; rfl) (fun o halloc => ?_) h.shadowRun ?_ ?_
  · rw [hphase] at halloc
    exact halloc.elim
  · refine perm_update Phase.onPages s.phase ht h.pages fun rest hrest => ?_
    rwa [hphase] at hrest
  · refine perm_update Phase.onLines s.phase ht h.lines fun rest hrest => ?_
    rwa [hphase] at hrest

/-- An object whose update starts has an address and bytes. -/
theorem Ledger.some_bytes (h : Ledger n s) (ht : t < n) {address size : Nat} {isFree : Bool}
    (hphase : s.phase t = .object address size isFree) :
    address ≠ 0 ∧ 0 < size ∧ size + 8192 ≤ 2 ^ 32 := by
  refine h.sized _ (Profiler.mem_inUse (o := ⟨address, size⟩) ht ?_)
  rw [hphase]
  exact List.mem_singleton_self _

theorem Ledger.free_mem (h : Ledger n s) {address size : Nat}
    (hstatus : s.objStatusMap address = some ⟨size, true⟩)
    (hnone : ∀ t < n, ∀ size, ¬ (s.phase t).Allocates ⟨address, size⟩) :
    ⟨address, size⟩ ∈ s.objects :=
  (h.status address size hstatus).resolve_right fun ⟨t, ht, halloc⟩ => hnone t ht size halloc

theorem Ledger.step {a : Action} (h : Ledger n s) (hgo : s.Goes t a s')
    (hpermit : CallPermitted n s (t, a)) : Ledger n s' := by
  obtain ⟨ht, hpermit⟩ := hpermit
  cases hgo with
  | allocation hphase =>
      obtain ⟨hstart, hsize, hlarge, hapart⟩ := hpermit
      exact h.allocation ht hphase hstart hsize hlarge hapart
  | unknown hphase hsize => exact h.unknown
  | free hphase hstatus hsize => exact h.free ht hphase (h.free_mem hstatus hpermit)
  | cleanup hphase hw => exact h.cleanup ht hphase hw hpermit.1 hpermit.2
  | nothing hphase hnone =>
      obtain ⟨hstart, hsize, -⟩ := h.some_bytes ht hphase
      omega
  | pages hphase hw => exact h.updatePages ht hphase hw
  | lines hphase hw => exact h.updateCacheLines ht hphase hw
  | counters hphase => exact h.updateCounters ht hphase
  | cleaned hphase => exact h.cleaned ht hphase

theorem ledger_init : Ledger n {} where
  shadowRun := .nil
  pages := by
    rw [gather_eq_nil _ _ fun _ => rfl]
    exact .refl _
  lines := by
    rw [gather_eq_nil _ _ fun _ => rfl]
    exact .refl _
  apart := by
    rw [Profiler.inUse, gather_eq_nil _ _ fun _ => rfl]
    exact .nil
  sized o ho := by
    rw [Profiler.inUse, gather_eq_nil _ _ fun _ => rfl] at ho
    exact absurd ho List.not_mem_nil
  status a k h := by cases h

end step

end MemPerf.Original
