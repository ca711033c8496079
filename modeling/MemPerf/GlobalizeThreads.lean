import MemPerf.Lib.Sections
import MemPerf.Report

/-!
# Threads that globalise at the same time

`GlobalStatus::globalize` statement by statement, called by every thread
when it ends, with the statements of different threads interleaved in any
way. Each `+=` reads a global counter and then writes it, so what keeps
the threads from losing each other's additions is `GlobalStatus::lock`.

Executed alone the statements are `globalize` (`execute_globalize`), and
so the interleaving is as good as some order of the threads
(`SpinLock.calls_in_order`), of which the result does not depend.
-/

namespace MemPerf

open SpinLock StepSystem Chained Word

/-! ## The statements -/

/-- `cycles[allocationType] += ..` -/
def addCycles (t : ThreadStatistics) (type : Nat) : Assignment GlobalStatus := fun read g =>
  let sum := wrap 64 (read.cycles type + t.threadLocal.cycles type)
  { g with cycles := Function.update g.cycles type sum }

/-- `numOfSampledCountingFunctions[allocationType] += ..` -/
def addFunctions (t : ThreadStatistics) (type : Nat) : Assignment GlobalStatus := fun read g =>
  let sum := wrap 32 (read.numOfSampledCountingFunctions type +
    t.threadLocal.numOfSampledCountingFunctions type)
  { g with
    numOfSampledCountingFunctions := Function.update g.numOfSampledCountingFunctions type sum }

/-- `systemCallData[syscallType][allocationType]` rewritten. -/
def GlobalStatus.setSystemCall (g : GlobalStatus) (syscallType : SystemCallType) (type : Nat)
    (d : SystemCallData) : GlobalStatus :=
  { g with
    systemCallData := Function.update g.systemCallData syscallType
      (Function.update (g.systemCallData syscallType) type d) }

/-- The two statements of `SystemCallData::add`. -/
def addSystemCalls (t : ThreadStatistics) (type : Nat) (syscallType : SystemCallType) :
    List (Assignment GlobalStatus) :=
  let new := t.threadLocal.systemCallData syscallType type
  [fun read g =>
      let sum := wrap 32 ((read.systemCallData syscallType type).num + new.num)
      g.setSystemCall syscallType type { g.systemCallData syscallType type with num := sum },
    fun read g =>
      let sum := wrap 64 ((read.systemCallData syscallType type).cycles + new.cycles)
      g.setSystemCall syscallType type { g.systemCallData syscallType type with cycles := sum }]

/-- `overviewLockData[lockType]` rewritten. -/
def GlobalStatus.setOverview (g : GlobalStatus) (lockType : LockType) (d : OverviewLockData) :
    GlobalStatus :=
  { g with overviewLockData := Function.update g.overviewLockData lockType d }

/-- The three statements of a turn of the loop in `OverviewLockData::add`. -/
def addLockCounts (t : ThreadStatistics) (lockType : LockType) (type : Nat) :
    List (Assignment GlobalStatus) :=
  let new := (t.threadLocal.overviewLockData lockType).counts type
  let set (g : GlobalStatus) (c : LockCounts) :=
    g.setOverview lockType
      { g.overviewLockData lockType with
        counts := Function.update (g.overviewLockData lockType).counts type c }
  [fun read g =>
      let sum := wrap 32 (((read.overviewLockData lockType).counts type).numOfCalls +
        new.numOfCalls)
      set g { (g.overviewLockData lockType).counts type with numOfCalls := sum },
    fun read g =>
      let sum := wrap 32 (((read.overviewLockData lockType).counts type).numOfCallsWithContentions +
        new.numOfCallsWithContentions)
      set g { (g.overviewLockData lockType).counts type with numOfCallsWithContentions := sum },
    fun read g =>
      let sum := wrap 64 (((read.overviewLockData lockType).counts type).cycles + new.cycles)
      set g { (g.overviewLockData lockType).counts type with cycles := sum }]

/-- `OverviewLockData::add` -/
def addOverview (t : ThreadStatistics) (lockType : LockType) : List (Assignment GlobalStatus) :=
  (fun read g =>
      let sum := wrap 32 ((read.overviewLockData lockType).numOfLocks +
        (t.threadLocal.overviewLockData lockType).numOfLocks)
      g.setOverview lockType { g.overviewLockData lockType with numOfLocks := sum }) ::
    (List.range numOfAllocationType).flatMap (addLockCounts t lockType)

/-- A turn of the loop over `lockUsage`: what `find` sees is read, and the
`insert` or the `add` is the write. -/
def mergeLock (e : Entry Nat DetailLockData) : Assignment GlobalStatus := fun read g =>
  let merged := HashMap.upsert DetailLockData.add read.globalLockUsage e
  { g with globalLockUsage := merged }

/-- `FriendlinessStatus::add` -/
def addFriendliness (t : ThreadStatistics) : List (Assignment GlobalStatus) :=
  let new := t.friendlinessStatus
  [fun read g =>
      let sum := wrap 32 (read.friendlinessStatus.numOfSampling + new.numOfSampling)
      { g with friendlinessStatus.numOfSampling := sum },
    fun read g =>
      let sum := wrap 64 (read.friendlinessStatus.totalMemoryUsageOfSampledPages +
        new.totalMemoryUsageOfSampledPages)
      { g with friendlinessStatus.totalMemoryUsageOfSampledPages := sum },
    fun read g =>
      let sum := wrap 64 (read.friendlinessStatus.totalMemoryUsageOfSampledCacheLines +
        new.totalMemoryUsageOfSampledCacheLines)
      { g with friendlinessStatus.totalMemoryUsageOfSampledCacheLines := sum }]

/-- A turn of the first loop. -/
def addType (t : ThreadStatistics) (type : Nat) : List (Assignment GlobalStatus) :=
  addCycles t type :: addFunctions t type :: systemCallTypes.flatMap (addSystemCalls t type)

/-- The body of `globalize`, under the lock. -/
def globalizeStatements (t : ThreadStatistics) : List (Assignment GlobalStatus) :=
  (List.range numOfAllocationType).flatMap (addType t) ++ lockTypes.flatMap (addOverview t) ++
    t.lockUsage.iterate.map mergeLock ++ addFriendliness t

/-! ## Executed alone -/

section Arrays

def systemCallArray (type : Nat) : ArrayOf GlobalStatus SystemCallType SystemCallData where
  get g syscallType := g.systemCallData syscallType type
  set g v := { g with
    systemCallData := fun syscallType =>
      Function.update (g.systemCallData syscallType) type (v syscallType) }
  get_set g v := by simp
  set_set g v w := by simp
  set_get g := by simp

def overviewArray : ArrayOf GlobalStatus LockType OverviewLockData where
  get := GlobalStatus.overviewLockData
  set g v := { g with overviewLockData := v }
  get_set _ _ := rfl
  set_set _ _ _ := rfl
  set_get _ := rfl

def countsArray (lockType : LockType) : ArrayOf GlobalStatus Nat LockCounts where
  get g := (g.overviewLockData lockType).counts
  set g v := g.setOverview lockType { g.overviewLockData lockType with counts := v }
  get_set g v := by simp [GlobalStatus.setOverview]
  set_set g v w := by simp [GlobalStatus.setOverview]
  set_get g := by simp [GlobalStatus.setOverview]

/-- What the first loop adds up, type by type. -/
def typeArray : ArrayOf GlobalStatus Nat (Nat × Nat × (SystemCallType → SystemCallData)) where
  get g type := (g.cycles type, g.numOfSampledCountingFunctions type,
    fun syscallType => g.systemCallData syscallType type)
  set g v := { g with
    cycles := fun type => (v type).1
    numOfSampledCountingFunctions := fun type => (v type).2.1
    systemCallData := fun syscallType type => (v type).2.2 syscallType }
  get_set _ _ := rfl
  set_set _ _ _ := rfl
  set_get _ := rfl

end Arrays

section Execute

variable (t : ThreadStatistics) (g : GlobalStatus)

theorem mem_systemCallTypes (syscallType : SystemCallType) : syscallType ∈ systemCallTypes := by
  cases syscallType <;> decide

theorem mem_lockTypes (lockType : LockType) : lockType ∈ lockTypes := by
  cases lockType <;> decide

theorem execute_addSystemCalls (type : Nat) (syscallType : SystemCallType) :
    execute (addSystemCalls t type syscallType) g =
      g.setSystemCall syscallType type ((g.systemCallData syscallType type).add
        (t.threadLocal.systemCallData syscallType type)) := by
  simp [execute, addSystemCalls, GlobalStatus.setSystemCall, SystemCallData.add]

/-- A turn of the first loop adds up everything of its type. -/
theorem execute_addType (type : Nat) : execute (addType t type) g =
    typeArray.set g (Function.update (typeArray.get g) type
      (wrap 64 (g.cycles type + t.threadLocal.cycles type),
        wrap 32 (g.numOfSampledCountingFunctions type +
          t.threadLocal.numOfSampledCountingFunctions type),
        fun syscallType => (g.systemCallData syscallType type).add
          (t.threadLocal.systemCallData syscallType type))) := by
  have hcalls : ∀ g, execute (systemCallTypes.flatMap (addSystemCalls t type)) g =
      (systemCallArray type).set g fun syscallType => (g.systemCallData syscallType type).add
        (t.threadLocal.systemCallData syscallType type) := by
    intro g
    rw [(systemCallArray type).execute_loop (f := fun syscallType d =>
      d.add (t.threadLocal.systemCallData syscallType type)) ?_ (by decide)]
    · simp only [mem_systemCallTypes, if_true]
      rfl
    · intro syscallType g
      rw [execute_addSystemCalls]
      simp only [systemCallArray, GlobalStatus.setSystemCall]
      congr 1
      funext syscallType'
      by_cases hs : syscallType' = syscallType
      · subst hs
        simp
      · simp [hs]
  rw [addType, execute, List.foldl_cons, List.foldl_cons, ← execute, hcalls]
  simp only [addCycles, addFunctions, systemCallArray, typeArray]
  congr 1
  · funext type'
    by_cases htype : type' = type
    · subst htype
      simp
    · simp [htype]
  · funext type'
    by_cases htype : type' = type
    · subst htype
      simp
    · simp [htype]
  · funext syscallType type'
    by_cases htype : type' = type
    · subst htype
      simp
    · simp [htype]

theorem execute_addLockCounts (lockType : LockType) (type : Nat) :
    execute (addLockCounts t lockType type) g = (countsArray lockType).set g
      (Function.update (g.overviewLockData lockType).counts type
        (((g.overviewLockData lockType).counts type).addUp
          ((t.threadLocal.overviewLockData lockType).counts type))) := by
  simp [execute, addLockCounts, countsArray, GlobalStatus.setOverview, LockCounts.addUp]

theorem execute_addOverview (lockType : LockType) :
    execute (addOverview t lockType) g = g.setOverview lockType
      ((g.overviewLockData lockType).add (t.threadLocal.overviewLockData lockType)) := by
  have hcounts := (countsArray lockType).execute_loop
    (f := fun type c => c.addUp ((t.threadLocal.overviewLockData lockType).counts type))
    (fun type g => execute_addLockCounts t g lockType type)
    (List.nodup_range (n := numOfAllocationType))
  rw [addOverview, execute, List.foldl_cons, ← execute, hcounts]
  simp [countsArray, GlobalStatus.setOverview, OverviewLockData.add]

theorem execute_mergeLocks (es : List (Entry Nat DetailLockData)) (g : GlobalStatus) :
    execute (es.map mergeLock) g =
      { g with globalLockUsage :=
          es.foldl (HashMap.upsert DetailLockData.add) g.globalLockUsage } := by
  induction es generalizing g with
  | nil => rfl
  | cons e es ih =>
      rw [List.map_cons, execute, List.foldl_cons, ← execute, ih]
      rfl

/-- **The statements, executed alone, are the atomic call.** -/
theorem execute_globalize : execute (globalizeStatements t) g = globalize g t := by
  have htypes := typeArray.execute_loop
    (f := fun type x => (wrap 64 (x.1 + t.threadLocal.cycles type),
      wrap 32 (x.2.1 + t.threadLocal.numOfSampledCountingFunctions type),
      fun syscallType => (x.2.2 syscallType).add (t.threadLocal.systemCallData syscallType type)))
    (fun type g => execute_addType t g type) (List.nodup_range (n := numOfAllocationType)) g
  have hoverview := overviewArray.execute_loop
    (f := fun lockType d => d.add (t.threadLocal.overviewLockData lockType))
    (fun lockType g => execute_addOverview t g lockType) (show lockTypes.Nodup by decide)
  rw [globalizeStatements, execute_append, execute_append, execute_append, htypes, hoverview,
    execute_mergeLocks]
  simp only [mem_lockTypes, if_true, List.mem_range]
  simp only [execute, addFriendliness, List.foldl_cons, List.foldl_nil, typeArray, overviewArray,
    globalize, FriendlinessStatus.add]
  congr 1
  · funext type
    split <;> rfl
  · funext type
    split <;> rfl
  · funext syscallType type
    split <;> rfl

end Execute

/-! ## Every interleaving -/

/-- The threads before any has ended, with what each brings. -/
def globalizeThreads (stats : Nat → ThreadStatistics) :
    State Nat Unit GlobalStatus (Stand ThreadStatistics GlobalStatus) where
  data := {}
  threads t := .outside [stats t]

section Run

variable {stats : Nat → ThreadStatistics} {past : List (Nat × Unit)}
  {s : State Nat Unit GlobalStatus (Stand ThreadStatistics GlobalStatus)}
  {guard : List (Nat × Unit) → State Nat Unit GlobalStatus (Stand ThreadStatistics GlobalStatus) →
    Nat × Unit → Prop}

/-- **No addition is lost and the schedule does not matter**: whenever the
lock is free, the global statistics are those of the threads that have
globalised, whatever they did at the same time. -/
theorem globalize_interleaved
    (h : Run (sections globalizeStatements).step guard (globalizeThreads stats) past s)
    (hfree : s.words () = false) {threads : List Nat} (hnodup : threads.Nodup)
    (hdone : ∀ t, t ∈ threads ↔ (s.threads t).ahead = []) :
    Summed (threads.map stats) s.data
      ∧ (BucketsFit (threads.map stats) → LocksMerged (threads.map stats)
        s.data.globalLockUsage) := by
  have horder := calls_in_order h
  have hperm := horder.finished_perm hnodup hdone
  have hdata : s.data = globalizeAll ((finished s).map Prod.snd) := by
    rw [horder.free hfree, globalizeAll, executeAll]
    exact List.foldl_ext _ _ _ fun g t _ => execute_globalize t g
  rw [hdata]
  refine ⟨(Summed.globalizeAll _).perm hperm, fun hfit => ?_⟩
  have horderFit : BucketsFit ((finished s).map Prod.snd) := by
    intro i hi
    rw [lockAddresses_perm hperm]
    exact hfit i hi
  exact horderFit.locksMerged.perm hperm

end Run

/-- Thread `t` has spent `t` cycles in each kind of call. -/
def cyclesOf (t : Nat) : ThreadStatistics where
  threadLocal := { cycles := fun _ => t }
  lockTable := .init

/-- The second thread asks for the lock while the first one has it. -/
theorem globalize_interleaved_two : ∃ past s,
    Run (sections globalizeStatements).step (fun _ _ _ => True) (globalizeThreads cyclesOf) past s
      ∧ (∀ t, t ∈ [1, 2] ↔ (s.threads t).ahead = []) ∧ s.data.cycles 0 = 3 := by
  obtain ⟨_, s₁, hrun₁, hword₁, hthreads₁⟩ := Run.enters
    (.nil : Run (sections globalizeStatements).step (fun _ _ _ => True)
      (globalizeThreads cyclesOf) [] _) (t := 1) rfl rfl
  have hinside : s₁.threads 1 = .inside (cyclesOf 1) [] (globalizeStatements (cyclesOf 1))
      none := by
    rw [hthreads₁, Function.update_self]
  have houtside : s₁.threads 2 = .outside [cyclesOf 2] := by
    rw [hthreads₁, Function.update_of_ne (by decide)]
    rfl
  have hwaits : (sections globalizeStatements).step s₁ (2, ()) = some (s₁.store () true) := by
    simp [Program.step, sections, houtside, Stand.next, hword₁]
  obtain ⟨_, s₂, hrun₂, hfree₂, hthreads₂⟩ := Run.leaves
    (hrun₁.snoc trivial hwaits) hinside
  obtain ⟨_, s₃, hrun₃, -, hthreads₃⟩ := Run.enters (t := 2) hrun₂
    (by rw [hthreads₂, Function.update_of_ne (by decide)]; exact houtside) hfree₂
  obtain ⟨past, s, hrun, hfree, hthreads⟩ := Run.leaves (t := 2) hrun₃
    (by rw [hthreads₃, Function.update_self])
  have hdone : ∀ t, t ∈ [1, 2] ↔ (s.threads t).ahead = [] := by
    intro t
    rw [hthreads, hthreads₃, hthreads₂, State.store, hthreads₁]
    by_cases h₂ : t = 2
    · subst h₂
      simp [Stand.ahead]
    · by_cases h₁ : t = 1
      · subst h₁
        simp [Stand.ahead]
      · simp [h₁, h₂, Stand.ahead, globalizeThreads]
  have hsummed := (globalize_interleaved hrun hfree (by decide) hdone).1
  exact ⟨past, s, hrun, hdone, hsummed.cycles 0 (by decide)⟩

end MemPerf
