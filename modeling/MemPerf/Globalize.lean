import MemPerf.Lib.Merge
import MemPerf.LockRecord
import MemPerf.ShadowEntry

/-!
# Globalisation

`GlobalStatus::globalize`, which every thread calls once, under a lock:
the thread's statistics are added to the global ones and its `lockUsage`
is merged into `globalLockUsage`. The calls come in any order.

The counters are sums in their words, whatever the order. The lock table
is what it should be as long as no bucket gets 65536 different locks, from
all the threads together; from then on its 16-bit count hides some.
-/

namespace MemPerf

open Word Chained

/-! ## The functions -/

def OverviewLockData.add (d newOverviewLockData : OverviewLockData) : OverviewLockData where
  numOfLocks := wrap 32 (d.numOfLocks + newOverviewLockData.numOfLocks)
  counts type :=
    if type < numOfAllocationType then (d.counts type).addUp (newOverviewLockData.counts type)
    else d.counts type

/-- The type of the lock is that of the last thread that had it. -/
def DetailLockData.add (d newDetailLockData : DetailLockData) : DetailLockData where
  lockType := newDetailLockData.lockType
  counts type :=
    if type < numOfAllocationType then (d.counts type).addUp (newDetailLockData.counts type)
    else d.counts type

def FriendlinessStatus.add (f newFriendlinessStatus : FriendlinessStatus) : FriendlinessStatus where
  numOfSampling := wrap 32 (f.numOfSampling + newFriendlinessStatus.numOfSampling)
  totalMemoryUsageOfSampledPages :=
    wrap 64 (f.totalMemoryUsageOfSampledPages +
      newFriendlinessStatus.totalMemoryUsageOfSampledPages)
  totalMemoryUsageOfSampledCacheLines :=
    wrap 64 (f.totalMemoryUsageOfSampledCacheLines +
      newFriendlinessStatus.totalMemoryUsageOfSampledCacheLines)

/-- The words of an entry are words. -/
def DetailLockData.Words (d : DetailLockData) : Prop := ∀ type, (d.counts type).InRange

/-- The tables a thread can have: lock calls make entries, and anything
may be stored through a pointer to one. -/
inductive LockTable : HashMap Nat DetailLockData → Prop
  | init : LockTable (HashMap.init hashAddr maxLockNum maxLockNum_pos)
  | lockCall {m : HashMap Nat DetailLockData} (h : LockTable m) (c : LockCall) :
      LockTable (useLock m c)
  | store {m : HashMap Nat DetailLockData} (h : LockTable m) (r : Ref)
      (f : DetailLockData → DetailLockData) (hf : ∀ d, d.Words → (f d).Words) :
      LockTable (m.write r f)

/-- What a thread brings. -/
structure ThreadStatistics where
  threadLocal : ThreadLocalStatus := {}
  friendlinessStatus : FriendlinessStatus := {}
  lockUsage : HashMap Nat DetailLockData := HashMap.init hashAddr maxLockNum maxLockNum_pos
  lockTable : LockTable lockUsage

/-- The members of `GlobalStatus`, and `globalLockUsage`. -/
structure GlobalStatus where
  numOfSampledCountingFunctions : Nat → Nat := fun _ => 0
  cycles : Nat → Nat := fun _ => 0
  overviewLockData : LockType → OverviewLockData := fun _ => {}
  systemCallData : SystemCallType → Nat → SystemCallData := fun _ _ => {}
  friendlinessStatus : FriendlinessStatus := {}
  globalLockUsage : HashMap Nat DetailLockData := HashMap.init hashAddr maxLockNum maxLockNum_pos

def globalize (g : GlobalStatus) (t : ThreadStatistics) : GlobalStatus where
  cycles type :=
    if type < numOfAllocationType then wrap 64 (g.cycles type + t.threadLocal.cycles type)
    else g.cycles type
  numOfSampledCountingFunctions type :=
    if type < numOfAllocationType then
      wrap 32 (g.numOfSampledCountingFunctions type +
        t.threadLocal.numOfSampledCountingFunctions type)
    else g.numOfSampledCountingFunctions type
  systemCallData syscallType type :=
    if type < numOfAllocationType then
      (g.systemCallData syscallType type).add (t.threadLocal.systemCallData syscallType type)
    else g.systemCallData syscallType type
  overviewLockData lockType :=
    (g.overviewLockData lockType).add (t.threadLocal.overviewLockData lockType)
  -- the range loop over `lockUsage`: `find`, then `insert` or `add`
  globalLockUsage :=
    t.lockUsage.iterate.foldl (HashMap.upsert DetailLockData.add) g.globalLockUsage
  friendlinessStatus := g.friendlinessStatus.add t.friendlinessStatus

section Fields

variable {g : GlobalStatus} {t : ThreadStatistics} {type : Nat}

theorem globalize_systemCallData (h : type < numOfAllocationType) {syscallType : SystemCallType} :
    (globalize g t).systemCallData syscallType type =
      (g.systemCallData syscallType type).add (t.threadLocal.systemCallData syscallType type) :=
  if_pos h

@[simp] theorem globalize_overviewLockData {lockType : LockType} :
    (globalize g t).overviewLockData lockType =
      (g.overviewLockData lockType).add (t.threadLocal.overviewLockData lockType) := rfl

@[simp] theorem globalize_friendlinessStatus :
    (globalize g t).friendlinessStatus = g.friendlinessStatus.add t.friendlinessStatus := rfl

end Fields

/-- The threads globalise one after the other. -/
def globalizeAll (order : List ThreadStatistics) : GlobalStatus := order.foldl globalize {}

/-! ## What the sums should be -/

/-- What the thread has of a lock. -/
def ThreadStatistics.lockCounts (t : ThreadStatistics) (lock type : Nat) : LockCounts :=
  ((valuesOf lock t.lockUsage.entries).map fun d => d.counts type).sum

def ThreadStatistics.locks (t : ThreadStatistics) : List Nat := t.lockUsage.entries.map Entry.key

/-- The locks of all the threads. -/
def lockAddresses (threads : List ThreadStatistics) : Finset Nat :=
  (threads.flatMap ThreadStatistics.locks).toFinset

/-- The statistics are the sums over the threads, in their words. -/
structure Summed (threads : List ThreadStatistics) (g : GlobalStatus) : Prop where
  cycles : ∀ type < numOfAllocationType,
    g.cycles type = wrap 64 (threads.map fun t => t.threadLocal.cycles type).sum
  numOfSampledCountingFunctions : ∀ type < numOfAllocationType,
    g.numOfSampledCountingFunctions type =
      wrap 32 (threads.map fun t => t.threadLocal.numOfSampledCountingFunctions type).sum
  systemCalls : ∀ syscallType, ∀ type < numOfAllocationType,
    (g.systemCallData syscallType type).num =
      wrap 32 (threads.map fun t => (t.threadLocal.systemCallData syscallType type).num).sum
  systemCallCycles : ∀ syscallType, ∀ type < numOfAllocationType,
    (g.systemCallData syscallType type).cycles =
      wrap 64 (threads.map fun t => (t.threadLocal.systemCallData syscallType type).cycles).sum
  numOfLocks : ∀ lockType,
    (g.overviewLockData lockType).numOfLocks =
      wrap 32 (threads.map fun t => (t.threadLocal.overviewLockData lockType).numOfLocks).sum
  overview : ∀ lockType, ∀ type < numOfAllocationType,
    (g.overviewLockData lockType).counts type =
      LockCounts.reduce
        (threads.map fun t => (t.threadLocal.overviewLockData lockType).counts type).sum
  numOfSampling :
    g.friendlinessStatus.numOfSampling =
      wrap 32 (threads.map fun t => t.friendlinessStatus.numOfSampling).sum
  sampledPages :
    g.friendlinessStatus.totalMemoryUsageOfSampledPages =
      wrap 64 (threads.map fun t => t.friendlinessStatus.totalMemoryUsageOfSampledPages).sum
  sampledCacheLines :
    g.friendlinessStatus.totalMemoryUsageOfSampledCacheLines =
      wrap 64 (threads.map fun t => t.friendlinessStatus.totalMemoryUsageOfSampledCacheLines).sum

/-- The table holds the locks of the threads, each once, with their sums. -/
structure LocksMerged (threads : List ThreadStatistics)
    (m : HashMap Nat DetailLockData) : Prop where
  found : ∀ lock, (m.find lock).isSome ↔ lock ∈ lockAddresses threads
  visited : ∀ lock, lock ∈ m.iterate.map Entry.key ↔ lock ∈ lockAddresses threads
  once : (m.iterate.map Entry.key).Nodup
  same : ∀ e ∈ m.iterate, m.find e.key = some e.value
  counts : ∀ lock d, m.find lock = some d → ∀ type < numOfAllocationType,
    d.counts type = LockCounts.reduce (threads.map fun t => t.lockCounts lock type).sum

structure Globalized (threads : List ThreadStatistics) (g : GlobalStatus) : Prop where
  summed : Summed threads g
  locksMerged : LocksMerged threads g.globalLockUsage

/-- The index of the bucket of a lock. -/
def lockBucket (lock : Nat) : Nat := hashAddr lock &&& (maxLockNum - 1)

/-- No bucket gets 65536 different locks. -/
def BucketsFit (threads : List ThreadStatistics) : Prop :=
  ∀ i < maxLockNum, ((lockAddresses threads).filter fun lock => lockBucket lock = i).card < 2 ^ 16

/-! ## The statistics -/

namespace Summed

variable {threads order : List ThreadStatistics} {g : GlobalStatus}

theorem init : Summed [] {} where
  cycles _ _ := rfl
  numOfSampledCountingFunctions _ _ := rfl
  systemCalls _ _ _ := rfl
  systemCallCycles _ _ _ := rfl
  numOfLocks _ := rfl
  overview _ _ _ := rfl
  numOfSampling := rfl
  sampledPages := rfl
  sampledCacheLines := rfl

theorem wrap_sum_append (w : Nat) (f : ThreadStatistics → Nat) (t : ThreadStatistics) :
    wrap w (wrap w (threads.map f).sum + f t) = wrap w ((threads ++ [t]).map f).sum := by
  rw [wrap_add_wrap, List.map_append, List.sum_append, List.map_singleton,
    List.sum_singleton]

/-- One thread more. -/
theorem globalize (h : Summed threads g) (t : ThreadStatistics) :
    Summed (threads ++ [t]) (MemPerf.globalize g t) where
  cycles type htype := by
    have hstep : (MemPerf.globalize g t).cycles type =
        wrap 64 (g.cycles type + t.threadLocal.cycles type) := if_pos htype
    rw [hstep, h.cycles type htype]
    exact wrap_sum_append 64 (fun t => t.threadLocal.cycles type) t
  numOfSampledCountingFunctions type htype := by
    have hstep : (MemPerf.globalize g t).numOfSampledCountingFunctions type =
        wrap 32 (g.numOfSampledCountingFunctions type +
          t.threadLocal.numOfSampledCountingFunctions type) := if_pos htype
    rw [hstep, h.numOfSampledCountingFunctions type htype]
    exact wrap_sum_append 32 (fun t => t.threadLocal.numOfSampledCountingFunctions type) t
  systemCalls syscallType type htype := by
    rw [globalize_systemCallData htype, SystemCallData.add, h.systemCalls syscallType type htype]
    exact wrap_sum_append 32 (fun t => (t.threadLocal.systemCallData syscallType type).num) t
  systemCallCycles syscallType type htype := by
    rw [globalize_systemCallData htype, SystemCallData.add,
      h.systemCallCycles syscallType type htype]
    exact wrap_sum_append 64 (fun t => (t.threadLocal.systemCallData syscallType type).cycles) t
  numOfLocks lockType := by
    rw [globalize_overviewLockData, OverviewLockData.add, h.numOfLocks lockType]
    exact wrap_sum_append 32 (fun t => (t.threadLocal.overviewLockData lockType).numOfLocks) t
  overview lockType type htype := by
    have hstep : ((MemPerf.globalize g t).overviewLockData lockType).counts type =
        ((g.overviewLockData lockType).counts type).addUp
          ((t.threadLocal.overviewLockData lockType).counts type) := if_pos htype
    rw [hstep, h.overview lockType type htype, LockCounts.addUp_eq, LockCounts.reduce_add,
      List.map_append, List.sum_append, List.map_singleton, List.sum_singleton]
  numOfSampling := by
    rw [globalize_friendlinessStatus, FriendlinessStatus.add, h.numOfSampling]
    exact wrap_sum_append 32 (fun t => t.friendlinessStatus.numOfSampling) t
  sampledPages := by
    rw [globalize_friendlinessStatus, FriendlinessStatus.add, h.sampledPages]
    exact wrap_sum_append 64 (fun t => t.friendlinessStatus.totalMemoryUsageOfSampledPages) t
  sampledCacheLines := by
    rw [globalize_friendlinessStatus, FriendlinessStatus.add, h.sampledCacheLines]
    exact wrap_sum_append 64 (fun t => t.friendlinessStatus.totalMemoryUsageOfSampledCacheLines) t

/-- The sums do not depend on what the lock tables hold. -/
theorem globalizeAll (order : List ThreadStatistics) :
    Summed order (MemPerf.globalizeAll order) := by
  induction order using List.reverseRecOn with
  | nil => exact init
  | append_singleton order t ih =>
      rw [MemPerf.globalizeAll, List.foldl_append, ← MemPerf.globalizeAll]
      exact ih.globalize t

/-- Nor on the order of the threads. -/
theorem perm (h : Summed order g) (hperm : order.Perm threads) : Summed threads g where
  cycles type htype := by rw [h.cycles type htype, (hperm.map _).sum_eq]
  numOfSampledCountingFunctions type htype := by
    rw [h.numOfSampledCountingFunctions type htype, (hperm.map _).sum_eq]
  systemCalls syscallType type htype := by
    rw [h.systemCalls syscallType type htype, (hperm.map _).sum_eq]
  systemCallCycles syscallType type htype := by
    rw [h.systemCallCycles syscallType type htype, (hperm.map _).sum_eq]
  numOfLocks lockType := by rw [h.numOfLocks lockType, (hperm.map _).sum_eq]
  overview lockType type htype := by rw [h.overview lockType type htype, (hperm.map _).sum_eq]
  numOfSampling := by rw [h.numOfSampling, (hperm.map _).sum_eq]
  sampledPages := by rw [h.sampledPages, (hperm.map _).sum_eq]
  sampledCacheLines := by rw [h.sampledCacheLines, (hperm.map _).sum_eq]

end Summed

/-! ## The tables of the threads -/

namespace LockTable

variable {m : HashMap Nat DetailLockData} {lock : Nat}

theorem hashIndex (h : LockTable m) (lock : Nat) : m.hashIndex lock = lockBucket lock := by
  induction h with
  | init => rfl
  | @lockCall m h c ih =>
      rw [useLock]
      cases m.ref? c.lock with
      | none => exact ih
      | some r => exact ih
  | store h r f hf ih => exact ih

theorem bucketsTotal (h : LockTable m) : m.bucketsTotal = maxLockNum := by
  induction h with
  | init => rfl
  | @lockCall m h c ih =>
      rw [useLock]
      cases m.ref? c.lock with
      | none => exact ih
      | some r => exact ih
  | store h r f hf ih => exact ih

theorem words (h : LockTable m) : m.Forall fun e => e.value.Words := by
  induction h with
  | init => exact HashMap.init_forall _ _ _
  | @lockCall m h c ih =>
      rw [useLock]
      cases m.ref? c.lock with
      | none => exact ih.insert fun type => LockCounts.zero_inRange
      | some r => exact ih
  | store h r f hf ih => exact ih.write (fun e he => hf e.value he) r

/-- A table is a finite map, or a bucket has got more locks than its count
can reach. -/
theorem holds (h : LockTable m) :
    (∃ a, m.Holds a) ∨ ∃ i < maxLockNum, 2 ^ 16 ≤ (m.keysIn i m.entries).card := by
  induction h with
  | init => exact Or.inl ⟨[], HashMap.Holds.init _ _⟩
  | @lockCall m h c ih =>
      rw [useLock]
      cases hr : m.ref? c.lock with
      | some r => exact ih
      | none =>
          simp only
          rcases ih with ⟨a, ha⟩ | ⟨i, hi, hfull⟩
          · have hnew : lookup c.lock a = none := by
              rw [← ha.find, ← HashMap.ref_eq_none_iff, hr]
            by_cases hroom : HashMap.Holds.Room m c.lock a
            · exact Or.inl ⟨_, ha.insert hnew hroom⟩
            · refine Or.inr ⟨m.hashIndex c.lock, h.bucketsTotal ▸ m.hashIndex_lt c.lock, ?_⟩
              -- the locks of the bucket, and the new one
              have hsame : m.keysIn (m.hashIndex c.lock) m.entries
                  = m.keysIn (m.hashIndex c.lock) a := by
                ext lock
                rw [HashMap.mem_keysIn, HashMap.mem_keysIn,
                  (ha.entries_perm.map Entry.key).mem_iff]
              have habsent : c.lock ∉ m.keysIn (m.hashIndex c.lock) a := by
                rw [HashMap.mem_keysIn]
                rintro ⟨hmem, -⟩
                obtain ⟨e, he, hkey⟩ := List.mem_map.mp hmem
                exact lookup_eq_none_iff.mp hnew e he hkey
              rw [HashMap.keysIn_entries_insert, if_pos rfl, hsame,
                Finset.card_insert_of_notMem habsent, ← HashMap.length_part ha.nodup]
              rw [HashMap.Holds.Room] at hroom
              omega
          · refine Or.inr ⟨i, hi, hfull.trans (Finset.card_le_card ?_)⟩
            rw [HashMap.keysIn_entries_insert]
            split
            · exact Finset.subset_insert _ _
            · exact subset_rfl
  | @store m h r f hf ih =>
      rcases ih with ⟨a, ha⟩ | ⟨i, hi, hfull⟩
      · exact Or.inl (ha.write_any r f)
      · refine Or.inr ⟨i, hi, ?_⟩
        have hsame : (m.write r f).keysIn i (m.write r f).entries = m.keysIn i m.entries := by
          rw [HashMap.keysIn, HashMap.keysIn, HashMap.keys_entries_write]
          rfl
        rwa [hsame]

end LockTable

/-! ## Where the tables come from -/

namespace CallRecorder

variable {s : CallRecorder}

theorem findOrInsert_lockUsage (c : LockCall) :
    (s.findOrInsert c.lockType c.lock).1.lockUsage = useLock s.lockUsage c := by
  rw [findOrInsert, useLock]
  cases s.lockUsage.ref? c.lock <;> rfl

theorem lockTable_event (h : LockTable s.lockUsage) (e : AllocatorEvent) :
    LockTable (s.event e).lockUsage := by
  cases e with
  | lock c =>
      rw [event, lockCall]
      split
      · exact h
      · have hsame : ∀ s : CallRecorder,
            (if c.contended then s.recordALockContention else s).lockUsage = s.lockUsage := by
          intro s
          split <;> rfl
        have hlock := h.lockCall c
        rw [← findOrInsert_lockUsage] at hlock
        simp only [recordLockCallAndCycles, updateOverview, hsame]
        exact hlock
  | system type timeStart timeStop =>
      rw [event, systemCall]
      split
      · exact h
      · exact h

theorem lockTable_writingIntoHashTable {m : HashMap Nat DetailLockData} (h : LockTable m)
    (q : QueueOfDetailLockData) (type : Nat) : LockTable (q.writingIntoHashTable type m) := by
  rw [QueueOfDetailLockData.writingIntoHashTable]
  generalize List.range (q.queueTail + 1).toNat = indices
  induction indices generalizing m with
  | nil => exact h
  | cons index indices ih =>
      refine ih ?_
      simp only [DetailLockDataInAllocatingStatus.writingIntoAddress]
      cases (q.queue index).addressOfHashLockData with
      | none => exact h
      | some r =>
          simp only
          refine h.store r _ fun d hd type' => ?_
          by_cases htype : type' = type
          · subst htype
            simp only [Function.update_self, LockCounts.addUp_eq]
            exact LockCounts.reduce_inRange _
          · simp only [Function.update_of_ne htype]
            exact hd type'

/-- A tracked call leaves a table that a thread can have. -/
theorem lockTable_trackedCall (h : LockTable s.lockUsage) (p : SizeThresholds)
    (info : PredictorInfo) (c : TrackedCall) : LockTable (s.trackedCall p info c).lockUsage := by
  have hevents : ∀ (events : List AllocatorEvent) (s : CallRecorder), LockTable s.lockUsage →
      LockTable (events.foldl event s).lockUsage := by
    intro events
    induction events with
    | nil => exact fun s h => h
    | cons e events ih => exact fun s h => ih _ (lockTable_event h e)
  have hreal : LockTable (s.realFunction c).lockUsage := hevents c.events _ h
  show LockTable ((s.realFunction c).updateAllocatingInfoToThreadLocalData p c.parallel).lockUsage
  rw [updateAllocatingInfoToThreadLocalData]
  split
  · exact lockTable_writingIntoHashTable hreal _ _
  · exact hreal

end CallRecorder

/-! ## The merged table -/

section Merged

variable {order threads : List ThreadStatistics} {t : ThreadStatistics} {lock type : Nat}

/-- All the entries there are to merge. -/
def lockEntries (threads : List ThreadStatistics) : List (Entry Nat DetailLockData) :=
  threads.flatMap fun t => t.lockUsage.entries

theorem mem_lockAddresses :
    lock ∈ lockAddresses threads ↔ lock ∈ (lockEntries threads).map Entry.key := by
  rw [lockAddresses, List.mem_toFinset, lockEntries, List.map_flatMap]
  rfl

theorem lockAddresses_perm (h : order.Perm threads) :
    lockAddresses order = lockAddresses threads := by
  ext lock
  rw [lockAddresses, lockAddresses, List.mem_toFinset, List.mem_toFinset,
    (h.flatMap_right _).mem_iff]

/-- Its share of the entries. -/
theorem sum_valuesOf_lockEntries (threads : List ThreadStatistics) :
    ((valuesOf lock (lockEntries threads)).map fun d => d.counts type).sum =
      (threads.map fun t => t.lockCounts lock type).sum := by
  induction threads with
  | nil => rfl
  | cons t threads ih =>
      have hcons : valuesOf lock (lockEntries (t :: threads)) =
          valuesOf lock t.lockUsage.entries ++ valuesOf lock (lockEntries threads) := by
        rw [valuesOf, lockEntries, List.flatMap_cons, List.filter_append, List.map_append]
        rfl
      rw [hcons, List.map_append, List.sum_append, ih, List.map_cons, List.sum_cons,
        ThreadStatistics.lockCounts]

/-- Combined entries hold the sum of what was combined. -/
theorem counts_of_combine {values : List DetailLockData} (hwords : ∀ d ∈ values, d.Words)
    (htype : type < numOfAllocationType) {d : DetailLockData}
    (h : combine DetailLockData.add values = some d) :
    d.counts type = LockCounts.reduce (values.map fun d => d.counts type).sum := by
  induction values using List.reverseRecOn generalizing d with
  | nil => cases h
  | append_singleton values v ih =>
      rw [combine_append_singleton, Option.some_inj] at h
      subst h
      rw [List.map_append, List.sum_append, List.map_singleton, List.sum_singleton]
      have hv : (v.counts type).InRange := hwords v (by simp) type
      cases hvalues : combine DetailLockData.add values with
      | none =>
          have hnil : values = [] := by
            cases values with
            | nil => rfl
            | cons => cases hvalues
          rw [hnil, List.map_nil, List.sum_nil, zero_add, hv.reduce]
      | some w =>
          have hadd : (w.add v).counts type = (w.counts type).addUp (v.counts type) := if_pos htype
          have hw := ih (fun d hd => hwords d (List.mem_append_left _ hd)) hvalues
          rw [hadd, LockCounts.addUp_eq, hw, LockCounts.reduce_add]

/-- Whatever the tables hold, `globalLockUsage` is merged from what the
iterations visit. -/
theorem globalLockUsage_globalizeAll (order : List ThreadStatistics) :
    (globalizeAll order).globalLockUsage =
      (order.flatMap fun t => t.lockUsage.iterate).foldl (HashMap.upsert DetailLockData.add)
        (HashMap.init hashAddr maxLockNum maxLockNum_pos) := by
  rw [List.foldl_flatMap, globalizeAll]
  exact (List.foldl_hom GlobalStatus.globalLockUsage fun g t => rfl).symm

theorem keysIn_lockEntries (m : HashMap Nat DetailLockData)
    (hm : ∀ lock, m.hashIndex lock = lockBucket lock) (i : Nat) :
    m.keysIn i (lockEntries threads)
      = (lockAddresses threads).filter fun lock => lockBucket lock = i := by
  ext lock
  rw [HashMap.mem_keysIn, Finset.mem_filter, mem_lockAddresses, hm]

theorem lockBucket_lt (lock : Nat) : lockBucket lock < maxLockNum := by
  have hle : lockBucket lock ≤ maxLockNum - 1 := Nat.and_le_right
  simp only [maxLockNum] at hle ⊢
  omega

/-- If all the locks fit, so do those of each thread. -/
theorem BucketsFit.iterate_eq (h : BucketsFit threads) (ht : t ∈ threads) :
    t.lockUsage.iterate = t.lockUsage.entries := by
  rcases t.lockTable.holds with ⟨a, ha⟩ | ⟨i, hi, hfull⟩
  · exact ha.iterate_eq
  · have hsub : t.lockUsage.keysIn i t.lockUsage.entries ⊆
        (lockAddresses threads).filter fun lock => lockBucket lock = i := by
      intro lock hlock
      rw [HashMap.mem_keysIn, t.lockTable.hashIndex] at hlock
      rw [Finset.mem_filter, lockAddresses, List.mem_toFinset, List.mem_flatMap]
      exact ⟨⟨t, ht, hlock.1⟩, hlock.2⟩
    have hle := Finset.card_le_card hsub
    have hfits := h i hi
    omega

theorem BucketsFit.holds (h : BucketsFit order) :
    (globalizeAll order).globalLockUsage.Holds
      ((lockEntries order).foldl (upsert DetailLockData.add) []) := by
  have hvisited : (order.flatMap fun t => t.lockUsage.iterate) = lockEntries order :=
    List.flatMap_congr fun t ht => h.iterate_eq ht
  rw [globalLockUsage_globalizeAll, hvisited]
  refine (HashMap.Holds.init hashAddr (by decide)).foldl_upsert _ _ fun i => ?_
  rw [keysIn_lockEntries _ fun lock => rfl]
  by_cases hi : i < maxLockNum
  · exact h i hi
  · rw [Finset.filter_false_of_mem fun lock _ (heq : lockBucket lock = i) =>
      hi (heq ▸ lockBucket_lt lock)]
    exact Nat.two_pow_pos 16

theorem BucketsFit.locksMerged (h : BucketsFit order) :
    LocksMerged order (globalizeAll order).globalLockUsage := by
  have hholds := h.holds
  have hperm := hholds.iterate_eq ▸ hholds.entries_perm
  have hvisited : ∀ lock, lock ∈ (globalizeAll order).globalLockUsage.iterate.map Entry.key ↔
      lock ∈ lockAddresses order := by
    intro lock
    rw [(hperm.map Entry.key).mem_iff, mem_keys_foldl_upsert, mem_lockAddresses]
  refine ⟨fun lock => ?_, hvisited, (hperm.map Entry.key).nodup_iff.mpr hholds.nodup, ?_, ?_⟩
  · rw [hholds.find, mem_lockAddresses, Option.isSome_iff_ne_none, Ne,
      lookup_foldl_upsert_eq_none_iff, not_not]
  · intro e he
    rw [hholds.find]
    exact lookup_of_mem hholds.nodup (hperm.mem_iff.mp he)
  · intro lock d hfind type htype
    rw [hholds.find, lookup_foldl_upsert] at hfind
    rw [← sum_valuesOf_lockEntries]
    refine counts_of_combine (fun d hd => ?_) htype hfind
    obtain ⟨e, he, rfl⟩ := List.mem_map.mp hd
    obtain ⟨t, ht, he'⟩ := List.mem_flatMap.mp (List.mem_filter.mp he).1
    obtain ⟨i, -, hi⟩ := List.mem_flatMap.mp he'
    exact t.lockTable.words i e hi

/-- A merged table has found room for all the locks. -/
theorem LocksMerged.fit (h : LocksMerged order (globalizeAll order).globalLockUsage) :
    BucketsFit order := by
  intro i hi
  have hcounts : (globalizeAll order).globalLockUsage.CountsInRange := by
    rw [globalLockUsage_globalizeAll]
    exact (HashMap.init_countsInRange hashAddr (by decide)).foldl_upsert _ _
  have hindex : ∀ lock, (globalizeAll order).globalLockUsage.hashIndex lock = lockBucket lock := by
    intro lock
    rw [globalLockUsage_globalizeAll, HashMap.foldl_upsert_hashIndex]
    rfl
  refine (HashMap.card_found_le fun lock hlock => ?_).trans_lt (hcounts i)
  rw [Finset.mem_filter] at hlock
  exact ⟨(hindex lock).trans hlock.2, (h.found lock).mpr hlock.1⟩

theorem LocksMerged.perm {m : HashMap Nat DetailLockData} (h : LocksMerged order m)
    (hperm : order.Perm threads) : LocksMerged threads m := by
  have haddresses := lockAddresses_perm hperm
  refine ⟨haddresses ▸ h.found, haddresses ▸ h.visited, h.once, h.same, ?_⟩
  intro lock d hfind type htype
  rw [h.counts lock d hfind type htype, (hperm.map _).sum_eq]

end Merged

/-- The threads may globalise in any order exactly if no bucket gets 65536
different locks. -/
theorem globalized_iff (threads : List ThreadStatistics) :
    (∀ order : List ThreadStatistics, order.Perm threads →
      Globalized threads (globalizeAll order)) ↔ BucketsFit threads := by
  constructor
  · intro h
    exact (h threads (List.Perm.refl _)).locksMerged.fit
  · intro h order hperm
    have horder : BucketsFit order := by
      intro i hi
      rw [lockAddresses_perm hperm]
      exact h i hi
    exact ⟨(Summed.globalizeAll order).perm hperm, horder.locksMerged.perm hperm⟩

/-! ## A thread with too many locks -/

theorem mem_keys_useLock {m : HashMap Nat DetailLockData} {c : LockCall} {lock : Nat}
    (h : lock = c.lock ∨ lock ∈ m.entries.map Entry.key) :
    lock ∈ (useLock m c).entries.map Entry.key := by
  rw [useLock]
  cases hr : m.ref? c.lock with
  | none => exact HashMap.mem_keys_entries_insert.mpr h
  | some r =>
      rcases h with rfl | hmem
      · exact HashMap.mem_keys_of_ref hr
      · exact hmem

/-- The table of a thread that locks these mutexes in turn. -/
def lockAll (locks : List Nat) : HashMap Nat DetailLockData :=
  locks.foldl (fun m lock => useLock m (.pthreadMutexLock lock 0 0 0))
    (HashMap.init hashAddr maxLockNum maxLockNum_pos)

theorem lockAll_lockTable (locks : List Nat) : LockTable (lockAll locks) := by
  induction locks using List.reverseRecOn with
  | nil => exact .init
  | append_singleton locks lock ih =>
      rw [lockAll, List.foldl_append]
      exact ih.lockCall (.pthreadMutexLock lock 0 0 0)

theorem mem_keys_lockAll {locks : List Nat} {lock : Nat} (h : lock ∈ locks) :
    lock ∈ (lockAll locks).entries.map Entry.key := by
  induction locks using List.reverseRecOn with
  | nil => cases h
  | append_singleton locks last ih =>
      rw [lockAll, List.foldl_append]
      refine mem_keys_useLock (c := .pthreadMutexLock last 0 0 0) ?_
      rw [List.mem_append, List.mem_singleton] at h
      rcases h with h | rfl
      · exact Or.inr (ih h)
      · exact Or.inl rfl

def lockingThread (locks : List Nat) : ThreadStatistics where
  lockUsage := lockAll locks
  lockTable := lockAll_lockTable locks

theorem mem_lockAddresses_lockingThread {locks : List Nat} {lock : Nat} (h : lock ∈ locks) :
    lock ∈ lockAddresses [lockingThread locks] := by
  rw [lockAddresses, List.mem_toFinset, List.flatMap_singleton]
  exact mem_keys_lockAll h

/-- 65536 locks, all of them in the first bucket. -/
def strideLocks : List Nat := (List.range (2 ^ 16)).map fun k => 2 ^ 16 * (k + 1)

theorem lockBucket_stride (k : Nat) : lockBucket (2 ^ 16 * (k + 1)) = 0 := by
  have hshift : hashAddr (2 ^ 16 * (k + 1)) = 2 ^ 9 * (k + 1) := by
    rw [hashAddr, Nat.shiftRight_eq_div_pow]
    omega
  rw [lockBucket, hshift, show maxLockNum - 1 = 2 ^ 9 - 1 from rfl, Nat.and_two_pow_sub_one_eq_mod]
  omega

theorem mem_strideLocks {k : Nat} (hk : k ∈ Finset.range (2 ^ 16)) :
    2 ^ 16 * (k + 1) ∈ strideLocks := by
  rw [Finset.mem_range, ← List.mem_range] at hk
  exact List.mem_map_of_mem hk

theorem strideLocks_not_fit : ¬ BucketsFit [lockingThread strideLocks] := by
  intro h
  have hfirst := h 0 (by decide)
  have hinjective : Function.Injective fun k => 2 ^ 16 * (k + 1) := fun k k' heq =>
    Nat.succ_injective (Nat.eq_of_mul_eq_mul_left (by decide) heq)
  have hsub : (Finset.range (2 ^ 16)).image (fun k => 2 ^ 16 * (k + 1)) ⊆
      (lockAddresses [lockingThread strideLocks]).filter fun lock => lockBucket lock = 0 := by
    intro lock hlock
    obtain ⟨k, hk, rfl⟩ := Finset.mem_image.mp hlock
    rw [Finset.mem_filter]
    exact ⟨mem_lockAddresses_lockingThread (mem_strideLocks hk), lockBucket_stride k⟩
  have hle := Finset.card_le_card hsub
  rw [Finset.card_image_of_injective _ hinjective, Finset.card_range] at hle
  exact absurd (hle.trans_lt hfirst) (Nat.lt_irrefl _)

/-- They do not all get into the global table. -/
theorem globalize_loses_locks :
    ¬ ∀ order : List ThreadStatistics, order.Perm [lockingThread strideLocks] →
      Globalized [lockingThread strideLocks] (globalizeAll order) := by
  intro h
  exact strideLocks_not_fit (h [lockingThread strideLocks] (List.Perm.refl _)).locksMerged.fit

end MemPerf
