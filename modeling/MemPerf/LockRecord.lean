import MemPerf.LockQueue

/-!
# What lock calls record

Each lock call of the allocator is charged to the entry of the queue's
last slot: its own lock's while the queue has room, and the thousandth
call's lock from then on. `Recorded` says what the queue, the overview and
`lockUsage` hold after any list of lock and system calls.
-/

namespace MemPerf

open Word Chained

/-! ## Sums of lock calls -/

namespace LockCall

def onLock (calls : List LockCall) (lock : Nat) : LockCounts :=
  ((calls.filter fun c => c.lock = lock).map counts).sum

def ofType (calls : List LockCall) (lockType : LockType) : LockCounts :=
  ((calls.filter fun c => c.lockType = lockType).map counts).sum

/-- The lock of the last call that found room in the queue. -/
def lastQueued (calls : List LockCall) : Option Nat :=
  ((calls.take lengthOfQueue).getLast?).map LockCall.lock

/-- What the entry of the lock is charged with. -/
def charged (calls : List LockCall) (lock : Nat) : LockCounts :=
  onLock (calls.take lengthOfQueue) lock +
    if lastQueued calls = some lock then ((calls.drop lengthOfQueue).map counts).sum else 0

variable {calls : List LockCall} {c : LockCall} {lock : Nat}

theorem onLock_snoc (calls : List LockCall) (c : LockCall) (lock : Nat) :
    onLock (calls ++ [c]) lock = onLock calls lock + if c.lock = lock then c.counts else 0 := by
  rw [onLock, List.filter_append, List.map_append, List.sum_append, onLock]
  by_cases h : c.lock = lock <;> simp [h]

theorem ofType_snoc (calls : List LockCall) (c : LockCall) (lockType : LockType) :
    ofType (calls ++ [c]) lockType =
      ofType calls lockType + if c.lockType = lockType then c.counts else 0 := by
  rw [ofType, List.filter_append, List.map_append, List.sum_append, ofType]
  by_cases h : c.lockType = lockType <;> simp [h]

/-- The overview of a lock type, after one more call. -/
theorem overview_snoc {calls : List LockCall} {lockType : LockType} {counts : LockCounts}
    (h : counts.reduce = (ofType calls lockType).reduce) (c : LockCall) :
    (if lockType = c.lockType then c.addTo counts else counts).reduce
      = (ofType (calls ++ [c]) lockType).reduce := by
  rw [ofType_snoc]
  by_cases hk : lockType = c.lockType
  · rw [if_pos hk, if_pos hk.symm, reduce_addTo]
    exact LockCounts.reduce_congr h _
  · rw [if_neg hk, if_neg (Ne.symm hk), add_zero, h]

theorem lastQueued_snoc (calls : List LockCall) (c : LockCall) :
    lastQueued (calls ++ [c]) =
      if calls.length < lengthOfQueue then some c.lock else lastQueued calls := by
  rw [lastQueued, lastQueued]
  split
  · next hroom =>
      have hlen : (calls ++ [c]).length ≤ lengthOfQueue := by
        rw [List.length_append, List.length_singleton]
        omega
      rw [List.take_of_length_le hlen, List.getLast?_concat, Option.map_some]
  · next hfull => rw [List.take_append_of_le_length (by omega)]

/-- The next call is charged to the last queued lock. -/
theorem charged_snoc (calls : List LockCall) (c : LockCall) (lock : Nat) :
    charged (calls ++ [c]) lock =
      charged calls lock + if lastQueued (calls ++ [c]) = some lock then c.counts else 0 := by
  rw [charged, charged, lastQueued_snoc]
  split
  · next hroom =>
      have hlen : (calls ++ [c]).length ≤ lengthOfQueue := by
        rw [List.length_append, List.length_singleton]
        omega
      rw [List.take_of_length_le hlen, List.drop_of_length_le hlen,
        List.take_of_length_le (by omega), List.drop_of_length_le (by omega), onLock_snoc]
      simp
  · next hfull =>
      rw [List.take_append_of_le_length (by omega), List.drop_append_of_le_length (by omega),
        List.map_append, List.sum_append, add_assoc]
      split <;> simp

/-- While every call after the thousandth is on its lock, every call is
charged to its own lock. -/
theorem charged_eq_onLock
    (h : ∀ c ∈ calls.drop lengthOfQueue, lastQueued calls = some c.lock) (lock : Nat) :
    charged calls lock = onLock calls lock := by
  have hsplit : onLock calls lock =
      onLock (calls.take lengthOfQueue) lock + onLock (calls.drop lengthOfQueue) lock := by
    rw [onLock, onLock, onLock, ← List.sum_append, ← List.map_append, ← List.filter_append,
      List.take_append_drop]
  rw [charged, hsplit]
  congr 1
  split
  · next hlast =>
      rw [onLock, List.filter_eq_self.mpr]
      intro c hc
      have heq := (h c hc).symm.trans hlast
      simpa using heq
  · next hlast =>
      rw [onLock, List.filter_eq_nil_iff.mpr]
      · rfl
      · intro c hc heq
        rw [h c hc, of_decide_eq_true heq] at hlast
        exact hlast rfl

theorem numOfCalls_onLock (calls : List LockCall) (lock : Nat) :
    (onLock calls lock).numOfCalls = (calls.filter fun c => c.lock = lock).length := by
  rw [onLock, LockCounts.sum_numOfCalls, List.map_map]
  have hone : LockCounts.numOfCalls ∘ counts = fun _ => 1 := rfl
  rw [hone]
  simp

/-- A lock that is used has calls. -/
theorem onLock_pos (h : c ∈ calls) : 0 < (onLock calls c.lock).numOfCalls := by
  rw [numOfCalls_onLock]
  exact List.length_pos_of_mem (List.mem_filter.mpr ⟨h, by simp⟩)

/-- A call charged to another lock is missing from its own. -/
theorem charged_lt_onLock (h : c ∈ calls.drop lengthOfQueue)
    (hlast : lastQueued calls ≠ some c.lock) :
    (charged calls c.lock).numOfCalls < (onLock calls c.lock).numOfCalls := by
  have hpos := onLock_pos h
  rw [charged, if_neg hlast, add_zero]
  rw [numOfCalls_onLock] at hpos ⊢
  rw [numOfCalls_onLock]
  conv_rhs => rw [← List.take_append_drop lengthOfQueue calls]
  rw [List.filter_append, List.length_append]
  omega

theorem lastQueued_mem (h : lastQueued calls = some lock) : ∃ c ∈ calls, c.lock = lock := by
  obtain ⟨c, hc, rfl⟩ := Option.map_eq_some_iff.mp h
  exact ⟨c, List.mem_of_mem_take (List.mem_of_getLast? hc), rfl⟩

theorem exists_lastQueued (calls : List LockCall) (c : LockCall) :
    ∃ lock, lastQueued (calls ++ [c]) = some lock := by
  rw [lastQueued_snoc]
  split
  · exact ⟨_, rfl⟩
  · next hfull =>
      cases hlast : (calls.take lengthOfQueue).getLast? with
      | none =>
          rw [List.getLast?_eq_none_iff, List.take_eq_nil_iff] at hlast
          rcases hlast with hzero | rfl
          · cases hzero
          · exact absurd (by decide) hfull
      | some c' => exact ⟨c'.lock, by rw [lastQueued, hlast, Option.map_some]⟩

theorem charged_of_absent (h : ∀ c ∈ calls, c.lock ≠ lock) : charged calls lock = 0 := by
  have hlast : lastQueued calls ≠ some lock := by
    intro hlast
    obtain ⟨c, hc, hlock⟩ := lastQueued_mem hlast
    exact h c hc hlock
  rw [charged, if_neg hlast, add_zero, onLock, List.filter_eq_nil_iff.mpr]
  · rfl
  · intro c hc heq
    exact h c (List.mem_of_mem_take hc) (of_decide_eq_true heq)

end LockCall

/-! ## The entries of the locks -/

/-- `lockUsage` after the lookup of a call's lock. -/
def useLock (m : HashMap Nat DetailLockData) (c : LockCall) : HashMap Nat DetailLockData :=
  match m.ref? c.lock with
  | some _ => m
  | none => m.insert c.lock (.newDetailLockData c.lockType)

/-- The pointer the lookup returns. -/
def lockRef (m : HashMap Nat DetailLockData) (c : LockCall) : Ref :=
  (m.ref? c.lock).getD (m.nextRef c.lock)

/-- The locks of the calls that the map has no entry for, in a bucket. -/
def newLocks (m : HashMap Nat DetailLockData) (calls : List LockCall) (i : Nat) : Finset Nat :=
  (calls.map LockCall.lock).toFinset.filter fun lock =>
    m.ref? lock = none ∧ m.hashIndex lock = i

/-- No bucket has to take its 65536th lock. -/
def Room (m : HashMap Nat DetailLockData) (calls : List LockCall) : Prop :=
  ∀ i, (m.buckets i).list.length + (newLocks m calls i).card < 2 ^ 16

section Room

variable {m : HashMap Nat DetailLockData} {c : LockCall} {calls : List LockCall} {r : Ref}
  {lock : Nat} {e : Entry Nat DetailLockData}

theorem useLock_of_some (h : m.ref? c.lock = some r) : useLock m c = m ∧ lockRef m c = r := by
  rw [useLock, lockRef, h]
  exact ⟨rfl, rfl⟩

theorem useLock_of_none (h : m.ref? c.lock = none) :
    useLock m c = m.insert c.lock (.newDetailLockData c.lockType) ∧
      lockRef m c = m.nextRef c.lock := by
  rw [useLock, lockRef, h]
  exact ⟨rfl, rfl⟩

theorem deref_useLock (h : m.deref r = some e) : (useLock m c).deref r = some e := by
  cases hr : m.ref? c.lock with
  | some r' => rwa [(useLock_of_some hr).1]
  | none =>
      rw [(useLock_of_none hr).1]
      exact HashMap.deref_insert_of_some h

/-- What the pointer points to: what was there, or a new entry. -/
theorem deref_lockRef (m : HashMap Nat DetailLockData) (c : LockCall) :
    ∃ d, (useLock m c).deref (lockRef m c) = some ⟨c.lock, d⟩ ∧
      ∀ t, d.counts t = ((m.find c.lock).map fun d => d.counts t).getD 0 := by
  cases hr : m.ref? c.lock with
  | some r =>
      obtain ⟨d, hd⟩ := HashMap.deref_ref hr
      obtain ⟨huse, hlock⟩ := useLock_of_some hr
      refine ⟨d, by rw [huse, hlock, hd], fun t => ?_⟩
      rw [HashMap.find_eq_deref, hr, Option.bind_some, hd]
      rfl
  | none =>
      obtain ⟨huse, hlock⟩ := useLock_of_none hr
      refine ⟨.newDetailLockData c.lockType, by rw [huse, hlock, HashMap.deref_nextRef],
        fun t => ?_⟩
      rw [HashMap.ref_eq_none_iff.mp hr]
      rfl

theorem counted_useLock (hm : m.Counted)
    (hroom : m.ref? c.lock = none → (m.home c.lock).list.length + 1 < 2 ^ 16) :
    (useLock m c).Counted := by
  cases hr : m.ref? c.lock with
  | some r => rwa [(useLock_of_some hr).1]
  | none =>
      rw [(useLock_of_none hr).1]
      exact hm.insert (hroom hr)

theorem ref_useLock (hm : m.Counted)
    (hroom : m.ref? c.lock = none → (m.home c.lock).list.length + 1 < 2 ^ 16) (lock : Nat) :
    (useLock m c).ref? lock = if lock = c.lock then some (lockRef m c) else m.ref? lock := by
  cases hr : m.ref? c.lock with
  | some r =>
      obtain ⟨huse, hlock⟩ := useLock_of_some hr
      rw [huse, hlock]
      split
      · next heq => rw [heq, hr]
      · rfl
  | none =>
      obtain ⟨huse, hlock⟩ := useLock_of_none hr
      rw [huse, hlock]
      exact hm.ref_insert (hroom hr) hr lock

theorem ref_useLock_of_some (hm : m.Counted)
    (hroom : m.ref? c.lock = none → (m.home c.lock).list.length + 1 < 2 ^ 16)
    (h : m.ref? lock = some r) : (useLock m c).ref? lock = some r := by
  rw [ref_useLock hm hroom]
  split
  · next heq => rw [(useLock_of_some (heq ▸ h)).2]
  · exact h

theorem newLocks_cons_of_some (h : m.ref? c.lock = some r) (calls : List LockCall) (i : Nat) :
    newLocks m (c :: calls) i = newLocks m calls i := by
  ext lock
  simp only [newLocks, List.map_cons, List.toFinset_cons, Finset.mem_filter, Finset.mem_insert]
  constructor
  · rintro ⟨rfl | hmem, hnone⟩
    · rw [h] at hnone
      cases hnone.1
    · exact ⟨hmem, hnone⟩
  · exact fun ⟨hmem, hnone⟩ => ⟨.inr hmem, hnone⟩

/-- A new lock moves from the locks to come to its bucket. -/
theorem room_insert (hm : m.Counted) (hr : m.ref? c.lock = none)
    (hroom : (m.home c.lock).list.length + 1 < 2 ^ 16) (calls : List LockCall) (i : Nat) :
    (m.buckets i).list.length + (newLocks m (c :: calls) i).card =
      ((useLock m c).buckets i).list.length + (newLocks (useLock m c) calls i).card := by
  have href := ref_useLock (c := c) hm fun _ => hroom
  have huse := (useLock_of_none hr).1
  have hindex : ∀ lock, (useLock m c).hashIndex lock = m.hashIndex lock := by
    intro lock
    rw [huse, HashMap.insert_hashIndex]
  have hlen := HashMap.insert_length m c.lock (.newDetailLockData c.lockType) i
  rw [← huse] at hlen
  rw [hlen]
  by_cases hi : i = m.hashIndex c.lock
  · have hset : newLocks m (c :: calls) i = insert c.lock (newLocks (useLock m c) calls i) := by
      ext lock
      simp only [newLocks, List.map_cons, List.toFinset_cons, Finset.mem_filter, Finset.mem_insert,
        hindex, href]
      by_cases hlock : lock = c.lock
      · subst hlock
        simp [hr, hi]
      · simp [hlock]
    have hnot : c.lock ∉ newLocks (useLock m c) calls i := by
      simp [newLocks, href]
    rw [hset, Finset.card_insert_of_notMem hnot, if_pos hi]
    omega
  · have hset : newLocks m (c :: calls) i = newLocks (useLock m c) calls i := by
      ext lock
      simp only [newLocks, List.map_cons, List.toFinset_cons, Finset.mem_filter, Finset.mem_insert,
        hindex, href]
      by_cases hlock : lock = c.lock
      · subst hlock
        simp [Ne.symm hi]
      · simp [hlock]
    rw [hset, if_neg hi, Nat.add_zero]

theorem room_cons (hm : m.Counted) : Room m (c :: calls) ↔
    (m.ref? c.lock = none → (m.home c.lock).list.length + 1 < 2 ^ 16) ∧
      Room (useLock m c) calls := by
  cases hr : m.ref? c.lock with
  | some r =>
      rw [(useLock_of_some hr).1]
      simp only [Room, newLocks_cons_of_some hr]
      simp
  | none =>
      by_cases hroom : (m.home c.lock).list.length + 1 < 2 ^ 16
      · simp only [Room, room_insert hm hr hroom]
        exact ⟨fun h => ⟨fun _ => hroom, h⟩, fun h => h.2⟩
      · refine iff_of_false (fun h => hroom ?_) fun h => hroom (h.1 rfl)
        have hmem : c.lock ∈ newLocks m (c :: calls) (m.hashIndex c.lock) := by
          simp [newLocks, hr]
        have hpos := Finset.card_pos.mpr ⟨_, hmem⟩
        have hlen := h (m.hashIndex c.lock)
        rw [HashMap.home]
        omega

theorem room_nil (hm : m.Counted) : Room m [] := by
  intro i
  exact (hm i).2

theorem hidden_useLock (h : m.Hidden lock) (calls : List LockCall) :
    (calls.foldl useLock m).Hidden lock := by
  induction calls generalizing m with
  | nil => exact h
  | cons c calls ih =>
      refine ih ?_
      cases hr : m.ref? c.lock with
      | some r => rwa [(useLock_of_some hr).1]
      | none =>
          rw [(useLock_of_none hr).1]
          exact h.insert _ _

/-- Without room, one of the new locks is not found afterwards. -/
theorem exists_hidden (hm : m.Counted) (h : ¬ Room m calls) :
    ∃ c ∈ calls, m.ref? c.lock = none ∧ (calls.foldl useLock m).Hidden c.lock := by
  induction calls generalizing m with
  | nil => exact absurd (room_nil hm) h
  | cons c calls ih =>
      by_cases hroom : m.ref? c.lock = none → (m.home c.lock).list.length + 1 < 2 ^ 16
      · have hrest : ¬ Room (useLock m c) calls :=
          fun hrest => h ((room_cons hm).mpr ⟨hroom, hrest⟩)
        obtain ⟨c', hc', hnone, hhidden⟩ := ih (counted_useLock hm hroom) hrest
        refine ⟨c', List.mem_cons_of_mem c hc', ?_, hhidden⟩
        rw [ref_useLock hm hroom] at hnone
        split at hnone
        · cases hnone
        · exact hnone
      · obtain ⟨hr, hfull⟩ := Classical.not_imp.mp hroom
        refine ⟨c, List.mem_cons_self, hr, ?_⟩
        rw [List.foldl_cons, (useLock_of_none hr).1]
        exact hidden_useLock (hm.hidden hr hfull) calls

end Room

/-! ## What a lock call records -/

namespace CallRecorder

variable {s s₀ : CallRecorder} {c : LockCall} {calls : List LockCall} {lock : Nat}

/-- Inside a sampled call. -/
def Inside (s : CallRecorder) : Prop :=
  s.allocating.allocatingType.doingAllocation = true ∧
    s.allocating.sampledForCountingEvent = true

/-- What the entry of the lock counts for calls of the type. -/
def detail (s : CallRecorder) (lock type : Nat) : LockCounts :=
  ((s.lockUsage.find lock).map fun d => d.counts type).getD 0

theorem Inside.records (h : s.Inside) :
    ¬ (s.outsideTrackedAllocation = true ∨ ¬ s.allocating.sampledForCountingEvent = true) := by
  simp [outsideTrackedAllocation, h.1, h.2]

theorem findOrInsert_spec (s : CallRecorder) (c : LockCall) :
    ∃ overview, s.findOrInsert c.lockType c.lock = ({ s with
        lockUsage := useLock s.lockUsage c
        allocating.overviewLockData := overview }, lockRef s.lockUsage c) ∧
      ∀ k, (overview k).counts = (s.allocating.overviewLockData k).counts := by
  rw [findOrInsert]
  cases hr : s.lockUsage.ref? c.lock with
  | some r =>
      obtain ⟨huse, hlock⟩ := useLock_of_some hr
      exact ⟨s.allocating.overviewLockData, by rw [huse, hlock], fun k => rfl⟩
  | none =>
      obtain ⟨huse, hlock⟩ := useLock_of_none hr
      refine ⟨_, by rw [huse, hlock]; rfl, fun k => ?_⟩
      by_cases hk : k = c.lockType
      · subst hk
        simp
      · simp [hk]

/-- The parts of the state after a lock call. -/
theorem lockCall_spec (h : s.Inside) (c : LockCall) :
    ∃ overview, s.lockCall c = { s with
        lockUsage := useLock s.lockUsage c
        allocating.nowRunningLockType := c.lockType
        allocating.queueOfDetailLockData :=
          s.allocating.queueOfDetailLockData.record (lockRef s.lockUsage c) c
        allocating.overviewLockData := overview } ∧
      ∀ k, (overview k).counts =
        if k = c.lockType then c.addTo (s.allocating.overviewLockData k).counts
        else (s.allocating.overviewLockData k).counts := by
  obtain ⟨overview, hfind, hsame⟩ := findOrInsert_spec s c
  rw [lockCall, if_neg h.records, hfind]
  cases hc : c.contended with
  | false =>
      refine ⟨_, by simp only [QueueOfDetailLockData.record, hc]; rfl, fun k => ?_⟩
      by_cases hk : k = c.lockType
      · subst hk
        simp [initForWritingOneLockData, updateOverview, hsame, LockCall.addTo, hc]
      · simp [initForWritingOneLockData, updateOverview, hk, hsame]
  | true =>
      refine ⟨_, by simp only [QueueOfDetailLockData.record, hc]; rfl, fun k => ?_⟩
      by_cases hk : k = c.lockType
      · subst hk
        simp [initForWritingOneLockData, updateOverview, recordALockContention, hsame,
          LockCall.addTo, hc]
      · simp [initForWritingOneLockData, updateOverview, recordALockContention, hk, hsame]

theorem detail_of_ref {r : Ref} {d : DetailLockData} (hr : s.lockUsage.ref? lock = some r)
    (hd : s.lockUsage.deref r = some ⟨lock, d⟩) (type : Nat) :
    s.detail lock type = d.counts type := by
  rw [detail, HashMap.find_eq_deref, hr, Option.bind_some, hd]
  rfl

theorem detail_of_none (hr : s.lockUsage.ref? lock = none) (type : Nat) :
    s.detail lock type = 0 := by
  rw [detail, HashMap.ref_eq_none_iff.mp hr]
  rfl

/-- What is recorded after these lock calls, from `s₀` on. -/
structure Recorded (s₀ s : CallRecorder) (calls : List LockCall) : Prop where
  allocatingType : s.allocating.allocatingType = s₀.allocating.allocatingType
  sampled : s.allocating.sampledForCountingEvent = s₀.allocating.sampledForCountingEvent
  threadLocal : s.threadLocal = s₀.threadLocal
  counted : s.lockUsage.Counted
  ranges : s.lockUsage.Forall fun e => ∀ type, (e.value.counts type).InRange
  detail : ∀ lock type, s.detail lock type = s₀.detail lock type
  refs : ∀ lock, s.lockUsage.ref? lock = none ↔
    s₀.lockUsage.ref? lock = none ∧ ∀ c ∈ calls, c.lock ≠ lock
  tidy : s.allocating.queueOfDetailLockData.Tidy
  used : s.allocating.queueOfDetailLockData.used = min calls.length lengthOfQueue
  addresses : ∀ i r, (s.allocating.queueOfDetailLockData.queue i).addressOfHashLockData = some r →
    ∃ e, s.lockUsage.deref r = some e
  current : ∀ lock, LockCall.lastQueued calls = some lock →
    s.allocating.queueOfDetailLockData.current = s.lockUsage.ref? lock
  pending : ∀ lock r, s.lockUsage.ref? lock = some r →
    (s.allocating.queueOfDetailLockData.pending r).reduce = (LockCall.charged calls lock).reduce
  overview : ∀ lockType, (s.allocating.overviewLockData lockType).counts.reduce =
    (LockCall.ofType calls lockType).reduce

/-- A new entry counts nothing, and a lookup changes no entry. -/
theorem detail_useLock {s s' : CallRecorder} (hm : s.lockUsage.Counted)
    (hroom : s.lockUsage.ref? c.lock = none → (s.lockUsage.home c.lock).list.length + 1 < 2 ^ 16)
    (h : s'.lockUsage = useLock s.lockUsage c) (lock type : Nat) :
    s'.detail lock type = s.detail lock type := by
  have href := ref_useLock hm hroom lock
  rw [← h] at href
  split at href
  · next heq =>
      subst heq
      obtain ⟨d, hd, hcounts⟩ := deref_lockRef s.lockUsage c
      rw [← h] at hd
      rw [detail_of_ref href hd, hcounts]
      rfl
  · cases hr : s.lockUsage.ref? lock with
    | none =>
        rw [hr] at href
        rw [detail_of_none hr, detail_of_none href]
    | some r =>
        obtain ⟨d, hd⟩ := HashMap.deref_ref hr
        have hd' : s'.lockUsage.deref r = some ⟨lock, d⟩ := by
          rw [h]
          exact deref_useLock hd
        rw [hr] at href
        rw [detail_of_ref hr hd, detail_of_ref href hd']

theorem ranges_useLock {m : HashMap Nat DetailLockData}
    (h : m.Forall fun e => ∀ type, (e.value.counts type).InRange) (c : LockCall) :
    (useLock m c).Forall fun e => ∀ type, (e.value.counts type).InRange := by
  cases hr : m.ref? c.lock with
  | some r => rwa [(useLock_of_some hr).1]
  | none =>
      rw [(useLock_of_none hr).1]
      exact h.insert fun _ => LockCounts.zero_inRange

/-- The last slot points to the last queued lock. -/
theorem Recorded.current_lockCall (h : Recorded s₀ s calls)
    (hroom : s.lockUsage.ref? c.lock = none → (s.lockUsage.home c.lock).list.length + 1 < 2 ^ 16)
    (hlast : LockCall.lastQueued (calls ++ [c]) = some lock) :
    (s.allocating.queueOfDetailLockData.record (lockRef s.lockUsage c) c).current =
      (useLock s.lockUsage c).ref? lock := by
  have hlock : (useLock s.lockUsage c).ref? c.lock = some (lockRef s.lockUsage c) := by
    rw [ref_useLock h.counted hroom, if_pos rfl]
  rw [LockCall.lastQueued_snoc] at hlast
  rw [QueueOfDetailLockData.current_record h.tidy (lockRef s.lockUsage c) c, h.used]
  by_cases hlen : calls.length < lengthOfQueue
  · rw [if_pos hlen] at hlast
    rw [if_pos (by omega), ← Option.some.inj hlast, hlock]
  · rw [if_neg hlen] at hlast
    rw [if_neg (by omega), h.current lock hlast]
    cases hr : s.lockUsage.ref? lock with
    | none =>
        obtain ⟨c', hc', hc'lock⟩ := LockCall.lastQueued_mem hlast
        exact absurd hc'lock (((h.refs lock).mp hr).2 c' hc')
    | some r => rw [ref_useLock_of_some h.counted hroom hr]

/-- The lookup of a call changes nothing that is pending: to the entry of a
new lock no slot points yet. -/
theorem Recorded.pending_useLock (h : Recorded s₀ s calls)
    (hroom : s.lockUsage.ref? c.lock = none → (s.lockUsage.home c.lock).list.length + 1 < 2 ^ 16)
    {r : Ref} (hr : (useLock s.lockUsage c).ref? lock = some r) :
    (s.allocating.queueOfDetailLockData.pending r).reduce =
      (LockCall.charged calls lock).reduce := by
  cases hold : s.lockUsage.ref? lock with
  | some r' =>
      have hr' := ref_useLock_of_some h.counted hroom hold
      obtain rfl : r' = r := Option.some.inj (hr'.symm.trans hr)
      exact h.pending lock r' hold
  | none =>
      have href := ref_useLock h.counted hroom lock
      have hnew : lock = c.lock := by
        rw [href] at hr
        split at hr
        · assumption
        · rw [hold] at hr
          cases hr
      subst hnew
      rw [href, if_pos rfl, (useLock_of_none hold).2] at hr
      obtain rfl := Option.some.inj hr
      have hnone : s.lockUsage.deref (s.lockUsage.nextRef c.lock) = none := by
        simp [HashMap.deref, HashMap.nextRef, HashMap.home]
      rw [QueueOfDetailLockData.pending_eq_zero,
        LockCall.charged_of_absent ((h.refs _).mp hold).2]
      intro i hi
      obtain ⟨e, he⟩ := h.addresses i _ hi
      rw [hnone] at he
      cases he

theorem Recorded.lockCall (h : Recorded s₀ s calls) (hin : s₀.Inside)
    (hroom : s.lockUsage.ref? c.lock = none → (s.lockUsage.home c.lock).list.length + 1 < 2 ^ 16) :
    Recorded s₀ (s.lockCall c) (calls ++ [c]) := by
  have hinside : s.Inside := by
    rw [Inside, h.allocatingType, h.sampled]
    exact hin
  obtain ⟨overview, hs, hoverview⟩ := lockCall_spec hinside c
  have href := ref_useLock h.counted hroom
  rw [hs]
  refine ⟨h.allocatingType, h.sampled, h.threadLocal, counted_useLock h.counted hroom,
    ranges_useLock h.ranges c, fun lock type => ?_, fun lock => ?_, h.tidy.record _ _, ?_, ?_,
    fun _ hlast => h.current_lockCall hroom hlast, ?_, fun lockType => ?_⟩
  · rw [← h.detail]
    exact detail_useLock h.counted hroom rfl lock type
  · have hsplit : (∀ c' ∈ calls ++ [c], c'.lock ≠ lock) ↔
        (∀ c' ∈ calls, c'.lock ≠ lock) ∧ c.lock ≠ lock := by simp [or_imp, forall_and]
    rw [href, hsplit, ← and_assoc, ← h.refs]
    by_cases hl : lock = c.lock
    · simp [hl]
    · simp [hl, Ne.symm hl]
  · rw [QueueOfDetailLockData.used_record h.tidy (lockRef s.lockUsage c) c, h.used,
      List.length_append, List.length_singleton]
    split <;> omega
  · intro i r hi
    rw [QueueOfDetailLockData.address_record h.tidy] at hi
    split at hi
    · obtain ⟨d, hd, -⟩ := deref_lockRef s.lockUsage c
      rw [← Option.some.inj hi]
      exact ⟨_, hd⟩
    · obtain ⟨e, he⟩ := h.addresses i r hi
      exact ⟨e, deref_useLock he⟩
  · intro lock r hr
    have htarget : (s.allocating.queueOfDetailLockData.record (lockRef s.lockUsage c) c).current =
        some r ↔ LockCall.lastQueued (calls ++ [c]) = some lock := by
      obtain ⟨lock', hlock'⟩ := LockCall.exists_lastQueued calls c
      rw [h.current_lockCall hroom hlock', hlock', Option.some.injEq]
      constructor
      · exact fun hr' => HashMap.ref_inj hr' hr
      · rintro rfl
        exact hr
    rw [QueueOfDetailLockData.pending_record h.tidy, LockCall.charged_snoc,
      if_congr htarget rfl rfl]
    exact LockCounts.reduce_congr (h.pending_useLock hroom hr) _
  · dsimp only
    rw [hoverview]
    exact LockCall.overview_snoc (h.overview lockType) c

theorem Recorded.system (h : Recorded s₀ s calls) (hin : s₀.Inside) (type : SystemCallType)
    (timeStart timeStop : Nat) : Recorded s₀ (s.systemCall type timeStart timeStop) calls := by
  have hinside : s.Inside := by
    rw [Inside, h.allocatingType, h.sampled]
    exact hin
  rw [systemCall, if_neg hinside.records]
  exact ⟨h.allocatingType, h.sampled, h.threadLocal, h.counted, h.ranges, h.detail, h.refs, h.tidy,
    h.used, h.addresses, h.current, h.pending, h.overview⟩

end CallRecorder

/-- The lock calls among the events. -/
def lockCalls (events : List AllocatorEvent) : List LockCall :=
  events.filterMap fun event =>
    match event with
    | .lock c => some c
    | .system .. => none

namespace CallRecorder

variable {s s₀ : CallRecorder} {calls : List LockCall}

theorem Recorded.events (hin : s₀.Inside) (h : Recorded s₀ s calls) :
    ∀ events, Room s.lockUsage (lockCalls events) →
      Recorded s₀ (events.foldl event s) (calls ++ lockCalls events) := by
  intro events
  induction events generalizing s calls with
  | nil =>
      intro _
      rw [lockCalls, List.filterMap_nil, List.append_nil]
      exact h
  | cons e events ih =>
      intro hroom
      cases e with
      | system type timeStart timeStop =>
          have hnext := h.system hin type timeStart timeStop
          have hsame : (s.event (.system type timeStart timeStop)).lockUsage = s.lockUsage := by
            rw [event, systemCall]
            split <;> rfl
          exact ih hnext (by rw [hsame]; exact hroom)
      | lock c =>
          have hcons : lockCalls (AllocatorEvent.lock c :: events) = c :: lockCalls events := rfl
          rw [hcons] at hroom ⊢
          obtain ⟨hnew, hrest⟩ := (room_cons h.counted).mp hroom
          have hinside : s.Inside := by
            rw [Inside, h.allocatingType, h.sampled]
            exact hin
          obtain ⟨overview, hs, -⟩ := lockCall_spec hinside c
          have hstep := ih (h.lockCall hin hnew) (by rw [hs]; exact hrest)
          rw [List.append_assoc] at hstep
          exact hstep

/-- Whatever room there is, the events look the locks up one by one. -/
theorem lockUsage_events (hin : s.Inside) : ∀ events,
    (events.foldl event s).lockUsage = (lockCalls events).foldl useLock s.lockUsage := by
  intro events
  induction events generalizing s with
  | nil => rfl
  | cons e events ih =>
      cases e with
      | system type timeStart timeStop =>
          have hs : s.systemCall type timeStart timeStop =
              s.addOneSyscallToSyscallData type (wsub 64 timeStop timeStart) := by
            rw [systemCall, if_neg hin.records]
          have hstep := ih (s := s.systemCall type timeStart timeStop) (by rw [hs]; exact hin)
          rw [hs] at hstep
          rw [List.foldl_cons, event, hs]
          exact hstep
      | lock c =>
          obtain ⟨overview, hs, -⟩ := lockCall_spec hin c
          have hstep := ih (s := s.lockCall c) (by rw [hs]; exact hin)
          rw [hs] at hstep
          rw [List.foldl_cons, event, hs]
          exact hstep

end CallRecorder

end MemPerf
