import MemPerf.AllocatingStatus

/-!
# What the lock queue holds

The counters of a lock are three machine words; `reduce` is what storing
does to exact sums of them, and everything the queue does is an addition
up to `reduce`. What is pending for an entry of `lockUsage` is the sum of
the slots that point to it; writing the queue out adds it to the entry.
-/

namespace MemPerf

open Word Chained

/-! ## Exact sums and stored ones -/

namespace LockCounts

instance : Zero LockCounts := ⟨{}⟩

instance : Add LockCounts where
  add c d :=
    { numOfCalls := c.numOfCalls + d.numOfCalls
      numOfCallsWithContentions := c.numOfCallsWithContentions + d.numOfCallsWithContentions
      cycles := c.cycles + d.cycles }

@[simp] theorem zero_numOfCalls : (0 : LockCounts).numOfCalls = 0 := rfl
@[simp] theorem zero_contentions : (0 : LockCounts).numOfCallsWithContentions = 0 := rfl
@[simp] theorem zero_cycles : (0 : LockCounts).cycles = 0 := rfl

variable (c d e : LockCounts)

@[simp] theorem add_numOfCalls : (c + d).numOfCalls = c.numOfCalls + d.numOfCalls := rfl
@[simp] theorem add_contentions : (c + d).numOfCallsWithContentions =
    c.numOfCallsWithContentions + d.numOfCallsWithContentions := rfl
@[simp] theorem add_cycles : (c + d).cycles = c.cycles + d.cycles := rfl

instance : AddCommMonoid LockCounts where
  add_assoc c d e := by ext <;> simp [Nat.add_assoc]
  zero_add c := by ext <;> simp
  add_zero c := by ext <;> simp
  add_comm c d := by ext <;> simp [Nat.add_comm]
  nsmul := nsmulRec

/-- The number of calls of a sum, over any list of them. -/
theorem sum_numOfCalls (l : List LockCounts) : l.sum.numOfCalls = (l.map numOfCalls).sum := by
  induction l with
  | nil => rfl
  | cons c l ih => rw [List.sum_cons, List.map_cons, List.sum_cons, add_numOfCalls, ih]

/-- What the words hold after the sum is stored. -/
def reduce : LockCounts where
  numOfCalls := wrap 32 c.numOfCalls
  numOfCallsWithContentions := wrap 32 c.numOfCallsWithContentions
  cycles := wrap 64 c.cycles

structure InRange : Prop where
  numOfCalls : c.numOfCalls < 2 ^ 32
  numOfCallsWithContentions : c.numOfCallsWithContentions < 2 ^ 32
  cycles : c.cycles < 2 ^ 64

variable {c d e}

theorem reduce_inRange (c : LockCounts) : c.reduce.InRange :=
  ⟨wrap_lt 32 _, wrap_lt 32 _, wrap_lt 64 _⟩

theorem InRange.reduce (h : c.InRange) : c.reduce = c := by
  ext
  · exact wrap_of_lt h.numOfCalls
  · exact wrap_of_lt h.numOfCallsWithContentions
  · exact wrap_of_lt h.cycles

theorem zero_inRange : (0 : LockCounts).InRange :=
  ⟨Nat.two_pow_pos 32, Nat.two_pow_pos 32, Nat.two_pow_pos 64⟩

theorem addUp_eq (c d : LockCounts) : c.addUp d = (c + d).reduce := rfl

theorem reduce_add (c d : LockCounts) : (c.reduce + d).reduce = (c + d).reduce := by
  ext <;> exact wrap_add_wrap _ _ _

/-- Sums that are stored alike stay so when something is added. -/
theorem reduce_congr (h : c.reduce = d.reduce) (e : LockCounts) :
    (c + e).reduce = (d + e).reduce := by
  rw [← reduce_add, h, reduce_add]

theorem reduce_congr_right (h : c.reduce = d.reduce) (e : LockCounts) :
    (e + c).reduce = (e + d).reduce := by
  rw [add_comm e c, add_comm e d]
  exact reduce_congr h e

theorem reduce_addAContention (c : LockCounts) :
    c.addAContention.reduce = (c + { numOfCallsWithContentions := 1 }).reduce := by
  ext
  · rfl
  · exact Nat.mod_mod _ _
  · rfl

theorem reduce_addCallAndCycles (c : LockCounts) (numOfCalls cycles : Nat) :
    (c.addCallAndCycles numOfCalls cycles).reduce = (c + { numOfCalls, cycles }).reduce := by
  ext
  · exact Nat.mod_mod _ _
  · rfl
  · exact Nat.mod_mod _ _

end LockCounts

namespace LockCall

/-- One call, contended or not, and its cycles. -/
def counts (c : LockCall) : LockCounts where
  numOfCalls := 1
  numOfCallsWithContentions := c.contended.toNat
  cycles := c.cycles

/-- What the functions of the call do to the counts they write. -/
def addTo (c : LockCall) (counts : LockCounts) : LockCounts :=
  (if c.contended then counts.addAContention else counts).addCallAndCycles 1 c.cycles

theorem reduce_addTo (c : LockCall) (counts : LockCounts) :
    (c.addTo counts).reduce = (counts + c.counts).reduce := by
  rw [addTo, LockCounts.reduce_addCallAndCycles]
  cases hc : c.contended with
  | false =>
      have hcounts : c.counts = { numOfCalls := 1, cycles := c.cycles } := by
        rw [LockCall.counts, hc]
        rfl
      rw [hcounts]
      rfl
  | true =>
      have hcounts : c.counts =
          ({ numOfCallsWithContentions := 1 } : LockCounts) +
            { numOfCalls := 1, cycles := c.cycles } := by
        rw [LockCall.counts, hc]
        ext <;> simp
      rw [hcounts, ← add_assoc, if_pos rfl]
      exact LockCounts.reduce_congr (LockCounts.reduce_addAContention counts) _

end LockCall

/-! ## The queue -/

namespace QueueOfDetailLockData

/-- The queue during a lock call. -/
def record (q : QueueOfDetailLockData) (r : Ref) (c : LockCall) : QueueOfDetailLockData :=
  let q := q.writingNewDataInTheQueue r
  (if c.contended then q.addAContention else q).addCallAndCycles 1 c.cycles

/-- How many slots are used. -/
def used (q : QueueOfDetailLockData) : Nat := (q.queueTail + 1).toNat

/-- The sum of the slots that point to the entry. -/
def pending (q : QueueOfDetailLockData) (r : Ref) : LockCounts :=
  ∑ i ∈ Finset.range q.used,
    if (q.queue i).addressOfHashLockData = some r then (q.queue i).counts else 0

/-- The slots after the used ones are zero. -/
structure Tidy (q : QueueOfDetailLockData) : Prop where
  tail_ge : -1 ≤ q.queueTail
  tail_lt : q.queueTail < lengthOfQueue
  unused : ∀ i, q.used ≤ i → q.queue i = {}

variable {q : QueueOfDetailLockData} {r r' : Ref} {c : LockCall}

theorem tidy_empty : ({} : QueueOfDetailLockData).Tidy := by
  refine ⟨Int.le_refl _, by decide, fun i _ => rfl⟩

theorem Tidy.cleanUpQueue (h : q.Tidy) : q.cleanUpQueue = {} := by
  obtain ⟨hge, -, hunused⟩ := h
  simp only [QueueOfDetailLockData.cleanUpQueue, QueueOfDetailLockData.mk.injEq, true_and]
  funext i
  split
  · rfl
  · next hi =>
      refine hunused i ?_
      rw [used]
      omega

theorem setTail_setTail (q : QueueOfDetailLockData) (x y : DetailLockDataInAllocatingStatus) :
    (q.setTail x).setTail y = q.setTail y := by
  simp only [setTail, Function.update_idem]

@[simp] theorem tail_setTail (q : QueueOfDetailLockData) (x : DetailLockDataInAllocatingStatus) :
    (q.setTail x).tail = x :=
  Function.update_self ..

/-- What a call adds, it adds to the last slot. -/
theorem record_eq (q : QueueOfDetailLockData) (r : Ref) (c : LockCall) :
    q.record r c = (q.writingNewDataInTheQueue r).setTail
      { (q.writingNewDataInTheQueue r).tail with
        counts := c.addTo (q.writingNewDataInTheQueue r).tail.counts } := by
  rw [record, LockCall.addTo]
  cases c.contended with
  | false => rfl
  | true =>
      simp only [if_true, addCallAndCycles, addAContention, tail_setTail, setTail_setTail]

/-- A call while there is room takes the next slot. -/
theorem record_of_room (h : q.Tidy) (hroom : q.used < lengthOfQueue) (r : Ref) (c : LockCall) :
    (q.record r c).queueTail = q.queueTail + 1 ∧
      (q.record r c).queue = Function.update q.queue q.used
        { counts := c.addTo {}, addressOfHashLockData := some r } := by
  have hge := h.tail_ge
  have htail : q.queueTail < (lengthOfQueue - 1 : Nat) := by
    simp only [used, lengthOfQueue] at hroom ⊢
    omega
  have hempty := h.unused q.used (Nat.le_refl _)
  rw [record_eq, writingNewDataInTheQueue, if_pos htail]
  refine ⟨rfl, ?_⟩
  simp only [setTail, tail, Function.update_self, Function.update_idem]
  rw [← used, hempty]

/-- A full queue charges the call to the lock of its last slot. -/
theorem record_of_full (hfull : ¬ q.used < lengthOfQueue) (r : Ref) (c : LockCall) :
    (q.record r c).queueTail = q.queueTail ∧
      (q.record r c).queue = Function.update q.queue (q.used - 1)
        { q.queue (q.used - 1) with counts := c.addTo (q.queue (q.used - 1)).counts } := by
  have htail : ¬ q.queueTail < (lengthOfQueue - 1 : Nat) := by
    simp only [used, lengthOfQueue] at hfull ⊢
    omega
  have hlast : q.queueTail.toNat = q.used - 1 := by
    rw [used]
    omega
  rw [record_eq, writingNewDataInTheQueue, if_neg htail]
  refine ⟨rfl, ?_⟩
  simp only [setTail, tail, hlast]

theorem Tidy.used_le (h : q.Tidy) : q.used ≤ lengthOfQueue := by
  have hlt := h.tail_lt
  rw [used]
  simp only [lengthOfQueue] at hlt ⊢
  omega

theorem used_record (h : q.Tidy) (r : Ref) (c : LockCall) :
    (q.record r c).used = if q.used < lengthOfQueue then q.used + 1 else q.used := by
  have hge := h.tail_ge
  split
  · next hroom =>
      rw [used, (record_of_room h hroom r c).1, used]
      omega
  · next hfull => rw [used, (record_of_full hfull r c).1, used]

theorem Tidy.record (h : q.Tidy) (r : Ref) (c : LockCall) : (q.record r c).Tidy := by
  have hused := used_record h r c
  have hle := h.used_le
  have hge := h.tail_ge
  by_cases hroom : q.used < lengthOfQueue
  · obtain ⟨htail, hqueue⟩ := record_of_room h hroom r c
    rw [if_pos hroom] at hused
    refine ⟨?_, ?_, fun i hi => ?_⟩
    · omega
    · simp only [used, lengthOfQueue] at hroom ⊢
      omega
    · rw [hqueue, Function.update_of_ne (by omega)]
      exact h.unused i (by omega)
  · obtain ⟨htail, hqueue⟩ := record_of_full hroom r c
    rw [if_neg hroom] at hused
    refine ⟨?_, ?_, fun i hi => ?_⟩
    · omega
    · rw [htail]
      exact h.tail_lt
    · have hpos : 0 < q.used := by
        simp only [lengthOfQueue] at hroom
        omega
      rw [hqueue, Function.update_of_ne (by omega)]
      exact h.unused i (by omega)

theorem address_record (h : q.Tidy) (r : Ref) (c : LockCall) (i : Nat) :
    ((q.record r c).queue i).addressOfHashLockData =
      if q.used < lengthOfQueue ∧ i = q.used then some r
      else (q.queue i).addressOfHashLockData := by
  by_cases hroom : q.used < lengthOfQueue
  · rw [(record_of_room h hroom r c).2]
    by_cases hi : i = q.used
    · rw [if_pos ⟨hroom, hi⟩, hi, Function.update_self]
    · rw [if_neg fun hno => hi hno.2, Function.update_of_ne hi]
  · rw [if_neg fun hno => hroom hno.1, (record_of_full hroom r c).2]
    by_cases hi : i = q.used - 1
    · rw [hi, Function.update_self]
    · rw [Function.update_of_ne hi]

/-- The entry that the last slot points to. -/
def current (q : QueueOfDetailLockData) : Option Ref := (q.queue (q.used - 1)).addressOfHashLockData

theorem current_record (h : q.Tidy) (r : Ref) (c : LockCall) :
    (q.record r c).current = if q.used < lengthOfQueue then some r else q.current := by
  have hused := used_record h r c
  split
  · next hroom =>
      rw [if_pos hroom] at hused
      rw [current, hused, (record_of_room h hroom r c).2, Nat.add_sub_cancel, Function.update_self]
  · next hfull =>
      rw [if_neg hfull] at hused
      rw [current, hused, (record_of_full hfull r c).2, Function.update_self, current]

theorem pending_eq_zero (h : ∀ i, (q.queue i).addressOfHashLockData ≠ some r) : q.pending r = 0 :=
  Finset.sum_eq_zero fun i _ => if_neg (h i)

/-- A call is pending for the entry of the last slot. -/
theorem pending_record (h : q.Tidy) (r : Ref) (c : LockCall) (r' : Ref) :
    ((q.record r c).pending r').reduce =
      (q.pending r' + if (q.record r c).current = some r' then c.counts else 0).reduce := by
  have hused := used_record h r c
  rw [current_record h]
  by_cases hroom : q.used < lengthOfQueue
  · rw [if_pos hroom] at hused ⊢
    have hold : ∀ i ∈ Finset.range q.used, (q.record r c).queue i = q.queue i := by
      intro i hi
      rw [(record_of_room h hroom r c).2, Function.update_of_ne (Finset.mem_range.mp hi).ne]
    rw [pending, hused, Finset.sum_range_succ, Finset.sum_congr rfl fun i hi => by rw [hold i hi],
      (record_of_room h hroom r c).2, Function.update_self, ← pending]
    refine LockCounts.reduce_congr_right ?_ _
    split
    · rw [LockCall.reduce_addTo]
      exact congrArg LockCounts.reduce (zero_add c.counts)
    · rfl
  · rw [if_neg hroom] at hused ⊢
    have hpos : 0 < q.used := by
      simp only [lengthOfQueue] at hroom
      omega
    obtain ⟨n, hn⟩ : ∃ n, q.used = n + 1 := ⟨q.used - 1, by omega⟩
    have hqueue := (record_of_full hroom r c).2
    rw [hn, Nat.add_sub_cancel] at hqueue
    have hold : ∀ i ∈ Finset.range n, (q.record r c).queue i = q.queue i := by
      intro i hi
      rw [hqueue, Function.update_of_ne (Finset.mem_range.mp hi).ne]
    rw [pending, hused, hn, Finset.sum_range_succ,
      Finset.sum_congr rfl fun i hi => by rw [hold i hi], hqueue, Function.update_self, pending, hn,
      Finset.sum_range_succ, current, hn, Nat.add_sub_cancel, add_assoc]
    refine LockCounts.reduce_congr_right ?_ _
    by_cases haddr : (q.queue n).addressOfHashLockData = some r'
    · simp only [haddr, if_true]
      exact LockCall.reduce_addTo c _
    · simp only [haddr, if_false, add_zero]

/-! ## Writing the queue out -/

variable {m : HashMap Nat DetailLockData} {type : Nat} {slot : DetailLockDataInAllocatingStatus}
  {key : Nat}

/-- A property that no write of a slot breaks. -/
theorem writingIntoHashTable_induct {P : HashMap Nat DetailLockData → Prop} {type : Nat}
    (hwrite : ∀ m r counts, P m → P (m.write r fun d =>
      { d with counts := Function.update d.counts type ((d.counts type).addUp counts) }))
    (q : QueueOfDetailLockData) (hm : P m) : P (q.writingIntoHashTable type m) := by
  rw [writingIntoHashTable]
  generalize (q.queueTail + 1).toNat = n
  induction n with
  | zero => exact hm
  | succ n ih =>
      rw [List.range_succ, List.foldl_append, List.foldl_cons, List.foldl_nil,
        DetailLockDataInAllocatingStatus.writingIntoAddress]
      split
      · exact hwrite _ _ _ ih
      · exact ih

theorem ref_writingIntoHashTable (q : QueueOfDetailLockData) (m : HashMap Nat DetailLockData)
    (type key : Nat) : (q.writingIntoHashTable type m).ref? key = m.ref? key :=
  writingIntoHashTable_induct (P := fun m' => m'.ref? key = m.ref? key)
    (fun m' r counts h => by rw [HashMap.ref_write, h]) q rfl

theorem counted_writingIntoHashTable (q : QueueOfDetailLockData) (type : Nat) (hm : m.Counted) :
    (q.writingIntoHashTable type m).Counted :=
  writingIntoHashTable_induct (P := HashMap.Counted) (fun _ r _ h => h.write r _) q hm

theorem ranges_writingIntoHashTable (q : QueueOfDetailLockData) (type : Nat)
    (hm : m.Forall fun e => ∀ type, (e.value.counts type).InRange) :
    (q.writingIntoHashTable type m).Forall fun e => ∀ type, (e.value.counts type).InRange := by
  refine writingIntoHashTable_induct
    (P := fun m' => m'.Forall fun e => ∀ type, (e.value.counts type).InRange)
    (fun m' r counts h => HashMap.Forall.write h (fun e he t => ?_) r) q hm
  by_cases ht : t = type
  · subst ht
    simp only [Function.update_self, LockCounts.addUp_eq]
    exact LockCounts.reduce_inRange _
  · simp only [Function.update_of_ne ht]
    exact he t

/-- The entry gets what is pending for it. -/
theorem deref_writingIntoHashTable (q : QueueOfDetailLockData) {r : Ref} {d : DetailLockData}
    (hd : m.deref r = some ⟨key, d⟩) (hrange : (d.counts type).InRange) :
    (q.writingIntoHashTable type m).deref r = some ⟨key, { d with
      counts := Function.update d.counts type (d.counts type + q.pending r).reduce }⟩ := by
  rw [writingIntoHashTable, pending, used]
  generalize (q.queueTail + 1).toNat = n
  induction n with
  | zero =>
      rw [Finset.sum_range_zero, add_zero, hrange.reduce, Function.update_eq_self]
      exact hd
  | succ n ih =>
      rw [List.range_succ, List.foldl_append, List.foldl_cons, List.foldl_nil,
        DetailLockDataInAllocatingStatus.writingIntoAddress, Finset.sum_range_succ]
      cases haddr : (q.queue n).addressOfHashLockData with
      | none => simpa using ih
      | some r' =>
          simp only [Option.some.injEq]
          rw [HashMap.deref_write, ih]
          by_cases hr : r = r'
          · subst hr
            simp only [if_true, Option.map_some, Function.update_self, Function.update_idem,
              LockCounts.addUp_eq, LockCounts.reduce_add, add_assoc]
          · rw [if_neg hr, if_neg (Ne.symm hr), add_zero]

end QueueOfDetailLockData

end MemPerf
