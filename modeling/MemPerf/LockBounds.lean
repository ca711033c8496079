import MemPerf.Globalize

/-!
# Bounds on a lock table

`LocksWithin m n` bounds the calls that all the entries of a table count
for a class, and says that no entry counts more contended calls than
calls. It needs nothing of the table's searches, so it holds of tables
with hidden entries and of entries charged for another lock too. As long
as the bound fits in a counter, what is written through the queue and
what is merged from another table keeps it, with a higher bound.
-/

namespace MemPerf

open Word Chained

/-! ## One set of counts -/

namespace LockCounts

variable {c d : LockCounts}

/-- The contended calls are some of the calls. -/
def Contended (c : LockCounts) : Prop := c.numOfCallsWithContentions ≤ c.numOfCalls

/-- Sums that fit are stored exactly. -/
theorem addUp_of_fits (hc : c.Contended) (hd : d.Contended)
    (hfits : c.numOfCalls + d.numOfCalls < 2 ^ 32) :
    (c.addUp d).numOfCalls = c.numOfCalls + d.numOfCalls ∧ (c.addUp d).Contended := by
  rw [Contended] at hc hd
  have hcalls : (c.addUp d).numOfCalls = c.numOfCalls + d.numOfCalls := wrap_of_lt hfits
  have hcontentions : (c.addUp d).numOfCallsWithContentions =
      c.numOfCallsWithContentions + d.numOfCallsWithContentions := wrap_of_lt (by omega)
  refine ⟨hcalls, ?_⟩
  rw [Contended, hcalls, hcontentions]
  omega

end LockCounts

theorem LockCall.addTo_of_fits {counts : LockCounts} (c : LockCall) (h : counts.Contended)
    (hfits : counts.numOfCalls + 1 < 2 ^ 32) :
    (c.addTo counts).numOfCalls = counts.numOfCalls + 1 ∧ (c.addTo counts).Contended := by
  rw [LockCounts.Contended] at h ⊢
  rw [LockCall.addTo]
  cases c.contended with
  | false =>
      have hcalls : (counts.addCallAndCycles 1 c.cycles).numOfCalls = counts.numOfCalls + 1 :=
        wrap_of_lt hfits
      refine ⟨hcalls, ?_⟩
      rw [if_neg (by decide), hcalls]
      exact h.trans (Nat.le_succ _)
  | true =>
      have hcalls : (counts.addAContention.addCallAndCycles 1 c.cycles).numOfCalls =
          counts.numOfCalls + 1 := wrap_of_lt hfits
      have hcontentions : (counts.addAContention.addCallAndCycles 1
          c.cycles).numOfCallsWithContentions = counts.numOfCallsWithContentions + 1 :=
        wrap_of_lt (by omega)
      refine ⟨hcalls, ?_⟩
      rw [if_pos rfl, hcalls, hcontentions]
      omega

/-! ## A table -/

/-- The calls of a class that an entry counts. -/
def callsOf (type : Nat) (e : Entry Nat DetailLockData) : Nat := (e.value.counts type).numOfCalls

structure LocksWithin (m : HashMap Nat DetailLockData) (n : Nat → Nat) : Prop where
  inside : m.Inside
  contended : m.Forall fun e => ∀ type, (e.value.counts type).Contended
  total : ∀ type, m.total (callsOf type) ≤ n type

namespace LocksWithin

variable {m : HashMap Nat DetailLockData} {n n' : Nat → Nat} {r : Ref} {c : LockCounts}
  {e : Entry Nat DetailLockData} {type : Nat}

theorem init : LocksWithin (HashMap.init hashAddr maxLockNum maxLockNum_pos) fun _ => 0 where
  inside := HashMap.init_inside hashAddr (by decide)
  contended := HashMap.init_forall hashAddr (by decide) _
  total _ := (HashMap.init_total hashAddr (by decide) _).le

theorem mono (h : LocksWithin m n) (hle : ∀ type, n type ≤ n' type) : LocksWithin m n' :=
  ⟨h.inside, h.contended, fun type => (h.total type).trans (hle type)⟩

/-- No entry counts more than all of them. -/
theorem calls_le (h : LocksWithin m n) {i : Nat} (he : e ∈ (m.buckets i).list) (type : Nat) :
    (e.value.counts type).numOfCalls ≤ n type :=
  (h.inside.le_total (callsOf type) he).trans (h.total type)

/-- A new entry counts what its value does. -/
theorem insert (h : LocksWithin m n) {d : DetailLockData} (hd : ∀ type, (d.counts type).Contended)
    (key : Nat) : LocksWithin (m.insert key d) fun type => n type + (d.counts type).numOfCalls where
  inside := h.inside.insert key d
  contended := h.contended.insert hd
  total type := by
    rw [HashMap.total_insert]
    exact Nat.add_le_add_right (h.total type) _

theorem useLock (h : LocksWithin m n) (call : LockCall) : LocksWithin (useLock m call) n := by
  rw [MemPerf.useLock]
  cases m.ref? call.lock with
  | some r => exact h
  | none =>
      exact h.insert (d := .newDetailLockData call.lockType) (fun type => Nat.le_refl 0) call.lock

/-- A write that adds to an entry what still fits. -/
theorem write (h : LocksWithin m n) {g : DetailLockData → DetailLockData} {k : Nat → Nat}
    (hg : ∀ d type, (d.counts type).Contended → (d.counts type).numOfCalls ≤ n type →
      ((g d).counts type).Contended ∧
        ((g d).counts type).numOfCalls ≤ (d.counts type).numOfCalls + k type) (r : Ref) :
    LocksWithin (m.write r g) fun type => n type + k type := by
  cases hr : m.deref r with
  | none =>
      rw [HashMap.write_of_deref_none hr]
      exact h.mono fun type => Nat.le_add_right _ _
  | some e =>
      have hmem : e ∈ (m.buckets r.1).list := List.mem_of_getElem? hr
      have hstep := fun type => hg e.value type (h.contended r.1 e hmem type) (h.calls_le hmem type)
      refine ⟨h.inside.write r g, ?_, fun type => ?_⟩
      · intro i e' he'
        obtain ⟨j, hj⟩ := List.mem_iff_getElem?.mp he'
        have hderef : (m.write r g).deref (i, j) = some e' := hj
        rw [HashMap.deref_write] at hderef
        split at hderef
        · next heq =>
            rw [heq, hr] at hderef
            obtain rfl := Option.some.inj hderef
            exact fun type => (hstep type).1
        · exact h.contended i e' (List.mem_of_getElem? hderef)
      · have htotal := HashMap.total_write h.inside (callsOf type) hr g
        have hbound := h.total type
        have hentry := (hstep type).2
        simp only [callsOf] at htotal hentry hbound ⊢
        omega

/-- The counts of a slot are added to its entry. -/
theorem writingIntoAddress (h : LocksWithin m n) {slot : DetailLockDataInAllocatingStatus}
    (hslot : slot.counts.Contended) (hfits : n type + slot.counts.numOfCalls < 2 ^ 32) :
    LocksWithin (slot.writingIntoAddress type m)
      (Function.update n type (n type + slot.counts.numOfCalls)) := by
  have hle : ∀ t, n t ≤ Function.update n type (n type + slot.counts.numOfCalls) t := by
    intro t
    by_cases ht : t = type
    · subst ht
      rw [Function.update_self]
      exact Nat.le_add_right _ _
    · rw [Function.update_of_ne ht]
  rw [DetailLockDataInAllocatingStatus.writingIntoAddress]
  cases slot.addressOfHashLockData with
  | none => exact h.mono hle
  | some r =>
      refine (h.write (k := Function.update (fun _ => 0) type slot.counts.numOfCalls) ?_ r).mono ?_
      · intro d t hd hcalls
        by_cases ht : t = type
        · subst ht
          simp only [Function.update_self]
          obtain ⟨hexact, hcontended⟩ := LockCounts.addUp_of_fits hd hslot (by omega)
          exact ⟨hcontended, hexact.le⟩
        · simp only [Function.update_of_ne ht]
          exact ⟨hd, Nat.le_refl _⟩
      · intro t
        by_cases ht : t = type
        · subst ht
          simp
        · simp [ht]

/-- What is merged fits beside what is there. -/
theorem upsert (h : LocksWithin m n) (he : ∀ type, (e.value.counts type).Contended)
    (hfits : ∀ type, n type + callsOf type e < 2 ^ 32) :
    LocksWithin (m.upsert DetailLockData.add e) fun type => n type + callsOf type e := by
  rw [HashMap.upsert]
  cases m.ref? e.key with
  | none => exact h.insert he e.key
  | some r =>
      refine h.write (fun d type hd hcalls => ?_) r
      rw [DetailLockData.add]
      simp only
      split
      · have hfit := hfits type
        simp only [callsOf] at hfit ⊢
        obtain ⟨hexact, hcontended⟩ := LockCounts.addUp_of_fits hd (he type) (by omega)
        exact ⟨hcontended, hexact.le⟩
      · exact ⟨hd, Nat.le_add_right _ _⟩

theorem foldl_upsert (h : LocksWithin m n) (es : List (Entry Nat DetailLockData))
    (hes : ∀ e ∈ es, ∀ type, (e.value.counts type).Contended)
    (hfits : ∀ type, n type + (es.map (callsOf type)).sum < 2 ^ 32) :
    LocksWithin (es.foldl (HashMap.upsert DetailLockData.add) m)
      fun type => n type + (es.map (callsOf type)).sum := by
  induction es generalizing m n with
  | nil => exact h
  | cons e es ih =>
      simp only [List.map_cons, List.sum_cons, ← Nat.add_assoc] at hfits ⊢
      refine ih (h.upsert (hes e (List.mem_cons_self ..)) fun type => ?_)
        (fun e' he' => hes e' (List.mem_cons_of_mem e he')) hfits
      have hfit := hfits type
      omega

end LocksWithin

/-- Another thread's table is merged. -/
theorem LocksWithin.globalize {g : GlobalStatus} {t : ThreadStatistics} {n k : Nat → Nat}
    (h : LocksWithin g.globalLockUsage n) (ht : LocksWithin t.lockUsage k)
    (hfits : ∀ type, n type + k type < 2 ^ 32) :
    LocksWithin (globalize g t).globalLockUsage fun type => n type + k type := by
  have hvisited : ∀ type, (t.lockUsage.iterate.map (callsOf type)).sum ≤ k type :=
    fun type => (t.lockUsage.sum_iterate_le _).trans (ht.total type)
  refine (h.foldl_upsert t.lockUsage.iterate ?_ fun type => ?_).mono fun type => ?_
  · intro e he
    obtain ⟨i, hi⟩ := HashMap.mem_of_mem_iterate he
    exact ht.contended i e hi
  · exact (Nat.add_le_add_left (hvisited type) _).trans_lt (hfits type)
  · exact Nat.add_le_add_left (hvisited type) _

/-! ## The queue -/

namespace QueueOfDetailLockData

variable {q : QueueOfDetailLockData} {n : Nat}

/-- The used slots count at most these calls. -/
structure Within (q : QueueOfDetailLockData) (n : Nat) : Prop where
  contended : ∀ i, (q.queue i).counts.Contended
  total : ∑ i ∈ Finset.range q.used, (q.queue i).counts.numOfCalls ≤ n

theorem within_empty : ({} : QueueOfDetailLockData).Within 0 where
  contended _ := Nat.le_refl 0
  total := Nat.le_refl 0

/-- A call is one more, in a new slot or in the last one. -/
theorem Within.record (h : q.Within n) (htidy : q.Tidy) (hfits : n + 1 < 2 ^ 32) (r : Ref)
    (c : LockCall) : (q.record r c).Within (n + 1) := by
  have hused := used_record htidy r c
  obtain ⟨hcontended, htotal⟩ := h
  by_cases hroom : q.used < lengthOfQueue
  · have hqueue := (record_of_room htidy hroom r c).2
    rw [if_pos hroom] at hused
    have hzero : LockCounts.Contended {} := Nat.le_refl 0
    obtain ⟨hcalls, hslot⟩ := c.addTo_of_fits hzero (by decide)
    refine ⟨fun i => ?_, ?_⟩
    · rw [hqueue]
      by_cases hi : i = q.used
      · subst hi
        rw [Function.update_self]
        exact hslot
      · rw [Function.update_of_ne hi]
        exact hcontended i
    · have hold : ∀ i ∈ Finset.range q.used, ((q.record r c).queue i).counts.numOfCalls =
          (q.queue i).counts.numOfCalls := by
        intro i hi
        rw [hqueue, Function.update_of_ne (Finset.mem_range.mp hi).ne]
      rw [hused, Finset.sum_range_succ, Finset.sum_congr rfl hold, hqueue, Function.update_self,
        hcalls]
      exact Nat.add_le_add_right htotal 1
  · have hqueue := (record_of_full hroom r c).2
    rw [if_neg hroom] at hused
    obtain ⟨k, hk⟩ : ∃ k, q.used = k + 1 :=
      ⟨q.used - 1, by simp only [lengthOfQueue] at hroom; omega⟩
    rw [hk, Nat.add_sub_cancel] at hqueue
    rw [hk, Finset.sum_range_succ] at htotal
    obtain ⟨hcalls, hslot⟩ := c.addTo_of_fits (hcontended k) (by omega)
    refine ⟨fun i => ?_, ?_⟩
    · rw [hqueue]
      by_cases hi : i = k
      · subst hi
        rw [Function.update_self]
        exact hslot
      · rw [Function.update_of_ne hi]
        exact hcontended i
    · have hold : ∀ i ∈ Finset.range k, ((q.record r c).queue i).counts.numOfCalls =
          (q.queue i).counts.numOfCalls := by
        intro i hi
        rw [hqueue, Function.update_of_ne (Finset.mem_range.mp hi).ne]
      rw [hused, hk, Finset.sum_range_succ, Finset.sum_congr rfl hold, hqueue, Function.update_self,
        hcalls]
      omega

/-- The queue is written out slot by slot. -/
theorem Within.writingIntoHashTable (h : q.Within n) {m : HashMap Nat DetailLockData}
    {k : Nat → Nat} {type : Nat} (hm : LocksWithin m k) (hfits : k type + n < 2 ^ 32) :
    LocksWithin (q.writingIntoHashTable type m) (Function.update k type (k type + n)) := by
  have hslots : ∀ j ≤ q.used, LocksWithin
      ((List.range j).foldl (fun m index => (q.queue index).writingIntoAddress type m) m)
      (Function.update k type (k type + ∑ i ∈ Finset.range j, (q.queue i).counts.numOfCalls)) := by
    intro j
    induction j with
    | zero =>
        intro _
        simpa using hm
    | succ j ih =>
        intro hj
        have hsum : ∑ i ∈ Finset.range (j + 1), (q.queue i).counts.numOfCalls ≤ n :=
          (Finset.sum_le_sum_of_subset (Finset.range_subset_range.mpr hj)).trans h.total
        rw [Finset.sum_range_succ] at hsum
        have hroom : Function.update k type
            (k type + ∑ i ∈ Finset.range j, (q.queue i).counts.numOfCalls) type
              + (q.queue j).counts.numOfCalls < 2 ^ 32 := by
          rw [Function.update_self]
          omega
        have hstep := (ih (by omega)).writingIntoAddress (h.contended j) hroom
        rw [List.range_succ, List.foldl_append, List.foldl_cons, List.foldl_nil,
          Finset.sum_range_succ, ← Nat.add_assoc]
        simpa using hstep
  refine (hslots q.used (Nat.le_refl _)).mono fun t => ?_
  by_cases ht : t = type
  · subst ht
    rw [Function.update_self, Function.update_self]
    exact Nat.add_le_add_left h.total _
  · rw [Function.update_of_ne ht, Function.update_of_ne ht]

end QueueOfDetailLockData

end MemPerf
