import Mathlib.Algebra.Order.BigOperators.Group.Finset
import MemPerf.Lib.HashMap

/-!
# References into a chained hash map

Code that keeps the pointer a search or an insertion returned writes to
the entry later, without another search. A reference is the bucket and
the place in its list; entries never move, so it stays good. While no
bucket holds `2 ^ 16` entries, the reference of a key is where a search
arrives (`Counted`); an entry put behind as many is never found again
(`Hidden`).
-/

namespace Chained

open Word

/-- A bucket and a place in it. -/
abbrev Ref := Nat × Nat

variable {κ ν : Type*}

namespace HashMap

def deref (m : HashMap κ ν) (r : Ref) : Option (Entry κ ν) := (m.buckets r.1).list[r.2]?

/-- Rewrite the value behind a reference. -/
def write (m : HashMap κ ν) (r : Ref) (g : ν → ν) : HashMap κ ν :=
  m.setBucket r.1
    { m.buckets r.1 with
      list := (m.buckets r.1).list.modify r.2 fun e => { e with value := g e.value } }

/-- Where an insertion puts the key's entry. -/
def nextRef (m : HashMap κ ν) (key : κ) : Ref := (m.hashIndex key, (m.home key).list.length)

/-- Every bucket counts its entries, and there is room in the count. -/
def Counted (m : HashMap κ ν) : Prop :=
  ∀ i, (m.buckets i).count = (m.buckets i).list.length ∧ (m.buckets i).list.length < 2 ^ 16

theorem init_counted (hashfunc : κ → Nat) {size : Nat} (h : 0 < size) :
    (init hashfunc size h : HashMap κ ν).Counted := by
  intro i
  exact ⟨rfl, Nat.two_pow_pos 16⟩

/-! ## Writes -/

variable {m : HashMap κ ν} {r r' : Ref} {g : ν → ν} {key key' : κ} {value : ν}

@[simp] theorem write_hashIndex : (m.write r g).hashIndex key = m.hashIndex key := rfl

theorem write_buckets (m : HashMap κ ν) (r : Ref) (g : ν → ν) (i : Nat) :
    ((m.write r g).buckets i).list.map Entry.key = (m.buckets i).list.map Entry.key ∧
      ((m.write r g).buckets i).count = (m.buckets i).count := by
  by_cases hi : i = r.1
  · subst hi
    rw [write, setBucket_self]
    refine ⟨List.ext_getElem? fun j => ?_, rfl⟩
    rw [List.getElem?_map, List.getElem?_modify, List.getElem?_map]
    cases (m.buckets r.1).list[j]? with
    | none => rfl
    | some e => by_cases hj : r.2 = j <;> simp [hj]
  · rw [write, setBucket_of_ne _ hi]
    exact ⟨rfl, rfl⟩

theorem write_length (m : HashMap κ ν) (r : Ref) (g : ν → ν) (i : Nat) :
    ((m.write r g).buckets i).list.length = (m.buckets i).list.length := by
  have hlen := congrArg List.length (m.write_buckets r g i).1
  simpa using hlen

theorem Counted.write (h : m.Counted) (r : Ref) (g : ν → ν) : (m.write r g).Counted := by
  intro i
  rw [(m.write_buckets r g i).2, write_length]
  exact h i

theorem deref_write (m : HashMap κ ν) (r : Ref) (g : ν → ν) (r' : Ref) :
    (m.write r g).deref r' =
      if r' = r then (m.deref r').map fun e => { e with value := g e.value } else m.deref r' := by
  obtain ⟨i, j⟩ := r
  obtain ⟨i', j'⟩ := r'
  by_cases hi : i' = i
  · subst hi
    simp only [deref, write, setBucket_self, List.getElem?_modify, Prod.mk.injEq, true_and]
    by_cases hj : j = j'
    · simp [hj]
    · simp [hj, Ne.symm hj]
  · simp only [deref, write, setBucket_of_ne _ hi, Prod.mk.injEq, hi, false_and, if_false]

theorem Forall.write {P : Entry κ ν → Prop} (h : m.Forall P)
    (hg : ∀ e, P e → P { e with value := g e.value }) (r : Ref) : (m.write r g).Forall P := by
  intro i e he
  by_cases hi : i = r.1
  · subst hi
    rw [HashMap.write, setBucket_self] at he
    obtain ⟨j, hj⟩ := List.mem_iff_getElem?.mp he
    rw [List.getElem?_modify] at hj
    obtain ⟨e', he', rfl⟩ := Option.map_eq_some_iff.mp hj
    have hold := h r.1 e' (List.mem_of_getElem? he')
    split
    · exact hg e' hold
    · exact hold
  · rw [HashMap.write, setBucket_of_ne _ hi] at he
    exact h i e he

/-! ## Totals -/

/-- All entries are in the buckets of the table. -/
def Inside (m : HashMap κ ν) : Prop := ∀ i, m.bucketsTotal ≤ i → (m.buckets i).list = []

theorem init_inside (hashfunc : κ → Nat) {size : Nat} (h : 0 < size) :
    (init hashfunc size h : HashMap κ ν).Inside :=
  fun _ _ => rfl

theorem Inside.insert (h : m.Inside) (key : κ) (value : ν) : (m.insert key value).Inside := by
  intro i hi
  have hne : i ≠ m.hashIndex key := (lt_of_lt_of_le (m.hashIndex_lt key) hi).ne'
  rw [HashMap.insert, setBucket_of_ne _ hne]
  exact h i hi

theorem Inside.write (h : m.Inside) (r : Ref) (g : ν → ν) : (m.write r g).Inside := by
  intro i hi
  have hlen := m.write_length r g i
  rw [h i hi] at hlen
  exact List.length_eq_zero_iff.mp hlen

theorem Inside.lt_of_mem (h : m.Inside) {i : Nat} {e : Entry κ ν} (he : e ∈ (m.buckets i).list) :
    i < m.bucketsTotal := by
  by_contra hi
  rw [h i (not_lt.mp hi)] at he
  cases he

/-- A write behind a reference that refers to nothing does nothing. -/
theorem write_of_deref_none (h : m.deref r = none) (g : ν → ν) : m.write r g = m := by
  have hlen : (m.buckets r.1).list.length ≤ r.2 := List.getElem?_eq_none_iff.mp h
  rw [HashMap.write, List.modify_eq_self hlen, setBucket, Function.update_eq_self]

/-- A write exchanges the share of its entry. -/
theorem total_write [AddCancelCommMonoid M] (hm : m.Inside) (f : Entry κ ν → M) {e : Entry κ ν}
    (h : m.deref r = some e) (g : ν → ν) :
    (m.write r g).total f + f e = m.total f + f { e with value := g e.value } := by
  have hup := m.total_update f (hm.lt_of_mem (List.mem_of_getElem? h))
    { m.buckets r.1 with
      list := (m.buckets r.1).list.modify r.2 fun e => { e with value := g e.value } }
  have hlist := sum_map_modify f (fun e => { e with value := g e.value }) h
  refine add_right_cancel (b := ((m.buckets r.1).list.map f).sum) ?_
  calc (m.write r g).total f + f e + ((m.buckets r.1).list.map f).sum
      = ((m.write r g).total f + ((m.buckets r.1).list.map f).sum) + f e := by abel
    _ = m.total f + ((((m.buckets r.1).list.modify r.2 fun e => { e with value := g e.value }).map
          f).sum + f e) := by rw [← add_assoc]; exact congrArg (· + f e) hup
    _ = m.total f + f { e with value := g e.value } + ((m.buckets r.1).list.map f).sum := by
        rw [hlist]
        abel

theorem Inside.le_total (h : m.Inside) (f : Entry κ ν → Nat) {i : Nat} {e : Entry κ ν}
    (he : e ∈ (m.buckets i).list) : f e ≤ m.total f := by
  have hi : i ∈ Finset.range m.bucketsTotal := Finset.mem_range.mpr (h.lt_of_mem he)
  calc f e ≤ ((m.buckets i).list.map f).sum :=
        List.single_le_sum (fun _ _ => Nat.zero_le _) _ (List.mem_map_of_mem he)
    _ ≤ m.total f := Finset.single_le_sum (f := fun i => ((m.buckets i).list.map f).sum)
        (fun _ _ => Nat.zero_le _) hi

/-- An iteration may skip a bucket, but visits no entry twice. -/
theorem sum_iterate_le (m : HashMap κ ν) (f : Entry κ ν → Nat) :
    (m.iterate.map f).sum ≤ m.total f := by
  rw [iterate, sum_flatMap_range]
  refine Finset.sum_le_sum fun i _ => ?_
  split
  · exact Nat.zero_le _
  · exact le_refl _

theorem mem_of_mem_iterate {e : Entry κ ν} (he : e ∈ m.iterate) : ∃ i, e ∈ (m.buckets i).list := by
  obtain ⟨i, -, hi⟩ := List.mem_flatMap.mp he
  split at hi
  · cases hi
  · exact ⟨i, hi⟩

/-! ## Insertions -/

theorem deref_insert_of_some {e : Entry κ ν} (h : m.deref r = some e) :
    (m.insert key value).deref r = some e := by
  obtain ⟨hlen, -⟩ := List.getElem?_eq_some_iff.mp h
  by_cases hi : r.1 = m.hashIndex key
  · rw [deref, insert, hi, setBucket_self,
      List.getElem?_append_left (by rw [home, ← hi]; exact hlen), home, ← hi]
    exact h
  · rw [deref, insert, setBucket_of_ne _ hi]
    exact h

theorem deref_nextRef (m : HashMap κ ν) (key : κ) (value : ν) :
    (m.insert key value).deref (m.nextRef key) = some ⟨key, value⟩ := by
  rw [deref, insert, nextRef, setBucket_self]
  simp

theorem Counted.insert (h : m.Counted) (hroom : (m.home key).list.length + 1 < 2 ^ 16) :
    (m.insert key value).Counted := by
  intro i
  by_cases hi : i = m.hashIndex key
  · subst hi
    have hcount : (m.home key).count = (m.home key).list.length := (h _).1
    rw [HashMap.insert, setBucket_self]
    simp only [hcount, List.length_append, List.length_singleton]
    exact ⟨wrap_of_lt hroom, hroom⟩
  · rw [HashMap.insert, setBucket_of_ne _ hi]
    exact h i

section Ref

variable [DecidableEq κ]

/-- The pointer a search returns. -/
def ref? (m : HashMap κ ν) (key : κ) : Option Ref :=
  (m.getEntry key).map fun i => (m.hashIndex key, i)

theorem find_eq_deref (m : HashMap κ ν) (key : κ) :
    m.find key = (m.ref? key).bind fun r => (m.deref r).map Entry.value := by
  rw [find, ref?]
  cases m.getEntry key <;> rfl

/-- A search arrives at an entry with the key. -/
theorem deref_ref (h : m.ref? key = some r) : ∃ value, m.deref r = some ⟨key, value⟩ := by
  obtain ⟨i, hi, rfl⟩ := Option.map_eq_some_iff.mp h
  obtain ⟨value, hfind⟩ := getEntry_isSome hi
  obtain ⟨j, hj, hget⟩ := find_spec hfind
  obtain rfl : i = j := Option.some.inj (hi.symm.trans hj)
  exact ⟨value, hget⟩

/-- Different keys have different references. -/
theorem ref_inj (h : m.ref? key = some r) (h' : m.ref? key' = some r) : key = key' := by
  obtain ⟨value, hv⟩ := deref_ref h
  obtain ⟨value', hv'⟩ := deref_ref h'
  exact congrArg Entry.key (Option.some.inj (hv.symm.trans hv'))

theorem ref_eq_none_iff : m.ref? key = none ↔ m.find key = none := by
  rw [find_eq_deref]
  cases hr : m.ref? key with
  | none => simp
  | some r =>
      obtain ⟨value, hv⟩ := deref_ref hr
      simp [hv]

theorem findIdx_keys (l : List (Entry κ ν)) (key : κ) :
    l.findIdx? (fun e => decide (e.key = key)) =
      (l.map Entry.key).findIdx? fun k => decide (k = key) := by
  rw [List.findIdx?_map]
  rfl

theorem ref_write (m : HashMap κ ν) (r : Ref) (g : ν → ν) (key : κ) :
    (m.write r g).ref? key = m.ref? key := by
  have hbucket := m.write_buckets r g (m.hashIndex key)
  rw [ref?, ref?, write_hashIndex, getEntry, getEntry, home, home, write_hashIndex, findIdx_keys,
    findIdx_keys, List.map_take, List.map_take, hbucket.1, hbucket.2]

/-- A counted bucket is searched to its end. -/
theorem Counted.getEntry_eq (h : m.Counted) (key : κ) :
    m.getEntry key = (m.home key).list.findIdx? fun e => decide (e.key = key) := by
  rw [getEntry, home, (h _).1, List.take_length]

/-- With room in the count, a new key is found where it was put, and the
other keys where they were. -/
theorem Counted.ref_insert (h : m.Counted) (hroom : (m.home key).list.length + 1 < 2 ^ 16)
    (hnew : m.ref? key = none) (key' : κ) :
    (m.insert key value).ref? key' = if key' = key then some (m.nextRef key) else m.ref? key' := by
  have hc : (m.insert key value).Counted := h.insert hroom
  rw [ref?, hc.getEntry_eq, insert_hashIndex, home, insert_hashIndex, ref?, h.getEntry_eq, home]
  by_cases hi : m.hashIndex key' = m.hashIndex key
  · have hnone : (m.home key).list.findIdx? (fun e => decide (e.key = key)) = none := by
      rw [← h.getEntry_eq]
      simpa [ref?] using hnew
    rw [hi, HashMap.insert, setBucket_self, List.findIdx?_append]
    by_cases hk : key' = key
    · subst hk
      rw [hnone, if_pos rfl]
      simp [nextRef, List.findIdx?_cons]
    · rw [if_neg hk, home]
      simp [List.findIdx?_cons, Ne.symm hk]
  · have hk : key' ≠ key := fun heq => hi (by rw [heq])
    rw [if_neg hk, HashMap.insert, setBucket_of_ne _ hi]

/-- What a search finds after an insertion. -/
theorem Counted.find_insert (h : m.Counted) (hroom : (m.home key).list.length + 1 < 2 ^ 16)
    (hnew : m.find key = none) (key' : κ) :
    (m.insert key value).find key' = if key' = key then some value else m.find key' := by
  rw [find_eq_deref, h.ref_insert hroom (ref_eq_none_iff.mpr hnew)]
  by_cases hk : key' = key
  · rw [if_pos hk, if_pos hk, Option.bind_some, deref_nextRef]
    rfl
  · rw [if_neg hk, if_neg hk, find_eq_deref]
    cases hr : m.ref? key' with
    | none => rfl
    | some r =>
        obtain ⟨value', hr'⟩ := deref_ref hr
        rw [Option.bind_some, Option.bind_some, hr', deref_insert_of_some hr']

theorem Counted.modify (h : m.Counted) (key : κ) (g : ν → ν) : (m.modify key g).Counted := by
  intro i
  rw [(m.modify_buckets key g i).2, modify_length]
  exact h i

/-! ## Hidden entries -/

/-- The key is not among the entries a search can reach, and its bucket is
too long for another one to be reached. -/
structure Hidden (m : HashMap κ ν) (key : κ) : Prop where
  count_lt : (m.home key).count < 2 ^ 16
  long : 2 ^ 16 - 1 ≤ (m.home key).list.length
  absent : ∀ i < 2 ^ 16 - 1, ((m.home key).list.map Entry.key)[i]? ≠ some key

theorem Hidden.ref_none (h : m.Hidden key) : m.ref? key = none := by
  have hnone : m.getEntry key = none := by
    rw [getEntry, List.findIdx?_eq_none_iff]
    intro e he
    obtain ⟨i, hi, hget⟩ := List.mem_take_iff_getElem.mp he
    have hlen : i < (m.home key).count := by omega
    have hlt := h.count_lt
    have habsent := h.absent i (by omega)
    rw [List.getElem?_map, List.getElem?_eq_getElem (by omega), hget] at habsent
    simpa using habsent
  rw [ref?, hnone]
  rfl

omit [DecidableEq κ] in
theorem Hidden.insert (h : m.Hidden key) (key' : κ) (value : ν) :
    (m.insert key' value).Hidden key := by
  obtain ⟨hlt, hlong, habsent⟩ := h
  by_cases hi : m.hashIndex key = m.hashIndex key'
  · have hhome : m.home key = m.home key' := by rw [home, hi, home]
    rw [hhome] at hlt hlong habsent
    refine ⟨?_, ?_, ?_⟩
    all_goals rw [home, insert_hashIndex, hi, HashMap.insert, setBucket_self]
    · exact wrap_lt 16 _
    · simp only [List.length_append]
      omega
    · intro i hi'
      rw [List.map_append, List.getElem?_append_left (by simp; omega)]
      exact habsent i hi'
  · refine ⟨?_, ?_, ?_⟩
    all_goals rw [home, insert_hashIndex, HashMap.insert, setBucket_of_ne _ hi]
    · exact hlt
    · exact hlong
    · exact habsent

/-- A key inserted without room in the count is hidden from then on. -/
theorem Counted.hidden (h : m.Counted) (hnew : m.ref? key = none)
    (hfull : ¬ (m.home key).list.length + 1 < 2 ^ 16) : (m.insert key value).Hidden key := by
  have hnone : (m.home key).list.findIdx? (fun e => decide (e.key = key)) = none := by
    rw [← h.getEntry_eq]
    simpa [ref?] using hnew
  have hlen : (m.home key).list.length < 2 ^ 16 := (h _).2
  refine ⟨?_, ?_, ?_⟩
  all_goals rw [home, insert_hashIndex, HashMap.insert, setBucket_self]
  · exact wrap_lt 16 _
  · simp only [List.length_append, List.length_singleton]
    omega
  · intro i hi
    rw [List.map_append, List.getElem?_append_left (by simp; omega), List.getElem?_map]
    intro hkey
    obtain ⟨e, he, hekey⟩ := Option.map_eq_some_iff.mp hkey
    have hno := List.findIdx?_eq_none_iff.mp hnone e (List.mem_of_getElem? he)
    simp [hekey] at hno

end Ref

end HashMap

end Chained
