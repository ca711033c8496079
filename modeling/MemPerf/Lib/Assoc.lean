import Mathlib.Algebra.BigOperators.Group.Finset.Piecewise
import Mathlib.Algebra.Order.BigOperators.Group.Finset
import MemPerf.Lib.HashRefs

/-!
# The finite map a chained hash map holds

A finite map in order of insertion is a list of entries, no key twice.
`Holds m a` says that `m` holds `a`: every bucket counts its entries, and
its list is the part of `a` that hashes there. Then a search is a
`lookup`, an insertion with room in the count appends, a write assigns,
and an iteration visits the buckets' parts of `a` in turn.
-/

namespace Chained

variable {κ ν : Type*} [DecidableEq κ]

/-- The value of a key. -/
def lookup (key : κ) (a : List (Entry κ ν)) : Option ν :=
  (a.find? fun e => decide (e.key = key)).map Entry.value

/-- Rewrite the value of a key, if it has one. -/
def assign (key : κ) (g : ν → ν) (a : List (Entry κ ν)) : List (Entry κ ν) :=
  a.map fun e => if e.key = key then { e with value := g e.value } else e

variable {a : List (Entry κ ν)} {key key' : κ} {value : ν} {g : ν → ν}

@[simp] theorem lookup_nil : lookup key ([] : List (Entry κ ν)) = none := rfl

theorem lookup_eq_none_iff : lookup key a = none ↔ ∀ e ∈ a, e.key ≠ key := by
  simp [lookup, List.find?_eq_none]

theorem lookup_append_singleton (hnew : lookup key a = none) :
    lookup key' (a ++ [⟨key, value⟩]) = if key' = key then some value else lookup key' a := by
  rw [lookup, List.find?_append]
  by_cases hk : key' = key
  · subst hk
    rw [lookup, Option.map_eq_none_iff] at hnew
    simp [hnew]
  · rw [if_neg hk]
    simp [lookup, Ne.symm hk]

@[simp] theorem assign_keys : (assign key g a).map Entry.key = a.map Entry.key := by
  rw [assign, List.map_map]
  refine List.map_congr_left fun e _ => ?_
  simp only [Function.comp_apply]
  split <;> rfl

@[simp] theorem assign_length : (assign key g a).length = a.length := by simp [assign]

theorem lookup_assign :
    lookup key' (assign key g a) = if key' = key then (lookup key' a).map g else lookup key' a := by
  have hkey : ((fun e => decide (e.key = key')) ∘ fun e : Entry κ ν =>
      if e.key = key then { e with value := g e.value } else e)
      = fun e => decide (e.key = key') := by
    funext e
    simp only [Function.comp_apply]
    split <;> rfl
  rw [lookup, assign, List.find?_map, hkey, lookup]
  cases hfind : a.find? fun e => decide (e.key = key') with
  | none => simp
  | some e =>
      have he : e.key = key' := by simpa using List.find?_some hfind
      subst he
      by_cases hk : e.key = key <;> simp [hk]

/-- Among distinct keys the value is assigned at one place. -/
theorem assign_eq_modify {l : List (Entry κ ν)} (hl : (l.map Entry.key).Nodup) {j : Nat}
    {e : Entry κ ν} (he : l[j]? = some e) :
    l.modify j (fun e => { e with value := g e.value }) = assign e.key g l := by
  obtain ⟨hj, hget⟩ := List.getElem?_eq_some_iff.mp he
  refine List.ext_getElem? fun k => ?_
  rw [List.getElem?_modify, assign, List.getElem?_map]
  cases hk : l[k]? with
  | none => rfl
  | some e' =>
      obtain ⟨hk', hget'⟩ := List.getElem?_eq_some_iff.mp hk
      by_cases hjk : j = k
      · subst hjk
        obtain rfl : e = e' := Option.some.inj (he.symm.trans hk)
        simp
      · have hne : e'.key ≠ e.key := by
          intro hkey
          refine hjk ((List.getElem?_inj (by simpa using hj) hl).mp ?_)
          rw [List.getElem?_map, List.getElem?_map, he, hk, Option.map_some, Option.map_some, hkey]
        simp [hjk, hne]

namespace HashMap

/-- The part of `a` in bucket `i`. -/
def part (m : HashMap κ ν) (i : Nat) (a : List (Entry κ ν)) : List (Entry κ ν) :=
  a.filter fun e => decide (m.hashIndex e.key = i)

structure Holds (m : HashMap κ ν) (a : List (Entry κ ν)) : Prop where
  counted : m.Counted
  list : ∀ i, (m.buckets i).list = m.part i a
  nodup : (a.map Entry.key).Nodup

namespace Holds

variable {m : HashMap κ ν}

omit [DecidableEq κ] in
theorem init (hashfunc : κ → Nat) {size : Nat} (h : 0 < size) :
    (HashMap.init hashfunc size h : HashMap κ ν).Holds [] :=
  ⟨init_counted hashfunc h, fun _ => rfl, List.nodup_nil⟩

theorem find (h : m.Holds a) (key : κ) : m.find key = lookup key a := by
  have hidx := h.counted.getEntry_eq key
  rw [HashMap.find, hidx, lookup]
  have hfind : a.find? (fun e => decide (e.key = key))
      = ((m.home key).list.findIdx? fun e => decide (e.key = key)).bind
        fun i => (m.home key).list[i]? := by
    rw [← List.find?_eq_bind_findIdx?_getElem?, home, h.list, part, List.find?_filter]
    congr 1
    funext e
    by_cases hk : e.key = key
    · simp [hk]
    · simp [hk]
  rw [hfind]
  cases (m.home key).list.findIdx? fun e => decide (e.key = key) <;> rfl

/-- Room for one more entry in the bucket of `key`. -/
def Room (m : HashMap κ ν) (key : κ) (a : List (Entry κ ν)) : Prop :=
  (m.part (m.hashIndex key) a).length + 1 < 2 ^ 16

theorem insert (h : m.Holds a) (hnew : lookup key a = none) (hroom : Room m key a) :
    (m.insert key value).Holds (a ++ [⟨key, value⟩]) := by
  have hlist : (m.home key).list = m.part (m.hashIndex key) a := h.list _
  refine ⟨h.counted.insert (by rw [hlist]; exact hroom), fun i => ?_, ?_⟩
  · have hpart : (m.insert key value).part i (a ++ [⟨key, value⟩])
        = m.part i a ++ if m.hashIndex key = i then [⟨key, value⟩] else [] := by
      simp only [part, List.filter_append, insert_hashIndex]
      congr 1
      by_cases hi : m.hashIndex key = i <;> simp [hi]
    rw [hpart]
    by_cases hi : i = m.hashIndex key
    · subst hi
      rw [if_pos rfl, HashMap.insert, setBucket_self, hlist]
    · rw [if_neg (Ne.symm hi), List.append_nil, HashMap.insert, setBucket_of_ne _ hi]
      exact h.list i
  · rw [List.map_append, List.nodup_append]
    refine ⟨h.nodup, by simp, ?_⟩
    intro k hk k' hk' heq
    obtain ⟨e, he, rfl⟩ := List.mem_map.mp hk
    rw [List.map_singleton, List.mem_singleton] at hk'
    exact lookup_eq_none_iff.mp hnew e he (heq.trans hk')

theorem part_assign (i : Nat) : m.part i (assign key g a)
    = if i = m.hashIndex key then assign key g (m.part i a) else m.part i a := by
  induction a with
  | nil => simp [part, assign]
  | cons e a ih =>
      simp only [part, assign, List.map_cons, List.filter_cons] at ih ⊢
      by_cases he : e.key = key
      · subst he
        by_cases hi : m.hashIndex e.key = i
        · subst hi
          simp only [if_true, decide_true] at ih ⊢
          simp [ih]
        · simp only [if_true, hi, decide_false, Bool.false_eq_true, if_false, Ne.symm hi] at ih ⊢
          exact ih
      · by_cases hi : m.hashIndex e.key = i
        · simp only [he, if_false, hi, decide_true, if_true, ih, List.map_cons]
          split <;> rfl
        · simp only [he, if_false, hi, decide_false, Bool.false_eq_true]
          exact ih

/-- A write through a reference to the key's entry. -/
theorem write (h : m.Holds a) {r : Ref} (hr : r.1 = m.hashIndex key)
    (hkey : ∃ value, m.deref r = some ⟨key, value⟩) (g : ν → ν) :
    (m.write r g).Holds (assign key g a) := by
  obtain ⟨value, hvalue⟩ := hkey
  obtain ⟨i, j⟩ := r
  simp only at hr
  subst hr
  refine ⟨h.counted.write _ g, fun i => ?_, by rw [assign_keys]; exact h.nodup⟩
  show _ = m.part i (assign key g a)
  rw [part_assign]
  by_cases hi : i = m.hashIndex key
  · subst hi
    have hnodup : ((m.buckets (m.hashIndex key)).list.map Entry.key).Nodup := by
      rw [h.list]
      exact h.nodup.sublist (List.filter_sublist.map _)
    rw [if_pos rfl, HashMap.write, setBucket_self, ← h.list]
    exact assign_eq_modify hnodup hvalue
  · rw [if_neg hi, HashMap.write, setBucket_of_ne _ hi]
    exact h.list i

omit [DecidableEq κ] in
/-- An iteration visits the parts of the buckets in turn. -/
theorem iterate (h : m.Holds a) :
    m.iterate = (List.range m.bucketsTotal).flatMap fun i => m.part i a := by
  rw [HashMap.iterate]
  congr 1
  funext i
  rw [← h.list i]
  split
  · next hzero =>
      rw [(h.counted i).1] at hzero
      exact (List.length_eq_zero_iff.mp hzero).symm
  · rfl

omit [DecidableEq κ] in
theorem parts_perm (m : HashMap κ ν) (a : List (Entry κ ν)) : ∀ n : Nat,
    ((List.range n).flatMap fun i => m.part i a).Perm
      (a.filter fun e => decide (m.hashIndex e.key < n))
  | 0 => by simp
  | n + 1 => by
      have hlow : (a.filter fun e => decide (m.hashIndex e.key < n + 1)).filter
          (fun e => decide (m.hashIndex e.key < n))
          = a.filter fun e => decide (m.hashIndex e.key < n) := by
        rw [List.filter_filter]
        refine List.filter_congr fun e _ => ?_
        rw [← Bool.decide_and, decide_eq_decide]
        omega
      have hlast : (a.filter fun e => decide (m.hashIndex e.key < n + 1)).filter
          (fun e => !decide (m.hashIndex e.key < n)) = m.part n a := by
        rw [List.filter_filter, part]
        refine List.filter_congr fun e _ => ?_
        rw [← decide_not, ← Bool.decide_and, decide_eq_decide]
        omega
      have hsplit := List.filter_append_perm (fun e => decide (m.hashIndex e.key < n))
        (a.filter fun e => decide (m.hashIndex e.key < n + 1))
      rw [hlow, hlast] at hsplit
      rw [List.range_succ, List.flatMap_append, List.flatMap_singleton]
      exact ((parts_perm m a n).append_right _).trans hsplit

omit [DecidableEq κ] in
/-- Every entry is in one part. -/
theorem parts_perm_self (m : HashMap κ ν) (a : List (Entry κ ν)) :
    ((List.range m.bucketsTotal).flatMap fun i => m.part i a).Perm a := by
  have hall : (a.filter fun e => decide (m.hashIndex e.key < m.bucketsTotal)) = a :=
    List.filter_eq_self.mpr fun e _ => decide_eq_true (m.hashIndex_lt e.key)
  have hperm := parts_perm m a m.bucketsTotal
  rwa [hall] at hperm

omit [DecidableEq κ] in
theorem sum_part (m : HashMap κ ν) (a : List (Entry κ ν)) :
    ∑ i ∈ Finset.range m.bucketsTotal, (m.part i a).length = a.length := by
  induction a with
  | nil => simp [part]
  | cons e a ih =>
      have hcons : ∀ i, (m.part i (e :: a)).length
          = (m.part i a).length + if m.hashIndex e.key = i then 1 else 0 := by
        intro i
        by_cases hi : m.hashIndex e.key = i <;> simp [part, hi]
      simp only [hcons, Finset.sum_add_distrib, ih, Finset.sum_ite_eq, List.length_cons,
        Finset.mem_range, m.hashIndex_lt e.key, if_true]

omit [DecidableEq κ] in
/-- A map whose counts are right holds at most 65535 entries a bucket. -/
theorem length_le (h : m.Holds a) : a.length ≤ m.bucketsTotal * (2 ^ 16 - 1) := by
  rw [← sum_part m a]
  calc ∑ i ∈ Finset.range m.bucketsTotal, (m.part i a).length
      ≤ ∑ _i ∈ Finset.range m.bucketsTotal, (2 ^ 16 - 1) := by
        refine Finset.sum_le_sum fun i _ => ?_
        rw [← h.list i]
        exact Nat.le_sub_one_of_lt (h.counted i).2
    _ = m.bucketsTotal * (2 ^ 16 - 1) := by simp

end Holds

end HashMap

end Chained
