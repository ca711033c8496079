import Mathlib.Algebra.BigOperators.Group.Finset.Basic
import Mathlib.Algebra.BigOperators.Group.List.Basic
import Mathlib.Tactic.Abel
import MemPerf.Lib.Word

/-!
# Chained hash maps with a counted bucket

A map is an array of buckets; a bucket is a linked list, to which entries
are only ever appended, and a 16-bit count of its entries. A search walks
as many entries as the count says, so a bucket whose count has wrapped
hides entries from it, although they stay in the list.

`total` sums a quantity over every entry of every list. It is what a
ledger kept beside the map has to agree with: an insertion adds the new
entry's share, a write through a found entry exchanges one share, and
neither depends on what the counts hide.
-/

namespace Chained

open Word

structure Entry (κ ν : Type*) where
  key : κ
  value : ν
deriving DecidableEq, Repr

structure Bucket (κ ν : Type*) where
  list : List (Entry κ ν) := []
  count : Nat := 0
deriving DecidableEq, Repr

structure HashMap (κ ν : Type*) where
  hashfunc : κ → Nat
  bucketsTotal : Nat
  bucketsTotal_pos : 0 < bucketsTotal
  buckets : Nat → Bucket κ ν

variable {κ ν M : Type*}

/-- Rewriting one member exchanges its term of a sum. -/
theorem sum_map_modify {α : Type*} [AddCommMonoid M] (f : α → M) (g : α → α) :
    ∀ {l : List α} {n : Nat} {a : α}, l[n]? = some a →
      ((l.modify n g).map f).sum + f a = (l.map f).sum + f (g a)
  | b :: l, 0, a, h => by
      obtain rfl : b = a := by simpa using h
      simp only [List.modify_zero_cons, List.map_cons, List.sum_cons]
      abel
  | b :: l, n + 1, a, h => by
      have ih := sum_map_modify f g (l := l) (n := n) (by simpa using h)
      simp only [List.modify_succ_cons, List.map_cons, List.sum_cons]
      rw [add_assoc, ih, ← add_assoc]

namespace HashMap

/-- `HashMap::initialize`: every bucket empty. -/
def init (hashfunc : κ → Nat) (size : Nat) (h : 0 < size) : HashMap κ ν :=
  { hashfunc, bucketsTotal := size, bucketsTotal_pos := h, buckets := fun _ => {} }

/-- The low bits of the hash. -/
def hashIndex (m : HashMap κ ν) (key : κ) : Nat := m.hashfunc key &&& (m.bucketsTotal - 1)

/-- The bucket a key belongs in. -/
def home (m : HashMap κ ν) (key : κ) : Bucket κ ν := m.buckets (m.hashIndex key)

def setBucket (m : HashMap κ ν) (i : Nat) (b : Bucket κ ν) : HashMap κ ν :=
  { m with buckets := Function.update m.buckets i b }

@[simp] theorem setBucket_self (m : HashMap κ ν) (i : Nat) (b : Bucket κ ν) :
    (m.setBucket i b).buckets i = b :=
  Function.update_self ..

theorem setBucket_of_ne (m : HashMap κ ν) {i j : Nat} (h : j ≠ i) (b : Bucket κ ν) :
    (m.setBucket i b).buckets j = m.buckets j :=
  Function.update_of_ne h ..

/-- Append an entry to its bucket and count it. -/
def insert (m : HashMap κ ν) (key : κ) (value : ν) : HashMap κ ν :=
  m.setBucket (m.hashIndex key)
    { list := (m.home key).list ++ [⟨key, value⟩], count := wrap 16 ((m.home key).count + 1) }

/-- Every value rewritten, hidden entries included. -/
def mapValues (m : HashMap κ ν) (g : ν → ν) : HashMap κ ν :=
  { m with buckets := fun i =>
      { m.buckets i with list := (m.buckets i).list.map fun e => { e with value := g e.value } } }

/-- An iteration visits the buckets in order, skips those that count no
entry and walks the whole list of the others. -/
def iterate (m : HashMap κ ν) : List (Entry κ ν) :=
  (List.range m.bucketsTotal).flatMap fun i =>
    if (m.buckets i).count = 0 then [] else (m.buckets i).list

section Find

variable [DecidableEq κ]

/-- The position in its bucket of the entry with this key, among the
first `count` entries. -/
def getEntry (m : HashMap κ ν) (key : κ) : Option Nat :=
  ((m.home key).list.take (m.home key).count).findIdx? fun e => decide (e.key = key)

/-- The value a search arrives at. -/
def find (m : HashMap κ ν) (key : κ) : Option ν :=
  (m.getEntry key).bind fun i => ((m.home key).list[i]?).map Entry.value

/-- Rewrite the value a search arrives at, in place. -/
def modify (m : HashMap κ ν) (key : κ) (g : ν → ν) : HashMap κ ν :=
  match m.getEntry key with
  | none => m
  | some i =>
      m.setBucket (m.hashIndex key)
        { m.home key with
          list := (m.home key).list.modify i fun e => { e with value := g e.value } }

end Find

/-! ## Entries -/

/-- Every entry, whether a search sees it or not, satisfies `P`. -/
def Forall (m : HashMap κ ν) (P : Entry κ ν → Prop) : Prop :=
  ∀ (i : Nat), ∀ e ∈ (m.buckets i).list, P e

/-- `f` summed over every entry. -/
def total [AddCommMonoid M] (m : HashMap κ ν) (f : Entry κ ν → M) : M :=
  ∑ i ∈ Finset.range m.bucketsTotal, ((m.buckets i).list.map f).sum

theorem hashIndex_lt (m : HashMap κ ν) (key : κ) : m.hashIndex key < m.bucketsTotal := by
  have hle : m.hashIndex key ≤ m.bucketsTotal - 1 := Nat.and_le_right
  have hpos := m.bucketsTotal_pos
  omega

@[simp] theorem insert_hashIndex (m : HashMap κ ν) (key : κ) (value : ν) (key' : κ) :
    (m.insert key value).hashIndex key' = m.hashIndex key' := rfl

@[simp] theorem init_forall (hashfunc : κ → Nat) {size : Nat} (h : 0 < size)
    (P : Entry κ ν → Prop) :
    (init hashfunc size h : HashMap κ ν).Forall P := by
  intro i e he
  cases he

@[simp] theorem init_total [AddCommMonoid M] (hashfunc : κ → Nat) {size : Nat}
    (h : 0 < size) (f : Entry κ ν → M) : (init hashfunc size h : HashMap κ ν).total f = 0 := by
  simp [total, init]

theorem Forall.insert {m : HashMap κ ν} {P : Entry κ ν → Prop} (h : m.Forall P) {key : κ}
    {value : ν} (hnew : P ⟨key, value⟩) : (m.insert key value).Forall P := by
  intro i e he
  by_cases hi : i = m.hashIndex key
  · subst hi
    simp only [HashMap.insert, setBucket_self, List.mem_append, List.mem_singleton] at he
    rcases he with he | rfl
    · exact h _ e he
    · exact hnew
  · rw [HashMap.insert, setBucket_of_ne _ hi] at he
    exact h i e he

theorem Forall.mono {m : HashMap κ ν} {P Q : Entry κ ν → Prop} (h : m.Forall P)
    (hPQ : ∀ e, P e → Q e) : m.Forall Q :=
  fun i e he => hPQ e (h i e he)

theorem total_congr [AddCommMonoid M] {m : HashMap κ ν} {f g : Entry κ ν → M}
    (h : m.Forall fun e => f e = g e) : m.total f = m.total g :=
  Finset.sum_congr rfl fun i _ => congrArg List.sum (List.map_congr_left (h i))

theorem mapValues_eq_self {m : HashMap κ ν} {g : ν → ν}
    (h : m.Forall fun e => g e.value = e.value) :
    m.mapValues g = m := by
  have hlist : ∀ i, (m.buckets i).list.map (fun e => { e with value := g e.value }) =
      (m.buckets i).list := fun i =>
    (List.map_congr_left fun e he => by rw [h i e he, id]).trans (List.map_id _)
  simp only [mapValues, hlist]

/-- Exchanging one bucket exchanges its share of a total. -/
theorem total_update [AddCommMonoid M] (m : HashMap κ ν) (f : Entry κ ν → M) {i : Nat}
    (hi : i < m.bucketsTotal) (b : Bucket κ ν) :
    (m.setBucket i b).total f + ((m.buckets i).list.map f).sum =
      m.total f + (b.list.map f).sum := by
  have hmem : i ∈ Finset.range m.bucketsTotal := Finset.mem_range.mpr hi
  simp only [total, setBucket]
  rw [← Finset.add_sum_erase _ _ hmem, ← Finset.add_sum_erase (a := i) (Finset.range _) _ hmem]
  have hrest : ∑ j ∈ (Finset.range m.bucketsTotal).erase i,
      ((Function.update m.buckets i b j).list.map f).sum =
      ∑ j ∈ (Finset.range m.bucketsTotal).erase i, ((m.buckets j).list.map f).sum :=
    Finset.sum_congr rfl fun j hj => by rw [Function.update_of_ne (Finset.ne_of_mem_erase hj)]
  rw [hrest, Function.update_self]
  abel

/-- An insertion adds the new entry's share. -/
theorem total_insert [AddCancelCommMonoid M] (m : HashMap κ ν) (f : Entry κ ν → M) (key : κ)
    (value : ν) :
    (m.insert key value).total f = m.total f + f ⟨key, value⟩ := by
  have hup := m.total_update f (m.hashIndex_lt key)
    { list := (m.home key).list ++ [⟨key, value⟩], count := wrap 16 ((m.home key).count + 1) }
  simp only [List.map_append, List.map_cons, List.map_nil, List.sum_append, List.sum_cons,
    List.sum_nil, add_zero] at hup
  have hsplit : (m.insert key value).total f + ((m.home key).list.map f).sum =
      m.total f + f ⟨key, value⟩ + ((m.home key).list.map f).sum := by
    rw [add_right_comm, add_assoc]
    exact hup
  exact add_right_cancel hsplit

section Find

variable [DecidableEq κ]

/-- What a search found is in the key's bucket, under that key. -/
theorem find_spec {m : HashMap κ ν} {key : κ} {value : ν} (h : m.find key = some value) :
    ∃ i, m.getEntry key = some i ∧ (m.home key).list[i]? = some ⟨key, value⟩ := by
  obtain ⟨i, hi, hget⟩ := Option.bind_eq_some_iff.mp h
  obtain ⟨e, he, rfl⟩ := Option.map_eq_some_iff.mp hget
  obtain ⟨hlen, hkey, -⟩ := List.findIdx?_eq_some_iff_getElem.mp hi
  obtain ⟨hlen', hel⟩ := List.getElem?_eq_some_iff.mp he
  rw [List.getElem_take, hel, decide_eq_true_eq] at hkey
  refine ⟨i, hi, ?_⟩
  rw [he, ← hkey]

theorem Forall.find {m : HashMap κ ν} {P : Entry κ ν → Prop} (h : m.Forall P) {key : κ} {value : ν}
    (hf : m.find key = some value) : P ⟨key, value⟩ := by
  obtain ⟨i, -, hget⟩ := find_spec hf
  exact h _ _ (List.mem_of_getElem? hget)

/-- A search that finds nothing has nothing to rewrite. -/
theorem getEntry_isSome {m : HashMap κ ν} {key : κ} {i : Nat} (h : m.getEntry key = some i) :
    ∃ value, m.find key = some value := by
  obtain ⟨hlen, -⟩ := List.findIdx?_eq_some_iff_getElem.mp h
  have hlen' : i < (m.home key).list.length := by simp at hlen; omega
  exact ⟨((m.home key).list.get ⟨i, hlen'⟩).value, by simp [HashMap.find, h, hlen']⟩

theorem modify_of_find_none {m : HashMap κ ν} {key : κ} (h : m.find key = none) (g : ν → ν) :
    m.modify key g = m := by
  unfold modify
  cases hi : m.getEntry key with
  | none => rfl
  | some i =>
      obtain ⟨value, hv⟩ := getEntry_isSome hi
      rw [h] at hv
      cases hv

/-- Rewriting the value a search arrives at by itself. -/
theorem modify_eq_self {m : HashMap κ ν} {key : κ} {value : ν} (h : m.find key = some value)
    {g : ν → ν} (hg : g value = value) : m.modify key g = m := by
  obtain ⟨i, hi, hget⟩ := find_spec h
  have hlist : (m.home key).list.modify i (fun e => { e with value := g e.value })
      = (m.home key).list := by
    refine List.ext_getElem? fun k => ?_
    rw [List.getElem?_modify]
    by_cases hk : i = k
    · subst hk
      simp [hget, hg]
    · simp [hk]
  simp only [modify, hi, hlist]
  exact congrArg (fun b => { m with buckets := b }) (Function.update_eq_self ..)

theorem Forall.modify {m : HashMap κ ν} {P : Entry κ ν → Prop} (h : m.Forall P) {key : κ}
    {g : ν → ν} (hnew : ∀ value, m.find key = some value → P ⟨key, g value⟩) :
    (m.modify key g).Forall P := by
  cases hf : m.find key with
  | none => rwa [modify_of_find_none hf]
  | some value =>
      obtain ⟨i, hi, hget⟩ := find_spec hf
      intro j e he
      simp only [HashMap.modify, hi] at he
      by_cases hj : j = m.hashIndex key
      · subst hj
        rw [setBucket_self] at he
        obtain ⟨k, hk⟩ := List.mem_iff_getElem?.mp he
        rw [List.getElem?_modify] at hk
        by_cases hik : i = k
        · subst hik
          obtain rfl : ⟨key, g value⟩ = e := by simpa [hget] using hk
          exact hnew value hf
        · simp only [hik, if_false] at hk
          exact h (m.hashIndex key) e (List.mem_of_getElem? (by simpa [home] using hk))
      · rw [setBucket_of_ne _ hj] at he
        exact h j e he

/-- A write through a found entry exchanges its share. -/
theorem total_modify [AddCancelCommMonoid M] {m : HashMap κ ν} (f : Entry κ ν → M) {key : κ}
    {value : ν} (hf : m.find key = some value) (g : ν → ν) :
    (m.modify key g).total f + f ⟨key, value⟩ = m.total f + f ⟨key, g value⟩ := by
  obtain ⟨i, hi, hget⟩ := find_spec hf
  have hup := m.total_update f (m.hashIndex_lt key)
    { m.home key with list := (m.home key).list.modify i fun e => { e with value := g e.value } }
  have hlist := sum_map_modify f (fun e => { e with value := g e.value }) hget
  have hmod : m.modify key g = m.setBucket (m.hashIndex key)
      { m.home key with
        list := (m.home key).list.modify i fun e => { e with value := g e.value } } := by
    simp only [HashMap.modify, hi]
  rw [← hmod] at hup
  refine add_right_cancel (b := ((m.home key).list.map f).sum) ?_
  calc (m.modify key g).total f + f ⟨key, value⟩ + ((m.home key).list.map f).sum
      = ((m.modify key g).total f + ((m.home key).list.map f).sum) + f ⟨key, value⟩ := by abel
    _ = m.total f +
          ((((m.home key).list.modify i fun e => { e with value := g e.value }).map f).sum +
          f ⟨key, value⟩) := by rw [← add_assoc]; exact congrArg (· + f ⟨key, value⟩) hup
    _ = m.total f + f ⟨key, g value⟩ + ((m.home key).list.map f).sum := by
        rw [hlist]
        abel

/-! ## What a search finds afterwards -/

@[simp] theorem modify_hashIndex (m : HashMap κ ν) (key : κ) (g : ν → ν) (key' : κ) :
    (m.modify key g).hashIndex key' = m.hashIndex key' := by
  unfold modify
  cases m.getEntry key <;> rfl

/-- The places of a bucket after a write: the found entry's value is
rewritten, every other place is as before. -/
theorem modify_home (m : HashMap κ ν) (key : κ) (g : ν → ν) (key' : κ) :
    (∀ j, ((m.modify key g).home key').list[j]? =
      if m.hashIndex key' = m.hashIndex key ∧ m.getEntry key = some j then
        ((m.home key').list[j]?).map fun e => { e with value := g e.value }
      else (m.home key').list[j]?) ∧
    ((m.modify key g).home key').count = (m.home key').count := by
  rw [home, modify_hashIndex]
  unfold modify
  cases hi : m.getEntry key with
  | none => exact ⟨fun j => by simp [home], rfl⟩
  | some i =>
      by_cases hk : m.hashIndex key' = m.hashIndex key
      · simp only [hk, setBucket_self, home, List.getElem?_modify, Option.some.injEq, true_and]
        refine ⟨fun j => ?_, trivial⟩
        by_cases hij : i = j <;> simp [hij]
      · rw [setBucket_of_ne _ hk]
        exact ⟨fun j => by simp [hk, home], rfl⟩

/-- Rewriting values in place moves no key. -/
theorem modify_home_keys (m : HashMap κ ν) (key : κ) (g : ν → ν) (key' : κ) :
    ((m.modify key g).home key').list.map Entry.key = (m.home key').list.map Entry.key := by
  refine List.ext_getElem? fun j => ?_
  simp only [List.getElem?_map, (m.modify_home key g key').1 j]
  split
  · cases (m.home key').list[j]? <;> rfl
  · rfl

theorem getEntry_modify (m : HashMap κ ν) (key : κ) (g : ν → ν) (key' : κ) :
    (m.modify key g).getEntry key' = m.getEntry key' := by
  have hkeys := m.modify_home_keys key g key'
  have hcount := (m.modify_home key g key').2
  have hidx : ∀ l : List (Entry κ ν), l.findIdx? (fun e => decide (e.key = key')) =
      (l.map Entry.key).findIdx? fun k => decide (k = key') := fun l => by
    rw [List.findIdx?_map]
    rfl
  rw [getEntry, getEntry, hidx, hidx, List.map_take, List.map_take, hkeys, hcount]

theorem find_modify (m : HashMap κ ν) (key : κ) (g : ν → ν) (key' : κ) :
    (m.modify key g).find key' = if key' = key then (m.find key').map g else m.find key' := by
  have hentry := m.getEntry_modify key g key'
  rw [find, find, hentry]
  cases hj : m.getEntry key' with
  | none => simp
  | some j =>
      obtain ⟨value, hfind⟩ := getEntry_isSome hj
      obtain ⟨j', hj', hget⟩ := find_spec hfind
      obtain rfl : j = j' := by simpa [hj] using hj'
      simp only [Option.bind_some, (m.modify_home key g key').1 j, hget]
      by_cases hk : key' = key
      · subst hk
        simp [hj]
      · -- another key's entry cannot stand where this one does
        have hother : ¬ (m.hashIndex key' = m.hashIndex key ∧ m.getEntry key = some j) := by
          rintro ⟨hindex, hi⟩
          obtain ⟨old, hold⟩ := getEntry_isSome hi
          obtain ⟨i, hi', hgeti⟩ := find_spec hold
          obtain rfl : j = i := by simpa [hi] using hi'
          rw [home, hindex, ← home, hgeti] at hget
          exact hk (congrArg Entry.key (Option.some.inj hget)).symm
        simp [hother, hk]

/-! ## Maps whose counts are right -/

/-- Every entry is in the bucket of its key, no key twice, and every bucket
counts its entries. -/
structure WellFormed (m : HashMap κ ν) : Prop where
  placed : ∀ i, ∀ e ∈ (m.buckets i).list, m.hashIndex e.key = i
  nodup : ∀ i, ((m.buckets i).list.map Entry.key).Nodup
  counted : ∀ i, (m.buckets i).count = (m.buckets i).list.length

omit [DecidableEq κ] in
theorem init_wellFormed (hashfunc : κ → Nat) {size : Nat} (h : 0 < size) :
    (init hashfunc size h : HashMap κ ν).WellFormed where
  placed := fun _ e he => by cases he
  nodup := fun _ => List.nodup_nil
  counted := fun _ => rfl

omit [DecidableEq κ] in
theorem sum_flatMap_range [AddCommMonoid M] (l : Nat → List (Entry κ ν)) (f : Entry κ ν → M)
    (n : Nat) :
    (((List.range n).flatMap l).map f).sum = ∑ i ∈ Finset.range n, ((l i).map f).sum := by
  induction n with
  | zero => simp
  | succ n ih =>
      rw [List.range_succ, List.flatMap_append, List.map_append, List.sum_append,
        Finset.sum_range_succ, ih]
      simp

omit [DecidableEq κ] in
/-- An iteration then visits every entry. -/
theorem WellFormed.iterate_eq {m : HashMap κ ν} (h : m.WellFormed) :
    m.iterate = (List.range m.bucketsTotal).flatMap fun i => (m.buckets i).list := by
  rw [iterate]
  congr 1
  funext i
  split
  · next hzero =>
      rw [h.counted i] at hzero
      exact (List.length_eq_zero_iff.mp hzero).symm
  · rfl

omit [DecidableEq κ] in
theorem WellFormed.sum_iterate [AddCommMonoid M] {m : HashMap κ ν} (h : m.WellFormed)
    (f : Entry κ ν → M) : (m.iterate.map f).sum = m.total f := by
  rw [h.iterate_eq, sum_flatMap_range]
  rfl

omit [DecidableEq κ] in
/-- An iteration visits no key twice. -/
theorem WellFormed.nodup_iterate {m : HashMap κ ν} (h : m.WellFormed) :
    (m.iterate.map Entry.key).Nodup := by
  rw [h.iterate_eq, List.map_flatMap, List.nodup_flatMap]
  refine ⟨fun i _ => h.nodup i, List.nodup_range.imp fun {i j} hij => ?_⟩
  rw [Function.onFun, List.disjoint_left]
  intro k hi hj
  obtain ⟨e, he, rfl⟩ := List.mem_map.mp hi
  obtain ⟨e', he', hkey⟩ := List.mem_map.mp hj
  have hplace := h.placed j e' he'
  rw [hkey, h.placed i e he] at hplace
  exact hij hplace

/-- Then a search finds what the map holds. -/
theorem WellFormed.find_of_mem {m : HashMap κ ν} (h : m.WellFormed) {i : Nat} {e : Entry κ ν}
    (he : e ∈ (m.buckets i).list) : m.find e.key = some e.value := by
  have hi := h.placed i e he
  obtain ⟨k, hk, hget⟩ := List.mem_iff_getElem.mp he
  have hentry : m.getEntry e.key = some k := by
    rw [getEntry, home, hi, h.counted i, List.take_length, List.findIdx?_eq_some_iff_getElem]
    refine ⟨hk, by simp [hget], fun j hjk => ?_⟩
    have hk' : k < ((m.buckets i).list.map Entry.key).length := by simpa using hk
    have hj' : j < ((m.buckets i).list.map Entry.key).length := by omega
    have hinj : ((m.buckets i).list.map Entry.key)[j] = ((m.buckets i).list.map Entry.key)[k] →
        j = k := (h.nodup i).getElem_inj_iff.mp
    rw [List.getElem_map, List.getElem_map, hget] at hinj
    simp only [decide_eq_true_eq]
    exact fun heq => absurd (hinj heq) (by omega)
  rw [find, hentry, Option.bind_some, home, hi, List.getElem?_eq_getElem hk, hget]
  rfl

/-- A bucket's keys and its count do not change when a value is written. -/
theorem modify_buckets (m : HashMap κ ν) (key : κ) (g : ν → ν) (i : Nat) :
    ((m.modify key g).buckets i).list.map Entry.key = (m.buckets i).list.map Entry.key ∧
      ((m.modify key g).buckets i).count = (m.buckets i).count := by
  by_cases hi : i = m.hashIndex key
  · subst hi
    have hhome : (m.modify key g).home key = (m.modify key g).buckets (m.hashIndex key) := by
      rw [home, modify_hashIndex]
    exact ⟨hhome ▸ m.modify_home_keys key g key, hhome ▸ (m.modify_home key g key).2⟩
  · unfold modify
    cases m.getEntry key with
    | none => exact ⟨rfl, rfl⟩
    | some k =>
        simp only [setBucket_of_ne _ hi]
        exact ⟨trivial, trivial⟩

theorem modify_length (m : HashMap κ ν) (key : κ) (g : ν → ν) (i : Nat) :
    ((m.modify key g).buckets i).list.length = (m.buckets i).list.length := by
  have hlen := congrArg List.length (m.modify_buckets key g i).1
  simpa using hlen

/-- A write an observation of the entries does not see. -/
theorem map_iterate_modify {γ : Type*} {m : HashMap κ ν} {key : κ} {g : ν → ν}
    {f : Entry κ ν → γ}
    (h : ∀ value, m.find key = some value → f ⟨key, g value⟩ = f ⟨key, value⟩) :
    (m.modify key g).iterate.map f = m.iterate.map f := by
  have hlist : ∀ i, ((m.modify key g).buckets i).list.map f = (m.buckets i).list.map f := by
    intro i
    by_cases hi : i = m.hashIndex key
    · subst hi
      have hhome : (m.modify key g).buckets (m.hashIndex key) = (m.modify key g).home key := by
        rw [home, modify_hashIndex]
      refine List.ext_getElem? fun j => ?_
      rw [hhome, List.getElem?_map, List.getElem?_map, (m.modify_home key g key).1 j]
      split
      · next hj =>
          obtain ⟨value, hfind⟩ := getEntry_isSome hj.2
          obtain ⟨k, hk, hget⟩ := find_spec hfind
          obtain rfl : j = k := by simpa [hj.2] using hk
          rw [home] at hget ⊢
          simp [hget, h value hfind]
      · rfl
    · unfold modify
      cases m.getEntry key with
      | none => rfl
      | some k => rw [setBucket_of_ne _ hi]
  have htotal : (m.modify key g).bucketsTotal = m.bucketsTotal := by
    unfold modify
    cases m.getEntry key <;> rfl
  rw [iterate, iterate, htotal, List.map_flatMap, List.map_flatMap]
  congr 1
  funext i
  rw [(m.modify_buckets key g i).2, apply_ite (List.map f), apply_ite (List.map f), hlist]

theorem WellFormed.modify {m : HashMap κ ν} (h : m.WellFormed) (key : κ) (g : ν → ν) :
    (m.modify key g).WellFormed := by
  refine ⟨fun i e he => ?_, fun i => ?_, fun i => ?_⟩
  · have hkey := List.mem_map_of_mem (f := Entry.key) he
    rw [(m.modify_buckets key g i).1] at hkey
    obtain ⟨e', he', hkeys⟩ := List.mem_map.mp hkey
    rw [modify_hashIndex, ← hkeys]
    exact h.placed i e' he'
  · rw [(m.modify_buckets key g i).1]
    exact h.nodup i
  · rw [(m.modify_buckets key g i).2, h.counted i, modify_length]

omit [DecidableEq κ] in
/-- An insertion lengthens one list by one. -/
theorem insert_length (m : HashMap κ ν) (key : κ) (value : ν) (i : Nat) :
    ((m.insert key value).buckets i).list.length =
      (m.buckets i).list.length + if i = m.hashIndex key then 1 else 0 := by
  by_cases hi : i = m.hashIndex key
  · subst hi
    simp [HashMap.insert, home]
  · rw [HashMap.insert, setBucket_of_ne _ hi, if_neg hi, Nat.add_zero]

/-- A new key, in a bucket whose count does not wrap. -/
theorem WellFormed.insert {m : HashMap κ ν} (h : m.WellFormed) {key : κ} (value : ν)
    (hnew : m.find key = none) (hcount : (m.home key).list.length + 1 < 2 ^ 16) :
    (m.insert key value).WellFormed := by
  have habsent : ∀ e ∈ (m.home key).list, e.key ≠ key := by
    rintro e he rfl
    rw [h.find_of_mem he] at hnew
    cases hnew
  refine ⟨fun i e he => ?_, fun i => ?_, fun i => ?_⟩
  all_goals by_cases hi : i = m.hashIndex key
  · subst hi
    simp only [HashMap.insert, setBucket_self, List.mem_append, List.mem_singleton] at he
    rcases he with he | rfl
    · exact h.placed _ e he
    · rfl
  · rw [HashMap.insert, setBucket_of_ne _ hi] at he
    exact h.placed i e he
  · subst hi
    simp only [HashMap.insert, setBucket_self, List.map_append, List.map_cons, List.map_nil]
    rw [List.nodup_append]
    refine ⟨h.nodup _, List.nodup_singleton _, ?_⟩
    rintro k hk k' hk' rfl
    obtain ⟨e, he, rfl⟩ := List.mem_map.mp hk
    exact habsent e he (List.mem_singleton.mp hk')
  · rw [HashMap.insert, setBucket_of_ne _ hi]
    exact h.nodup i
  · subst hi
    have hlen : (m.home key).count = (m.home key).list.length := h.counted _
    simp only [HashMap.insert, setBucket_self, hlen, List.length_append, List.length_singleton]
    exact wrap_of_lt hcount
  · rw [HashMap.insert, setBucket_of_ne _ hi]
    exact h.counted i

end Find

end HashMap

end Chained
