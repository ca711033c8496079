import MemPerf.Lib.Assoc

/-!
# Merging entries into a map

`upsert g` puts an entry in: a new key takes the value as it is, a known
one combines its value with it. After a list of entries the value of a
key is the combination of the values given to it, in their order, whatever
came between them.

A chained hash map follows the list as long as its buckets can count the
distinct keys they get. If a bucket gets more than its count can reach,
some key is not found, for a search distinguishes only as many places as
the count says.
-/

namespace Chained

variable {κ ν : Type*} [DecidableEq κ]

/-! ## Lists of entries -/

def upsert (g : ν → ν → ν) (a : List (Entry κ ν)) (e : Entry κ ν) : List (Entry κ ν) :=
  match lookup e.key a with
  | none => a ++ [e]
  | some _ => assign e.key (fun value => g value e.value) a

/-- The values given to a key, in order. -/
def valuesOf (key : κ) (es : List (Entry κ ν)) : List ν :=
  (es.filter fun e => decide (e.key = key)).map Entry.value

/-- The first value, and the others combined with it. -/
def combine (g : ν → ν → ν) : List ν → Option ν
  | [] => none
  | value :: values => some (values.foldl g value)

variable {g : ν → ν → ν} {a es : List (Entry κ ν)} {e : Entry κ ν} {key : κ}

omit [DecidableEq κ] in
theorem combine_append_singleton (values : List ν) (value : ν) :
    combine g (values ++ [value]) =
      some (match combine g values with
        | none => value
        | some v => g v value) := by
  cases values with
  | nil => rfl
  | cons v values => simp [combine]

theorem valuesOf_append_singleton (key : κ) (es : List (Entry κ ν)) (e : Entry κ ν) :
    valuesOf key (es ++ [e]) = valuesOf key es ++ if e.key = key then [e.value] else [] := by
  rw [valuesOf, List.filter_append, List.map_append, ← valuesOf]
  by_cases hk : e.key = key <;> simp [hk]

theorem valuesOf_eq_nil_iff : valuesOf key es = [] ↔ key ∉ es.map Entry.key := by
  simp [valuesOf, List.filter_eq_nil_iff]

theorem lookup_upsert (key : κ) :
    lookup key (upsert g a e) =
      if key = e.key then
        some (match lookup key a with
          | none => e.value
          | some v => g v e.value)
      else lookup key a := by
  rw [upsert]
  by_cases hk : key = e.key
  · subst hk
    cases hl : lookup e.key a with
    | none =>
        simp only [if_true]
        exact (lookup_append_singleton hl).trans (if_pos rfl)
    | some v =>
        simp only [if_true, lookup_assign, hl, Option.map_some]
  · cases hl : lookup e.key a with
    | none =>
        simp only [if_neg hk]
        exact (lookup_append_singleton hl).trans (if_neg hk)
    | some v => simp only [lookup_assign, if_neg hk]

/-- The value of a key is the combination of the values given to it. -/
theorem lookup_foldl_upsert (g : ν → ν → ν) (key : κ) (es : List (Entry κ ν)) :
    lookup key (es.foldl (upsert g) []) = combine g (valuesOf key es) := by
  induction es using List.reverseRecOn with
  | nil => rfl
  | append_singleton es e ih =>
      rw [List.foldl_append, List.foldl_cons, List.foldl_nil, lookup_upsert,
        valuesOf_append_singleton, ih]
      by_cases hk : e.key = key
      · rw [if_pos hk.symm, if_pos hk, combine_append_singleton]
      · rw [if_neg (Ne.symm hk), if_neg hk, List.append_nil]

theorem lookup_foldl_upsert_eq_none_iff :
    lookup key (es.foldl (upsert g) []) = none ↔ key ∉ es.map Entry.key := by
  rw [lookup_foldl_upsert, ← valuesOf_eq_nil_iff]
  cases valuesOf key es <;> simp [combine]

theorem lookup_of_mem (ha : (a.map Entry.key).Nodup) (he : e ∈ a) :
    lookup e.key a = some e.value := by
  induction a with
  | nil => cases he
  | cons e' a ih =>
      rw [List.map_cons, List.nodup_cons] at ha
      rcases List.mem_cons.mp he with rfl | he
      · simp [lookup]
      · have hne : e'.key ≠ e.key := fun heq => ha.1 (heq ▸ List.mem_map_of_mem he)
        rw [← ih ha.2 he]
        simp [lookup, hne]

theorem mem_keys_foldl_upsert :
    key ∈ (es.foldl (upsert g) []).map Entry.key ↔ key ∈ es.map Entry.key := by
  have hnone : lookup key (es.foldl (upsert g) []) = none ↔ key ∉ es.map Entry.key :=
    lookup_foldl_upsert_eq_none_iff
  rw [lookup_eq_none_iff] at hnone
  rw [← not_iff_not, ← hnone]
  simp

/-! ## Hash maps -/

namespace HashMap

/-- A search for the key, and an insertion or a write through what it found. -/
def upsert (g : ν → ν → ν) (m : HashMap κ ν) (e : Entry κ ν) : HashMap κ ν :=
  match m.ref? e.key with
  | none => m.insert e.key e.value
  | some r => m.write r fun value => g value e.value

/-- The keys of the entries that belong in a bucket. -/
def keysIn (m : HashMap κ ν) (i : Nat) (es : List (Entry κ ν)) : Finset κ :=
  (es.map Entry.key).toFinset.filter fun key => m.hashIndex key = i

variable {m : HashMap κ ν}

@[simp] theorem upsert_hashIndex : (m.upsert g e).hashIndex key = m.hashIndex key := by
  rw [upsert]
  cases m.ref? e.key <;> rfl

@[simp] theorem foldl_upsert_hashIndex (es : List (Entry κ ν)) (m : HashMap κ ν) :
    (es.foldl (upsert g) m).hashIndex key = m.hashIndex key := by
  induction es generalizing m with
  | nil => rfl
  | cons e es ih => rw [List.foldl_cons, ih, upsert_hashIndex]

theorem mem_keysIn {i : Nat} :
    key ∈ m.keysIn i es ↔ key ∈ es.map Entry.key ∧ m.hashIndex key = i := by
  rw [keysIn, Finset.mem_filter, List.mem_toFinset]

/-- Of distinct keys a bucket's part has as many entries as keys. -/
theorem length_part (ha : (a.map Entry.key).Nodup) (i : Nat) :
    (m.part i a).length = (m.keysIn i a).card := by
  have hnodup : ((m.part i a).map Entry.key).Nodup := ha.sublist (List.filter_sublist.map _)
  have hkeys : m.keysIn i a = ((m.part i a).map Entry.key).toFinset := by
    ext key
    rw [mem_keysIn, List.mem_toFinset]
    simp only [part, List.mem_map, List.mem_filter, decide_eq_true_eq]
    constructor
    · rintro ⟨⟨e, he, rfl⟩, hi⟩
      exact ⟨e, ⟨he, hi⟩, rfl⟩
    · rintro ⟨e, ⟨he, hi⟩, rfl⟩
      exact ⟨⟨e, he, rfl⟩, hi⟩
  rw [hkeys, List.toFinset_card_of_nodup hnodup, List.length_map]

theorem keysIn_subset_append (i : Nat) : m.keysIn i es ⊆ m.keysIn i (es ++ [e]) := by
  intro key hkey
  rw [mem_keysIn] at hkey ⊢
  rw [List.map_append]
  exact ⟨List.mem_append_left _ hkey.1, hkey.2⟩

theorem card_keysIn_append (hnew : e.key ∉ es.map Entry.key) :
    (m.keysIn (m.hashIndex e.key) (es ++ [e])).card
      = (m.keysIn (m.hashIndex e.key) es).card + 1 := by
  have hkeys : m.keysIn (m.hashIndex e.key) (es ++ [e])
      = Insert.insert e.key (m.keysIn (m.hashIndex e.key) es) := by
    ext key
    rw [Finset.mem_insert, mem_keysIn, mem_keysIn, List.map_append, List.mem_append,
      List.map_singleton, List.mem_singleton]
    constructor
    · rintro ⟨hmem | rfl, hi⟩
      · exact Or.inr ⟨hmem, hi⟩
      · exact Or.inl rfl
    · rintro (rfl | ⟨hmem, hi⟩)
      · exact ⟨Or.inr rfl, rfl⟩
      · exact ⟨Or.inl hmem, hi⟩
  rw [hkeys, Finset.card_insert_of_notMem fun hmem => hnew (mem_keysIn.mp hmem).1]

theorem Holds.upsert (h : m.Holds a) (hroom : lookup e.key a = none → Holds.Room m e.key a) :
    (m.upsert g e).Holds (Chained.upsert g a e) := by
  have hfind := h.find e.key
  rw [HashMap.upsert, Chained.upsert]
  cases hr : m.ref? e.key with
  | none =>
      rw [ref_eq_none_iff.mp hr] at hfind
      rw [← hfind]
      exact h.insert hfind.symm (hroom hfind.symm)
  | some r =>
      obtain ⟨value, hvalue⟩ := deref_ref hr
      have hindex : r.1 = m.hashIndex e.key := by
        obtain ⟨j, -, rfl⟩ := Option.map_eq_some_iff.mp hr
        rfl
      have hsome : m.find e.key = some value := by
        rw [find_eq_deref, hr, Option.bind_some, hvalue]
        rfl
      rw [← hfind, hsome]
      exact h.write hindex ⟨value, hvalue⟩ _

/-- The map follows the list while the buckets can count their keys. -/
theorem Holds.foldl_upsert (h : m.Holds []) (g : ν → ν → ν) (es : List (Entry κ ν))
    (hfits : ∀ i, (m.keysIn i es).card < 2 ^ 16) :
    (es.foldl (HashMap.upsert g) m).Holds (es.foldl (Chained.upsert g) []) := by
  induction es using List.reverseRecOn with
  | nil => exact h
  | append_singleton es e ih =>
      have hbefore := ih fun i => (Finset.card_le_card (keysIn_subset_append i)).trans_lt (hfits i)
      rw [List.foldl_append, List.foldl_append]
      refine hbefore.upsert fun hnew => ?_
      -- the new key is one more in its bucket
      have hcard := hfits (m.hashIndex e.key)
      rw [card_keysIn_append (lookup_foldl_upsert_eq_none_iff.mp hnew)] at hcard
      have hsame : (es.foldl (HashMap.upsert g) m).keysIn
          ((es.foldl (HashMap.upsert g) m).hashIndex e.key) (es.foldl (Chained.upsert g) [])
          = m.keysIn (m.hashIndex e.key) es := by
        ext key
        rw [mem_keysIn, mem_keysIn, mem_keys_foldl_upsert, foldl_upsert_hashIndex,
          foldl_upsert_hashIndex]
      rw [Room, length_part hbefore.nodup, hsame]
      exact hcard

/-! ## What stands in the lists -/

/-- Every entry of every list, whether a search sees it or not. -/
def entries (m : HashMap κ ν) : List (Entry κ ν) :=
  (List.range m.bucketsTotal).flatMap fun i => (m.buckets i).list

omit [DecidableEq κ] in
theorem mem_keys_entries : key ∈ m.entries.map Entry.key ↔
    ∃ i < m.bucketsTotal, key ∈ (m.buckets i).list.map Entry.key := by
  rw [entries, List.map_flatMap, List.mem_flatMap]
  simp only [List.mem_range]

omit [DecidableEq κ] in
theorem Holds.entries_perm (h : m.Holds a) : m.entries.Perm a := by
  have hparts : m.entries = (List.range m.bucketsTotal).flatMap fun i => m.part i a := by
    rw [entries]
    congr 1
    funext i
    exact h.list i
  rw [hparts]
  exact parts_perm_self m a

omit [DecidableEq κ] in
/-- When the counts are right an iteration leaves nothing out. -/
theorem Holds.iterate_eq (h : m.Holds a) : m.iterate = m.entries := by
  rw [h.iterate, entries]
  congr 1
  funext i
  exact (h.list i).symm

omit [DecidableEq κ] in
theorem mem_keys_entries_insert {key' : κ} {value : ν} :
    key' ∈ (m.insert key value).entries.map Entry.key ↔
      key' = key ∨ key' ∈ m.entries.map Entry.key := by
  rw [mem_keys_entries, mem_keys_entries]
  have hlist : ∀ i, key' ∈ ((m.insert key value).buckets i).list.map Entry.key ↔
      (i = m.hashIndex key ∧ key' = key) ∨ key' ∈ (m.buckets i).list.map Entry.key := by
    intro i
    by_cases hi : i = m.hashIndex key
    · subst hi
      rw [insert, setBucket_self, List.map_append, List.mem_append, home]
      simp only [List.map_cons, List.map_nil, List.mem_singleton, true_and]
      exact or_comm
    · rw [insert, setBucket_of_ne _ hi]
      simp only [hi, false_and, false_or]
  simp only [hlist]
  constructor
  · rintro ⟨i, hi, ⟨-, rfl⟩ | hmem⟩
    · exact Or.inl rfl
    · exact Or.inr ⟨i, hi, hmem⟩
  · rintro (rfl | ⟨i, hi, hmem⟩)
    · exact ⟨m.hashIndex key', m.hashIndex_lt key', Or.inl ⟨rfl, rfl⟩⟩
    · exact ⟨i, hi, Or.inr hmem⟩

theorem keysIn_entries_insert {value : ν} (i : Nat) :
    (m.insert key value).keysIn i (m.insert key value).entries =
      if m.hashIndex key = i then Insert.insert key (m.keysIn i m.entries)
      else m.keysIn i m.entries := by
  ext key'
  rw [mem_keysIn, mem_keys_entries_insert, insert_hashIndex]
  split
  · next hi =>
      rw [Finset.mem_insert, mem_keysIn]
      constructor
      · rintro ⟨rfl | hmem, hi'⟩
        · exact Or.inl rfl
        · exact Or.inr ⟨hmem, hi'⟩
      · rintro (rfl | ⟨hmem, hi'⟩)
        · exact ⟨Or.inl rfl, hi⟩
        · exact ⟨Or.inr hmem, hi'⟩
  · next hi =>
      rw [mem_keysIn]
      constructor
      · rintro ⟨rfl | hmem, hi'⟩
        · exact absurd hi' hi
        · exact ⟨hmem, hi'⟩
      · exact fun h => ⟨Or.inr h.1, h.2⟩

/-- What a search arrives at is in a list. -/
theorem mem_keys_of_ref {r : Ref} (h : m.ref? key = some r) : key ∈ m.entries.map Entry.key := by
  obtain ⟨value, hvalue⟩ := deref_ref h
  obtain ⟨j, -, rfl⟩ := Option.map_eq_some_iff.mp h
  exact mem_keys_entries.mpr ⟨_, m.hashIndex_lt key,
    List.mem_map_of_mem (f := Entry.key) (List.mem_of_getElem? hvalue)⟩

omit [DecidableEq κ] in
theorem keys_entries_write (m : HashMap κ ν) (r : Ref) (g : ν → ν) :
    (m.write r g).entries.map Entry.key = m.entries.map Entry.key := by
  have htotal : (m.write r g).bucketsTotal = m.bucketsTotal := rfl
  rw [entries, entries, List.map_flatMap, List.map_flatMap, htotal]
  congr 1
  funext i
  exact (m.write_buckets r g i).1

/-- A write through any reference, good or not, leaves a finite map. -/
theorem Holds.write_any (h : m.Holds a) (r : Ref) (g : ν → ν) : ∃ a, (m.write r g).Holds a := by
  cases hr : m.deref r with
  | none =>
      have hsame : m.write r g = m := by
        have hlen : (m.buckets r.1).list.length ≤ r.2 := List.getElem?_eq_none_iff.mp hr
        have hlist : (m.buckets r.1).list.modify r.2 (fun e => { e with value := g e.value })
            = (m.buckets r.1).list := by
          refine List.ext_getElem? fun j => ?_
          rw [List.getElem?_modify]
          by_cases hj : r.2 = j
          · rw [← hj, List.getElem?_eq_none_iff.mpr hlen]
            simp
          · simp [hj]
        rw [HashMap.write, hlist]
        exact congrArg (fun b => { m with buckets := b }) (Function.update_eq_self ..)
      exact ⟨a, by rw [hsame]; exact h⟩
  | some e =>
      have hmem : e ∈ m.part r.1 a := by
        rw [← h.list]
        exact List.mem_of_getElem? hr
      have hindex : r.1 = m.hashIndex e.key := (of_decide_eq_true (List.mem_filter.mp hmem).2).symm
      exact ⟨_, h.write hindex ⟨e.value, hr⟩ g⟩

/-! ## Too many keys -/

/-- The count of a bucket is a 16-bit word. -/
def CountsInRange (m : HashMap κ ν) : Prop := ∀ i, (m.buckets i).count < 2 ^ 16

omit [DecidableEq κ] in
theorem init_countsInRange (hashfunc : κ → Nat) {size : Nat} (h : 0 < size) :
    (init hashfunc size h : HashMap κ ν).CountsInRange :=
  fun _ => Nat.two_pow_pos 16

omit [DecidableEq κ] in
theorem CountsInRange.insert (h : m.CountsInRange) (key : κ) (value : ν) :
    (m.insert key value).CountsInRange := by
  intro i
  by_cases hi : i = m.hashIndex key
  · subst hi
    simp only [HashMap.insert, setBucket_self]
    exact Word.wrap_lt 16 _
  · simp only [HashMap.insert, setBucket_of_ne _ hi]
    exact h i

theorem CountsInRange.upsert (h : m.CountsInRange) (g : ν → ν → ν) (e : Entry κ ν) :
    (m.upsert g e).CountsInRange := by
  rw [HashMap.upsert]
  cases m.ref? e.key with
  | none => exact h.insert e.key e.value
  | some r =>
      intro i
      simp only [(m.write_buckets r _ i).2]
      exact h i

theorem CountsInRange.foldl_upsert (h : m.CountsInRange) (g : ν → ν → ν)
    (es : List (Entry κ ν)) : (es.foldl (HashMap.upsert g) m).CountsInRange := by
  induction es generalizing m with
  | nil => exact h
  | cons e es ih => exact ih (h.upsert g e)

/-- A bucket has no more keys that are found than its count says. -/
theorem card_found_le {s : Finset κ} {i : Nat}
    (hs : ∀ key ∈ s, m.hashIndex key = i ∧ (m.find key).isSome) :
    s.card ≤ (m.buckets i).count := by
  have hplace : ∀ key ∈ s, ∃ j < (m.buckets i).count, m.ref? key = some (i, j) := by
    intro key hkey
    obtain ⟨rfl, hfound⟩ := hs key hkey
    cases hentry : m.getEntry key with
    | none => simp [find, hentry] at hfound
    | some j =>
        obtain ⟨hlen, -⟩ := List.findIdx?_eq_some_iff_getElem.mp hentry
        rw [List.length_take] at hlen
        exact ⟨j, by rw [home] at hlen; omega, by rw [ref?, hentry]; rfl⟩
  rw [← Finset.card_range (m.buckets i).count]
  refine Finset.card_le_card_of_injOn (fun key => ((m.ref? key).getD (0, 0)).2) ?_ ?_
  · intro key hkey
    obtain ⟨j, hj, hr⟩ := hplace key hkey
    simpa [hr] using hj
  · intro key hkey key' hkey' heq
    obtain ⟨j, -, hr⟩ := hplace key hkey
    obtain ⟨j', -, hr'⟩ := hplace key' hkey'
    simp only [hr, hr', Option.getD_some] at heq
    subst heq
    exact ref_inj hr hr'

end HashMap

end Chained
