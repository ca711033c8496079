import MemPerf.Lib.HashRefs
import MemPerf.Lib.Ring

/-!
# The hash map with its nodes

`hashmap.hh` as it is in memory: a bucket is the head node of a circular
list and a 16-bit count, an entry is a node with a key and a value, in a
block that `hashMalloc` hands out and never takes back. A search follows
`next` as often as the count says; an insertion goes through the head's
`prev`.

Bucket `i` and the `n`-th block are addresses (`Ptr`). A function is
`none` where the code dereferences a null pointer or reads the key of
something that is no entry; a pointer it returns is an option of its own.

`Rep` ties the nodes to the maps of lists that the other modules use.
-/

namespace MemPerf

namespace Linked

open Word Chained

/-- Where a `list_t` is: in a bucket or in an entry. -/
inductive Ptr where
  | bucket (i : Nat)
  | entry (n : Nat)
deriving DecidableEq, Repr

structure HashMap (κ ν : Type) where
  initialized : Bool
  hashfunc : κ → Nat
  bucketsTotal : Nat
  totalEntry : Nat
  count : Nat → Nat
  list : Ring.Store Ptr
  /-- The blocks of `hashMalloc`, in the order of the calls. -/
  entries : List (Entry κ ν)

namespace HashMap

variable {κ ν : Type}

/-! ## Initialisation -/

def getHashBucket (m : HashMap κ ν) (index : Nat) : Option Nat :=
  if index < m.bucketsTotal then some index else none

/-- `HashBucket::initialize`. -/
def initBucket (m : HashMap κ ν) (bucket : Nat) : HashMap κ ν :=
  { m with
    count := Function.update m.count bucket 0
    list := Ring.init (.bucket bucket) m.list }

/-- The loop of `initialize` from `i` on. `i` is an `unsigned int`, the
bound a `size_t`, so the loop may run for ever. -/
def initFrom : Nat → Nat → HashMap κ ν → Option (HashMap κ ν)
  | 0, _, _ => none
  | fuel + 1, i, m =>
      if i < m.bucketsTotal then do
        let bucket ← m.getHashBucket i
        initFrom fuel (wrap 32 (i + 1)) (m.initBucket bucket)
      else some m

/-- `initialize`, in at most `fuel` rounds, of a map with whatever is in
its memory. -/
def init (fuel : Nat) (hfunc : κ → Nat) (size : Nat) (m : HashMap κ ν) :
    Option (HashMap κ ν) :=
  if m.initialized then some m
  else do
    let m ← initFrom fuel 0
      { m with bucketsTotal := size, totalEntry := 0, hashfunc := hfunc }
    some { m with initialized := true }

/-! ## Searches -/

def hashIndex (m : HashMap κ ν) (key : κ) : Nat := m.hashfunc key &&& wsub 64 m.bucketsTotal 1

section Find

variable [DecidableEq κ]

/-- The `while(count > 0)` loop of `getEntry` at `entry`. -/
def getEntryFrom (m : HashMap κ ν) (key : κ) : Nat → Ptr → Option (Option Nat)
  | 0, _ => some none
  | _ + 1, .bucket _ => none
  | count + 1, .entry n => do
      let e ← m.entries[n]?
      if e.key = key then some (some n)
      else m.getEntryFrom key count (m.list (.entry n)).next

def getEntry (m : HashMap κ ν) (first : Option Nat) (key : κ) : Option (Option Nat) := do
  let bucket ← first
  m.getEntryFrom key (m.count bucket) (m.list (.bucket bucket)).next

/-- The entry behind the pointer to a value that `find` returns. -/
def find (m : HashMap κ ν) (key : κ) : Option (Option Nat) :=
  m.getEntry (m.getHashBucket (m.hashIndex key)) key

end Find

/-! ## Insertions -/

def insertEntry (m : HashMap κ ν) (head : Option Nat) (key : κ) (value : ν) :
    Option (HashMap κ ν × Nat) := do
  let bucket ← head
  let entry := m.entries.length
  let list := Ring.init (.entry entry) m.list
  some ({ m with
    entries := m.entries ++ [⟨key, value⟩]
    list := Ring.insertTail (.entry entry) (.bucket bucket) list
    count := Function.update m.count bucket (wrap 16 (m.count bucket + 1))
    totalEntry := wrap 64 (m.totalEntry + 1) }, entry)

def insert (m : HashMap κ ν) (key : κ) (value : ν) : Option (HashMap κ ν × Nat) :=
  m.insertEntry (m.getHashBucket (m.hashIndex key)) key value

/-- The map afterwards and `isFound`. -/
def insertIfAbsent [DecidableEq κ] (m : HashMap κ ν) (key : κ) (value : ν) :
    Option (HashMap κ ν × Bool) := do
  let first := m.getHashBucket (m.hashIndex key)
  match ← m.getEntry first key with
  | some _ => some (m, true)
  | none => do
      let (m, _) ← m.insertEntry first key value
      some (m, false)

def getEntryNumber (m : HashMap κ ν) : Nat := m.totalEntry

/-- The caller stores through a pointer it was given. -/
def setValue (m : HashMap κ ν) (p : Nat) (value : ν) : HashMap κ ν :=
  { m with entries := m.entries.modify p fun e => { e with value := value } }

/-! ## Iteration -/

structure Iterator where
  entry : Option Ptr
  pos : Nat
deriving DecidableEq, Repr

/-- The iterator's constructor takes the position as an `int`. -/
def Iterator.mk' (ientry : Option Ptr) (ipos : Int) : Iterator :=
  { entry := ientry, pos := (ipos % 2 ^ 64).toNat }

/-- The first bucket at or after `pos`, among `n`, that counts an entry. -/
def skipEmpty (m : HashMap κ ν) : Nat → Nat → Option Nat
  | 0, _ => none
  | n + 1, pos => if m.count pos ≠ 0 then some pos else m.skipEmpty n (pos + 1)

def firstEntry (m : HashMap κ ν) (bucket : Nat) : Ptr := (m.list (.bucket bucket)).next

def end' : Iterator := .mk' none 0

def begin (m : HashMap κ ν) : Iterator :=
  match m.skipEmpty m.bucketsTotal 0 with
  | some pos => .mk' (some (m.firstEntry pos)) (swrap 32 pos)
  | none => end'

/-- `operator++`. -/
def advance (m : HashMap κ ν) (it : Iterator) : Option Iterator := do
  let hashentry ← m.getHashBucket it.pos
  if some (m.list (.bucket hashentry)).prev ≠ it.entry then do
    let entry ← it.entry
    some { it with entry := some (m.list entry).next }
  else
    let pos := wrap 64 (it.pos + 1)
    match m.skipEmpty (m.bucketsTotal - pos) pos with
    | some pos => some { entry := some (m.firstEntry pos), pos := pos }
    | none => some { entry := none, pos := max pos m.bucketsTotal }

/-- `operator*`: a copy of the entry. -/
def get (m : HashMap κ ν) : Ptr → Option (Entry κ ν)
  | .bucket _ => none
  | .entry n => m.entries[n]?

/-- `for(auto e : map)` from an iterator on, in at most `fuel` rounds:
the entries it visits. -/
def rangeFrom (m : HashMap κ ν) : Nat → Iterator → Option (List (Entry κ ν))
  | 0, _ => none
  | fuel + 1, it =>
      match it.entry with
      | none => some []
      | some p => do
          let e ← m.get p
          let it ← m.advance it
          let rest ← m.rangeFrom fuel it
          some (e :: rest)

def range (m : HashMap κ ν) (fuel : Nat) : Option (List (Entry κ ν)) := m.rangeFrom fuel m.begin

/-! ## The nodes of a map of lists -/

/-- The nodes hold the lists of `c`: bucket `i` is the ring of the blocks
`ids i`, and they hold its entries in order. -/
structure Rep (m : HashMap κ ν) (c : Chained.HashMap κ ν) (ids : Nat → List Nat) : Prop where
  hashfunc : m.hashfunc = c.hashfunc
  bucketsTotal : m.bucketsTotal = c.bucketsTotal
  bucketsTotal_lt : c.bucketsTotal < 2 ^ 32
  count : ∀ i < c.bucketsTotal, m.count i = (c.buckets i).count
  count_le : ∀ i < c.bucketsTotal, (c.buckets i).count ≤ (c.buckets i).list.length
  ring : ∀ i < c.bucketsTotal, Ring.IsRing m.list (.bucket i) ((ids i).map .entry)
  entries : ∀ i < c.bucketsTotal,
    (ids i).map (fun n => m.entries[n]?) = (c.buckets i).list.map some
  apart : ∀ i < c.bucketsTotal, ∀ j < c.bucketsTotal, ∀ n ∈ ids i, n ∈ ids j → i = j

namespace Rep

variable {m : HashMap κ ν} {c : Chained.HashMap κ ν} {ids : Nat → List Nat}

theorem hashIndex (h : Rep m c ids) (key : κ) : m.hashIndex key = c.hashIndex key := by
  have hpos := c.bucketsTotal_pos
  have hlt := h.bucketsTotal_lt
  rw [HashMap.hashIndex, Chained.HashMap.hashIndex, h.hashfunc, h.bucketsTotal,
    wsub_of_le hpos (by omega)]

theorem getHashBucket (h : Rep m c ids) (key : κ) :
    m.getHashBucket (m.hashIndex key) = some (c.hashIndex key) := by
  rw [h.hashIndex, HashMap.getHashBucket, h.bucketsTotal, if_pos (c.hashIndex_lt key)]

/-- The place of a block in its bucket's list. -/
theorem get_entry (h : Rep m c ids) {i : Nat} (hi : i < c.bucketsTotal) (j : Nat) :
    ((ids i)[j]?).bind (fun n => m.entries[n]?) = (c.buckets i).list[j]? := by
  have hget := congrArg (fun l => l[j]?) (h.entries i hi)
  simp only [List.getElem?_map] at hget
  cases hid : (ids i)[j]? with
  | none =>
      rw [hid] at hget
      cases hlist : (c.buckets i).list[j]? with
      | none => rfl
      | some e => simp [hlist] at hget
  | some n =>
      rw [hid] at hget
      cases hlist : (c.buckets i).list[j]? with
      | none => simp [hlist] at hget
      | some e => simpa [hlist] using hget

theorem length (h : Rep m c ids) {i : Nat} (hi : i < c.bucketsTotal) :
    (ids i).length = (c.buckets i).list.length := by
  simpa using congrArg List.length (h.entries i hi)

theorem lt_length (h : Rep m c ids) {i n : Nat} (hi : i < c.bucketsTotal) (hn : n ∈ ids i) :
    n < m.entries.length := by
  have hmem : m.entries[n]? ∈ (c.buckets i).list.map some :=
    h.entries i hi ▸ List.mem_map_of_mem hn
  obtain ⟨e, -, he⟩ := List.mem_map.mp hmem
  exact (List.getElem?_eq_some_iff.mp he.symm).1

/-! ## Searches -/

section Find

variable [DecidableEq κ]

/-- The loop from a node on finds what stands in the rest of the list. -/
theorem getEntryFrom (h : Rep m c ids) {i : Nat} (hi : i < c.bucketsTotal) (key : κ) :
    ∀ (suf pre : List Nat) (es : List (Entry κ ν)) (count : Nat), ids i = pre ++ suf →
      suf.map (fun n => m.entries[n]?) = es.map some → count ≤ es.length →
      m.getEntryFrom key count ((suf.map Ptr.entry).headD (.bucket i))
        = some (((es.take count).findIdx? fun e => decide (e.key = key)).bind fun j => suf[j]?)
  | suf, pre, es, 0, _, _, _ => by simp [HashMap.getEntryFrom]
  | suf, pre, [], count + 1, _, _, hcount => absurd hcount (Nat.not_succ_le_zero count)
  | [], pre, e :: es, count + 1, _, hes, _ => by simp at hes
  | n :: suf, pre, e :: es, count + 1, hids, hes, hcount => by
      obtain ⟨hn, hrest⟩ := List.cons.inj hes
      have hring := h.ring i hi
      rw [hids, List.map_append, List.map_cons] at hring
      simp only [List.map_cons, List.headD_cons, HashMap.getEntryFrom, hn, bind, Option.bind,
        hring.next_eq, List.take_succ_cons, List.findIdx?_cons]
      by_cases hk : e.key = key
      · simp [hk]
      · rw [if_neg hk, getEntryFrom h hi key suf (pre ++ [n]) es count (by simp [hids]) hrest
          (Nat.le_of_succ_le_succ hcount)]
        simp only [hk, decide_false, Bool.false_eq_true, if_false]
        cases (es.take count).findIdx? fun e => decide (e.key = key) <;> rfl

theorem getEntry (h : Rep m c ids) (key : κ) :
    m.getEntry (some (c.hashIndex key)) key
      = some ((c.getEntry key).bind fun j => (ids (c.hashIndex key))[j]?) := by
  have hi := c.hashIndex_lt key
  have hring := h.ring _ hi
  rw [HashMap.getEntry]
  simp only [bind, Option.bind, h.count _ hi, hring.head_next]
  exact h.getEntryFrom hi key _ [] _ _ rfl (h.entries _ hi) (h.count_le _ hi)

end Find

/-! ## Insertions -/

theorem new_notMem (h : Rep m c ids) {i : Nat} (hi : i < c.bucketsTotal) :
    Ptr.entry m.entries.length ∉ Ptr.bucket i :: (ids i).map Ptr.entry := by
  intro hmem
  rcases List.mem_cons.mp hmem with hmem | hmem
  · cases hmem
  · obtain ⟨n, hn, hentry⟩ := List.mem_map.mp hmem
    cases hentry
    exact Nat.lt_irrefl _ (h.lt_length hi hn)

/-- A new block by itself does not touch the rings. -/
theorem ring_init (h : Rep m c ids) {i : Nat} (hi : i < c.bucketsTotal) :
    Ring.IsRing (Ring.init (.entry m.entries.length) m.list) (.bucket i)
      ((ids i).map .entry) := by
  refine (h.ring i hi).congr fun a ha => ?_
  have hne : a ≠ .entry m.entries.length := fun heq => h.new_notMem hi (heq ▸ ha)
  simp [Ring.init, Ring.setNext, Ring.setPrev, hne]

/-- An insertion into one ring does not touch the others. -/
theorem ring_insert_of_ne (h : Rep m c ids) {b i : Nat} (hb : b < c.bucketsTotal)
    (hi : i < c.bucketsTotal) (hne : i ≠ b) :
    Ring.IsRing (Ring.insertTail (.entry m.entries.length) (.bucket b)
      (Ring.init (.entry m.entries.length) m.list)) (.bucket i) ((ids i).map .entry) := by
  refine (h.ring_init hi).congr fun a ha => Ring.insertTail_of_ne ?_ ?_ ?_
  · exact fun heq => h.new_notMem hi (heq ▸ ha)
  · rintro rfl
    rcases List.mem_cons.mp ha with ha | ha
    · cases ha
      exact hne rfl
    · obtain ⟨n, -, hn⟩ := List.mem_map.mp ha
      cases hn
  · rw [(h.ring_init hb).head_prev]
    rintro rfl
    rcases List.eq_nil_or_concat' (ids b) with hnil | ⟨before, last, hlast⟩
    · rw [hnil] at ha
      rcases List.mem_cons.mp ha with ha | ha
      · cases ha
        exact hne rfl
      · obtain ⟨n, -, hn⟩ := List.mem_map.mp ha
        cases hn
    · rw [hlast, List.map_append, List.map_singleton, List.getLastD_concat] at ha
      rcases List.mem_cons.mp ha with ha | ha
      · cases ha
      · obtain ⟨n, hn, hentry⟩ := List.mem_map.mp ha
        cases hentry
        exact hne (h.apart i hi b hb _ hn (by rw [hlast]; simp))

theorem insertEntry (h : Rep m c ids) (key : κ) (value : ν) :
    ∃ m', m.insertEntry (some (c.hashIndex key)) key value = some (m', m.entries.length)
      ∧ Rep m' (c.insert key value) (Function.update ids (c.hashIndex key)
          (ids (c.hashIndex key) ++ [m.entries.length]))
      ∧ m'.totalEntry = wrap 64 (m.totalEntry + 1)
      ∧ m'.entries = m.entries ++ [⟨key, value⟩] := by
  have hb := c.hashIndex_lt key
  refine ⟨_, rfl, ⟨h.hashfunc, h.bucketsTotal, h.bucketsTotal_lt, fun i hi => ?_, fun i hi => ?_,
    fun i hi => ?_, fun i hi => ?_, fun i hi j hj n hni hnj => ?_⟩, rfl, rfl⟩
  · by_cases hib : i = c.hashIndex key
    · subst hib
      simp [Chained.HashMap.insert, Chained.HashMap.home, h.count _ hi]
    · simp only [Function.update_of_ne hib]
      rw [Chained.HashMap.insert, Chained.HashMap.setBucket_of_ne _ hib]
      exact h.count i hi
  · by_cases hib : i = c.hashIndex key
    · subst hib
      have hle := h.count_le _ hi
      simp only [Chained.HashMap.insert, Chained.HashMap.setBucket_self, Chained.HashMap.home,
        List.length_append, List.length_singleton]
      exact (Nat.mod_le _ _).trans (Nat.succ_le_succ hle)
    · rw [Chained.HashMap.insert, Chained.HashMap.setBucket_of_ne _ hib]
      exact h.count_le i hi
  · by_cases hib : i = c.hashIndex key
    · subst hib
      rw [Function.update_self, List.map_append]
      exact (h.ring_init hi).insertTail (h.new_notMem hi)
    · rw [Function.update_of_ne hib]
      exact h.ring_insert_of_ne hb hi hib
  · have hold : (ids i).map (fun n => (m.entries ++ [⟨key, value⟩])[n]?)
        = (c.buckets i).list.map some := by
      rw [← h.entries i hi]
      exact List.map_congr_left fun n hn => List.getElem?_append_left (h.lt_length hi hn)
    by_cases hib : i = c.hashIndex key
    · subst hib
      simp only [Function.update_self, List.map_append, hold, Chained.HashMap.insert,
        Chained.HashMap.setBucket_self, Chained.HashMap.home]
      simp
    · simp only [Function.update_of_ne hib, hold]
      rw [Chained.HashMap.insert, Chained.HashMap.setBucket_of_ne _ hib]
  · -- the new block is in no other bucket
    have hnew : ∀ k, k < c.bucketsTotal → ∀ n, n ∈ Function.update ids (c.hashIndex key)
        (ids (c.hashIndex key) ++ [m.entries.length]) k →
        n ∈ ids k ∨ (n = m.entries.length ∧ k = c.hashIndex key) := by
      intro k hk n hn
      by_cases hkb : k = c.hashIndex key
      · subst hkb
        rw [Function.update_self, List.mem_append, List.mem_singleton] at hn
        exact hn.imp_right fun hn => ⟨hn, rfl⟩
      · rw [Function.update_of_ne hkb] at hn
        exact Or.inl hn
    rcases hnew i hi n hni with hni | ⟨rfl, rfl⟩ <;> rcases hnew j hj _ hnj with hnj | ⟨hn, rfl⟩
    · exact h.apart i hi j hj n hni hnj
    · exact absurd (h.lt_length hi hni) (by omega)
    · exact absurd (h.lt_length hj hnj) (by omega)
    · rfl

/-- A store through the pointer to an entry. -/
theorem setValue (h : Rep m c ids) {i j p : Nat} (hi : i < c.bucketsTotal)
    (hp : (ids i)[j]? = some p) (value : ν) :
    Rep (m.setValue p value) (c.write (i, j) fun _ => value) ids := by
  have hlen : j < (ids i).length := (List.getElem?_eq_some_iff.mp hp).1
  have hmem : p ∈ ids i := List.mem_of_getElem? hp
  have hnodup : (ids i).Nodup :=
    List.Nodup.of_map _ (List.nodup_cons.mp (h.ring i hi).nodup).2
  refine ⟨h.hashfunc, h.bucketsTotal, h.bucketsTotal_lt, fun k hk => ?_, fun k hk => ?_,
    h.ring, fun k hk => ?_, h.apart⟩
  · rw [(c.write_buckets (i, j) _ k).2]
    exact h.count k hk
  · rw [(c.write_buckets (i, j) _ k).2, Chained.HashMap.write_length]
    exact h.count_le k hk
  · refine List.ext_getElem? fun l => ?_
    have hget := h.get_entry hk l
    have hwrite := c.deref_write (i, j) (fun _ => value) (k, l)
    simp only [Chained.HashMap.deref, Prod.mk.injEq] at hwrite
    rw [List.getElem?_map, List.getElem?_map, hwrite]
    cases hid : (ids k)[l]? with
    | none =>
        rw [hid] at hget
        simp only [← hget, Option.bind_none, Option.map_none, ite_self]
    | some n =>
        rw [hid, Option.bind_some] at hget
        have hn := List.mem_of_getElem? hid
        obtain ⟨e, he⟩ : ∃ e, m.entries[n]? = some e :=
          ⟨_, List.getElem?_eq_getElem (h.lt_length hk hn)⟩
        rw [Option.map_some, HashMap.setValue, List.getElem?_modify, ← hget, he]
        by_cases hnp : p = n
        · subst hnp
          obtain rfl := h.apart k hk i hi p hn hmem
          obtain rfl := (List.getElem?_inj hlen hnodup).mp (hp.trans hid.symm)
          simp
        · have hplace : ¬ (k = i ∧ l = j) := by
            rintro ⟨rfl, rfl⟩
            exact hnp (Option.some.inj (hp.symm.trans hid))
          simp [hnp, hplace]

/-! ## Iteration -/

end Rep

theorem skipEmpty_some (m : HashMap κ ν) : ∀ (n : Nat) {pos p : Nat}, m.skipEmpty n pos = some p →
    pos ≤ p ∧ p < pos + n ∧ m.count p ≠ 0 ∧ ∀ q, pos ≤ q → q < p → m.count q = 0
  | 0, _, _, h => by cases h
  | n + 1, pos, p, h => by
      rw [skipEmpty] at h
      split at h
      · next hcount =>
          obtain rfl := Option.some.inj h
          exact ⟨le_rfl, by omega, hcount, fun q hq hlt => absurd hq (Nat.not_le_of_lt hlt)⟩
      · next hcount =>
          obtain ⟨hle, hlt, hp, hmin⟩ := skipEmpty_some m n h
          refine ⟨by omega, by omega, hp, fun q hq hqp => ?_⟩
          rcases Nat.eq_or_lt_of_le hq with rfl | hq
          · exact not_not.mp hcount
          · exact hmin q hq hqp

theorem skipEmpty_none (m : HashMap κ ν) : ∀ (n : Nat) {pos : Nat}, m.skipEmpty n pos = none →
    ∀ q, pos ≤ q → q < pos + n → m.count q = 0
  | 0, _, _, q, hle, hlt => absurd hle (Nat.not_le_of_lt hlt)
  | n + 1, pos, h, q, hle, hlt => by
      rw [skipEmpty] at h
      split at h
      · cases h
      · next hcount =>
          rcases Nat.eq_or_lt_of_le hle with rfl | hle
          · exact not_not.mp hcount
          · exact skipEmpty_none m n h q hle (by omega)

/-- The loop from `it` on ends and visits `l`. -/
def Yields (m : HashMap κ ν) (it : Iterator) (l : List (Entry κ ν)) : Prop :=
  ∃ rounds, ∀ fuel, rounds ≤ fuel → m.rangeFrom fuel it = some l

theorem yields_end (m : HashMap κ ν) {it : Iterator} (h : it.entry = none) : Yields m it [] := by
  refine ⟨1, fun fuel hfuel => ?_⟩
  obtain ⟨fuel, rfl⟩ := Nat.exists_eq_add_of_le' hfuel
  rw [rangeFrom, h]

theorem Yields.step {m : HashMap κ ν} {it it' : Iterator} {p : Ptr} {e : Entry κ ν}
    {l : List (Entry κ ν)} (hp : it.entry = some p) (he : m.get p = some e)
    (hnext : m.advance it = some it') (h : Yields m it' l) : Yields m it (e :: l) := by
  obtain ⟨rounds, h⟩ := h
  refine ⟨rounds + 1, fun fuel hfuel => ?_⟩
  obtain ⟨fuel, rfl⟩ := Nat.exists_eq_add_of_le' (Nat.le_of_add_left_le hfuel)
  rw [rangeFrom, hp]
  simp only [he, hnext, bind, Option.bind, h fuel (by omega)]

theorem Yields.unique {m : HashMap κ ν} {it : Iterator} {l l' : List (Entry κ ν)}
    (h : Yields m it l) (h' : Yields m it l') : l = l' := by
  obtain ⟨rounds, h⟩ := h
  obtain ⟨rounds', h'⟩ := h'
  exact Option.some.inj ((h _ (le_max_left rounds rounds')).symm.trans (h' _ (le_max_right ..)))

namespace Rep

variable {m : HashMap κ ν} {c : Chained.HashMap κ ν} {ids : Nat → List Nat}

/-- What an iteration visits from bucket `pos` on. -/
def iterateFrom (c : Chained.HashMap κ ν) (pos : Nat) : List (Entry κ ν) :=
  (List.range' pos (c.bucketsTotal - pos)).flatMap fun i =>
    if (c.buckets i).count = 0 then [] else (c.buckets i).list

/-- Where the search for the next bucket leaves an iterator. -/
def iteratorAt (m : HashMap κ ν) (pos : Nat) : Iterator :=
  match m.skipEmpty (m.bucketsTotal - pos) pos with
  | some p => { entry := some (m.firstEntry p), pos := p }
  | none => { entry := none, pos := max pos m.bucketsTotal }

/-- From a node of bucket `i` on: the rest of the bucket, then the
buckets after it. -/
theorem yields_bucket (h : Rep m c ids) {i : Nat} (hi : i < c.bucketsTotal)
    (hrest : Yields m (iteratorAt m (i + 1)) (iterateFrom c (i + 1))) :
    ∀ (suf pre : List Nat) (n : Nat) (es : List (Entry κ ν)), ids i = pre ++ n :: suf →
      (n :: suf).map (fun n => m.entries[n]?) = es.map some →
      Yields m { entry := some (.entry n), pos := i } (es ++ iterateFrom c (i + 1))
  | suf, pre, n, [], _, hes => by simp at hes
  | suf, pre, n, e :: es, hids, hes => by
      obtain ⟨hn, hes⟩ := List.cons.inj hes
      have hring := h.ring i hi
      rw [hids, List.map_append, List.map_cons] at hring
      have hbucket : m.getHashBucket i = some i := by
        rw [HashMap.getHashBucket, h.bucketsTotal, if_pos hi]
      have htail := hring.head_prev_eq_iff
      have hnext := hring.next_eq
      rcases suf with _ | ⟨n', suf⟩
      · -- the last node of its bucket
        obtain rfl : es = [] := by simpa using hes.symm
        refine Yields.step rfl hn ?_ hrest
        have hsmall := h.bucketsTotal_lt
        have hpos : wrap 64 (i + 1) = i + 1 := wrap_of_lt (by omega)
        simp only [HashMap.advance, hbucket, bind, Option.bind, htail.mpr rfl, hpos, iteratorAt]
        rw [if_neg (by simp)]
        cases m.skipEmpty (m.bucketsTotal - (i + 1)) (i + 1) <;> rfl
      · have hne : (m.list (.bucket i)).prev ≠ .entry n := fun heq => by
          cases htail.mp heq
        refine Yields.step rfl hn ?_ (yields_bucket h hi hrest suf (pre ++ [n]) n' es
          (by simp [hids]) hes)
        simp only [HashMap.advance, hbucket, bind, Option.bind, hnext, List.map_cons,
          List.headD_cons]
        rw [if_pos (by simpa using hne)]

theorem yields_iteratorAt (h : Rep m c ids) : ∀ (n pos : Nat), pos + n = c.bucketsTotal →
    Yields m (iteratorAt m pos) (iterateFrom c pos)
  | 0, pos, hn => by
      have hzero : c.bucketsTotal - pos = 0 := by omega
      rw [iteratorAt, iterateFrom, h.bucketsTotal, hzero]
      exact yields_end m rfl
  | n + 1, pos, hn => by
      have hi : pos < c.bucketsTotal := by omega
      have hrest := yields_iteratorAt h n (pos + 1) (by omega)
      have hlen : c.bucketsTotal - pos = c.bucketsTotal - (pos + 1) + 1 := by omega
      rw [iteratorAt, iterateFrom, h.bucketsTotal, hlen, List.range'_succ, List.flatMap_cons,
        skipEmpty, h.count pos hi]
      by_cases hcount : (c.buckets pos).count = 0
      · have hend : max pos c.bucketsTotal = max (pos + 1) c.bucketsTotal := by omega
        rw [if_neg (not_not.mpr hcount), if_pos hcount, List.nil_append, hend]
        rw [iteratorAt, iterateFrom, h.bucketsTotal] at hrest
        exact hrest
      · rw [if_pos hcount, if_neg hcount]
        have hlen := h.length hi
        have hle := h.count_le pos hi
        rcases hids : ids pos with _ | ⟨n, suf⟩
        · simp only [hids, List.length_nil] at hlen
          omega
        · have hfirst : m.firstEntry pos = .entry n := by
            rw [firstEntry, (h.ring pos hi).head_next, hids]
            rfl
          simp only [hfirst]
          exact h.yields_bucket hi hrest suf [] n _ hids (by rw [← hids, h.entries pos hi])

theorem iterate_eq (c : Chained.HashMap κ ν) : c.iterate = iterateFrom c 0 := by
  rw [Chained.HashMap.iterate, iterateFrom, List.range_eq_range', Nat.sub_zero]

/-- **The range loop visits what the map of lists iterates over**, unless
the position of the first entry does not fit an `int`: then the first
step ends at no bucket. -/
theorem yields_begin_iff (h : Rep m c ids) : Yields m m.begin c.iterate ↔
    (∀ i < c.bucketsTotal, (c.buckets i).count = 0)
    ∨ ∃ i < c.bucketsTotal, (c.buckets i).count ≠ 0 ∧ i < 2 ^ 31 := by
  have hfrom := h.yields_iteratorAt c.bucketsTotal 0 (Nat.zero_add _)
  have hsmall := h.bucketsTotal_lt
  rw [iterate_eq, begin]
  rw [iteratorAt, Nat.sub_zero] at hfrom
  cases hskip : m.skipEmpty m.bucketsTotal 0 with
  | none =>
      have hzero := m.skipEmpty_none _ hskip
      rw [h.bucketsTotal] at hzero
      rw [hskip] at hfrom
      have hempty : ∀ i < c.bucketsTotal, (c.buckets i).count = 0 := fun i hi => by
        rw [← h.count i hi]
        exact hzero i (Nat.zero_le i) (by omega)
      rw [hfrom.unique (yields_end m rfl)]
      exact iff_of_true (yields_end m rfl) (Or.inl hempty)
  | some pos =>
      obtain ⟨-, hlt, hcount, hmin⟩ := m.skipEmpty_some _ hskip
      rw [h.bucketsTotal] at hlt
      rw [hskip] at hfrom
      rw [h.count pos (by omega)] at hcount
      by_cases hfits : pos < 2 ^ 31
      · have hpos : Iterator.mk' (some (m.firstEntry pos)) (swrap 32 pos)
            = { entry := some (m.firstEntry pos), pos := pos } := by
          rw [Iterator.mk', swrap_of_range (by omega) (by omega)]
          congr 1
          omega
        simp only [hpos]
        exact iff_of_true hfrom (Or.inr ⟨pos, by omega, hcount, hfits⟩)
      · refine iff_of_false ?_ ?_
        · rintro ⟨rounds, hrounds⟩
          have hswrap : swrap 32 (pos : Int) = pos - 2 ^ 32 := by
            rw [swrap, Int.bmod_def]
            omega
          have hround := hrounds (rounds + 1) (Nat.le_succ rounds)
          simp only [hswrap, Iterator.mk', rangeFrom] at hround
          have hout : m.getHashBucket (((pos : Int) - 2 ^ 32) % 2 ^ 64).toNat = none := by
            rw [HashMap.getHashBucket, h.bucketsTotal, if_neg (by omega)]
          simp only [advance, hout, bind, Option.bind_none, Option.bind_eq_some_iff] at hround
          obtain ⟨e, -, it, hit, -⟩ := hround
        · rintro (hzero | ⟨i, hi, hi0, hi31⟩)
          · exact hcount (hzero pos (by omega))
          · refine hi0 ?_
            rw [← h.count i hi]
            exact hmin i (Nat.zero_le i) (by omega)

end Rep

end HashMap

end Linked

end MemPerf
