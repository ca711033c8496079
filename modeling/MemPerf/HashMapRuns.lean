import MemPerf.HashMapNodes
import MemPerf.Lib.Assoc
import MemPerf.Lib.Run

/-!
# The hash map as a finite map

A client of `HashMap` searches, inserts keys that are absent, inserts if
absent, and stores through the pointers it was given. What the map then
holds is a list of entries in order of insertion (`contents`), and as
long as no bucket takes more than 65535 of them the nodes behave as that
finite map (`hashMap_behaves`), iteration included unless the iterator's
`int` position is too small (`iteration_iff`).
-/

namespace MemPerf

namespace Linked

open Word Chained StepSystem

variable {κ ν : Type} [DecidableEq κ]

inductive MapOp (κ ν : Type) where
  | find (key : κ)
  | insert (key : κ) (value : ν)
  | insertIfAbsent (key : κ) (value : ν)
  /-- A store through a pointer `p` that was returned for `key`. -/
  | setValue (key : κ) (p : Nat) (value : ν)
deriving DecidableEq, Repr

/-- The map, and the pointers to values that its client was given. -/
structure MapState (κ ν : Type) where
  map : HashMap κ ν
  handed : List (κ × Nat) := []

namespace MapState

def step (s : MapState κ ν) : MapOp κ ν → Option (MapState κ ν)
  | .find key => do
      let found ← s.map.find key
      some { s with handed := (found.map fun p => (key, p)).toList ++ s.handed }
  | .insert key value => do
      let (map, p) ← s.map.insert key value
      some { map, handed := (key, p) :: s.handed }
  | .insertIfAbsent key value => do
      let (map, _) ← s.map.insertIfAbsent key value
      some { s with map }
  | .setValue _ p value => some { s with map := s.map.setValue p value }

end MapState

/-! ## The finite map -/

/-- One operation on the finite map. -/
def applyOp (a : List (Entry κ ν)) : MapOp κ ν → List (Entry κ ν)
  | .find _ => a
  | .insert key value => a ++ [⟨key, value⟩]
  | .insertIfAbsent key value => if lookup key a = none then a ++ [⟨key, value⟩] else a
  | .setValue key _ value => assign key (fun _ => value) a

/-- What a history of operations puts into an empty map. -/
def contents (past : List (MapOp κ ν)) : List (Entry κ ν) := past.foldl applyOp []

theorem contents_snoc (past : List (MapOp κ ν)) (op : MapOp κ ν) :
    contents (past ++ [op]) = applyOp (contents past) op := by
  rw [contents, List.foldl_append]
  rfl

/-- A bucket that holds fewer than 65535 entries has room. -/
def RoomFor (m : HashMap κ ν) (key : κ) (a : List (Entry κ ν)) : Prop :=
  (a.filter fun e => decide (m.hashIndex e.key = m.hashIndex key)).length + 1 < 2 ^ 16

/-- Only absent keys are inserted, no bucket gets more than 65535 entries,
and stores go through pointers that were returned. -/
def Allowed (past : List (MapOp κ ν)) (s : MapState κ ν) : MapOp κ ν → Prop
  | .find _ => True
  | .insert key _ => lookup key (contents past) = none ∧ RoomFor s.map key (contents past)
  | .insertIfAbsent key _ =>
      lookup key (contents past) = none → RoomFor s.map key (contents past)
  | .setValue key p _ => (key, p) ∈ s.handed

/-! ## The invariant -/

/-- The block at `p` is the entry of `key`. -/
def EntryAt (m : HashMap κ ν) (ids : Nat → List Nat) (key : κ) (p : Nat) : Prop :=
  p ∈ ids (m.hashIndex key) ∧ ∃ e, m.entries[p]? = some e ∧ e.key = key

/-- The nodes hold a map of lists, and that holds the finite map. -/
structure Refines (s : MapState κ ν) (a : List (Entry κ ν)) (c : Chained.HashMap κ ν)
    (ids : Nat → List Nat) : Prop where
  rep : s.map.Rep c ids
  holds : c.Holds a
  totalEntry : s.map.totalEntry = a.length
  handed : ∀ key p, (key, p) ∈ s.handed → EntryAt s.map ids key p

/-! ## Initialisation -/

section Init

omit [DecidableEq κ]

theorem initFrom_spec : ∀ (fuel i : Nat) {m m' : HashMap κ ν},
    HashMap.initFrom fuel i m = some m' → i < 2 ^ 32 → i ≤ m.bucketsTotal →
    (∀ b < i, m.count b = 0 ∧ Ring.IsRing m.list (.bucket b) []) →
    m.bucketsTotal < 2 ^ 32 ∧ m'.hashfunc = m.hashfunc ∧ m'.bucketsTotal = m.bucketsTotal
      ∧ m'.totalEntry = m.totalEntry
      ∧ ∀ b < m.bucketsTotal, m'.count b = 0 ∧ Ring.IsRing m'.list (.bucket b) []
  | 0, _, _, _, h, _, _, _ => by cases h
  | fuel + 1, i, m, m', h, hi, hle, hinit => by
      rw [HashMap.initFrom] at h
      split at h
      · next hlt =>
          obtain ⟨b, hb, h⟩ := Option.bind_eq_some_iff.mp h
          obtain rfl : i = b := by
            rw [HashMap.getHashBucket, if_pos hlt] at hb
            exact Option.some.inj hb
          have hnext : ∀ b < i + 1, (m.initBucket i).count b = 0
              ∧ Ring.IsRing (m.initBucket i).list (.bucket b) [] := by
            intro b hb
            rcases Nat.lt_succ_iff_lt_or_eq.mp hb with hb | rfl
            · obtain ⟨hcount, hring⟩ := hinit b hb
              have hne : b ≠ i := Nat.ne_of_lt hb
              refine ⟨by simp [HashMap.initBucket, hne, hcount], hring.congr fun a ha => ?_⟩
              obtain rfl : a = .bucket b := by simpa using ha
              simp [HashMap.initBucket, Ring.init, Ring.setNext, Ring.setPrev, hne]
            · exact ⟨by simp [HashMap.initBucket], Ring.IsRing.init _ _⟩
          by_cases hwrap : i + 1 < 2 ^ 32
          · rw [wrap_of_lt hwrap] at h
            have hrest := initFrom_spec fuel (i + 1) h hwrap hlt hnext
            exact hrest
          · -- the counter wraps and the loop starts over
            have hzero : wrap 32 (i + 1) = 0 := by
              rw [wrap, show i + 1 = 2 ^ 32 by omega, Nat.mod_self]
            rw [hzero] at h
            obtain ⟨hsmall, -⟩ := initFrom_spec fuel 0 h (by decide) (Nat.zero_le _)
              fun b hb => absurd hb (Nat.not_lt_zero b)
            have htotal : m.bucketsTotal < 2 ^ 32 := hsmall
            omega
      · next hge =>
          obtain rfl := Option.some.inj h
          exact ⟨by omega, rfl, rfl, rfl, fun b hb => hinit b (by omega)⟩

theorem initFrom_returns : ∀ (fuel i : Nat) (m : HashMap κ ν), m.bucketsTotal < 2 ^ 32 →
    m.bucketsTotal - i < fuel → ∃ m', HashMap.initFrom fuel i m = some m'
  | 0, _, _, _, hfuel => absurd hfuel (Nat.not_lt_zero _)
  | fuel + 1, i, m, hsmall, hfuel => by
      rw [HashMap.initFrom]
      by_cases hi : i < m.bucketsTotal
      · rw [if_pos hi, HashMap.getHashBucket, if_pos hi, wrap_of_lt (by omega)]
        have hrest := initFrom_returns fuel (i + 1) (m.initBucket i) hsmall
        exact hrest (by simp only [HashMap.initBucket]; omega)
      · exact ⟨m, by rw [if_neg hi]⟩

/-- Initialisation returns when the counter can reach the bucket count. -/
theorem init_returns {size : Nat} (hsize : size < 2 ^ 32) (hfunc : κ → Nat)
    {raw : HashMap κ ν} (hraw : raw.initialized = false) :
    ∃ m, HashMap.init (size + 1) hfunc size raw = some m := by
  obtain ⟨m, hm⟩ := initFrom_returns (size + 1) 0
    { raw with bucketsTotal := size, totalEntry := 0, hashfunc := hfunc } hsize
    (Nat.lt_succ_self _)
  rw [hraw] at hm
  rw [HashMap.init, hraw]
  simp only [Bool.false_eq_true, if_false]
  rw [hm]
  exact ⟨_, rfl⟩

/-- What initialisation leaves behind, for every bucket count. -/
theorem init_spec {fuel size : Nat} {hfunc : κ → Nat} {raw m : HashMap κ ν}
    (hraw : raw.initialized = false) (h : HashMap.init fuel hfunc size raw = some m) :
    size < 2 ^ 32 ∧ m.hashfunc = hfunc ∧ m.bucketsTotal = size ∧ m.totalEntry = 0
      ∧ ∀ b < size, m.count b = 0 ∧ Ring.IsRing m.list (.bucket b) [] := by
  rw [HashMap.init, hraw] at h
  simp only [Bool.false_eq_true, if_false] at h
  obtain ⟨m', hloop, h⟩ := Option.bind_eq_some_iff.mp h
  obtain rfl := Option.some.inj h
  have hspec := initFrom_spec fuel 0 hloop (by decide)
    (Nat.zero_le _) fun b hb => absurd hb (Nat.not_lt_zero b)
  exact hspec

/-- An initialised map holds nothing. -/
theorem init_rep {fuel size : Nat} {hfunc : κ → Nat} {raw m : HashMap κ ν}
    (hraw : raw.initialized = false) (h : HashMap.init fuel hfunc size raw = some m)
    (hpos : 0 < size) :
    m.Rep (Chained.HashMap.init hfunc size hpos) (fun _ => []) ∧ m.totalEntry = 0 := by
  obtain ⟨hsmall, hfun, htotal, hentry, hbuckets⟩ := init_spec hraw h
  exact ⟨⟨hfun, htotal, hsmall, fun i hi => (hbuckets i hi).1, fun i _ => Nat.zero_le _,
    fun i hi => (hbuckets i hi).2, fun i _ => rfl, fun i _ j _ n hn => by cases hn⟩, hentry⟩

end Init

namespace Refines

variable {s : MapState κ ν} {a : List (Entry κ ν)} {c : Chained.HashMap κ ν}
  {ids : Nat → List Nat} {key : κ} {value : ν}

omit [DecidableEq κ] in
theorem init {fuel size : Nat} {hfunc : κ → Nat} {raw m : HashMap κ ν}
    (hraw : raw.initialized = false) (h : HashMap.init fuel hfunc size raw = some m)
    (hpos : 0 < size) :
    Refines { map := m } [] (Chained.HashMap.init hfunc size hpos) fun _ => [] := by
  obtain ⟨hrep, hentry⟩ := init_rep hraw h hpos
  exact ⟨hrep, .init hfunc hpos, hentry, fun _ _ hmem => by cases hmem⟩

/-! ## Searches -/

theorem find_none (h : Refines s a c ids) (hkey : lookup key a = none) :
    s.map.find key = some none := by
  have hnone : c.getEntry key = none := by
    have hfind := h.holds.find key
    rw [hkey] at hfind
    rcases hentry : c.getEntry key with _ | i
    · rfl
    · obtain ⟨v, hv⟩ := Chained.HashMap.getEntry_isSome hentry
      rw [hfind] at hv
      cases hv
  rw [HashMap.find, h.rep.getHashBucket, h.rep.getEntry, hnone]
  rfl

theorem find_some (h : Refines s a c ids) (hkey : lookup key a = some value) :
    ∃ p, s.map.find key = some (some p) ∧ p ∈ ids (s.map.hashIndex key)
      ∧ s.map.entries[p]? = some ⟨key, value⟩ := by
  have hfind := h.holds.find key
  rw [hkey] at hfind
  obtain ⟨i, hi, hget⟩ := Chained.HashMap.find_spec hfind
  have hlt := c.hashIndex_lt key
  have hplace := h.rep.get_entry hlt i
  rw [← Chained.HashMap.home, hget] at hplace
  obtain ⟨p, hp, hentry⟩ := Option.bind_eq_some_iff.mp hplace
  refine ⟨p, ?_, h.rep.hashIndex key ▸ List.mem_of_getElem? hp, hentry⟩
  rw [HashMap.find, h.rep.getHashBucket, h.rep.getEntry, hi, Option.bind_some, hp]

omit [DecidableEq κ] in
/-- The entry of a key that a pointer was returned for. -/
theorem entryAt (h : Refines s a c ids) {p : Nat} (hp : (key, p) ∈ s.handed) :
    ∃ j value, (ids (c.hashIndex key))[j]? = some p
      ∧ c.deref (c.hashIndex key, j) = some ⟨key, value⟩ := by
  obtain ⟨hmem, e, he, rfl⟩ := h.handed key p hp
  rw [h.rep.hashIndex] at hmem
  obtain ⟨j, hj⟩ := List.mem_iff_getElem?.mp hmem
  have hplace := h.rep.get_entry (c.hashIndex_lt e.key) j
  rw [hj, Option.bind_some, he] at hplace
  exact ⟨j, e.value, hj, hplace.symm⟩

/-! ## One operation -/

omit [DecidableEq κ] in
theorem hand (h : Refines s a c ids) {p : Nat} (hp : EntryAt s.map ids key p) :
    Refines { s with handed := (key, p) :: s.handed } a c ids := by
  refine ⟨h.rep, h.holds, h.totalEntry, fun key' p' hmem => ?_⟩
  rcases List.mem_cons.mp hmem with heq | hmem
  · obtain ⟨rfl, rfl⟩ := Prod.mk.inj heq
    exact hp
  · exact h.handed key' p' hmem

theorem insertEntry (h : Refines s a c ids) (hkey : lookup key a = none)
    (hroom : RoomFor s.map key a) (value : ν) :
    ∃ map, s.map.insertEntry (some (c.hashIndex key)) key value
        = some (map, s.map.entries.length)
      ∧ ∃ c' ids', Refines { s with map } (a ++ [⟨key, value⟩]) c' ids'
        ∧ EntryAt map ids' key s.map.entries.length := by
  obtain ⟨map, hmap, hrep, htotal, hentries⟩ := h.rep.insertEntry key value
  have hlen := h.holds.length_le
  have hsmall := h.rep.bucketsTotal_lt
  simp only [RoomFor, h.rep.hashIndex] at hroom
  have hindex : ∀ k, map.hashIndex k = s.map.hashIndex k := fun k => by
    rw [hrep.hashIndex, h.rep.hashIndex, Chained.HashMap.insert_hashIndex]
  refine ⟨map, hmap, c.insert key value, _, ⟨hrep, h.holds.insert hkey hroom, ?_, ?_⟩, ?_, ?_⟩
  · show map.totalEntry = _
    rw [htotal, h.totalEntry, List.length_append, List.length_singleton]
    exact wrap_of_lt (by omega)
  · -- the blocks handed out before stay where they are
    intro key' p hmem
    obtain ⟨hids, e, he, hke⟩ := h.handed key' p hmem
    refine ⟨?_, e, ?_, hke⟩
    · rw [hindex]
      by_cases hb : s.map.hashIndex key' = c.hashIndex key
      · rw [hb, Function.update_self]
        exact List.mem_append_left _ (hb ▸ hids)
      · rw [Function.update_of_ne hb]
        exact hids
    · show map.entries[p]? = some e
      rw [hentries, List.getElem?_append_left (List.getElem?_eq_some_iff.mp he).1]
      exact he
  · rw [hindex, h.rep.hashIndex, Function.update_self]
    simp
  · exact ⟨⟨key, value⟩, by simp [hentries], rfl⟩

theorem setValue (h : Refines s a c ids) {p : Nat} (hp : (key, p) ∈ s.handed) (value : ν) :
    ∃ c', Refines { s with map := s.map.setValue p value } (assign key (fun _ => value) a)
      c' ids := by
  obtain ⟨j, old, hj, hderef⟩ := h.entryAt hp
  refine ⟨_, h.rep.setValue (c.hashIndex_lt key) hj value,
    h.holds.write rfl ⟨old, hderef⟩ _, ?_, fun key' p' hmem => ?_⟩
  · rw [assign_length]
    exact h.totalEntry
  · obtain ⟨hids, e, he, hke⟩ := h.handed key' p' hmem
    refine ⟨hids, ?_⟩
    rw [HashMap.setValue, List.getElem?_modify, he]
    by_cases hpp : p = p'
    · exact ⟨{ e with value := value }, by simp [hpp], hke⟩
    · exact ⟨e, by simp [hpp], hke⟩

/-- An allowed operation returns, and does to the nodes what it does to
the finite map. -/
theorem step {past : List (MapOp κ ν)} {op : MapOp κ ν} (h : Refines s (contents past) c ids)
    (hop : Allowed past s op) :
    ∃ s', s.step op = some s' ∧ ∃ c' ids', Refines s' (contents (past ++ [op])) c' ids' := by
  rw [contents_snoc]
  cases op with
  | find key =>
      rcases hkey : lookup key (contents past) with _ | value
      · exact ⟨s, by simp [MapState.step, h.find_none hkey], c, ids, h⟩
      · obtain ⟨p, hp, hmem, he⟩ := h.find_some hkey
        exact ⟨_, by simp only [MapState.step, hp]; rfl, c, ids, h.hand ⟨hmem, _, he, rfl⟩⟩
  | insert key value =>
      obtain ⟨habsent, hroom⟩ := hop
      obtain ⟨map, hmap, c', ids', h', hentry⟩ := h.insertEntry habsent hroom value
      refine ⟨_, ?_, c', ids', h'.hand hentry⟩
      simp [MapState.step, HashMap.insert, h.rep.getHashBucket, hmap]
  | insertIfAbsent key value =>
      rcases hkey : lookup key (contents past) with _ | old
      · obtain ⟨map, hmap, c', ids', h', -⟩ := h.insertEntry hkey (hop hkey) value
        have hfind := h.find_none hkey
        rw [HashMap.find, h.rep.getHashBucket] at hfind
        refine ⟨{ s with map }, ?_, c', ids', ?_⟩
        · simp [MapState.step, HashMap.insertIfAbsent, h.rep.getHashBucket, hfind, hmap]
        · rw [applyOp, if_pos hkey]
          exact h'
      · obtain ⟨p, hp, -⟩ := h.find_some hkey
        rw [HashMap.find, h.rep.getHashBucket] at hp
        refine ⟨s, ?_, c, ids, ?_⟩
        · simp [MapState.step, HashMap.insertIfAbsent, h.rep.getHashBucket, hp]
        · rw [applyOp, if_neg (by simp [hkey])]
          exact h
  | setValue key p value =>
      obtain ⟨c', h'⟩ := h.setValue hop value
      exact ⟨_, rfl, c', ids, h'⟩

end Refines

/-! ## Runs -/

section Runs

variable {fuel size : Nat} {hfunc : κ → Nat} {raw m : HashMap κ ν} {past : List (MapOp κ ν)}
  {s : MapState κ ν}

theorem run_refines (hraw : raw.initialized = false)
    (hinit : HashMap.init fuel hfunc size raw = some m) (hpos : 0 < size)
    (h : Run MapState.step Allowed { map := m } past s) :
    ∃ c ids, Refines s (contents past) c ids := by
  refine h.inv (fun past s => ∃ c ids, Refines s (contents past) c ids)
    ⟨_, _, Refines.init hraw hinit hpos⟩ fun past s op s' _ hI hop hstep => ?_
  obtain ⟨c, ids, hrefines⟩ := hI
  obtain ⟨s'', hs'', h'⟩ := hrefines.step hop
  rw [hstep] at hs''
  rw [Option.some.inj hs'']
  exact h'

/-- The map behaves as the finite map `a`: a search returns a pointer to
the value of the key or a null pointer, presence is reported as it is and
a present key leaves everything alone, the entries are counted, and the
buckets are well-formed rings as long as their counts say. -/
structure Behaves (m : HashMap κ ν) (a : List (Entry κ ν)) : Prop where
  find_some : ∀ key value, lookup key a = some value →
    ∃ p, m.find key = some (some p) ∧ m.entries[p]? = some ⟨key, value⟩
  find_none : ∀ key, lookup key a = none → m.find key = some none
  insertIfAbsent_some : ∀ key value, lookup key a ≠ none →
    m.insertIfAbsent key value = some (m, true)
  insertIfAbsent_none : ∀ key value, lookup key a = none →
    ∃ m', m.insertIfAbsent key value = some (m', false)
  nodup : (a.map Entry.key).Nodup
  getEntryNumber : m.getEntryNumber = a.length
  ring : ∀ i < m.bucketsTotal, ∃ l, Ring.IsRing m.list (.bucket i) l ∧ l.length = m.count i

/-- **The hash map is a finite map.** After every run of an initialised
map with at least one bucket it behaves as its contents, and the next
operation returns. -/
theorem hashMap_behaves (hraw : raw.initialized = false)
    (hinit : HashMap.init fuel hfunc size raw = some m) (hpos : 0 < size)
    (h : Run MapState.step Allowed { map := m } past s) :
    Behaves s.map (contents past)
    ∧ ∀ op, Allowed past s op → ∃ s', s.step op = some s' := by
  obtain ⟨c, ids, hr⟩ := run_refines hraw hinit hpos h
  refine ⟨⟨fun key value hkey => ?_, fun key => hr.find_none, fun key value hkey => ?_,
    fun key value hkey => ?_, hr.holds.nodup, hr.totalEntry, fun i hi => ?_⟩, fun op hop => ?_⟩
  · obtain ⟨p, hp, -, he⟩ := hr.find_some hkey
    exact ⟨p, hp, he⟩
  · obtain ⟨old, hold⟩ := Option.ne_none_iff_exists'.mp hkey
    obtain ⟨p, hp, -⟩ := hr.find_some hold
    rw [HashMap.find, hr.rep.getHashBucket] at hp
    simp [HashMap.insertIfAbsent, hr.rep.getHashBucket, hp]
  · have hfind := hr.find_none hkey
    rw [HashMap.find, hr.rep.getHashBucket] at hfind
    obtain ⟨map, hmap, -⟩ := hr.rep.insertEntry key value
    exact ⟨map, by simp [HashMap.insertIfAbsent, hr.rep.getHashBucket, hfind, hmap]⟩
  · rw [hr.rep.bucketsTotal] at hi
    refine ⟨_, hr.rep.ring i hi, ?_⟩
    rw [List.length_map, hr.rep.length hi, hr.rep.count i hi, (hr.holds.counted i).1]
  · obtain ⟨s', hs', -⟩ := hr.step hop
    exact ⟨s', hs'⟩

/-- Two keys in one bucket: the second is found by the second step of the
search. -/
theorem hashMap_behaves_two_keys :
    ∃ past s, (∃ m, Run MapState.step Allowed { map := m } past s)
      ∧ contents past = [⟨1, 10⟩, ⟨3, 30⟩]
      ∧ Behaves (s.map : HashMap Nat Nat) (contents past) := by
  let raw : HashMap Nat Nat :=
    { initialized := false, hashfunc := id, bucketsTotal := 0, totalEntry := 0
      count := fun _ => 7, list := fun _ => ⟨.entry 0, .entry 0⟩, entries := [] }
  obtain ⟨m, hm⟩ : ∃ m, HashMap.init 3 id 2 raw = some m := ⟨_, rfl⟩
  have hroom : ∀ (s : MapState Nat Nat) (past : List (MapOp Nat Nat)) (key value : Nat),
      past.length ≤ 1 → lookup key (contents past) = none →
      Allowed past s (.insert key value) := by
    intro s past key value hlen hkey
    refine ⟨hkey, ?_⟩
    have hle : (contents past).length ≤ 1 := by
      rcases past with _ | ⟨op, _ | ⟨op', past⟩⟩
      · exact Nat.zero_le 1
      · cases op <;> simp [contents, applyOp, assign]
      · simp at hlen
    have hfilter := List.length_filter_le
      (fun e => decide (s.map.hashIndex e.key = s.map.hashIndex key)) (contents past)
    unfold RoomFor
    omega
  obtain ⟨-, hnext⟩ := hashMap_behaves rfl hm (by decide) .nil
  obtain ⟨s1, h1⟩ := hnext (.insert 1 10) (hroom _ _ _ _ (by decide) rfl)
  have hrun1 := Run.snoc .nil (hroom _ _ 1 10 (by decide) rfl) h1
  obtain ⟨-, hnext⟩ := hashMap_behaves rfl hm (by decide) hrun1
  obtain ⟨s2, h2⟩ := hnext (.insert 3 30) (hroom _ _ _ _ (by decide) (by decide))
  have hrun2 := hrun1.snoc (hroom _ _ 3 30 (by decide) (by decide)) h2
  exact ⟨_, s2, ⟨m, hrun2⟩, by decide, (hashMap_behaves rfl hm (by decide) hrun2).1⟩

/-- With no buckets the first search reads through a null pointer. -/
theorem no_buckets_no_map :
    ¬ ∀ (fuel size : Nat) (hfunc : Nat → Nat) (raw m : HashMap Nat Nat)
      (past : List (MapOp Nat Nat)) (s : MapState Nat Nat), raw.initialized = false →
      HashMap.init fuel hfunc size raw = some m →
      Run MapState.step Allowed { map := m } past s → Behaves s.map (contents past) := by
  intro h
  let raw : HashMap Nat Nat :=
    { initialized := false, hashfunc := id, bucketsTotal := 0, totalEntry := 0
      count := fun _ => 0, list := fun p => ⟨p, p⟩, entries := [] }
  have hfind := (h 1 0 id raw _ [] _ rfl rfl .nil).find_none 0 rfl
  cases hfind

/-! ## Iteration -/

/-- The entries bucket by bucket, in each in order of insertion. -/
def inOrder (m : HashMap κ ν) (a : List (Entry κ ν)) : List (Entry κ ν) :=
  (List.range m.bucketsTotal).flatMap fun i =>
    a.filter fun e => decide (m.hashIndex e.key = i)

/-- The range loop ends, and visits every entry once with its value, in
order. -/
def VisitsAll (m : HashMap κ ν) (a : List (Entry κ ν)) : Prop :=
  m.Yields m.begin (inOrder m a) ∧ (inOrder m a).Perm a ∧ (a.map Entry.key).Nodup

/-- An allowed operation after a run makes a longer run. -/
theorem run_next (hraw : raw.initialized = false)
    (hinit : HashMap.init fuel hfunc size raw = some m) (hpos : 0 < size)
    (h : Run MapState.step Allowed { map := m } past s) {op : MapOp κ ν}
    (hop : Allowed past s op) : ∃ s', Run MapState.step Allowed { map := m } (past ++ [op]) s' := by
  obtain ⟨c, ids, hr⟩ := run_refines hraw hinit hpos h
  obtain ⟨s', hs', -⟩ := hr.step hop
  exact ⟨s', h.snoc hop hs'⟩

omit [DecidableEq κ] in
theorem Refines.visitsAll_iff {a : List (Entry κ ν)} {c : Chained.HashMap κ ν}
    {ids : Nat → List Nat} (hr : Refines s a c ids) :
    VisitsAll s.map a ↔ a = [] ∨ ∃ e ∈ a, s.map.hashIndex e.key < 2 ^ 31 := by
  have horder : c.iterate = inOrder s.map a := by
    rw [hr.holds.iterate, inOrder, hr.rep.bucketsTotal]
    simp only [Chained.HashMap.part, hr.rep.hashIndex]
  have hperm : (inOrder s.map a).Perm a := by
    rw [← horder, hr.holds.iterate]
    exact Chained.HashMap.Holds.parts_perm_self c _
  have hcount : ∀ i, (c.buckets i).count = (c.part i a).length := fun i => by
    rw [(hr.holds.counted i).1, hr.holds.list]
  have hmem : ∀ {i : Nat} {e}, e ∈ c.part i a ↔ e ∈ a ∧ s.map.hashIndex e.key = i :=
    fun {i e} => by simp [Chained.HashMap.part, hr.rep.hashIndex]
  rw [VisitsAll, ← horder, hr.rep.yields_begin_iff, horder]
  rw [and_iff_left (show _ ∧ _ from ⟨hperm, hr.holds.nodup⟩)]
  refine or_congr ⟨fun hzero => ?_, fun hnil i _ => ?_⟩ ⟨?_, ?_⟩
  · refine List.eq_nil_iff_forall_not_mem.mpr fun e he => ?_
    have hlen := hzero _ (c.hashIndex_lt e.key)
    rw [hcount, List.length_eq_zero_iff] at hlen
    exact absurd (hmem.mpr ⟨he, hr.rep.hashIndex e.key⟩) (by rw [hlen]; simp)
  · rw [hcount, hnil]
    rfl
  · rintro ⟨i, hi, hne, hfits⟩
    rw [hcount] at hne
    obtain ⟨e, he⟩ := List.exists_mem_of_length_pos (Nat.pos_of_ne_zero hne)
    obtain ⟨hin, hindex⟩ := hmem.mp he
    exact ⟨e, hin, hindex ▸ hfits⟩
  · rintro ⟨e, he, hfits⟩
    refine ⟨c.hashIndex e.key, c.hashIndex_lt e.key, ?_, hr.rep.hashIndex e.key ▸ hfits⟩
    rw [hcount]
    exact Nat.ne_of_gt (List.length_pos_of_mem (hmem.mpr ⟨he, hr.rep.hashIndex e.key⟩))

/-- Without buckets nothing runs. -/
theorem run_no_buckets (hraw : raw.initialized = false)
    (hinit : HashMap.init fuel hfunc 0 raw = some m)
    (h : Run MapState.step Allowed { map := m } past s) : past = [] ∧ s = { map := m } := by
  have hbuckets : m.bucketsTotal = 0 := (init_spec hraw hinit).2.2.1
  have hnull : ∀ index, m.getHashBucket index = none := fun index => by
    rw [HashMap.getHashBucket, hbuckets, if_neg (Nat.not_lt_zero index)]
  refine h.inv (fun past s => past = [] ∧ s = { map := m }) ⟨rfl, rfl⟩ ?_
  rintro past s op s' - ⟨rfl, rfl⟩ hop hstep
  cases op with
  | find key => simp [MapState.step, HashMap.find, HashMap.getEntry, hnull] at hstep
  | insert key value => simp [MapState.step, HashMap.insert, HashMap.insertEntry, hnull] at hstep
  | insertIfAbsent key value =>
      simp [MapState.step, HashMap.insertIfAbsent, HashMap.getEntry, hnull] at hstep
  | setValue key p value => cases hop

/-- **Iteration visits all** just when the map is empty or some entry is
in a bucket whose index fits an `int`. -/
theorem iteration_iff (hraw : raw.initialized = false)
    (hinit : HashMap.init fuel hfunc size raw = some m)
    (h : Run MapState.step Allowed { map := m } past s) :
    VisitsAll s.map (contents past) ↔
      contents past = [] ∨ ∃ e ∈ contents past, s.map.hashIndex e.key < 2 ^ 31 := by
  rcases Nat.eq_zero_or_pos size with rfl | hpos
  · obtain ⟨rfl, rfl⟩ := run_no_buckets hraw hinit h
    have hbuckets : m.bucketsTotal = 0 := (init_spec hraw hinit).2.2.1
    refine iff_of_true ⟨?_, ?_, List.nodup_nil⟩ (Or.inl rfl)
    · simp only [inOrder, HashMap.begin, hbuckets, HashMap.skipEmpty]
      exact m.yields_end rfl
    · simp [inOrder, hbuckets, contents]
  · obtain ⟨c, ids, hr⟩ := run_refines hraw hinit hpos h
    exact hr.visitsAll_iff

omit [DecidableEq κ] in
theorem insertEntry_config {m m' : HashMap κ ν} {head : Option Nat} {key : κ} {value : ν} {p : Nat}
    (h : m.insertEntry head key value = some (m', p)) :
    m'.hashfunc = m.hashfunc ∧ m'.bucketsTotal = m.bucketsTotal := by
  obtain ⟨bucket, -, h⟩ := Option.bind_eq_some_iff.mp h
  obtain ⟨rfl, -⟩ := Prod.mk.inj (Option.some.inj h)
  exact ⟨rfl, rfl⟩

/-- No operation changes the hash function or the number of buckets. -/
theorem run_config (h : Run MapState.step Allowed { map := m } past s) :
    s.map.hashfunc = m.hashfunc ∧ s.map.bucketsTotal = m.bucketsTotal := by
  refine h.invariant (fun s => s.map.hashfunc = m.hashfunc ∧ s.map.bucketsTotal = m.bucketsTotal)
    ⟨rfl, rfl⟩ fun past s op s' hs _ hstep => ?_
  cases op with
  | find key =>
      obtain ⟨found, -, hstep⟩ := Option.bind_eq_some_iff.mp hstep
      obtain rfl := Option.some.inj hstep
      exact hs
  | insert key value =>
      obtain ⟨⟨map, p⟩, hmap, hstep⟩ := Option.bind_eq_some_iff.mp hstep
      obtain rfl := Option.some.inj hstep
      obtain ⟨hf, hb⟩ := insertEntry_config hmap
      exact ⟨hf.trans hs.1, hb.trans hs.2⟩
  | insertIfAbsent key value =>
      obtain ⟨⟨map, found⟩, hmap, hstep⟩ := Option.bind_eq_some_iff.mp hstep
      obtain rfl := Option.some.inj hstep
      obtain ⟨entry, -, hmap⟩ := Option.bind_eq_some_iff.mp hmap
      rcases entry with _ | n
      · obtain ⟨⟨map', p⟩, hentry, hmap⟩ := Option.bind_eq_some_iff.mp hmap
        obtain ⟨rfl, -⟩ := Prod.mk.inj (Option.some.inj hmap)
        obtain ⟨hf, hb⟩ := insertEntry_config hentry
        exact ⟨hf.trans hs.1, hb.trans hs.2⟩
      · obtain ⟨rfl, -⟩ := Prod.mk.inj (Option.some.inj hmap)
        exact hs
  | setValue key p value =>
      obtain rfl := Option.some.inj hstep
      exact hs

/-- A map with one entry, and where the entry is. -/
theorem one_entry_run {size : Nat} (hsize : size < 2 ^ 32) (hpos : 0 < size) (key value : Nat) :
    ∃ (raw m : HashMap Nat Nat) (s : MapState Nat Nat), raw.initialized = false
      ∧ HashMap.init (size + 1) id size raw = some m
      ∧ Run MapState.step Allowed { map := m } [.insert key value] s
      ∧ s.map.hashIndex key = key &&& (size - 1) := by
  let raw : HashMap Nat Nat :=
    { initialized := false, hashfunc := id, bucketsTotal := 0, totalEntry := 0
      count := fun _ => 7, list := fun _ => ⟨.entry 0, .entry 0⟩, entries := [] }
  obtain ⟨m, hm⟩ := init_returns hsize id (show raw.initialized = false from rfl)
  have hop : Allowed [] { map := m } (.insert key value) := ⟨rfl, by simp [RoomFor, contents]⟩
  obtain ⟨s, hs⟩ := run_next rfl hm hpos .nil hop
  refine ⟨raw, m, s, rfl, hm, hs, ?_⟩
  obtain ⟨hf, hb⟩ := run_config hs
  obtain ⟨-, hfunc, htotal, -⟩ := init_spec rfl hm
  rw [HashMap.hashIndex, hf, hb, hfunc, htotal, wsub_of_le hpos (by omega)]
  rfl

/-- One entry is visited, the buckets around its own being empty. -/
theorem iteration_one_entry : ∃ s : MapState Nat Nat, s.map.hashIndex 2 = 2
    ∧ VisitsAll s.map [⟨2, 5⟩] := by
  obtain ⟨raw, m, s, hraw, hinit, hrun, hindex⟩ := one_entry_run (show 4 < 2 ^ 32 by decide)
    (by decide) 2 5
  have hall := (iteration_iff hraw hinit hrun).mpr
    (Or.inr ⟨⟨2, 5⟩, by simp [contents, applyOp], by rw [hindex]; decide⟩)
  exact ⟨s, hindex, hall⟩

/-- The only entry is in bucket `2 ^ 31`: the iterator's position becomes
negative and the loop ends at a null bucket. -/
theorem iteration_past_int : ∃ (raw m : HashMap Nat Nat) (s : MapState Nat Nat),
    raw.initialized = false ∧ HashMap.init (2 ^ 31 + 2) id (2 ^ 31 + 1) raw = some m
    ∧ Run MapState.step Allowed { map := m } [.insert (2 ^ 31) 5] s
    ∧ ¬ VisitsAll s.map (contents [.insert (2 ^ 31) 5]) := by
  obtain ⟨raw, m, s, hraw, hinit, hrun, hindex⟩ := one_entry_run
    (show 2 ^ 31 + 1 < 2 ^ 32 by decide) (by decide) (2 ^ 31) 5
  obtain ⟨c, ids, hr⟩ := run_refines hraw hinit (by decide) hrun
  refine ⟨raw, m, s, hraw, hinit, hrun, fun hall => ?_⟩
  rcases hr.visitsAll_iff.mp hall with hnil | ⟨e, he, hfits⟩
  · cases hnil
  · obtain rfl : e = ⟨2 ^ 31, 5⟩ := by simpa [contents, applyOp] using he
    rw [hindex] at hfits
    exact absurd hfits (by decide)

end Runs

end Linked

end MemPerf
