import MemPerf.Lib.SpinLock
import MemPerf.PageTables

/-!
# Making tables while other threads look them up

`getMegaMapEntry` and `getCacheMapEntry(true)` of the original tree make
a table when they find none: they test the entry, take `mega_map_lock` or
`cache_map_lock`, test it again, move the bump pointer and store the
table. Both are the same double check, over two maps with a lock and a
bump pointer each, so there is one program with the kind of table as a
parameter. A call ends with the caller's read of the entry.

Any number of threads call them, one memory access of one thread at a
time. The test before the lock may come at any point of another thread's
section. What it relies on is that an entry once set stays.
-/

namespace MemPerf.Original

open SpinLock StepSystem

/-- Tables of page entries, one a megabyte, and tables of line entries,
one a page entry; also the lock under which they are made. -/
inductive TableKind where
  | mega
  | cache
deriving DecidableEq, Repr

namespace TableKind

/-- Entries of a table. -/
def stride : TableKind → Nat
  | mega => numPagesPerMegabyte
  | cache => numCachelinesPerPage

/-- Entries of the map the tables are in. -/
def limit : TableKind → Nat
  | mega => maxPageMapEntries
  | cache => maxCacheMapEntries

/-- Entries that can point to a table. -/
def keys : TableKind → Nat
  | mega => numMegabyteMapEntries
  | cache => maxPageMapEntries

theorem limit_pos (kind : TableKind) : 0 < kind.limit := by
  cases kind <;> decide

end TableKind

namespace ShadowMemory

/-- `*mega_entry` or `cache_map_entry`. -/
def entry (s : ShadowMemory) : TableKind → Nat → Option Nat
  | .mega, megaIndex => s.megaMap megaIndex
  | .cache, page => (s.pageMap page).cacheMapEntry

def setEntry (s : ShadowMemory) (kind : TableKind) (key table : Nat) : ShadowMemory :=
  match kind with
  | .mega => { s with megaMap := Function.update s.megaMap key (some table) }
  | .cache => s.modifyPage key fun e => { e with cacheMapEntry := some table }

/-- `page_map_bump_ptr` or `cache_map_bump_ptr`. -/
def bumpPtr (s : ShadowMemory) : TableKind → Nat
  | .mega => s.pageMapBumpPtr
  | .cache => s.cacheMapBumpPtr

def setBumpPtr (s : ShadowMemory) (kind : TableKind) (n : Nat) : ShadowMemory :=
  match kind with
  | .mega => { s with pageMapBumpPtr := n }
  | .cache => { s with cacheMapBumpPtr := n }

/-- The whole call as one step. -/
def makeTable (s : ShadowMemory) : TableKind → Nat → Option (ShadowMemory × Nat)
  | .mega, megaIndex => s.getMegaMapEntry megaIndex
  | .cache, page => s.getCacheMapEntry page

section Fields

variable {s : ShadowMemory} {kind kind' : TableKind} {key key' table n : Nat}

theorem setEntry_self : (s.setEntry kind key table).entry kind key = some table := by
  cases kind <;> simp [setEntry, entry, modifyPage]

theorem setEntry_of_ne (h : ¬ (kind' = kind ∧ key' = key)) :
    (s.setEntry kind key table).entry kind' key' = s.entry kind' key' := by
  cases kind <;> cases kind' <;> simp [setEntry, entry, modifyPage]
  · exact Function.update_of_ne (fun hk => h ⟨rfl, hk⟩) _ _
  · rw [Function.update_of_ne fun hk => h ⟨rfl, hk⟩]

theorem setEntry_entry : (s.setEntry kind key table).entry kind
    = Function.update (s.entry kind) key (some table) := by
  funext key'
  by_cases hk : key' = key
  · subst hk
    rw [Function.update_self, setEntry_self]
  · rw [Function.update_of_ne hk, setEntry_of_ne fun heq => hk heq.2]

@[simp] theorem setEntry_bumpPtr :
    (s.setEntry kind key table).bumpPtr kind' = s.bumpPtr kind' := by
  cases kind <;> cases kind' <;> rfl

@[simp] theorem setBumpPtr_entry : (s.setBumpPtr kind n).entry kind' = s.entry kind' := by
  cases kind <;> cases kind' <;> rfl

@[simp] theorem setBumpPtr_self : (s.setBumpPtr kind n).bumpPtr kind = n := by
  cases kind <;> rfl

theorem setBumpPtr_of_ne (h : kind' ≠ kind) :
    (s.setBumpPtr kind n).bumpPtr kind' = s.bumpPtr kind' := by
  cases kind <;> cases kind' <;> first | rfl | exact absurd rfl h

end Fields

end ShadowMemory

/-! ## The program of a thread -/

/-- Where a thread stands: before the step it is named for. -/
inductive CreationPoint where
  | outside
  /-- The test without the lock. -/
  | test (kind : TableKind) (key : Nat)
  | lock (kind : TableKind) (key : Nat)
  | testAgain (kind : TableKind) (key : Nat)
  /-- `curPtrValue = bump_ptr` -/
  | readPtr (kind : TableKind) (key : Nat)
  /-- The two halves of `bump_ptr += stride`. -/
  | addRead (kind : TableKind) (key curPtrValue : Nat)
  | addWrite (kind : TableKind) (key curPtrValue sum : Nat)
  /-- `if(bump_ptr >= end) abort()` -/
  | check (kind : TableKind) (key curPtrValue : Nat)
  | store (kind : TableKind) (key curPtrValue : Nat)
  | unlock (kind : TableKind) (key : Nat)
  /-- The caller's `*mega_entry`, or `return cache_map_entry`. -/
  | deref (kind : TableKind) (key : Nat)
deriving DecidableEq, Repr

/-- The maps, and what the calls so far have returned. -/
structure TableData where
  shadow : ShadowMemory := {}
  returned : List (TableKind × Nat × Nat) := []

namespace CreationPoint

def next : CreationPoint → Next TableKind
  | lock kind _ => .lock kind
  | unlock kind _ => .unlock kind
  | _ => .plain

def pass : CreationPoint → CreationPoint
  | lock kind key => testAgain kind key
  | unlock kind key => deref kind key
  | p => p

def inside : CreationPoint → Option TableKind
  | testAgain kind _ | readPtr kind _ | addRead kind _ _ | addWrite kind _ _ _ | check kind _ _
  | store kind _ _ | unlock kind _ => some kind
  | outside | test _ _ | lock _ _ | deref _ _ => none

/-- One access to the maps. A new call is given as an input; there is no
step after an abort, for a key outside of the map, or through NULL. -/
def plain (d : TableData) : CreationPoint → TableKind × Nat → Option (TableData × CreationPoint)
  | outside, (kind, key) => if key < kind.keys then some (d, test kind key) else none
  | test kind key, _ =>
      some (d, if d.shadow.entry kind key = none then lock kind key else deref kind key)
  | testAgain kind key, _ =>
      some (d, if d.shadow.entry kind key = none then readPtr kind key else unlock kind key)
  | readPtr kind key, _ => some (d, addRead kind key (d.shadow.bumpPtr kind))
  | addRead kind key cur, _ => some (d, addWrite kind key cur (d.shadow.bumpPtr kind + kind.stride))
  | addWrite kind key cur sum, _ =>
      some ({ d with shadow := d.shadow.setBumpPtr kind sum }, check kind key cur)
  | check kind key cur, _ =>
      if d.shadow.bumpPtr kind ≥ kind.limit then none else some (d, store kind key cur)
  | store kind key cur, _ =>
      some ({ d with shadow := d.shadow.setEntry kind key cur }, unlock kind key)
  | deref kind key, _ =>
      (d.shadow.entry kind key).map fun table =>
        ({ d with returned := d.returned ++ [(kind, key, table)] }, outside)
  | lock _ _, _ | unlock _ _, _ => none

end CreationPoint

open CreationPoint

theorem CreationPoint.plain_inside {d d' : TableData} {p p' : CreationPoint}
    {i : TableKind × Nat} (h : plain d p i = some (d', p')) : p'.inside = p.inside := by
  cases p with
  | outside =>
      simp only [plain] at h
      split at h <;> cases h
      rfl
  | test kind key =>
      cases h
      split <;> rfl
  | testAgain kind key =>
      cases h
      split <;> rfl
  | readPtr => cases h; rfl
  | addRead => cases h; rfl
  | addWrite => cases h; rfl
  | check =>
      simp only [plain] at h
      split at h <;> cases h
      rfl
  | store => cases h; rfl
  | deref kind key =>
      obtain ⟨table, -, heq⟩ := Option.map_eq_some_iff.mp h
      cases heq
      rfl
  | lock => cases h
  | unlock => cases h

def tableProgram : Program TableKind TableData CreationPoint (TableKind × Nat) where
  next := next
  pass := pass
  plain := plain
  inside := inside
  lock_outside {p _} h := by cases p <;> first | rfl | cases h
  lock_inside {p _} h := by cases p <;> cases h; rfl
  unlock_inside {p _} h := by cases p <;> cases h; rfl
  unlock_outside {p _} h := by cases p <;> first | rfl | cases h
  plain_inside _ h := CreationPoint.plain_inside h

/-- Before the first call. -/
def tableThreads : State Nat TableKind TableData CreationPoint where
  data := {}
  threads _ := outside

/-! ## What the threads rely on -/

/-- The tables were made for the keys of the list, in this order. -/
structure Listed (kind : TableKind) (entry : Nat → Option Nat) (order : List Nat) : Prop where
  nodup : order.Nodup
  entries : ∀ {key table}, entry key = some table ↔
    ∃ i, order[i]? = some key ∧ table = kind.stride * i
  keys : ∀ key ∈ order, key < kind.keys
  room : kind.stride * order.length < kind.limit

namespace Listed

variable {kind : TableKind} {entry : Nat → Option Nat} {order : List Nat}
  {key key' table table' : Nat}

theorem mem_iff (h : Listed kind entry order) : key ∈ order ↔ (entry key).isSome := by
  rw [Option.isSome_iff_exists]
  refine ⟨fun hk => ?_, fun ⟨table, ht⟩ => ?_⟩
  · obtain ⟨i, hi⟩ := List.getElem?_of_mem hk
    exact ⟨_, h.entries.mpr ⟨i, hi, rfl⟩⟩
  · obtain ⟨i, hi, -⟩ := h.entries.mp ht
    exact List.mem_of_getElem? hi

theorem not_mem (h : Listed kind entry order) (hnone : entry key = none) : key ∉ order := by
  rw [h.mem_iff, hnone]
  simp

theorem inMap (h : Listed kind entry order) (ht : entry key = some table) :
    table + kind.stride ≤ kind.stride * order.length := by
  obtain ⟨i, hi, rfl⟩ := h.entries.mp ht
  obtain ⟨hlt, -⟩ := List.getElem?_eq_some_iff.mp hi
  calc kind.stride * i + kind.stride = kind.stride * (i + 1) := (Nat.mul_succ ..).symm
    _ ≤ kind.stride * order.length := Nat.mul_le_mul_left _ hlt

/-- Tables of different keys do not overlap. -/
theorem apart (h : Listed kind entry order) (ht : entry key = some table)
    (ht' : entry key' = some table') (hne : key ≠ key') :
    table + kind.stride ≤ table' ∨ table' + kind.stride ≤ table := by
  obtain ⟨i, hi, rfl⟩ := h.entries.mp ht
  obtain ⟨j, hj, rfl⟩ := h.entries.mp ht'
  rcases Nat.lt_trichotomy i j with hij | rfl | hij
  · left
    calc kind.stride * i + kind.stride = kind.stride * (i + 1) := (Nat.mul_succ ..).symm
      _ ≤ kind.stride * j := Nat.mul_le_mul_left _ hij
  · rw [hi] at hj
    exact absurd (Option.some.inj hj) hne
  · right
    calc kind.stride * j + kind.stride = kind.stride * (j + 1) := (Nat.mul_succ ..).symm
      _ ≤ kind.stride * i := Nat.mul_le_mul_left _ hij

theorem getElem?_snoc {i : Nat} : (order ++ [key])[i]? = some key' ↔
    order[i]? = some key' ∨ (i = order.length ∧ key = key') := by
  rw [List.getElem?_append]
  split
  · next hlt => simp [Nat.ne_of_lt hlt]
  · next hle =>
      rw [List.getElem?_singleton, List.getElem?_eq_none (Nat.not_lt.mp hle)]
      split <;> simp <;> omega

/-- One more table, for a key that had none. -/
theorem snoc (h : Listed kind entry order) (hnew : key ∉ order) (hkey : key < kind.keys)
    (hroom : kind.stride * order.length + kind.stride < kind.limit) :
    Listed kind (Function.update entry key (some (kind.stride * order.length)))
      (order ++ [key]) where
  nodup := h.nodup.append (List.nodup_singleton key) (List.disjoint_singleton.mpr hnew)
  entries {k table} := by
    simp only [getElem?_snoc]
    by_cases hk : k = key
    · subst hk
      rw [Function.update_self]
      refine ⟨fun ht => ⟨order.length, .inr ⟨rfl, rfl⟩, (Option.some.inj ht).symm⟩, ?_⟩
      rintro ⟨i, hi | ⟨rfl, -⟩, rfl⟩
      · exact absurd (List.mem_of_getElem? hi) hnew
      · rfl
    · rw [Function.update_of_ne hk, h.entries]
      refine ⟨fun ⟨i, hi, ht⟩ => ⟨i, .inl hi, ht⟩, ?_⟩
      rintro ⟨i, hi | ⟨-, hlast⟩, ht⟩
      · exact ⟨i, hi, ht⟩
      · exact absurd hlast.symm hk
  keys k hk := by
    rcases List.mem_append.mp hk with hold | hnew
    · exact h.keys k hold
    · rwa [List.mem_singleton.mp hnew]
  room := by
    rw [List.length_append, List.length_singleton, Nat.mul_add, Nat.mul_one]
    exact hroom

end Listed

/-- What a lock guards: the tables fill the map up to the bump pointer. -/
def Guarded (kind : TableKind) (s : ShadowMemory) : Prop :=
  ∃ order, Listed kind (s.entry kind) order ∧ s.bumpPtr kind = kind.stride * order.length

/-- The key has no table yet, and the bump pointer has not been moved. -/
def Missing (kind : TableKind) (key : Nat) (s : ShadowMemory) : Prop :=
  key < kind.keys ∧ ∃ order, Listed kind (s.entry kind) order ∧ key ∉ order ∧
    s.bumpPtr kind = kind.stride * order.length

/-- The bump pointer has been moved for it. -/
def Taken (kind : TableKind) (key cur : Nat) (s : ShadowMemory) : Prop :=
  key < kind.keys ∧ ∃ order, Listed kind (s.entry kind) order ∧ key ∉ order ∧
    cur = kind.stride * order.length ∧ s.bumpPtr kind = cur + kind.stride

/-- What is known before a step. -/
def KnowsAt (s : ShadowMemory) : CreationPoint → Prop
  | outside => True
  | test kind key | lock kind key => key < kind.keys
  | testAgain kind key => key < kind.keys ∧ Guarded kind s
  | readPtr kind key => Missing kind key s
  | addRead kind key cur => Missing kind key s ∧ cur = s.bumpPtr kind
  | addWrite kind key cur sum =>
      Missing kind key s ∧ cur = s.bumpPtr kind ∧ sum = cur + kind.stride
  | check kind key cur => Taken kind key cur s
  | store kind key cur => Taken kind key cur s ∧ s.bumpPtr kind < kind.limit
  | unlock kind key => Guarded kind s ∧ (s.entry kind key).isSome
  | deref kind key => (s.entry kind key).isSome

/-- What was returned is still there. -/
def Current (d : TableData) : Prop :=
  ∀ {kind key table}, (kind, key, table) ∈ d.returned → d.shadow.entry kind key = some table

/-- Nothing of this kind was touched. -/
structure SameKind (kind : TableKind) (s s' : ShadowMemory) : Prop where
  entry : s'.entry kind = s.entry kind
  bumpPtr : s'.bumpPtr kind = s.bumpPtr kind

theorem Guarded.same {kind : TableKind} {s s' : ShadowMemory} (h : Guarded kind s)
    (hsame : SameKind kind s s') : Guarded kind s' := by
  rw [Guarded, hsame.entry, hsame.bumpPtr]
  exact h

/-- What a plain step does to the maps: what is set stays, and only the
maps of the section it is in are touched. -/
structure Grows (p : CreationPoint) (d d' : TableData) : Prop where
  entries : ∀ {kind key table}, d.shadow.entry kind key = some table →
    d'.shadow.entry kind key = some table
  same : ∀ kind, p.inside ≠ some kind → SameKind kind d.shadow d'.shadow
  current : Current d → Current d'

theorem Grows.refl (p : CreationPoint) (d : TableData) : Grows p d d :=
  ⟨fun h => h, fun _ _ => ⟨rfl, rfl⟩, fun h => h⟩

theorem plain_grows {d d' : TableData} {p p' : CreationPoint} {i : TableKind × Nat}
    (hp : KnowsAt d.shadow p) (h : plain d p i = some (d', p')) : Grows p d d' := by
  cases p with
  | outside =>
      simp only [plain] at h
      split at h <;> cases h
      exact .refl _ d
  | test => cases h; exact .refl _ d
  | testAgain => cases h; exact .refl _ d
  | readPtr => cases h; exact .refl _ d
  | addRead => cases h; exact .refl _ d
  | addWrite kind key cur sum =>
      cases h
      refine ⟨fun ht => by simpa using ht, fun kind' hk => ⟨ShadowMemory.setBumpPtr_entry, ?_⟩,
        fun hc _ _ _ hr => by simpa using hc hr⟩
      exact ShadowMemory.setBumpPtr_of_ne fun heq => hk (by rw [heq]; rfl)
  | check =>
      simp only [plain] at h
      split at h <;> cases h
      exact .refl _ d
  | store kind key cur =>
      cases h
      obtain ⟨⟨-, order, hlisted, hnew, -⟩, -⟩ := hp
      -- the entry that is set was empty
      have hkeep : ∀ {kind' key' table}, d.shadow.entry kind' key' = some table →
          (d.shadow.setEntry kind key cur).entry kind' key' = some table := by
        intro kind' key' table ht
        rw [ShadowMemory.setEntry_of_ne, ht]
        rintro ⟨rfl, rfl⟩
        exact hnew (hlisted.mem_iff.mpr (Option.isSome_iff_exists.mpr ⟨table, ht⟩))
      refine ⟨hkeep, fun kind' hk => ⟨?_, ShadowMemory.setEntry_bumpPtr⟩,
        fun hc _ _ _ hr => hkeep (hc hr)⟩
      funext key'
      exact ShadowMemory.setEntry_of_ne fun heq => hk (by rw [heq.1]; rfl)
  | deref kind key =>
      obtain ⟨table, ht, heq⟩ := Option.map_eq_some_iff.mp h
      cases heq
      refine ⟨fun h => h, fun _ _ => ⟨rfl, rfl⟩, fun hc kind' key' table' hr => ?_⟩
      rcases List.mem_append.mp hr with hold | hnew
      · exact hc hold
      · cases List.mem_singleton.mp hnew
        exact ht
  | lock => cases h
  | unlock => cases h

/-- Behind a step its thread knows what it should. -/
theorem plain_knows {d d' : TableData} {p p' : CreationPoint} {i : TableKind × Nat}
    (hp : KnowsAt d.shadow p) (h : plain d p i = some (d', p')) : KnowsAt d'.shadow p' := by
  cases p with
  | outside =>
      simp only [plain] at h
      split at h <;> cases h
      assumption
  | test kind key =>
      cases h
      split
      · exact hp
      · next hsome => exact Option.isSome_iff_ne_none.mpr hsome
  | testAgain kind key =>
      cases h
      obtain ⟨hkey, order, hlisted, hbump⟩ := hp
      split
      · next hnone => exact ⟨hkey, order, hlisted, hlisted.not_mem hnone, hbump⟩
      · next hsome => exact ⟨⟨order, hlisted, hbump⟩, Option.isSome_iff_ne_none.mpr hsome⟩
  | readPtr => cases h; exact ⟨hp, rfl⟩
  | addRead kind key cur =>
      cases h
      obtain ⟨hmissing, rfl⟩ := hp
      exact ⟨hmissing, rfl, rfl⟩
  | addWrite kind key cur sum =>
      cases h
      obtain ⟨⟨hkey, order, hlisted, hnew, hbump⟩, rfl, rfl⟩ := hp
      refine ⟨hkey, order, ?_, hnew, hbump, ShadowMemory.setBumpPtr_self⟩
      rwa [ShadowMemory.setBumpPtr_entry]
  | check kind key cur =>
      simp only [plain] at h
      split at h
      · cases h
      · next hroom =>
          cases h
          exact ⟨hp, Nat.lt_of_not_le hroom⟩
  | store kind key cur =>
      cases h
      obtain ⟨⟨hkey, order, hlisted, hnew, rfl, hbump⟩, hroom⟩ := hp
      refine ⟨⟨order ++ [key], ?_, ?_⟩, ?_⟩
      · rw [ShadowMemory.setEntry_entry]
        exact hlisted.snoc hnew hkey (hbump ▸ hroom)
      · rw [ShadowMemory.setEntry_bumpPtr, hbump, List.length_append, List.length_singleton,
          Nat.mul_add, Nat.mul_one]
      · rw [ShadowMemory.setEntry_self]
        rfl
  | deref kind key =>
      obtain ⟨table, ht, heq⟩ := Option.map_eq_some_iff.mp h
      cases heq
      trivial
  | lock => cases h
  | unlock => cases h

/-- What another thread's step leaves of it. -/
theorem KnowsAt.others {p b : CreationPoint} {d d' : TableData} (hb : KnowsAt d.shadow b)
    (h : Grows p d d') (hapart : ∀ kind, p.inside = some kind → b.inside ≠ some kind) :
    KnowsAt d'.shadow b := by
  have hsame : ∀ kind, b.inside = some kind → SameKind kind d.shadow d'.shadow :=
    fun kind hk => h.same kind fun hp => hapart kind hp hk
  cases b with
  | outside => trivial
  | test => exact hb
  | lock => exact hb
  | testAgain kind key => exact ⟨hb.1, hb.2.same (hsame kind rfl)⟩
  | readPtr kind key =>
      simpa only [KnowsAt, Missing, (hsame kind rfl).entry, (hsame kind rfl).bumpPtr] using hb
  | addRead kind key cur =>
      simpa only [KnowsAt, Missing, (hsame kind rfl).entry, (hsame kind rfl).bumpPtr] using hb
  | addWrite kind key cur sum =>
      simpa only [KnowsAt, Missing, (hsame kind rfl).entry, (hsame kind rfl).bumpPtr] using hb
  | check kind key cur =>
      simpa only [KnowsAt, Taken, (hsame kind rfl).entry, (hsame kind rfl).bumpPtr] using hb
  | store kind key cur =>
      simpa only [KnowsAt, Taken, (hsame kind rfl).entry, (hsame kind rfl).bumpPtr] using hb
  | unlock kind key =>
      refine ⟨hb.1.same (hsame kind rfl), ?_⟩
      rw [(hsame kind rfl).entry]
      exact hb.2
  | deref kind key =>
      obtain ⟨table, ht⟩ := Option.isSome_iff_exists.mp hb
      exact Option.isSome_iff_exists.mpr ⟨table, h.entries ht⟩

theorem tableProtocol : Program.Protocol tableProgram (fun kind d => Guarded kind d.shadow)
    (fun p d => Current d ∧ KnowsAt d.shadow p) where
  lock {p kind d} hnext hp hguarded := by
    cases p <;> cases hnext
    exact ⟨hp.1, hp.2, hguarded⟩
  unlock {p kind d} hnext hp := by
    cases p <;> cases hnext
    exact ⟨⟨hp.1, hp.2.2⟩, hp.2.1⟩
  plain _ hp h := ⟨(plain_grows hp.2 h).current hp.1, plain_knows hp.2 h⟩
  guarded _ hp h hinside hguarded := hguarded.same ((plain_grows hp.2 h).same _ hinside)
  others _ hp h hapart hb :=
    ⟨(plain_grows hp.2 h).current hb.1, hb.2.others (plain_grows hp.2 h) hapart⟩

/-! ## Every interleaving -/

/-- A key has one table, tables of different keys do not overlap, and all
are inside the map. -/
structure OneTableEach (d : TableData) : Prop where
  same : ∀ {kind key table table'}, (kind, key, table) ∈ d.returned →
    (kind, key, table') ∈ d.returned → table = table'
  apart : ∀ {kind key key' table table'}, (kind, key, table) ∈ d.returned →
    (kind, key', table') ∈ d.returned → key ≠ key' →
    table + kind.stride ≤ table' ∨ table' + kind.stride ≤ table
  inMap : ∀ {kind key table}, (kind, key, table) ∈ d.returned →
    table + kind.stride < kind.limit

theorem entry_init (kind : TableKind) (key : Nat) :
    ({} : ShadowMemory).entry kind key = none := by
  cases kind <;> rfl

theorem guarded_init (kind : TableKind) : Guarded kind {} := by
  have hlisted : Listed kind (({} : ShadowMemory).entry kind) [] :=
    { nodup := .nil
      entries := by simp [entry_init]
      keys := by simp
      room := kind.limit_pos }
  exact ⟨[], hlisted, by cases kind <;> rfl⟩

theorem current_init : Current {} := by
  intro kind key table hr
  cases hr

/-- Also in the middle of a section the tables are in order. -/
theorem KnowsAt.listed {s : ShadowMemory} {p : CreationPoint} {kind : TableKind}
    (h : KnowsAt s p) (hp : p.inside = some kind) : ∃ order, Listed kind (s.entry kind) order := by
  cases p with
  | testAgain =>
      cases hp
      obtain ⟨-, order, hlisted, -⟩ := h
      exact ⟨order, hlisted⟩
  | readPtr =>
      cases hp
      obtain ⟨-, order, hlisted, -⟩ := h
      exact ⟨order, hlisted⟩
  | addRead =>
      cases hp
      obtain ⟨⟨-, order, hlisted, -⟩, -⟩ := h
      exact ⟨order, hlisted⟩
  | addWrite =>
      cases hp
      obtain ⟨⟨-, order, hlisted, -⟩, -⟩ := h
      exact ⟨order, hlisted⟩
  | check =>
      cases hp
      obtain ⟨-, order, hlisted, -⟩ := h
      exact ⟨order, hlisted⟩
  | store =>
      cases hp
      obtain ⟨⟨-, order, hlisted, -⟩, -⟩ := h
      exact ⟨order, hlisted⟩
  | unlock =>
      cases hp
      obtain ⟨⟨order, hlisted, -⟩, -⟩ := h
      exact ⟨order, hlisted⟩
  | outside | test | lock | deref => cases hp

section Run

variable {past : List (Nat × TableKind × Nat)} {s : State Nat TableKind TableData CreationPoint}
  {guard : List (Nat × TableKind × Nat) → State Nat TableKind TableData CreationPoint →
    Nat × TableKind × Nat → Prop}

theorem tables_hold (h : Run tableProgram.step guard tableThreads past s) :
    Program.Holds tableProgram (fun kind d => Guarded kind d.shadow)
      (fun p d => Current d ∧ KnowsAt d.shadow p) s :=
  tableProtocol.run ⟨fun _ => rfl, fun _ => rfl, fun _ => rfl⟩ guarded_init
    (fun _ => (⟨current_init, trivial⟩ : Current {} ∧ KnowsAt {} outside)) h

theorem tables_listed (h : Run tableProgram.step guard tableThreads past s) (kind : TableKind) :
    ∃ order, Listed kind (s.data.shadow.entry kind) order := by
  have hholds := tables_hold h
  cases hword : s.words kind with
  | false =>
      obtain ⟨order, hlisted, -⟩ := hholds.free kind hword
      exact ⟨order, hlisted⟩
  | true =>
      obtain ⟨t, ht⟩ := (hholds.exclusive.held kind).mp hword
      exact (hholds.threads t).2.listed ht

/-- **The double check makes one table for a key**, in every interleaving
of the threads. -/
theorem double_check_one_table (h : Run tableProgram.step guard tableThreads past s) :
    OneTableEach s.data := by
  have hcurrent : Current s.data := ((tables_hold h).threads 0).1
  refine ⟨fun hr hr' => ?_, fun {kind _ _ _ _} hr hr' hne => ?_, fun {kind _ _} hr => ?_⟩
  · exact Option.some.inj ((hcurrent hr).symm.trans (hcurrent hr'))
  · obtain ⟨order, hlisted⟩ := tables_listed h kind
    exact hlisted.apart (hcurrent hr) (hcurrent hr') hne
  · obtain ⟨order, hlisted⟩ := tables_listed h kind
    exact Nat.lt_of_le_of_lt (hlisted.inMap (hcurrent hr)) hlisted.room

end Run

/-- Two threads find megabyte 5 without a table; the second one waits for
the lock and then finds one. -/
def tableRace : List (Nat × TableKind × Nat) :=
  [0, 1, 0, 1, 0, 1, 0, 0, 1, 0, 0, 0, 0, 0, 1, 1, 0, 1, 1].map fun t => (t, .mega, 5)

theorem double_check_one_table_race :
    ∃ s, Run tableProgram.step (fun _ _ _ => True) tableThreads tableRace s
      ∧ s.data.returned = [(.mega, 5, 0), (.mega, 5, 0)] ∧ OneTableEach s.data := by
  obtain ⟨s, hs⟩ := Option.isSome_iff_exists.mp
    (show (tableRace.foldlM tableProgram.step tableThreads).isSome by decide)
  have hreturned : (tableRace.foldlM tableProgram.step tableThreads).map
      (fun s => s.data.returned) = some [(.mega, 5, 0), (.mega, 5, 0)] := by decide
  rw [hs] at hreturned
  have hrun : Run tableProgram.step (fun _ _ _ => True) tableThreads tableRace s :=
    Run.ofFoldlM (fun _ _ _ _ => trivial) hs
  exact ⟨s, hrun, Option.some.inj hreturned, double_check_one_table hrun⟩

/-! ## The same calls one after the other -/

/-- The calls as single steps. -/
def makeTables (calls : List (TableKind × Nat)) (s : ShadowMemory) : Option ShadowMemory :=
  calls.foldlM (fun s call => (s.makeTable call.1 call.2).map Prod.fst) s

/-- The step of a call that makes a table. -/
theorem makeTable_missing {s : ShadowMemory} {kind : TableKind} {key : Nat}
    (hkey : key < kind.keys) (hnone : s.entry kind key = none)
    (hroom : s.bumpPtr kind + kind.stride < kind.limit) :
    s.makeTable kind key = some ((s.setBumpPtr kind (s.bumpPtr kind + kind.stride)).setEntry kind
      key (s.bumpPtr kind), s.bumpPtr kind) := by
  cases kind with
  | mega => exact ShadowMemory.getMegaMapEntry_alloc hkey hnone hroom
  | cache =>
      have hnone' : (s.pageMap key).cacheMapEntry = none := hnone
      have hroom' : ¬ (s.cacheMapBumpPtr + numCachelinesPerPage ≥ maxCacheMapEntries) :=
        Nat.not_le.mpr hroom
      simp only [ShadowMemory.makeTable, ShadowMemory.getCacheMapEntry, hnone',
        ShadowMemory.doCacheMapBumpPointer, if_neg hroom']
      rfl

/-- Calls for keys without a table make their tables in the order of the
calls. -/
theorem makeTables_new {kind : TableKind} : ∀ (keys order : List Nat) {s : ShadowMemory},
    Listed kind (s.entry kind) order → s.bumpPtr kind = kind.stride * order.length →
    (order ++ keys).Nodup → (∀ key ∈ keys, key < kind.keys) →
    kind.stride * (order ++ keys).length < kind.limit →
    ∃ s', makeTables (keys.map (kind, ·)) s = some s'
      ∧ Listed kind (s'.entry kind) (order ++ keys)
      ∧ s'.bumpPtr kind = kind.stride * (order ++ keys).length
      ∧ ∀ kind', kind' ≠ kind → SameKind kind' s s'
  | [], order, s, hlisted, hbump, _, _, _ => by
      rw [List.append_nil]
      exact ⟨s, rfl, hlisted, hbump, fun _ _ => ⟨rfl, rfl⟩⟩
  | key :: keys, order, s, hlisted, hbump, hnodup, hkeys, hroom => by
      have hassoc : order ++ key :: keys = (order ++ [key]) ++ keys := by simp
      rw [hassoc] at hnodup hroom ⊢
      have hnew : key ∉ order := fun hmem =>
        (List.nodup_append.mp hnodup.of_append_left).2.2 key hmem key List.mem_cons_self rfl
      have hkey := hkeys key List.mem_cons_self
      have hnone : s.entry kind key = none := by
        rw [hlisted.mem_iff, Bool.not_eq_true, Option.isSome_eq_false_iff] at hnew
        exact Option.isNone_iff_eq_none.mp hnew
      have hnext : kind.stride * order.length + kind.stride < kind.limit := by
        refine Nat.lt_of_le_of_lt ?_ hroom
        rw [← Nat.mul_succ]
        refine Nat.mul_le_mul_left _ ?_
        simp only [List.length_append, List.length_singleton]
        omega
      obtain ⟨s', hmake, hlisted', hbump', hother⟩ := makeTables_new keys (order ++ [key])
        (s := (s.setBumpPtr kind (s.bumpPtr kind + kind.stride)).setEntry kind key
          (s.bumpPtr kind))
        (by
          rw [ShadowMemory.setEntry_entry, ShadowMemory.setBumpPtr_entry, hbump]
          exact hlisted.snoc hnew hkey hnext)
        (by
          rw [ShadowMemory.setEntry_bumpPtr, ShadowMemory.setBumpPtr_self, hbump,
            List.length_append, List.length_singleton, Nat.mul_succ])
        hnodup (fun k hk => hkeys k (List.mem_cons_of_mem key hk)) hroom
      refine ⟨s', ?_, hlisted', hbump', fun kind' hk => ⟨?_, ?_⟩⟩
      · rw [makeTables, List.map_cons, List.foldlM_cons,
          makeTable_missing hkey hnone (hbump ▸ hnext)]
        exact hmake
      · rw [(hother kind' hk).entry]
        funext key'
        rw [ShadowMemory.setEntry_of_ne fun heq => hk heq.1, ShadowMemory.setBumpPtr_entry]
      · rw [(hother kind' hk).bumpPtr, ShadowMemory.setEntry_bumpPtr,
          ShadowMemory.setBumpPtr_of_ne hk]

theorem Listed.entry_unique {kind : TableKind} {entry entry' : Nat → Option Nat} {order : List Nat}
    (h : Listed kind entry order) (h' : Listed kind entry' order) : entry = entry' := by
  funext key
  exact Option.ext fun table => h.entries.trans h'.entries.symm

/-- **The interleaved calls make the tables of calls one after the other**:
between sections the maps are as after atomic calls, in the order of the
sections, for the keys that have tables. -/
theorem interleaved_tables_atomic {past : List (Nat × TableKind × Nat)}
    {s : State Nat TableKind TableData CreationPoint}
    {guard : List (Nat × TableKind × Nat) → State Nat TableKind TableData CreationPoint →
      Nat × TableKind × Nat → Prop}
    (h : Run tableProgram.step guard tableThreads past s)
    (hfree : ∀ kind, s.words kind = false) :
    ∃ calls r, makeTables calls {} = some r ∧ ShadowMemory.SameTables s.data.shadow r
      ∧ ∀ kind key, (kind, key) ∈ calls ↔ (s.data.shadow.entry kind key).isSome := by
  have hholds := tables_hold h
  obtain ⟨megas, hmegas, hmegaPtr⟩ := hholds.free .mega (hfree .mega)
  obtain ⟨pages, hpages, hpagePtr⟩ := hholds.free .cache (hfree .cache)
  have hinit : ∀ kind, Listed kind (({} : ShadowMemory).entry kind) []
      ∧ ({} : ShadowMemory).bumpPtr kind = kind.stride * ([] : List Nat).length := by
    intro kind
    obtain ⟨order, hlisted, hbump⟩ := guarded_init kind
    obtain rfl : order = [] := by
      refine List.eq_nil_iff_forall_not_mem.mpr fun key hk => ?_
      exact hlisted.not_mem (entry_init kind key) hk
    exact ⟨hlisted, hbump⟩
  obtain ⟨r, hr, hrListed, hrPtr, hrOther⟩ := makeTables_new megas [] (hinit .mega).1
    (hinit .mega).2 hmegas.nodup hmegas.keys hmegas.room
  have hsame := hrOther .cache (by decide)
  obtain ⟨r', hr', hrListed', hrPtr', hrOther'⟩ := makeTables_new pages [] (s := r)
    (hsame.entry ▸ (hinit .cache).1) (hsame.bumpPtr ▸ (hinit .cache).2) hpages.nodup
    hpages.keys hpages.room
  have hsame' := hrOther' .mega (by decide)
  refine ⟨megas.map (.mega, ·) ++ pages.map (.cache, ·), r', ?_, ⟨?_, ?_, ?_, ?_⟩, ?_⟩
  · rw [makeTables, List.foldlM_append]
    exact Option.bind_eq_some_iff.mpr ⟨r, hr, hr'⟩
  · have hlisted : Listed .mega (r'.entry .mega) megas := by
      rw [hsame'.entry]
      exact hrListed
    exact hmegas.entry_unique hlisted
  · exact hmegaPtr.trans (hsame'.bumpPtr.trans hrPtr).symm
  · exact fun e => congrFun (hpages.entry_unique hrListed') e
  · exact hpagePtr.trans hrPtr'.symm
  · intro kind key
    cases kind with
    | mega => simp [hmegas.mem_iff]
    | cache => simp [hpages.mem_iff]

theorem interleaved_tables_atomic_race :
    ∃ s calls r, Run tableProgram.step (fun _ _ _ => True) tableThreads tableRace s
      ∧ makeTables calls {} = some r ∧ ShadowMemory.SameTables s.data.shadow r
      ∧ s.data.shadow.entry .mega 5 = some 0 := by
  obtain ⟨s, hs⟩ := Option.isSome_iff_exists.mp
    (show (tableRace.foldlM tableProgram.step tableThreads).isSome by decide)
  have hwords : (tableRace.foldlM tableProgram.step tableThreads).map
      (fun s => (s.words .mega, s.words .cache)) = some (false, false) := by decide
  have hentry : (tableRace.foldlM tableProgram.step tableThreads).map
      (fun s => s.data.shadow.entry .mega 5) = some (some 0) := by decide
  rw [hs] at hwords hentry
  have hfree : ∀ kind, s.words kind = false := by
    intro kind
    cases kind with
    | mega => exact congrArg Prod.fst (Option.some.inj hwords)
    | cache => exact congrArg Prod.snd (Option.some.inj hwords)
  have hrun : Run tableProgram.step (fun _ _ _ => True) tableThreads tableRace s :=
    Run.ofFoldlM (fun _ _ _ _ => trivial) hs
  obtain ⟨calls, r, hr, hsame, -⟩ := interleaved_tables_atomic hrun hfree
  exact ⟨s, calls, r, hrun, hr, hsame, Option.some.inj hentry⟩

end MemPerf.Original
