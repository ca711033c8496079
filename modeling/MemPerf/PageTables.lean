import Mathlib.Data.Option.Basic
import Mathlib.Data.Finset.Card
import MemPerf.MegaMap

/-!
# Looking pages up one by one

What the walks over a region are to be compared with: `getPageMapEntry`
called for each page of the region in turn (`lookupPages`). The first call
for a megabyte makes its table, so the calls have an order and may run out
of page map.

Where the entries lie can be told from the state before the calls:
`tableAfter` is the table that a megabyte has, or will be given when it
and the megabytes before it are asked for. `Layout` is the invariant of
the page map: tables of different megabytes do not overlap and end below
the bump pointer. Lookups depend on nothing but the tables
(`SameTables`), so what a walk does to the entries in between does not
matter.
-/

namespace MemPerf.Original

open Word StepSystem

namespace ShadowMemory

/-! ## Regions and lookups -/

/-- The numbers of the pages with a byte in `[uintaddr, uintaddr + length)`. -/
def regionPages (uintaddr length : Nat) : List Nat :=
  if length = 0 then []
  else List.range' (uintaddr / 4096) ((uintaddr + length - 1) / 4096 + 1 - uintaddr / 4096)

theorem mem_regionPages {uintaddr length p : Nat} :
    p ∈ regionPages uintaddr length ↔ ∃ a, uintaddr ≤ a ∧ a < uintaddr + length ∧ a / 4096 = p := by
  unfold regionPages
  split
  · next h0 => simp [h0]; omega
  · next hlen =>
      rw [List.mem_range'_1]
      constructor
      · rintro ⟨hlo, hhi⟩
        exact ⟨max uintaddr (p * 4096), by omega, by omega, by omega⟩
      · rintro ⟨a, h1, h2, rfl⟩
        omega

/-- The pages of the list looked up in turn, and the entries found. -/
def lookupPages (look : ShadowMemory → Nat → Option (ShadowMemory × Nat)) :
    List Nat → ShadowMemory → Option (ShadowMemory × List Nat)
  | [], s => some (s, [])
  | p :: pages, s => do
      let (s, e) ← look s (p * pagesize)
      let (s, entries) ← lookupPages look pages s
      some (s, e :: entries)

/-- `getPageMapEntry`, and `getCacheMapEntry(true)` of the entry. -/
def getLineTable (s : ShadowMemory) (address : Nat) : Option (ShadowMemory × Nat) := do
  let (s, e) ← s.getPageMapEntry address
  let (s, _) ← s.getCacheMapEntry e
  some (s, e)

theorem lookupPages_snoc (look : ShadowMemory → Nat → Option (ShadowMemory × Nat)) (p : Nat) :
    ∀ (pages : List Nat) (s : ShadowMemory), lookupPages look (pages ++ [p]) s =
      (lookupPages look pages s).bind fun r =>
        (look r.1 (p * pagesize)).map fun r' => (r'.1, r.2 ++ [r'.2])
  | [], s => by
      rw [List.nil_append, lookupPages, lookupPages, Option.bind_some]
      cases look s (p * pagesize) <;> rfl
  | q :: pages, s => by
      rw [List.cons_append, lookupPages, lookupPages]
      cases look s (q * pagesize) with
      | none => rfl
      | some r =>
          show (lookupPages look (pages ++ [p]) r.1).bind _ = ((lookupPages look pages r.1).bind
            fun r' => some (r'.1, r.2 :: r'.2)).bind _
          rw [lookupPages_snoc look p pages r.1]
          cases lookupPages look pages r.1 with
          | none => rfl
          | some r' =>
              simp only [Option.bind_some]
              cases look r'.1 (p * pagesize) <;> rfl

/-- A lookup that fails makes those after it fail. -/
theorem lookupPages_append_none {look : ShadowMemory → Nat → Option (ShadowMemory × Nat)}
    {pages : List Nat} {s : ShadowMemory} (h : lookupPages look pages s = none) (more : List Nat) :
    lookupPages look (pages ++ more) s = none := by
  induction more using List.reverseRecOn with
  | nil => rw [List.append_nil, h]
  | append_singleton more p ih =>
      rw [← List.append_assoc, lookupPages_snoc, ih]
      rfl

/-! ## What a lookup does -/

theorem megaIndexOf_eq (uintaddr : Nat) : megaIndexOf uintaddr = uintaddr / 4096 / 256 := by
  rw [megaIndexOf, Nat.shiftRight_eq_div_pow, Nat.div_div_eq_div_mul]
  rfl

theorem pageIndexOf_eq (uintaddr : Nat) : pageIndexOf uintaddr = uintaddr / 4096 % 256 := by
  have hmask : uintaddr &&& megabyteMask = uintaddr % 2 ^ 20 :=
    Nat.and_two_pow_sub_one_eq_mod uintaddr 20
  rw [pageIndexOf, hmask, shiftRight_log2Pagesize]
  omega

theorem cacheIndexOf_eq (uintaddr : Nat) : cacheIndexOf uintaddr = uintaddr % 4096 / 64 := by
  rw [cacheIndexOf, and_pagesizeMask, shiftRight_log2CachelineSize]

/-- The next table, given to the megabyte. -/
def allocTable (s : ShadowMemory) (m : Nat) : ShadowMemory :=
  { s with
    megaMap := Function.update s.megaMap m (some s.pageMapBumpPtr)
    pageMapBumpPtr := s.pageMapBumpPtr + 256 }

theorem allocTable_self (s : ShadowMemory) (m : Nat) :
    (s.allocTable m).megaMap m = some s.pageMapBumpPtr := Function.update_self ..

theorem allocTable_of_ne (s : ShadowMemory) {m m' : Nat} (h : m' ≠ m) :
    (s.allocTable m).megaMap m' = s.megaMap m' := Function.update_of_ne h _ _

theorem getMegaMapEntry_some {s : ShadowMemory} {m t : Nat} (hm : m < numMegabyteMapEntries)
    (ht : s.megaMap m = some t) : s.getMegaMapEntry m = some (s, t) := by
  rw [getMegaMapEntry, if_neg (Nat.not_le.mpr hm), ht]

theorem getMegaMapEntry_alloc {s : ShadowMemory} {m : Nat} (hm : m < numMegabyteMapEntries)
    (ht : s.megaMap m = none) (hroom : s.pageMapBumpPtr + 256 < maxPageMapEntries) :
    s.getMegaMapEntry m = some (s.allocTable m, s.pageMapBumpPtr) := by
  rw [getMegaMapEntry, if_neg (Nat.not_le.mpr hm), ht]
  simp only [doPageMapBumpPointer, numPagesPerMegabyte]
  rw [if_neg (Nat.not_le.mpr hroom)]
  rfl

theorem getMegaMapEntry_cases {s s' : ShadowMemory} {m t : Nat}
    (h : s.getMegaMapEntry m = some (s', t)) : m < numMegabyteMapEntries ∧
      (s.megaMap m = some t ∧ s' = s ∨
        s.megaMap m = none ∧ s.pageMapBumpPtr + 256 < maxPageMapEntries
          ∧ t = s.pageMapBumpPtr ∧ s' = s.allocTable m) := by
  by_cases hm : m < numMegabyteMapEntries
  · refine ⟨hm, ?_⟩
    cases ht : s.megaMap m with
    | some t' =>
        rw [getMegaMapEntry_some hm ht] at h
        cases h
        exact Or.inl ⟨rfl, rfl⟩
    | none =>
        by_cases hroom : s.pageMapBumpPtr + 256 < maxPageMapEntries
        · rw [getMegaMapEntry_alloc hm ht hroom] at h
          cases h
          exact Or.inr ⟨rfl, hroom, rfl, rfl⟩
        · rw [getMegaMapEntry, if_neg (Nat.not_le.mpr hm), ht] at h
          simp only [doPageMapBumpPointer, numPagesPerMegabyte] at h
          rw [if_pos (Nat.not_lt.mp hroom)] at h
          cases h
  · rw [getMegaMapEntry, if_pos (Nat.not_lt.mp hm)] at h
    cases h

/-- The table asked for is there afterwards. -/
theorem getMegaMapEntry_self {s s' : ShadowMemory} {m t : Nat}
    (h : s.getMegaMapEntry m = some (s', t)) : s'.megaMap m = some t := by
  obtain ⟨-, ⟨ht, rfl⟩ | ⟨-, -, rfl, rfl⟩⟩ := getMegaMapEntry_cases h
  · exact ht
  · exact allocTable_self s m

theorem getMegaMapEntry_pageMap {s s' : ShadowMemory} {m t : Nat}
    (h : s.getMegaMapEntry m = some (s', t)) : s'.pageMap = s.pageMap := by
  obtain ⟨-, ⟨-, rfl⟩ | ⟨-, -, -, rfl⟩⟩ := getMegaMapEntry_cases h <;> rfl

/-- The test of `getPageMapEntry` lets one megabyte too many through, which
the map does not have. -/
theorem getPageMapEntry_eq (s : ShadowMemory) (address : Nat) : s.getPageMapEntry address =
    (s.getMegaMapEntry (address / 4096 / 256)).map fun r => (r.1, r.2 + address / 4096 % 256) := by
  rw [getPageMapEntry, megaIndexOf_eq, pageIndexOf_eq]
  split
  · next hlarge =>
      rw [getMegaMapEntry, if_pos (Nat.le_of_lt hlarge)]
      rfl
  · cases s.getMegaMapEntry (address / 4096 / 256) <;> rfl

theorem getPageMapEntry_page (s : ShadowMemory) (p : Nat) : s.getPageMapEntry (p * pagesize) =
    (s.getMegaMapEntry (p / 256)).map fun r => (r.1, r.2 + p % 256) := by
  rw [getPageMapEntry_eq, pagesize, Nat.mul_div_cancel _ (by decide)]

/-! ## States with the same tables -/

structure SameTables (s r : ShadowMemory) : Prop where
  megaMap : s.megaMap = r.megaMap
  pageMapBumpPtr : s.pageMapBumpPtr = r.pageMapBumpPtr
  cacheMapEntry : ∀ e, (s.pageMap e).cacheMapEntry = (r.pageMap e).cacheMapEntry
  cacheMapBumpPtr : s.cacheMapBumpPtr = r.cacheMapBumpPtr

theorem SameTables.refl (s : ShadowMemory) : SameTables s s := ⟨rfl, rfl, fun _ => rfl, rfl⟩

theorem SameTables.trans {s r q : ShadowMemory} (h : SameTables s r) (h' : SameTables r q) :
    SameTables s q :=
  ⟨h.megaMap.trans h'.megaMap, h.pageMapBumpPtr.trans h'.pageMapBumpPtr,
    fun e => (h.cacheMapEntry e).trans (h'.cacheMapEntry e),
    h.cacheMapBumpPtr.trans h'.cacheMapBumpPtr⟩

theorem modifyPage_sameTables (s : ShadowMemory) (e : Nat) {f : PageMapEntry → PageMapEntry}
    (hf : ∀ entry, (f entry).cacheMapEntry = entry.cacheMapEntry) :
    SameTables (s.modifyPage e f) s := by
  refine ⟨rfl, rfl, fun e' => ?_, rfl⟩
  by_cases he : e' = e
  · subst he
    simp only [modifyPage, Function.update_self]
    exact hf _
  · simp only [modifyPage, Function.update_of_ne he]

theorem modifyPage_of_ne (s : ShadowMemory) {e e' : Nat} (f : PageMapEntry → PageMapEntry)
    (h : e' ≠ e) : (s.modifyPage e f).pageMap e' = s.pageMap e' :=
  Function.update_of_ne h _ _

/-- Two lookups with the same outcome. -/
abbrev SameOutcome : Option (ShadowMemory × Nat) → Option (ShadowMemory × Nat) → Prop :=
  Option.Rel fun x y => x.2 = y.2 ∧ SameTables x.1 y.1

theorem SameOutcome.eq_none {y : Option (ShadowMemory × Nat)} (h : SameOutcome none y) :
    y = none := by
  cases h
  rfl

theorem SameOutcome.exists_some {x : ShadowMemory × Nat} {y : Option (ShadowMemory × Nat)}
    (h : SameOutcome (some x) y) : ∃ r, y = some (r, x.2) ∧ SameTables x.1 r := by
  cases h with
  | @some _ y hxy =>
      obtain ⟨he, hsame⟩ := hxy
      exact ⟨y.1, by rw [he], hsame⟩

theorem SameOutcome.bind {x y : Option (ShadowMemory × Nat)} (h : SameOutcome x y)
    {f g : ShadowMemory × Nat → Option (ShadowMemory × Nat)}
    (hfg : ∀ s r e, SameTables s r → SameOutcome (f (s, e)) (g (r, e))) :
    SameOutcome (x.bind f) (y.bind g) := by
  cases h with
  | none => exact .none
  | @some a b hab =>
      obtain ⟨s, e⟩ := a
      obtain ⟨r, e'⟩ := b
      obtain ⟨rfl, hs⟩ := hab
      exact hfg s r e hs

theorem getMegaMapEntry_same {s r : ShadowMemory} (h : SameTables s r) (m : Nat) :
    SameOutcome (s.getMegaMapEntry m) (r.getMegaMapEntry m) := by
  unfold getMegaMapEntry
  split
  · exact .none
  · rw [h.megaMap]
    cases r.megaMap m with
    | some t => exact .some ⟨rfl, h⟩
    | none =>
        simp only [doPageMapBumpPointer, h.pageMapBumpPtr]
        split
        · exact .none
        · exact .some ⟨rfl, by rw [h.megaMap], rfl, h.cacheMapEntry, h.cacheMapBumpPtr⟩

theorem getPageMapEntry_same {s r : ShadowMemory} (h : SameTables s r) (address : Nat) :
    SameOutcome (s.getPageMapEntry address) (r.getPageMapEntry address) := by
  rw [getPageMapEntry_eq, getPageMapEntry_eq, Option.map_eq_bind, Option.map_eq_bind]
  exact (getMegaMapEntry_same h _).bind fun _ _ _ hs => .some ⟨rfl, hs⟩

theorem getCacheMapEntry_same {s r : ShadowMemory} (h : SameTables s r) (page : Nat) :
    SameOutcome (s.getCacheMapEntry page) (r.getCacheMapEntry page) := by
  unfold getCacheMapEntry
  rw [h.cacheMapEntry]
  cases (r.pageMap page).cacheMapEntry with
  | some t => exact .some ⟨rfl, h⟩
  | none =>
      simp only [doCacheMapBumpPointer, h.cacheMapBumpPtr]
      split
      · exact .none
      · refine .some ⟨rfl, h.megaMap, h.pageMapBumpPtr, fun e => ?_, rfl⟩
        by_cases he : e = page
        · subst he
          simp only [modifyPage, Function.update_self]
        · simp only [modifyPage, Function.update_of_ne he]
          exact h.cacheMapEntry e

theorem getLineTable_same {s r : ShadowMemory} (h : SameTables s r) (address : Nat) :
    SameOutcome (s.getLineTable address) (r.getLineTable address) := by
  refine (getPageMapEntry_same h address).bind fun s' r' e hs => ?_
  exact (getCacheMapEntry_same hs e).bind fun _ _ _ hs' => .some ⟨rfl, hs'⟩

/-! ## The layout of the page map -/

/-- Tables start at multiples of 256, below the bump pointer, and no two
megabytes share one. -/
structure Layout (s : ShadowMemory) : Prop where
  dvd : ∀ {m t}, s.megaMap m = some t → 256 ∣ t
  below : ∀ {m t}, s.megaMap m = some t → t + 256 ≤ s.pageMapBumpPtr
  apart : ∀ {m m' t}, s.megaMap m = some t → s.megaMap m' = some t → m = m'
  bump_dvd : 256 ∣ s.pageMapBumpPtr
  bump_lt : s.pageMapBumpPtr < maxPageMapEntries

theorem layout_init : Layout {} where
  dvd h := by cases h
  below h := by cases h
  apart h := by cases h
  bump_dvd := Nat.dvd_zero 256
  bump_lt := by decide

theorem Layout.of_megaMap {s r : ShadowMemory} (hs : s.Layout) (hmap : r.megaMap = s.megaMap)
    (hbump : r.pageMapBumpPtr = s.pageMapBumpPtr) : r.Layout where
  dvd ht := hs.dvd (hmap ▸ ht)
  below ht := hbump ▸ hs.below (hmap ▸ ht)
  apart ht ht' := hs.apart (hmap ▸ ht) (hmap ▸ ht')
  bump_dvd := hbump ▸ hs.bump_dvd
  bump_lt := hbump ▸ hs.bump_lt

theorem Layout.congr {s r : ShadowMemory} (hs : s.Layout) (h : SameTables r s) : r.Layout :=
  hs.of_megaMap h.megaMap h.pageMapBumpPtr

theorem Layout.alloc {s : ShadowMemory} (hs : s.Layout) {m : Nat}
    (hroom : s.pageMapBumpPtr + 256 < maxPageMapEntries) : (s.allocTable m).Layout := by
  have hcases : ∀ {m' t}, (s.allocTable m).megaMap m' = some t →
      m' = m ∧ t = s.pageMapBumpPtr ∨ s.megaMap m' = some t := by
    intro m' t ht
    by_cases hm : m' = m
    · subst hm
      refine Or.inl ⟨rfl, ?_⟩
      rw [allocTable_self] at ht
      exact (Option.some.inj ht).symm
    · rw [allocTable_of_ne s hm] at ht
      exact Or.inr ht
  have hnew : (s.allocTable m).pageMapBumpPtr = s.pageMapBumpPtr + 256 := rfl
  refine ⟨fun ht => ?_, fun ht => ?_, fun ht ht' => ?_, ?_, hroom⟩
  · rcases hcases ht with ⟨-, rfl⟩ | hold
    · exact hs.bump_dvd
    · exact hs.dvd hold
  · rw [hnew]
    rcases hcases ht with ⟨-, rfl⟩ | hold
    · exact Nat.le_refl _
    · exact Nat.le_add_right_of_le (hs.below hold)
  · rcases hcases ht with ⟨rfl, rfl⟩ | hold <;> rcases hcases ht' with ⟨rfl, heq⟩ | hold'
    · rfl
    · have := hs.below hold'
      omega
    · have := hs.below hold
      omega
    · exact hs.apart hold hold'
  · rw [hnew]
    exact Nat.dvd_add hs.bump_dvd (Nat.dvd_refl 256)

theorem Layout.getMegaMapEntry {s s' : ShadowMemory} {m t : Nat} (hs : s.Layout)
    (h : s.getMegaMapEntry m = some (s', t)) : s'.Layout := by
  obtain ⟨-, ⟨-, rfl⟩ | ⟨-, hroom, -, rfl⟩⟩ := getMegaMapEntry_cases h
  · exact hs
  · exact hs.alloc hroom

theorem Layout.getPageMapEntry {s s' : ShadowMemory} {a e : Nat} (hs : s.Layout)
    (h : s.getPageMapEntry a = some (s', e)) : s'.Layout := by
  rw [getPageMapEntry_eq] at h
  obtain ⟨r, hr, heq⟩ := Option.map_eq_some_iff.mp h
  cases heq
  exact hs.getMegaMapEntry hr

theorem Layout.nextPage {s s' : ShadowMemory} {c c' : PageCursor} (hs : s.Layout)
    (h : s.nextPage c = some (s', c')) : s'.Layout := by
  unfold ShadowMemory.nextPage at h
  split at h
  · obtain ⟨⟨r, t⟩, hget, heq⟩ := Option.bind_eq_some_iff.mp h
    cases heq
    exact hs.getMegaMapEntry hget
  · cases h
    exact hs

theorem lookupPages_layout : ∀ (pages : List Nat) {s s' : ShadowMemory} {entries : List Nat},
    s.Layout → lookupPages ShadowMemory.getPageMapEntry pages s = some (s', entries) → s'.Layout
  | [], s, s', entries, hs, h => by
      cases h
      exact hs
  | p :: pages, s, s', entries, hs, h => by
      obtain ⟨⟨q, e⟩, hq, h⟩ := Option.bind_eq_some_iff.mp h
      obtain ⟨⟨q', es⟩, hq', h⟩ := Option.bind_eq_some_iff.mp h
      cases h
      exact lookupPages_layout pages (hs.getPageMapEntry hq) hq'

/-- Entries of tables are inside the page map. -/
theorem Layout.entry_lt {s : ShadowMemory} (hs : s.Layout) {m t i : Nat}
    (ht : s.megaMap m = some t) (hi : i < 256) : t + i < maxPageMapEntries := by
  have hbelow := hs.below ht
  have hlt := hs.bump_lt
  omega

/-- An entry belongs to one page. -/
theorem Layout.entry_inj {s : ShadowMemory} (hs : s.Layout) {m m' t t' i i' : Nat}
    (ht : s.megaMap m = some t) (ht' : s.megaMap m' = some t') (hi : i < 256) (hi' : i' < 256)
    (h : t + i = t' + i') : m = m' ∧ i = i' := by
  obtain ⟨k, rfl⟩ := hs.dvd ht
  obtain ⟨k', rfl⟩ := hs.dvd ht'
  obtain rfl : k = k' := by omega
  exact ⟨hs.apart ht ht', by omega⟩

/-- Neighbouring megabytes with tables fill that much of the page map. -/
theorem Layout.tables_le {s : ShadowMemory} (hs : s.Layout) {m n : Nat}
    (h : ∀ i < n, ∃ t, s.megaMap (m + i) = some t) : 256 * n ≤ s.pageMapBumpPtr := by
  obtain ⟨b, hb⟩ := hs.bump_dvd
  have hcard : (Finset.range n).card ≤ (Finset.range b).card := by
    refine Finset.card_le_card_of_injOn (fun i => (s.megaMap (m + i)).getD 0 / 256) ?_ ?_
    · intro i hi
      obtain ⟨t, ht⟩ := h i (Finset.mem_range.mp hi)
      have hbelow := hs.below ht
      simp only [ht, Option.getD_some, Finset.coe_range, Set.mem_Iio]
      omega
    · intro i hi j hj heq
      obtain ⟨t, ht⟩ := h i (by simpa using hi)
      obtain ⟨t', ht'⟩ := h j (by simpa using hj)
      obtain ⟨k, rfl⟩ := hs.dvd ht
      obtain ⟨k', rfl⟩ := hs.dvd ht'
      simp only [ht, ht', Option.getD_some] at heq
      obtain rfl : k = k' := by omega
      have := hs.apart ht ht'
      omega
  rw [Finset.card_range, Finset.card_range] at hcard
  omega

/-! ## Where the entries of a region lie -/

/-- How many of `n` megabytes from `m` on have no table yet. -/
def missingTables (s : ShadowMemory) (m n : Nat) : Nat :=
  (List.range n).countP fun i => (s.megaMap (m + i)).isNone

/-- The table of megabyte `m + i` once `m`, ..., `m + i` were asked for. -/
def tableAfter (s : ShadowMemory) (m i : Nat) : Nat :=
  (s.megaMap (m + i)).getD (s.pageMapBumpPtr + 256 * s.missingTables m i)

/-- The entry of the `k`-th page after page `p` once these were looked up. -/
def entryAfter (s : ShadowMemory) (p k : Nat) : Nat :=
  s.tableAfter (p / 256) ((p + k) / 256 - p / 256) + (p + k) % 256

theorem missingTables_succ (s : ShadowMemory) (m n : Nat) : s.missingTables m (n + 1) =
    s.missingTables m n + if s.megaMap (m + n) = none then 1 else 0 := by
  unfold missingTables
  rw [List.range_succ, List.countP_append, List.countP_singleton]
  simp only [Option.isNone_iff_eq_none]

/-- The `n` megabytes from `m` on were asked for, starting from `s`. -/
structure Ensured (s : ShadowMemory) (m n : Nat) (r : ShadowMemory) : Prop where
  made : ∀ i < n, r.megaMap (m + i) = some (s.tableAfter m i)
  others : ∀ m', (∀ i < n, m' ≠ m + i) → r.megaMap m' = s.megaMap m'
  bump : r.pageMapBumpPtr = s.pageMapBumpPtr + 256 * s.missingTables m n
  pageMap : r.pageMap = s.pageMap
  inMap : ∀ i < n, m + i < numMegabyteMapEntries

theorem Ensured.init (s : ShadowMemory) (m : Nat) : Ensured s m 0 s :=
  ⟨fun _ h => absurd h (Nat.not_lt_zero _), fun _ _ => rfl, rfl, rfl,
    fun _ h => absurd h (Nat.not_lt_zero _)⟩

/-- One of these megabytes again, or the next one. -/
theorem Ensured.next {s r r' : ShadowMemory} {m n i t : Nat} (h : Ensured s m n r) (hi : i ≤ n)
    (hget : r.getMegaMapEntry (m + i) = some (r', t)) :
    Ensured s m (max n (i + 1)) r' ∧ t = s.tableAfter m i := by
  obtain ⟨hin, hcases⟩ := getMegaMapEntry_cases hget
  by_cases hlt : i < n
  · -- its table is there
    have hmade := h.made i hlt
    rw [Nat.max_eq_left hlt]
    rcases hcases with ⟨ht, rfl⟩ | ⟨hnone, -⟩
    · exact ⟨h, Option.some.inj (ht.symm.trans hmade)⟩
    · rw [hmade] at hnone
      cases hnone
  · obtain rfl : i = n := by omega
    rw [Nat.max_eq_right (Nat.le_succ i)]
    have hold : r.megaMap (m + i) = s.megaMap (m + i) := h.others _ fun j hj => by omega
    have hinMap : ∀ j < i + 1, m + j < numMegabyteMapEntries := by
      intro j hj
      rcases Nat.lt_succ_iff_lt_or_eq.mp hj with hj | rfl
      · exact h.inMap j hj
      · exact hin
    rcases hcases with ⟨ht, rfl⟩ | ⟨hnone, -, rfl, rfl⟩
    · have hs : s.megaMap (m + i) = some t := hold.symm.trans ht
      have htable : s.tableAfter m i = t := by rw [tableAfter, hs, Option.getD_some]
      refine ⟨⟨fun j hj => ?_, fun m' hne => h.others m' fun j hj => hne j (by omega), ?_,
        h.pageMap, hinMap⟩, htable.symm⟩
      · rcases Nat.lt_succ_iff_lt_or_eq.mp hj with hj | rfl
        · exact h.made j hj
        · rw [ht, htable]
      · rw [h.bump, missingTables_succ, if_neg (by simp [hs]), Nat.add_zero]
    · have hs : s.megaMap (m + i) = none := hold.symm.trans hnone
      have htable : s.tableAfter m i = r.pageMapBumpPtr := by
        rw [tableAfter, hs, Option.getD_none, h.bump]
      refine ⟨⟨fun j hj => ?_, fun m' hne => ?_, ?_, h.pageMap, hinMap⟩, htable.symm⟩
      · rcases Nat.lt_succ_iff_lt_or_eq.mp hj with hj | rfl
        · rw [allocTable_of_ne r (by omega)]
          exact h.made j hj
        · rw [allocTable_self, htable]
      · rw [allocTable_of_ne r (hne i (Nat.lt_succ_self i))]
        exact h.others m' fun j hj => hne j (by omega)
      · show r.pageMapBumpPtr + 256 = _
        rw [h.bump, missingTables_succ, if_pos hs]
        omega

/-- The number of megabytes that `n` pages from page `p` on reach into. -/
def megabytesOf (p n : Nat) : Nat := (p % 256 + n + 255) / 256

theorem lookupPages_ensured {s : ShadowMemory} {p : Nat} : ∀ {n : Nat} {r : ShadowMemory}
    {entries : List Nat}, lookupPages getPageMapEntry (List.range' p n) s = some (r, entries) →
    (0 < n → Ensured s (p / 256) (megabytesOf p n) r) ∧ (n = 0 → r = s)
      ∧ entries = (List.range n).map (s.entryAfter p)
  | 0, r, entries, h => by
      cases h
      exact ⟨fun h => absurd h (Nat.lt_irrefl 0), fun _ => rfl, rfl⟩
  | n + 1, r, entries, h => by
      have hrange : List.range' p (n + 1) = List.range' p n ++ [p + n] := by
        rw [List.range'_1_concat]
      rw [hrange, lookupPages_snoc] at h
      obtain ⟨⟨q, es⟩, hq, h⟩ := Option.bind_eq_some_iff.mp h
      obtain ⟨hens, hzero, rfl⟩ := lookupPages_ensured hq
      simp only [getPageMapEntry_page, Option.map_map] at h
      obtain ⟨⟨r', t⟩, hget, heq⟩ := Option.map_eq_some_iff.mp h
      simp only [Function.comp_apply, Prod.mk.injEq] at heq
      obtain ⟨rfl, rfl⟩ := heq
      have hmega : (p + n) / 256 = p / 256 + ((p + n) / 256 - p / 256) := by omega
      rw [hmega] at hget
      have hold : ∃ j, Ensured s (p / 256) j q ∧ (p + n) / 256 - p / 256 ≤ j
          ∧ max j ((p + n) / 256 - p / 256 + 1) = megabytesOf p (n + 1) := by
        unfold megabytesOf
        rcases Nat.eq_zero_or_pos n with rfl | hn
        · rw [hzero rfl]
          exact ⟨0, .init s _, by omega, by omega⟩
        · refine ⟨_, hens hn, ?_, ?_⟩ <;> unfold megabytesOf <;> omega
      obtain ⟨j, hj, hle, hmax⟩ := hold
      obtain ⟨hnext, rfl⟩ := hj.next hle hget
      refine ⟨fun _ => hmax ▸ hnext, fun h => absurd h (Nat.succ_ne_zero n), ?_⟩
      rw [List.range_succ, List.map_append]
      rfl

end ShadowMemory

end MemPerf.Original
