import MemPerf.Lib.Windows
import MemPerf.PageCleanup

/-!
# The tables as one flat shadow

What the tables are for: a `FlatShadow` has an entry for every page and
every line, and an operation on a region changes the entries of the
region. `flatten` reads it off the tables; a page or a line without a
table has a zero entry there.

Tables are made on the way, from memory that is all zero, and no two pages
share one (`Laid`). So the operations on the tables are the operations on
the flat shadow (`flatten_updatePages`, `flatten_updateCacheLines`,
`flatten_cleanupPages`), the last one where the cleanup is safe.
-/

namespace MemPerf.Original

open Word StepSystem PageWalk Coverage MemPerf.Original.ShadowMemory

/-! ## The flat shadow -/

/-- An entry for each page and for each line of the address space. -/
@[ext]
structure FlatShadow where
  pages : Nat → PageMapEntry := fun _ => {}
  lines : Nat → CacheMapEntry := fun _ => {}

namespace FlatShadow

def setPage (s : FlatShadow) (p : Nat) (e : PageMapEntry) : FlatShadow :=
  { s with pages := Function.update s.pages p e }

def setLine (s : FlatShadow) (l : Nat) (e : CacheMapEntry) : FlatShadow :=
  { s with lines := Function.update s.lines l e }

@[simp] theorem setPage_self (s : FlatShadow) (p : Nat) (e : PageMapEntry) :
    (s.setPage p e).pages p = e := Function.update_self ..

theorem setPage_of_ne (s : FlatShadow) {p q : Nat} (h : q ≠ p) (e : PageMapEntry) :
    (s.setPage p e).pages q = s.pages q := Function.update_of_ne h ..

@[simp] theorem setLine_self (s : FlatShadow) (l : Nat) (e : CacheMapEntry) :
    (s.setLine l e).lines l = e := Function.update_self ..

theorem setLine_of_ne (s : FlatShadow) {l k : Nat} (h : k ≠ l) (e : CacheMapEntry) :
    (s.setLine l e).lines k = s.lines k := Function.update_of_ne h ..

/-- Bytes that are allocated touch their page. -/
def touch (isFree : Bool) (e : PageMapEntry) : PageMapEntry := if isFree then e else e.setTouched

/-- The pages of the list that an allocation touches first. -/
def newPages (s : FlatShadow) (isFree : Bool) (pages : List Nat) : Nat :=
  if isFree then 0 else pages.countP fun p => !(s.pages p).touched

def updatePages (s : FlatShadow) (address size : Nat) (isFree : Bool) : FlatShadow :=
  { s with
    pages := onSpan pagesize ⟨address, size⟩ (fun n e => touch isFree (partBytes isFree n e))
      (fun e => touch isFree (wholeBytes isFree e)) s.pages }

def updateCacheLines (s : FlatShadow) (runningThreadIndex address size : Nat) (isFree : Bool) :
    FlatShadow :=
  { s with
    lines := onSpan cachelineSize ⟨address, size⟩
      (CacheMapEntry.updateCache runningThreadIndex isFree)
      (if isFree then .setEmpty else .setFull) s.lines }

/-- The touched pages of the list are zeroed, with their lines. -/
def cleanupPages (s : FlatShadow) (pages : List Nat) : FlatShadow where
  pages p := if p ∈ pages ∧ (s.pages p).touched then {} else s.pages p
  lines l := if l / 64 ∈ pages ∧ (s.pages (l / 64)).touched then {} else s.lines l

end FlatShadow

namespace ShadowMemory

variable (s : ShadowMemory)

/-- The place of a page's entry. -/
def entryOf (p : Nat) : Option Nat := (s.megaMap (p / 256)).map (· + p % 256)

/-- The place of a line's entry. -/
def lineOf (l : Nat) : Option Nat :=
  (s.entryOf (l / 64)).bind fun e => (s.pageMap e).cacheMapEntry.map (· + l % 64)

def flatten : FlatShadow where
  pages p := match s.entryOf p with
    | some e => { s.pageMap e with cacheMapEntry := none }
    | none => {}
  lines l := match s.lineOf l with
    | some c => s.cacheMap c
    | none => {}

/-- `Layout`, and the same of the line tables; what no table has got yet is
zero. -/
structure Laid : Prop extends Layout s where
  lines_dvd : ∀ {e t}, (s.pageMap e).cacheMapEntry = some t → 64 ∣ t
  lines_below : ∀ {e t}, (s.pageMap e).cacheMapEntry = some t → t + 64 ≤ s.cacheMapBumpPtr
  lines_apart : ∀ {e e' t}, (s.pageMap e).cacheMapEntry = some t →
    (s.pageMap e').cacheMapEntry = some t → e = e'
  cacheBump_dvd : 64 ∣ s.cacheMapBumpPtr
  pages_fresh : ∀ e, s.pageMapBumpPtr ≤ e → s.pageMap e = {}
  lines_fresh : ∀ c, s.cacheMapBumpPtr ≤ c → s.cacheMap c = {}

variable {s}

theorem laid_init : Laid {} where
  toLayout := layout_init
  lines_dvd h := by cases h
  lines_below h := by cases h
  lines_apart h := by cases h
  cacheBump_dvd := Nat.dvd_zero 64
  pages_fresh _ _ := rfl
  lines_fresh _ _ := rfl

theorem flatten_init : flatten {} = {} := rfl

theorem entryOf_of_table {p t : Nat} (h : s.megaMap (p / 256) = some t) :
    s.entryOf p = some (t + p % 256) := by rw [entryOf, h, Option.map_some]

theorem flatten_page {p e : Nat} (h : s.entryOf p = some e) :
    s.flatten.pages p = { s.pageMap e with cacheMapEntry := none } := by
  simp only [flatten, h]

theorem flatten_line {l c : Nat} (h : s.lineOf l = some c) : s.flatten.lines l = s.cacheMap c := by
  simp only [flatten, h]

/-- Two pages have different entries. -/
theorem Laid.entryOf_inj (hs : s.Laid) {p q e : Nat} (hp : s.entryOf p = some e)
    (hq : s.entryOf q = some e) : p = q := by
  obtain ⟨t, ht, rfl⟩ := Option.map_eq_some_iff.mp hp
  obtain ⟨t', ht', heq⟩ := Option.map_eq_some_iff.mp hq
  obtain ⟨hm, hi⟩ := hs.entry_inj ht ht' (Nat.mod_lt _ (by decide)) (Nat.mod_lt _ (by decide))
    heq.symm
  omega

theorem Laid.entryOf_below (hs : s.Laid) {p e : Nat} (hp : s.entryOf p = some e) :
    e < s.pageMapBumpPtr := by
  obtain ⟨t, ht, rfl⟩ := Option.map_eq_some_iff.mp hp
  have hbelow := hs.below ht
  omega

/-- Two lines have different entries. -/
theorem Laid.lineOf_inj (hs : s.Laid) {l k c : Nat} (hl : s.lineOf l = some c)
    (hk : s.lineOf k = some c) : l = k := by
  obtain ⟨e, he, hl⟩ := Option.bind_eq_some_iff.mp hl
  obtain ⟨t, ht, rfl⟩ := Option.map_eq_some_iff.mp hl
  obtain ⟨e', he', hk⟩ := Option.bind_eq_some_iff.mp hk
  obtain ⟨t', ht', heq⟩ := Option.map_eq_some_iff.mp hk
  obtain ⟨i, rfl⟩ := hs.lines_dvd ht
  obtain ⟨j, rfl⟩ := hs.lines_dvd ht'
  obtain rfl : i = j := by omega
  obtain rfl := hs.lines_apart ht ht'
  have hpage := hs.entryOf_inj he he'
  omega

/-! ## Tables that are made -/

/-- A table made of zeroes shows nothing new. -/
theorem Laid.allocTable (hs : s.Laid) {m : Nat} (hnone : s.megaMap m = none)
    (hroom : s.pageMapBumpPtr + 256 < maxPageMapEntries) :
    (s.allocTable m).Laid ∧ (s.allocTable m).flatten = s.flatten := by
  refine ⟨⟨hs.toLayout.alloc hroom, hs.lines_dvd, hs.lines_below, hs.lines_apart, hs.cacheBump_dvd,
    fun e he => hs.pages_fresh e (Nat.le_of_add_right_le he), hs.lines_fresh⟩, ?_⟩
  have hold : ∀ p, p / 256 ≠ m → (s.allocTable m).entryOf p = s.entryOf p := by
    intro p hp
    rw [entryOf, entryOf, allocTable_of_ne s hp]
  have hmade : ∀ p, p / 256 = m → s.entryOf p = none
      ∧ (s.allocTable m).entryOf p = some (s.pageMapBumpPtr + p % 256)
      ∧ (s.allocTable m).pageMap (s.pageMapBumpPtr + p % 256) = {} := by
    intro p hp
    refine ⟨?_, entryOf_of_table (hp ▸ allocTable_self s m),
      hs.pages_fresh _ (Nat.le_add_right _ _)⟩
    rw [entryOf, hp, hnone]
    rfl
  refine FlatShadow.ext (funext fun p => ?_) (funext fun l => ?_)
  · by_cases hp : p / 256 = m
    · obtain ⟨h0, h1, h2⟩ := hmade p hp
      simp only [flatten, h0, h1, h2]
    · simp only [flatten, hold p hp]
      rfl
  · by_cases hp : l / 64 / 256 = m
    · obtain ⟨h0, h1, h2⟩ := hmade (l / 64) hp
      simp only [flatten, lineOf, h0, h1, Option.bind_some, h2, Option.map_none, Option.bind_none]
    · simp only [flatten, lineOf, hold (l / 64) hp]
      rfl

/-- A table that is asked for changes nothing in the flat shadow. -/
theorem Laid.getMegaMapEntry {s' : ShadowMemory} {m t : Nat} (hs : s.Laid)
    (h : s.getMegaMapEntry m = some (s', t)) : s'.Laid ∧ s'.flatten = s.flatten := by
  obtain ⟨-, ⟨-, rfl⟩ | ⟨hnone, hroom, -, rfl⟩⟩ := getMegaMapEntry_cases h
  · exact ⟨hs, rfl⟩
  · exact hs.allocTable hnone hroom

theorem Laid.getPageMapEntry {s' : ShadowMemory} {a e : Nat} (hs : s.Laid)
    (h : s.getPageMapEntry a = some (s', e)) : s'.Laid ∧ s'.flatten = s.flatten := by
  rw [getPageMapEntry_eq] at h
  obtain ⟨⟨r, t⟩, hr, heq⟩ := Option.map_eq_some_iff.mp h
  cases heq
  exact hs.getMegaMapEntry hr

/-- The next line table, given to the page entry. -/
def allocLines (s : ShadowMemory) (e : Nat) : ShadowMemory :=
  { s with
    pageMap := Function.update s.pageMap e
      { s.pageMap e with cacheMapEntry := some s.cacheMapBumpPtr }
    cacheMapBumpPtr := s.cacheMapBumpPtr + 64 }

theorem allocLines_self (s : ShadowMemory) (e : Nat) : (s.allocLines e).pageMap e =
    { s.pageMap e with cacheMapEntry := some s.cacheMapBumpPtr } := Function.update_self ..

theorem allocLines_of_ne (s : ShadowMemory) {e e' : Nat} (h : e' ≠ e) :
    (s.allocLines e).pageMap e' = s.pageMap e' := Function.update_of_ne h ..

theorem Laid.allocLines (hs : s.Laid) {p e : Nat} (he : s.entryOf p = some e)
    (hnone : (s.pageMap e).cacheMapEntry = none) :
    (s.allocLines e).Laid ∧ (s.allocLines e).flatten = s.flatten := by
  have hcases : ∀ {e' t}, ((s.allocLines e).pageMap e').cacheMapEntry = some t →
      e' = e ∧ t = s.cacheMapBumpPtr ∨ (s.pageMap e').cacheMapEntry = some t := by
    intro e' t ht
    by_cases hee : e' = e
    · subst hee
      rw [allocLines_self] at ht
      exact .inl ⟨rfl, (Option.some.inj ht).symm⟩
    · rw [allocLines_of_ne s hee] at ht
      exact .inr ht
  have hbump : (s.allocLines e).cacheMapBumpPtr = s.cacheMapBumpPtr + 64 := rfl
  refine ⟨⟨hs.toLayout.of_megaMap rfl rfl, fun ht => ?_, fun ht => ?_, fun ht ht' => ?_, ?_,
    fun e' he' => ?_, fun c hc => hs.lines_fresh c (Nat.le_of_add_right_le hc)⟩, ?_⟩
  · rcases hcases ht with ⟨-, rfl⟩ | hold
    · exact hs.cacheBump_dvd
    · exact hs.lines_dvd hold
  · rw [hbump]
    rcases hcases ht with ⟨-, rfl⟩ | hold
    · exact Nat.le_refl _
    · exact Nat.le_add_right_of_le (hs.lines_below hold)
  · rcases hcases ht with ⟨rfl, rfl⟩ | hold <;> rcases hcases ht' with ⟨rfl, heq⟩ | hold'
    · rfl
    · have := hs.lines_below hold'
      omega
    · have := hs.lines_below hold
      omega
    · exact hs.lines_apart hold hold'
  · exact Nat.dvd_add hs.cacheBump_dvd (Nat.dvd_refl 64)
  · rw [allocLines_of_ne s (Nat.ne_of_gt ((hs.entryOf_below he).trans_le he'))]
    exact hs.pages_fresh e' he'
  · have hentry : ∀ q, (s.allocLines e).entryOf q = s.entryOf q := fun _ => rfl
    refine FlatShadow.ext (funext fun q => ?_) (funext fun l => ?_)
    · simp only [flatten, hentry]
      cases s.entryOf q with
      | none => rfl
      | some e' =>
          by_cases hee : e' = e
          · subst hee
            simp only [allocLines_self]
          · simp only [allocLines_of_ne s hee]
    · simp only [flatten, lineOf, hentry]
      cases s.entryOf (l / 64) with
      | none => rfl
      | some e' =>
          by_cases hee : e' = e
          · subst hee
            simp only [Option.bind_some, allocLines_self, hnone, Option.map_some, Option.map_none]
            exact hs.lines_fresh _ (Nat.le_add_right _ _)
          · simp only [Option.bind_some, allocLines_of_ne s hee]
            rfl

/-- A line table that is asked for, likewise. -/
theorem Laid.getCacheMapEntry {s' : ShadowMemory} {p e t : Nat} (hs : s.Laid)
    (he : s.entryOf p = some e) (h : s.getCacheMapEntry e = some (s', t)) :
    s'.Laid ∧ s'.flatten = s.flatten ∧ s'.megaMap = s.megaMap
      ∧ (s'.pageMap e).cacheMapEntry = some t := by
  unfold ShadowMemory.getCacheMapEntry at h
  split at h
  · next table htable =>
      cases h
      exact ⟨hs, rfl, rfl, htable⟩
  · next hnone =>
      simp only [doCacheMapBumpPointer] at h
      split at h
      · cases h
      · cases h
        obtain ⟨hlaid, hflat⟩ := hs.allocLines he hnone
        exact ⟨hlaid, hflat, rfl, congrArg PageMapEntry.cacheMapEntry (allocLines_self s e)⟩

/-! ## Entries that are written -/

/-- The write changes neither the pointer to the lines nor anything by it. -/
def Plain (f : PageMapEntry → PageMapEntry) : Prop :=
  ∀ e x, f { e with cacheMapEntry := x } = { f e with cacheMapEntry := x }

theorem Plain.cacheMapEntry {f : PageMapEntry → PageMapEntry} (hf : Plain f) (e : PageMapEntry) :
    (f e).cacheMapEntry = e.cacheMapEntry := by
  have hsame : f e = { f e with cacheMapEntry := e.cacheMapEntry } := hf e e.cacheMapEntry
  rw [hsame]

/-- A page's entry. -/
theorem Laid.modifyPage (hs : s.Laid) {p e : Nat} (he : s.entryOf p = some e)
    {f : PageMapEntry → PageMapEntry} (hf : Plain f) :
    (s.modifyPage e f).Laid ∧
      (s.modifyPage e f).flatten = s.flatten.setPage p (f (s.flatten.pages p)) := by
  have hsame := modifyPage_sameTables s e (f := f) hf.cacheMapEntry
  have hentry : ∀ q, (s.modifyPage e f).entryOf q = s.entryOf q := fun _ => rfl
  refine ⟨⟨hs.toLayout.congr hsame, fun {e' t} ht => hs.lines_dvd (hsame.cacheMapEntry e' ▸ ht),
    fun {e' t} ht => hs.lines_below (hsame.cacheMapEntry e' ▸ ht),
    fun {e₁ e₂ t} ht ht' => hs.lines_apart (hsame.cacheMapEntry e₁ ▸ ht)
      (hsame.cacheMapEntry e₂ ▸ ht'), hs.cacheBump_dvd, fun e' he' => ?_, hs.lines_fresh⟩, ?_⟩
  · rw [modifyPage_of_ne s f (Nat.ne_of_gt ((hs.entryOf_below he).trans_le he'))]
    exact hs.pages_fresh e' he'
  · refine FlatShadow.ext (funext fun q => ?_) (funext fun l => ?_)
    · by_cases hq : q = p
      · subst hq
        have hwritten : (s.modifyPage e f).pageMap e = f (s.pageMap e) := Function.update_self ..
        rw [flatten_page ((hentry q).trans he), FlatShadow.setPage_self, flatten_page he, hf,
          hwritten]
      · rw [FlatShadow.setPage_of_ne _ hq]
        simp only [flatten, hentry]
        cases hqe : s.entryOf q with
        | none => rfl
        | some e' =>
            have hne : e' ≠ e := by
              rintro rfl
              exact hq (hs.entryOf_inj hqe he)
            simp only [modifyPage_of_ne s f hne]
    · have hline : (s.modifyPage e f).lineOf l = s.lineOf l := by
        simp only [lineOf, hentry, hsame.cacheMapEntry]
      simp only [flatten, hline]
      rfl

/-- A line's entry. -/
theorem Laid.modifyLine (hs : s.Laid) {l c : Nat} (hl : s.lineOf l = some c)
    (f : CacheMapEntry → CacheMapEntry) :
    (s.modifyLine c f).Laid ∧
      (s.modifyLine c f).flatten = s.flatten.setLine l (f (s.flatten.lines l)) := by
  have hline : ∀ k, (s.modifyLine c f).lineOf k = s.lineOf k := fun _ => rfl
  refine ⟨⟨hs.toLayout.of_megaMap rfl rfl, hs.lines_dvd, hs.lines_below, hs.lines_apart,
    hs.cacheBump_dvd, hs.pages_fresh, fun c' hc' => ?_⟩, ?_⟩
  · obtain ⟨e, -, hl⟩ := Option.bind_eq_some_iff.mp hl
    obtain ⟨t, ht, rfl⟩ := Option.map_eq_some_iff.mp hl
    have hbelow := hs.lines_below ht
    have hne : c' ≠ t + l % 64 := by
      change s.cacheMapBumpPtr ≤ c' at hc'
      omega
    exact (Function.update_of_ne hne ..).trans (hs.lines_fresh c' hc')
  · refine FlatShadow.ext rfl (funext fun k => ?_)
    by_cases hk : k = l
    · subst hk
      have hwritten : (s.modifyLine c f).cacheMap c = f (s.cacheMap c) := Function.update_self ..
      rw [flatten_line ((hline k).trans hl), FlatShadow.setLine_self, flatten_line hl, hwritten]
    · rw [FlatShadow.setLine_of_ne _ hk]
      simp only [flatten, hline]
      cases hkc : s.lineOf k with
      | none => rfl
      | some c' =>
          have hne : c' ≠ c := by
            rintro rfl
            exact hk (hs.lineOf_inj hkc hl)
          exact Function.update_of_ne hne ..

end ShadowMemory

/-! ## updatePages -/

open FlatShadow

theorem plain_partBytes (isFree : Bool) (n : Nat) : Plain (partBytes isFree n) := by
  intro e x
  cases isFree <;> rfl

theorem plain_wholeBytes (isFree : Bool) : Plain (wholeBytes isFree) := by
  intro e x
  cases isFree <;> rfl

theorem partBytes_touched (isFree : Bool) (n : Nat) (e : PageMapEntry) :
    (partBytes isFree n e).touched = e.touched := by cases isFree <;> rfl

theorem wholeBytes_touched (isFree : Bool) (e : PageMapEntry) :
    (wholeBytes isFree e).touched = e.touched := by cases isFree <;> rfl

theorem FlatShadow.newPages_congr {s r : FlatShadow} {isFree : Bool} {pages : List Nat}
    (h : ∀ p ∈ pages, (s.pages p).touched = (r.pages p).touched) :
    s.newPages isFree pages = r.newPages isFree pages := by
  unfold newPages
  split
  · rfl
  · exact List.countP_congr fun p hp => by rw [h p hp]

theorem FlatShadow.newPages_append (s : FlatShadow) (isFree : Bool) (pages more : List Nat) :
    s.newPages isFree (pages ++ more) = s.newPages isFree pages + s.newPages isFree more := by
  unfold newPages
  split
  · rfl
  · exact List.countP_append

/-- The walk stands on page `p`, with the index of the next one. -/
structure Stands (w : PageWalk) (c : PageCursor) (p : Nat) : Prop where
  laid : w.shadow.Laid
  atPage : AtPage w.shadow c p
  index : c.pageIndex = (p + 1) % 256
  num : w.numPages < 2 ^ 32

theorem AtPage.entryOf {s : ShadowMemory} {c : PageCursor} {p : Nat} (h : AtPage s c p) :
    s.entryOf p = some c.current := by
  obtain ⟨t, ht, hcur⟩ := h.entry
  rw [hcur]
  exact entryOf_of_table ht

theorem nextPage_flat {s q : ShadowMemory} {c c' : PageCursor} {p : Nat} (hs : s.Laid)
    (hat : AtPage s c p) (hindex : c.pageIndex = (p + 1) % 256)
    (h : s.nextPage c = some (q, c')) :
    q.Laid ∧ q.flatten = s.flatten ∧ AtPage q c' (p + 1) ∧ c'.pageIndex = (p + 1) % 256 := by
  rw [nextPage_eq hat hindex] at h
  obtain ⟨⟨r, e⟩, hget, heq⟩ := Option.map_eq_some_iff.mp h
  cases heq
  obtain ⟨hlaid, hflat⟩ := hs.getPageMapEntry hget
  exact ⟨hlaid, hflat, atPage_of_lookup hget rfl, hindex⟩

/-- One page is updated. -/
theorem updatePage_flat {w w' : PageWalk} {isFree : Bool} {bytes : PageMapEntry → PageMapEntry}
    {p current : Nat} (hbytes : Plain bytes) (htouched : ∀ e, (bytes e).touched = e.touched)
    (hs : w.shadow.Laid) (hentry : w.shadow.entryOf p = some current) (hnum : w.numPages < 2 ^ 32)
    (h : updatePage isFree bytes current w = some w') :
    w'.shadow.Laid ∧ w'.shadow.megaMap = w.shadow.megaMap
      ∧ w'.shadow.flatten = w.shadow.flatten.setPage p (touch isFree
        (bytes (w.shadow.flatten.pages p)))
      ∧ w'.numPages = wrap 32 (w.numPages + w.shadow.flatten.newPages isFree [p]) := by
  unfold updatePage at h
  split at h
  · obtain ⟨hlaid, hflat⟩ := hs.modifyPage hentry hbytes
    have hold : ((w.shadow.modifyPage current bytes).pageMap current).touched
        = (w.shadow.flatten.pages p).touched := by
      have hwritten : (w.shadow.modifyPage current bytes).pageMap current
          = bytes (w.shadow.pageMap current) := Function.update_self ..
      rw [flatten_page hentry, hwritten, htouched]
    simp only at h
    rw [hold] at h
    cases isFree with
    | true =>
        cases h
        refine ⟨hlaid, rfl, hflat, ?_⟩
        exact (wrap_of_lt hnum).symm
    | false =>
        cases ht : (w.shadow.flatten.pages p).touched with
        | true =>
            rw [ht] at h
            cases h
            refine ⟨hlaid, rfl, ?_, ?_⟩
            · have hkept : (bytes (w.shadow.flatten.pages p)).setTouched
                  = bytes (w.shadow.flatten.pages p) := by
                rw [PageMapEntry.setTouched, ← ht, ← htouched]
              rw [touch, if_neg (by decide), hkept]
              exact hflat
            · rw [newPages, if_neg (by decide), List.countP_singleton, ht]
              exact (wrap_of_lt hnum).symm
        | false =>
            rw [ht] at h
            cases h
            obtain ⟨hlaid', hflat'⟩ := hlaid.modifyPage (p := p) hentry (f := .setTouched)
              fun _ _ => rfl
            refine ⟨hlaid', rfl, ?_, ?_⟩
            · show ((w.shadow.modifyPage current bytes).modifyPage current .setTouched).flatten = _
              rw [hflat', hflat, setPage_self, touch, if_neg (by decide), setPage, setPage, setPage,
                Function.update_idem]
            · rw [newPages, if_neg (by decide), List.countP_singleton, ht]
              rfl
  · cases h

/-- The walk steps to the next page and updates it. -/
theorem stepPage_flat {w w' : PageWalk} {c c' : PageCursor} {isFree : Bool}
    {bytes : PageMapEntry → PageMapEntry} {p : Nat} {q : ShadowMemory} (hbytes : Plain bytes)
    (htouched : ∀ e, (bytes e).touched = e.touched) (h : Stands w c p)
    (hnext : w.shadow.nextPage c = some (q, c'))
    (hupdate : updatePage isFree bytes c'.current { w with shadow := q } = some w') :
    Stands w' (c'.incr 8) (p + 1)
      ∧ w'.shadow.flatten = w.shadow.flatten.setPage (p + 1) (touch isFree
        (bytes (w.shadow.flatten.pages (p + 1))))
      ∧ w'.numPages = wrap 32 (w.numPages + w.shadow.flatten.newPages isFree [p + 1]) := by
  obtain ⟨hlaid, hflat, hat, hindex⟩ := nextPage_flat h.laid h.atPage h.index hnext
  obtain ⟨hlaid', hmega, hflat', hnum⟩ := updatePage_flat (w := { w with shadow := q }) hbytes
    htouched hlaid hat.entryOf h.num hupdate
  have hat' : AtPage w'.shadow c' (p + 1) := hat.congr hmega
  refine ⟨⟨hlaid', ⟨hat'.inMap, hat'.mega, hat'.entry⟩, ?_, hnum ▸ wrap_lt 32 _⟩, ?_, ?_⟩
  · show wrap 8 (c'.pageIndex + 1) = _
    rw [hindex, wrap]
    omega
  · rw [hflat']
    simp only [hflat]
  · rw [hnum]
    simp only [hflat]

theorem wholePages_flat (isFree : Bool) : ∀ (n p : Nat) {w w' : PageWalk} {c c' : PageCursor},
    Stands w c p → wholePages isFree n w c = some (w', c') →
    Stands w' c' (p + n)
      ∧ w'.shadow.flatten = { w.shadow.flatten with
          pages := onRange p n (fun e => touch isFree (wholeBytes isFree e))
            w.shadow.flatten.pages }
      ∧ w'.numPages
        = wrap 32 (w.numPages + w.shadow.flatten.newPages isFree (List.range' (p + 1) n))
  | 0, p, w, w', c, c', hw, h => by
      cases h
      refine ⟨hw, by rw [onRange_zero], ?_⟩
      have hnone : w.shadow.flatten.newPages isFree (List.range' (p + 1) 0) = 0 := by
        unfold newPages
        split <;> rfl
      rw [hnone, Nat.add_zero, wrap_of_lt hw.num]
  | n + 1, p, w, w'', c, c'', hw, h => by
      obtain ⟨⟨q, c'⟩, hnext, h⟩ := Option.bind_eq_some_iff.mp h
      obtain ⟨w', hw', h⟩ := Option.bind_eq_some_iff.mp h
      obtain ⟨hstands, hflat, hnum⟩ := stepPage_flat (plain_wholeBytes isFree)
        (wholeBytes_touched isFree) hw hnext hw'
      obtain ⟨hstands', hflat', hnum'⟩ := wholePages_flat isFree n (p + 1) hstands h
      refine ⟨by rwa [show p + (n + 1) = p + 1 + n by omega], ?_, ?_⟩
      · rw [hflat', hflat, onRange_succ]
        rfl
      · -- the pages behind this one are as they were
        have hrest : w'.shadow.flatten.newPages isFree (List.range' (p + 1 + 1) n)
            = w.shadow.flatten.newPages isFree (List.range' (p + 1 + 1) n) := by
          refine newPages_congr fun r hr => ?_
          rw [List.mem_range'_1] at hr
          rw [hflat, setPage_of_ne _ (by omega)]
        rw [hnum', hnum, wrap_add_wrap, hrest, List.range'_succ, Nat.add_assoc,
          ← newPages_append, List.singleton_append]

/-- **updatePages on the tables is updatePages on the flat shadow**, and
counts the pages that the object touches first. -/
theorem updatePages_flat {s : ShadowMemory} {w : PageWalk} {address size : Nat} {isFree : Bool}
    (hs : s.Laid) (hsize : 0 < size)
    (h : s.updatePages address (megaIndexOf address) (pageIndexOf address) size isFree = some w) :
    w.shadow.Laid ∧ w.shadow.flatten = s.flatten.updatePages address size isFree
      ∧ w.numPages = wrap 32 (s.flatten.newPages isFree (regionPages address size)) := by
  have hoff : address &&& pagesizeMask = address % 4096 := and_pagesizeMask address
  have hmega : megaIndexOf address = address / 4096 / 256 := megaIndexOf_eq address
  have hindex : pageIndexOf address = address / 4096 % 256 := pageIndexOf_eq address
  have hpages : regionPages address size = _ := regionPages_eq hsize
  simp only [ShadowMemory.updatePages, hoff, pagesize, hmega, hindex] at h
  simp only [pageCount] at hpages
  generalize hfirst : min (4096 - address % 4096) size = first at h hpages
  generalize hrest : size - first = rest at h hpages
  generalize hp : address / 4096 = p at h hpages
  rw [FlatShadow.updatePages, onSpan_eq pagesize ⟨address, size⟩ _ _ _ hp hfirst hrest, hpages]
  simp only [pagesize]
  -- the first page
  obtain ⟨⟨q, table⟩, hget, h⟩ := Option.bind_eq_some_iff.mp h
  obtain ⟨w₁, hw₁, h⟩ := Option.bind_eq_some_iff.mp h
  obtain ⟨hlaid, hflat⟩ := hs.getMegaMapEntry hget
  have hentry : q.entryOf p = some (table + p % 256) :=
    entryOf_of_table (getMegaMapEntry_self hget)
  obtain ⟨hlaid₁, hmega₁, hflat₁, hnum₁⟩ := updatePage_flat (w := { shadow := q })
    (plain_partBytes isFree first) (partBytes_touched isFree first) hlaid hentry
    (Nat.two_pow_pos 32) hw₁
  have hstands : Stands w₁ (({ megaIndex := p / 256, pageIndex := p % 256
                               current := table + p % 256 } : PageCursor).incr 8) p := by
    refine ⟨hlaid₁, ⟨(getMegaMapEntry_cases hget).1, rfl, table, ?_, rfl⟩, ?_,
      hnum₁ ▸ wrap_lt 32 _⟩
    · rw [hmega₁]
      exact getMegaMapEntry_self hget
    · show wrap 8 (p % 256 + 1) = _
      rw [wrap]
      omega
  rw [hflat] at hflat₁ hnum₁
  -- the whole pages
  obtain ⟨⟨w₂, c⟩, hw₂, h⟩ := Option.bind_eq_some_iff.mp h
  obtain ⟨hstands₂, hflat₂, hnum₂⟩ := wholePages_flat isFree (rest / 4096) p hstands hw₂
  have hwholes : w₁.shadow.flatten.newPages isFree (List.range' (p + 1) (rest / 4096))
      = s.flatten.newPages isFree (List.range' (p + 1) (rest / 4096)) := by
    refine newPages_congr fun r hr => ?_
    rw [List.mem_range'_1] at hr
    rw [hflat₁, setPage_of_ne _ (by omega)]
  have hcount₂ : w₂.numPages
      = wrap 32 (s.flatten.newPages isFree (List.range' p (1 + rest / 4096))) := by
    rw [hnum₂, hnum₁, wrap_add_wrap, hwholes, Nat.zero_add, ← newPages_append,
      Nat.add_comm 1, List.range'_succ, List.singleton_append]
  split at h
  · -- the last page
    next hlast =>
      obtain ⟨⟨r, c'⟩, hnext, h⟩ := Option.bind_eq_some_iff.mp h
      obtain ⟨hstands₃, hflat₃, hnum₃⟩ := stepPage_flat (plain_partBytes isFree (rest % 4096))
        (partBytes_touched isFree _) hstands₂ hnext h
      refine ⟨hstands₃.laid, ?_, ?_⟩
      · rw [if_pos hlast, hflat₃, hflat₂, hflat₁]
        rfl
      · have hlastPage : w₂.shadow.flatten.newPages isFree [p + rest / 4096 + 1]
            = s.flatten.newPages isFree [p + rest / 4096 + 1] := by
          refine newPages_congr fun r hr => ?_
          obtain rfl := List.mem_singleton.mp hr
          rw [hflat₂, hflat₁]
          simp only [onRange]
          rw [if_neg (by omega), setPage_of_ne _ (by omega)]
        rw [hnum₃, hcount₂, wrap_add_wrap, hlastPage, if_pos hlast, ← newPages_append,
          List.range'_1_concat, show p + rest / 4096 + 1 = p + (1 + rest / 4096) by omega]
  · next hlast =>
      cases h
      refine ⟨hstands₂.laid, ?_, ?_⟩
      · rw [if_neg hlast, hflat₂, hflat₁]
        rfl
      · rw [if_neg hlast, Nat.add_zero]
        exact hcount₂

/-! ## updateCacheLines -/

/-- The walk stands on line `l`, with the index of the next one. -/
structure StandsLine (w : PageWalk) (c : LineCursor) (l : Nat) : Prop where
  laid : w.shadow.Laid
  atPage : AtPage w.shadow c.page (l / 64)
  index : c.page.pageIndex = l / 64 % 256
  line : w.shadow.lineOf l = some c.current
  cacheIndex : c.cacheIndex = l % 64 + 1

theorem lineOf_of_table {s : ShadowMemory} {l e t : Nat} (he : s.entryOf (l / 64) = some e)
    (ht : (s.pageMap e).cacheMapEntry = some t) : s.lineOf l = some (t + l % 64) := by
  rw [lineOf, he, Option.bind_some, ht, Option.map_some]

theorem lineTable_flat {w w' : PageWalk} {p e t : Nat} (hs : w.shadow.Laid)
    (he : w.shadow.entryOf p = some e) (h : lineTable e w = some (w', t)) :
    w'.shadow.Laid ∧ w'.shadow.flatten = w.shadow.flatten ∧ w'.shadow.megaMap = w.shadow.megaMap
      ∧ (w'.shadow.pageMap e).cacheMapEntry = some t := by
  unfold lineTable at h
  split at h
  · obtain ⟨⟨q, t'⟩, hget, h⟩ := Option.bind_eq_some_iff.mp h
    cases h
    exact hs.getCacheMapEntry he hget
  · cases h

theorem nextLine_flat {w w' : PageWalk} {c c' : LineCursor} {l : Nat} (h : StandsLine w c l)
    (hnext : w.nextLine c = some (w', c')) :
    w'.shadow.flatten = w.shadow.flatten
      ∧ StandsLine w' { c' with cacheIndex := c'.cacheIndex + 1 } (l + 1) := by
  have hcache := h.cacheIndex
  unfold nextLine at hnext
  split at hnext
  · -- the first line of the next page
    next hend =>
      simp only [numCachelinesPerPage] at hend
      have hpage : (l + 1) / 64 = l / 64 + 1 := by omega
      obtain ⟨⟨q, page⟩, hq, hnext⟩ := Option.bind_eq_some_iff.mp hnext
      obtain ⟨⟨w₁, table⟩, htable, hnext⟩ := Option.bind_eq_some_iff.mp hnext
      cases hnext
      have hindex : (c.page.incr 8).pageIndex = (l / 64 + 1) % 256 := by
        show wrap 8 (c.page.pageIndex + 1) = _
        rw [h.index, wrap]
        omega
      have hatPage : AtPage w.shadow (c.page.incr 8) (l / 64) :=
        ⟨h.atPage.inMap, h.atPage.mega, h.atPage.entry⟩
      obtain ⟨hlaid, hflat, hat, hindex'⟩ := nextPage_flat h.laid hatPage hindex hq
      obtain ⟨hlaid', hflat', hmega, htable'⟩ :=
        lineTable_flat (w := { w with shadow := q }) hlaid hat.entryOf htable
      have hat' : AtPage w'.shadow page (l / 64 + 1) := hat.congr hmega
      refine ⟨hflat'.trans hflat, hlaid', hpage ▸ hat', hpage ▸ hindex', ?_, ?_⟩
      · rw [lineOf_of_table (hpage ▸ hat'.entryOf) htable', show (l + 1) % 64 = 0 by omega]
        rfl
      · show 0 + 1 = (l + 1) % 64 + 1
        omega
  · next hend =>
      simp only [numCachelinesPerPage] at hend
      have hpage : (l + 1) / 64 = l / 64 := by omega
      cases hnext
      refine ⟨rfl, h.laid, hpage ▸ h.atPage, hpage ▸ h.index, ?_, ?_⟩
      · obtain ⟨e, he, hl⟩ := Option.bind_eq_some_iff.mp h.line
        obtain ⟨t, ht, hcur⟩ := Option.map_eq_some_iff.mp hl
        rw [lineOf_of_table (hpage ▸ he) ht, show t + (l + 1) % 64 = t + l % 64 + 1 by omega]
        exact congrArg (fun x => some (x + 1)) hcur
      · show c.cacheIndex + 1 = (l + 1) % 64 + 1
        omega

/-- The line the walk stands on is written. -/
theorem modifyLine_flat {w : PageWalk} {c : LineCursor} {l : Nat} (h : StandsLine w c l)
    (f : CacheMapEntry → CacheMapEntry) :
    (w.modifyLine c.current f).shadow.flatten
        = w.shadow.flatten.setLine l (f (w.shadow.flatten.lines l))
      ∧ StandsLine (w.modifyLine c.current f) c l := by
  obtain ⟨hlaid, hflat⟩ := h.laid.modifyLine h.line f
  exact ⟨hflat, hlaid, h.atPage.congr rfl, h.index, h.line, h.cacheIndex⟩

theorem wholeLines_flat (isFree : Bool) : ∀ (n l : Nat) {w w' : PageWalk} {c c' : LineCursor},
    StandsLine w c l → wholeLines isFree n w c = some (w', c') →
    StandsLine w' c' (l + n)
      ∧ w'.shadow.flatten = { w.shadow.flatten with
          lines := onRange l n (if isFree then .setEmpty else .setFull) w.shadow.flatten.lines }
  | 0, l, w, w', c, c', hw, h => by
      cases h
      exact ⟨hw, by rw [onRange_zero]⟩
  | n + 1, l, w, w'', c, c'', hw, h => by
      obtain ⟨⟨w', c'⟩, hnext, h⟩ := Option.bind_eq_some_iff.mp h
      obtain ⟨hflat, hstands⟩ := nextLine_flat hw hnext
      obtain ⟨hflat₁, hstands₁⟩ := modifyLine_flat hstands (if isFree then .setEmpty else .setFull)
      obtain ⟨hstands₂, hflat₂⟩ := wholeLines_flat isFree n (l + 1) hstands₁ h
      refine ⟨by rwa [show l + (n + 1) = l + 1 + n by omega], ?_⟩
      rw [hflat₂, onRange_succ]
      simp only [hflat₁, hflat]
      rfl

/-- **updateCacheLines on the tables is updateCacheLines on the flat
shadow.** -/
theorem updateCacheLines_flat {s : ShadowMemory} {w : PageWalk} {tid address size : Nat}
    {isFree : Bool} (hs : s.Laid) (h : s.updateCacheLines tid (megaIndexOf address)
      (pageIndexOf address) (cacheIndexOf address) (address &&& cachelineSizeMask) size isFree
      = some w) :
    w.shadow.Laid ∧ w.shadow.flatten = s.flatten.updateCacheLines tid address size isFree := by
  have hoff : address &&& cachelineSizeMask = address % 64 := and_cachelineSizeMask address
  have hcache : cacheIndexOf address = address / 64 % 64 := by
    rw [cacheIndexOf_eq]
    omega
  have hpage : address / 4096 = address / 64 / 64 := by omega
  have hmega : megaIndexOf address = address / 64 / 64 / 256 := hpage ▸ megaIndexOf_eq address
  have hindex : pageIndexOf address = address / 64 / 64 % 256 := hpage ▸ pageIndexOf_eq address
  simp only [ShadowMemory.updateCacheLines, hoff, hcache, hmega, hindex, cachelineSize] at h
  generalize hfirst : min (64 - address % 64) size = first at h
  generalize hrest : size - first = rest at h
  generalize hl : address / 64 = l at h
  rw [FlatShadow.updateCacheLines, onSpan_eq cachelineSize ⟨address, size⟩ _ _ _ hl hfirst hrest]
  simp only [cachelineSize]
  -- the first line
  obtain ⟨⟨q, table⟩, hget, h⟩ := Option.bind_eq_some_iff.mp h
  obtain ⟨⟨w₁, lines⟩, htable, h⟩ := Option.bind_eq_some_iff.mp h
  obtain ⟨hlaid, hflat⟩ := hs.getMegaMapEntry hget
  have hat : AtPage q { megaIndex := l / 64 / 256, pageIndex := l / 64 % 256
                        current := table + l / 64 % 256 } (l / 64) :=
    ⟨(getMegaMapEntry_cases hget).1, rfl, table, getMegaMapEntry_self hget, rfl⟩
  obtain ⟨hlaid₁, hflat₁, hmega₁, htable₁⟩ :=
    lineTable_flat (w := { shadow := q }) hlaid hat.entryOf htable
  have hat₁ := hat.congr hmega₁
  have hstands : StandsLine w₁
      { page := { megaIndex := l / 64 / 256, pageIndex := l / 64 % 256
                  current := table + l / 64 % 256 }
        current := lines + l % 64
        cacheIndex := l % 64 + 1 } l :=
    ⟨hlaid₁, hat₁, rfl, lineOf_of_table hat₁.entryOf htable₁, rfl⟩
  obtain ⟨hflat₂, hstands₂⟩ := modifyLine_flat hstands (.updateCache tid isFree first)
  rw [hflat₁, hflat] at hflat₂
  -- the whole lines
  obtain ⟨⟨w₃, c⟩, hw₃, h⟩ := Option.bind_eq_some_iff.mp h
  obtain ⟨hstands₃, hflat₃⟩ := wholeLines_flat isFree (rest / 64) l hstands₂ hw₃
  rw [hflat₂] at hflat₃
  split at h
  · -- the last line
    next hlast =>
      obtain ⟨⟨w₄, c'⟩, hnext, h⟩ := Option.bind_eq_some_iff.mp h
      cases h
      obtain ⟨hflat₄, hstands₄⟩ := nextLine_flat hstands₃ hnext
      obtain ⟨hflat₅, hstands₅⟩ := modifyLine_flat hstands₄ (.updateCache tid isFree (rest % 64))
      refine ⟨hstands₅.laid, ?_⟩
      rw [if_pos hlast]
      refine hflat₅.trans ?_
      rw [hflat₄, hflat₃]
      rfl
  · next hlast =>
      cases h
      refine ⟨hstands₃.laid, ?_⟩
      rw [if_neg hlast, hflat₃]
      rfl

/-! ## cleanupPages -/

/-- A page and its lines are zeroed. -/
def FlatShadow.clearPage (s : FlatShadow) (p : Nat) : FlatShadow where
  pages := Function.update s.pages p {}
  lines l := if l / 64 = p then {} else s.lines l

namespace ShadowMemory

/-- The `memset` over the line table of page `p`. -/
theorem Laid.clearLines {s r : ShadowMemory} {p e t : Nat} (hs : s.Laid)
    (he : s.entryOf p = some e) (ht : (s.pageMap e).cacheMapEntry = some t)
    (hr : r = { s with cacheMap := fun c =>
      if t ≤ c ∧ c < t + numCachelinesPerPage then {} else s.cacheMap c }) :
    r.Laid ∧ r.flatten =
      { s.flatten with lines := fun l => if l / 64 = p then {} else s.flatten.lines l } := by
  have hline : ∀ l, r.lineOf l = s.lineOf l := fun _ => by
    rw [hr]
    rfl
  have hcache : ∀ c, r.cacheMap c =
      if t ≤ c ∧ c < t + numCachelinesPerPage then {} else s.cacheMap c := fun _ => by rw [hr]
  have hpages : r.flatten.pages = s.flatten.pages := by
    rw [hr]
    rfl
  refine ⟨?_, FlatShadow.ext hpages (funext fun l => ?_)⟩
  · subst hr
    refine ⟨hs.toLayout.of_megaMap rfl rfl, hs.lines_dvd, hs.lines_below, hs.lines_apart,
      hs.cacheBump_dvd, hs.pages_fresh, fun c hc => ?_⟩
    simp only
    split
    · rfl
    · exact hs.lines_fresh c hc
  · show r.flatten.lines l = if l / 64 = p then {} else s.flatten.lines l
    cases hl : s.lineOf l with
    | none => simp only [flatten, hline, hl, ite_self]
    | some c =>
        rw [flatten_line ((hline l).trans hl), flatten_line hl, hcache]
        obtain ⟨e', he', hl⟩ := Option.bind_eq_some_iff.mp hl
        obtain ⟨t', ht', rfl⟩ := Option.map_eq_some_iff.mp hl
        obtain ⟨i, rfl⟩ := hs.lines_dvd ht
        obtain ⟨j, rfl⟩ := hs.lines_dvd ht'
        simp only [numCachelinesPerPage]
        -- the tables of two pages have no line in common
        have hiff : (64 * i ≤ 64 * j + l % 64 ∧ 64 * j + l % 64 < 64 * i + 64) ↔ l / 64 = p := by
          constructor
          · intro hin
            obtain rfl : i = j := by omega
            obtain rfl := hs.lines_apart ht ht'
            exact hs.entryOf_inj he' he
          · rintro rfl
            obtain rfl : e = e' := Option.some.inj (he.symm.trans he')
            obtain heq := Option.some.inj (ht.symm.trans ht')
            omega
        by_cases hp : l / 64 = p
        · rw [if_pos (hiff.mpr hp), if_pos hp]
        · rw [if_neg fun hin => hp (hiff.mp hin), if_neg hp]

theorem Laid.clear {s : ShadowMemory} {p e : Nat} (hs : s.Laid) (he : s.entryOf p = some e) :
    (clear e s).Laid ∧ (clear e s).megaMap = s.megaMap
      ∧ (clear e s).pageMapBumpPtr = s.pageMapBumpPtr
      ∧ (clear e s).flatten = s.flatten.clearPage p := by
  have hplain : Plain fun e => { e with touched := false, numUsedBytes := 0 } := fun _ _ => rfl
  unfold PageWalk.clear
  cases ht : (s.pageMap e).cacheMapEntry with
  | none =>
      obtain ⟨hlaid, hflat⟩ := hs.modifyPage he hplain
      refine ⟨hlaid, rfl, rfl, hflat.trans (FlatShadow.ext ?_ (funext fun l => ?_))⟩
      · rw [flatten_page he]
        rfl
      · show s.flatten.lines l = if l / 64 = p then {} else s.flatten.lines l
        split
        · next hl =>
            subst hl
            simp only [flatten, lineOf, he, Option.bind_some, ht, Option.map_none]
        · rfl
  | some t =>
      simp only
      obtain ⟨hlaid, hflat⟩ := hs.clearLines he ht rfl
      obtain ⟨hlaid', hflat'⟩ := hlaid.modifyPage (p := p) he hplain
      refine ⟨hlaid', rfl, rfl, hflat'.trans ?_⟩
      rw [hflat]
      refine FlatShadow.ext ?_ rfl
      show Function.update s.flatten.pages p _ = Function.update s.flatten.pages p {}
      rw [flatten_page he]

end ShadowMemory

theorem FlatShadow.cleanupPages_nil (s : FlatShadow) : s.cleanupPages [] = s := by
  refine FlatShadow.ext (funext fun p => ?_) (funext fun l => ?_)
  · simp [cleanupPages]
  · simp [cleanupPages]

theorem FlatShadow.cleanupPages_untouched {s : FlatShadow} {p : Nat}
    (h : (s.pages p).touched = false) (pages : List Nat) :
    s.cleanupPages (p :: pages) = s.cleanupPages pages := by
  refine FlatShadow.ext (funext fun q => ?_) (funext fun l => ?_)
  · by_cases hq : q = p
    · subst hq
      simp [cleanupPages, h]
    · simp [cleanupPages, hq]
  · by_cases hl : l / 64 = p
    · subst hl
      simp [cleanupPages, h]
    · simp [cleanupPages, hl]

theorem FlatShadow.cleanupPages_touched {s : FlatShadow} {p : Nat}
    (h : (s.pages p).touched = true) {pages : List Nat} (hp : p ∉ pages) :
    s.cleanupPages (p :: pages) = (s.clearPage p).cleanupPages pages := by
  refine FlatShadow.ext (funext fun q => ?_) (funext fun l => ?_)
  · by_cases hq : q = p
    · subst hq
      simp [cleanupPages, clearPage, h]
    · simp [cleanupPages, clearPage, hq]
  · by_cases hl : l / 64 = p
    · subst hl
      simp [cleanupPages, clearPage, h]
    · simp [cleanupPages, clearPage, hl]

/-- The entry the cleanup looks at is that of page `p`, or of no page yet. -/
def EntryOf (s : ShadowMemory) (p e : Nat) : Prop :=
  s.entryOf p = some e ∨ s.pageMapBumpPtr ≤ e ∧ s.entryOf p = none

/-- How many of the pages are touched. -/
def FlatShadow.touchedPages (s : FlatShadow) (pages : List Nat) : Nat :=
  pages.countP fun p => (s.pages p).touched

theorem EntryOf.touched {s : ShadowMemory} {p e : Nat} (hs : s.Laid) (h : EntryOf s p e) :
    (s.flatten.pages p).touched = (s.pageMap e).touched := by
  rcases h with he | ⟨hfresh, hnone⟩
  · rw [flatten_page he]
  · rw [hs.pages_fresh e hfresh]
    simp only [flatten, hnone]

/-- One page is cleaned up. -/
theorem cleanupPage_flat {w w' : PageWalk} {p current : Nat} (hs : w.shadow.Laid)
    (he : EntryOf w.shadow p current) (hnum : w.numPages < 2 ^ 32)
    (h : cleanupPage current w = some w') :
    w'.shadow.Laid ∧ w'.shadow.megaMap = w.shadow.megaMap
      ∧ w'.shadow.pageMapBumpPtr = w.shadow.pageMapBumpPtr
      ∧ (∀ {pages}, p ∉ pages →
        w'.shadow.flatten.cleanupPages pages = w.shadow.flatten.cleanupPages (p :: pages))
      ∧ w'.numPages = wrap 32 (w.numPages + w.shadow.flatten.touchedPages [p]) := by
  have htouched := he.touched hs
  rw [FlatShadow.touchedPages, List.countP_singleton]
  unfold cleanupPage at h
  split at h
  · simp only at h
    rw [← htouched] at h
    split at h
    · next ht =>
        cases h
        rcases he with he | ⟨-, hnone⟩
        · obtain ⟨hlaid, hmega, hbump, hflat⟩ := hs.clear he
          refine ⟨hlaid, hmega, hbump, fun hp => ?_, by rw [ht]; rfl⟩
          rw [FlatShadow.cleanupPages_touched ht hp]
          exact congrArg (fun r : FlatShadow => r.cleanupPages _) hflat
        · simp [flatten, hnone] at ht
    · next ht =>
        rw [Bool.not_eq_true] at ht
        cases h
        refine ⟨hs, rfl, rfl, fun _ => (FlatShadow.cleanupPages_untouched ht _).symm, ?_⟩
        rw [ht]
        exact (wrap_of_lt hnum).symm
  · cases h

theorem cleanPages_flat : ∀ (n p : Nat) {w w' : PageWalk} {c : PageCursor}, w.shadow.Laid →
    w.numPages < 2 ^ 32 → c.pageIndex + n < 2 ^ 32 →
    (∀ k < n, EntryOf w.shadow (p + k) (c.current + k)) → cleanPages n w c = some w' →
    w'.shadow.Laid ∧ w'.shadow.flatten = w.shadow.flatten.cleanupPages (List.range' p n)
      ∧ w'.numPages = wrap 32 (w.numPages + w.shadow.flatten.touchedPages (List.range' p n))
  | 0, p, w, w', c, hs, hnum, _, _, h => by
      cases h
      exact ⟨hs, (FlatShadow.cleanupPages_nil _).symm, (wrap_of_lt hnum).symm⟩
  | n + 1, p, w, w'', c, hs, hnum, hindex, he, h => by
      obtain ⟨w', hw', h⟩ := Option.bind_eq_some_iff.mp h
      obtain ⟨hlaid, hmega, hbump, hflat, hcount⟩ := cleanupPage_flat hs (he 0 (by omega)) hnum hw'
      rw [nextPage_unsigned w'.shadow (by omega)] at h
      have hentry : ∀ k < n, EntryOf w'.shadow (p + 1 + k) (c.current + 1 + k) := by
        intro k hk
        have hold := he (k + 1) (by omega)
        rw [show p + (k + 1) = p + 1 + k by omega,
          show c.current + (k + 1) = c.current + 1 + k by omega] at hold
        unfold EntryOf ShadowMemory.entryOf at hold ⊢
        rwa [hmega, hbump]
      obtain ⟨hlaid', hflat', hcount'⟩ := cleanPages_flat n (p + 1) hlaid
        (hcount ▸ wrap_lt 32 _) (by simp only; omega) hentry h
      have hp : p ∉ List.range' (p + 1) n := by
        rw [List.mem_range'_1]
        omega
      rw [Nat.add_zero] at hflat hcount
      refine ⟨hlaid', ?_, ?_⟩
      · rw [hflat', hflat hp, List.range'_succ]
      · have hrest : w'.shadow.flatten.touchedPages (List.range' (p + 1) n)
            = w.shadow.flatten.touchedPages (List.range' (p + 1) n) := by
          have hone := hflat (List.not_mem_nil (a := p))
          rw [FlatShadow.cleanupPages_nil] at hone
          refine List.countP_congr fun r hr => ?_
          have hne : r ∉ [p] := fun hmem => hp (List.mem_singleton.mp hmem ▸ hr)
          rw [hone]
          simp only [FlatShadow.cleanupPages, hne, false_and, if_false]
        rw [hcount', hcount, wrap_add_wrap, hrest, List.range'_succ, Nat.add_assoc]
        simp only [FlatShadow.touchedPages, List.countP_cons, List.countP_nil, Nat.zero_add,
          Nat.add_comm]

/-- Where the tables lie one after another, the cleanup looks at the entries
of the pages it should. -/
theorem entryOf_consecutive {s s' s₁ : ShadowMemory} {p n table k : Nat}
    (hm : Mapped s p n s' s₁ table)
    (htables : ∀ k < n, s.entryAfter p k = s.tableAfter (p / 256) 0 + p % 256 + k) (hk : k < n) :
    EntryOf s₁ (p + k) (table + p % 256 + k) := by
  have hentry := htables k hk
  rw [← hm.table_eq] at hentry
  rw [← hentry, entryAfter, tableAfter]
  have hmega : p / 256 + ((p + k) / 256 - p / 256) = (p + k) / 256 := by omega
  rw [hmega]
  obtain ⟨-, ⟨hfound, rfl⟩ | ⟨hnone, -, -, rfl⟩⟩ := getMegaMapEntry_cases hm.start
  · -- the first megabyte has its table
    cases ht : s₁.megaMap ((p + k) / 256) with
    | some t => exact .inl (entryOf_of_table ht)
    | none =>
        refine .inr ⟨Nat.le_add_right_of_le (Nat.le_add_right _ _), ?_⟩
        rw [ShadowMemory.entryOf, ht]
        rfl
  · by_cases hfirst : (p + k) / 256 = p / 256
    · refine .inl ?_
      rw [hfirst, Nat.sub_self, hnone]
      exact entryOf_of_table (hfirst ▸ allocTable_self s (p / 256))
    · have hsame := allocTable_of_ne s hfirst
      cases ht : s.megaMap ((p + k) / 256) with
      | some t => exact .inl (entryOf_of_table (hsame.trans ht))
      | none =>
          -- the table of the first megabyte comes before its own
          have hmissing : 1 ≤ s.missingTables (p / 256) ((p + k) / 256 - p / 256) := by
            rw [missingTables, Nat.one_le_iff_ne_zero, ← Nat.pos_iff_ne_zero, List.countP_pos_iff]
            exact ⟨0, List.mem_range.mpr (by omega), by simp [hnone]⟩
          refine .inr ⟨?_, ?_⟩
          · show s.pageMapBumpPtr + 256 ≤ _
            rw [Option.getD_none]
            omega
          · rw [ShadowMemory.entryOf, hsame, ht]
            rfl

/-- **A safe cleanup on the tables is a cleanup of the flat shadow**, and
returns the bytes of the touched pages. -/
theorem cleanupPages_flat {s : ShadowMemory} {w : PageWalk} {uintaddr length r : Nat}
    (hs : s.Laid) (hmapped : InMappedSpace s uintaddr length)
    (hsafe : CleanupSafe s uintaddr length) (h : s.cleanupPages uintaddr length = some (r, w)) :
    w.shadow.Laid
      ∧ w.shadow.flatten = s.flatten.cleanupPages (regionPages uintaddr length)
      ∧ r = 4096 * s.flatten.touchedPages (regionPages uintaddr length) := by
  obtain ⟨s', s₁, table, hm⟩ := mapped_of_inMappedSpace hs.toLayout hmapped
  obtain ⟨hrounds, htables, hfew⟩ := hsafe
  have hpages := regionPages_range' uintaddr length
  rw [megaIndexOf_eq] at htables
  generalize (regionPages uintaddr length).length = n at hm hrounds htables hfew hpages
  rw [← entries_consecutive_iff] at htables
  rw [hpages]
  obtain ⟨hlaid₁, hflat₁⟩ := hs.getMegaMapEntry hm.start
  have hentries : ∀ k < n, EntryOf s₁ (uintaddr / 4096 + k)
      (table + uintaddr / 4096 % 256 + k) := fun k hk => entryOf_consecutive hm htables hk
  have hcount : s.flatten.touchedPages (List.range' (uintaddr / 4096) n) < 2 ^ 20 := by
    refine Nat.lt_of_le_of_lt (Nat.le_of_eq ?_) hfew
    rw [FlatShadow.touchedPages, List.range'_eq_map_range, List.countP_map]
    refine List.countP_congr fun k hk => ?_
    rw [List.mem_range] at hk
    have htouched := (hentries k hk).touched hlaid₁
    rw [hflat₁, getMegaMapEntry_pageMap hm.start, hm.table_eq, ← htables k hk] at htouched
    rw [Function.comp_apply, htouched]
  rw [ShadowMemory.cleanupPages, megaIndexOf_eq, pageIndexOf_eq, hrounds, hm.start,
    Option.bind_eq_bind, Option.bind_some] at h
  obtain ⟨w', hw', heq⟩ := Option.bind_eq_some_iff.mp h
  simp only [pagesize, Nat.mul_div_cancel_left n (show 0 < 4096 by decide)] at hw'
  cases heq
  obtain ⟨hlaid, hflat, hnum⟩ := cleanPages_flat n (uintaddr / 4096) (w := { shadow := s₁ }) hlaid₁
    (Nat.two_pow_pos 32) hm.index hentries hw'
  rw [hflat₁] at hflat hnum
  refine ⟨hlaid, hflat, ?_⟩
  generalize s.flatten.touchedPages (List.range' (uintaddr / 4096) n) = count at hcount hnum ⊢
  rw [Nat.zero_add, wrap_of_lt (by omega : count < 2 ^ 32)] at hnum
  rw [hnum, pagesize, wrap_of_lt (by omega), Nat.mul_comm]

end MemPerf.Original
