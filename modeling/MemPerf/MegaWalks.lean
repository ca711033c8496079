import MemPerf.PageTables

/-!
# The walks of an object and the lookups

`updatePages` and `updateCacheLines` step through the entries of the
pages of an object; these are the entries that looking the pages up one
by one finds, in that order, also across megabytes (`updatePages_visits`,
`updateCacheLines_visits`).

The argument is one fact about a step: with the eight-bit page index of
the next page, `nextPage` is `getPageMapEntry` of that page
(`nextPage_eq`). `Visited` says that a walk has used the entries of the
pages so far and nothing else; it is kept page by page. A walk that ends
early does so at a page whose lookup fails too, which is what `Agrees`
records of a partial step.
-/

namespace MemPerf.Original

open Word StepSystem PageWalk MemPerf.Original.ShadowMemory

/-- The walk used the entries that looking the pages of the region up one
by one finds: each once, in order, and no other. It stops early just when
the lookups do. -/
def VisitsRegion (look : ShadowMemory → Nat → Option (ShadowMemory × Nat)) (s : ShadowMemory)
    (uintaddr length : Nat) (walk : Option PageWalk) : Prop :=
  match lookupPages look (regionPages uintaddr length) s with
  | none => walk = none
  | some (s', entries) => ∃ w, walk = some w ∧ w.visited = entries ∧ entries.Nodup
      ∧ w.shadow.megaMap = s'.megaMap ∧ ∀ e, e ∉ entries → w.shadow.pageMap e = s.pageMap e

/-! ## Partial steps against lookups -/

/-- The two ways of looking a page up. -/
structure LooksUp (look : ShadowMemory → Nat → Option (ShadowMemory × Nat)) : Prop where
  same : ∀ {s r}, SameTables s r → ∀ a, SameOutcome (look s a) (look r a)
  fails : ∀ {s a}, s.getPageMapEntry a = none → look s a = none

theorem looksUp_pages : LooksUp getPageMapEntry := ⟨getPageMapEntry_same, fun h => h⟩

theorem looksUp_lines : LooksUp getLineTable where
  same := getLineTable_same
  fails h := by
    rw [getLineTable, h]
    rfl

section Agrees

variable {α β : Type} {look : ShadowMemory → Nat → Option (ShadowMemory × Nat)}
  {s : ShadowMemory} {pages pages' : List Nat}

/-- The result is a good one, or there is none and looking the pages up
fails. -/
def Agrees (look : ShadowMemory → Nat → Option (ShadowMemory × Nat)) (s : ShadowMemory)
    (pages : List Nat) (result : Option α) (good : α → Prop) : Prop :=
  (∃ x, result = some x ∧ good x) ∨ (result = none ∧ lookupPages look pages s = none)

theorem Agrees.ok {x : α} {good : α → Prop} (h : good x) : Agrees look s pages (some x) good :=
  Or.inl ⟨x, rfl, h⟩

theorem Agrees.of_some {x : Option α} {a : α} {good : α → Prop} (h : Agrees look s pages x good)
    (ha : x = some a) : good a := by
  rcases h with ⟨a', rfl, hgood⟩ | ⟨rfl, -⟩
  · cases ha
    exact hgood
  · cases ha

theorem Agrees.imp {x : Option α} {good good' : α → Prop} (h : Agrees look s pages x good)
    (himp : ∀ a, good a → good' a) : Agrees look s pages x good' := by
  rcases h with ⟨a, rfl, ha⟩ | hfail
  · exact .ok (himp a ha)
  · exact Or.inr hfail

theorem Agrees.bind {x : Option α} {f : α → Option β} {good : α → Prop} {good' : β → Prop}
    (h : Agrees look s pages x good) (hpages : pages <+: pages')
    (hf : ∀ a, good a → Agrees look s pages' (f a) good') :
    Agrees look s pages' (x.bind f) good' := by
  rcases h with ⟨a, rfl, ha⟩ | ⟨rfl, hnone⟩
  · exact hf a ha
  · obtain ⟨more, rfl⟩ := hpages
    exact Or.inr ⟨rfl, lookupPages_append_none hnone more⟩

end Agrees

/-! ## What was visited -/

/-- The walk from `s` used the entries of these pages, and no others. -/
structure Visited (look : ShadowMemory → Nat → Option (ShadowMemory × Nat)) (s : ShadowMemory)
    (pages : List Nat) (w : PageWalk) : Prop where
  looked : ∃ r, lookupPages look pages s = some (r, w.visited) ∧ SameTables w.shadow r
  entries : List.Forall₂ (fun p e => ∃ t, w.shadow.megaMap (p / 256) = some t ∧ e = t + p % 256)
    pages w.visited
  frame : ∀ e, e ∉ w.visited → w.shadow.pageMap e = s.pageMap e
  layout : w.shadow.Layout

/-- The state before the first page. -/
theorem visited_nil {look : ShadowMemory → Nat → Option (ShadowMemory × Nat)} {s : ShadowMemory}
    (hs : s.Layout) : Visited look s [] { shadow := s } :=
  ⟨⟨s, rfl, .refl s⟩, .nil, fun _ _ => rfl, hs⟩

/-- A page that cannot be looked up from where the walk is ends the lookups. -/
theorem Visited.lookup_fails {look : ShadowMemory → Nat → Option (ShadowMemory × Nat)}
    {s : ShadowMemory} {pages : List Nat} {w : PageWalk} {p : Nat} (hl : LooksUp look)
    (hv : Visited look s pages w) (h : look w.shadow (p * pagesize) = none) :
    lookupPages look (pages ++ [p]) s = none := by
  obtain ⟨r, hr, hsame⟩ := hv.looked
  have hnone := hl.same hsame (p * pagesize)
  rw [h] at hnone
  rw [lookupPages_snoc, hr, Option.bind_some, hnone.eq_none]
  rfl

/-- The cursor stands on page `p`. -/
structure AtPage (s : ShadowMemory) (c : PageCursor) (p : Nat) : Prop where
  inMap : p / 256 < numMegabyteMapEntries
  mega : c.megaIndex = p / 256
  entry : ∃ t, s.megaMap (p / 256) = some t ∧ c.current = t + p % 256

theorem AtPage.congr {s s' : ShadowMemory} {c : PageCursor} {p : Nat} (h : AtPage s c p)
    (hmega : s'.megaMap = s.megaMap) : AtPage s' c p :=
  ⟨h.inMap, h.mega, hmega.symm ▸ h.entry⟩

/-- A page that was looked up is where the cursor is. -/
theorem atPage_of_lookup {s s' : ShadowMemory} {c : PageCursor} {p : Nat}
    (h : s.getPageMapEntry (p * pagesize) = some (s', c.current)) (hmega : c.megaIndex = p / 256) :
    AtPage s' c p := by
  rw [getPageMapEntry_page] at h
  obtain ⟨⟨r, t⟩, hget, heq⟩ := Option.map_eq_some_iff.mp h
  simp only [Prod.mk.injEq] at heq
  obtain ⟨rfl, hcur⟩ := heq
  exact ⟨(getMegaMapEntry_cases hget).1, hmega, t, getMegaMapEntry_self hget, hcur.symm⟩

/-- Tables that are there stay. -/
theorem getPageMapEntry_keeps {s s' : ShadowMemory} {a e m t : Nat}
    (h : s.getPageMapEntry a = some (s', e)) (ht : s.megaMap m = some t) :
    s'.megaMap m = some t := by
  rw [getPageMapEntry_eq] at h
  obtain ⟨⟨r, t'⟩, hget, heq⟩ := Option.map_eq_some_iff.mp h
  cases heq
  obtain ⟨-, ⟨-, rfl⟩ | ⟨hnone, -, -, rfl⟩⟩ := getMegaMapEntry_cases hget
  · exact ht
  · by_cases hm : m = a / 4096 / 256
    · rw [hm, hnone] at ht
      cases ht
    · rw [allocTable_of_ne s hm, ht]

theorem getPageMapEntry_pageMap {s s' : ShadowMemory} {a e : Nat}
    (h : s.getPageMapEntry a = some (s', e)) : s'.pageMap = s.pageMap := by
  rw [getPageMapEntry_eq] at h
  obtain ⟨⟨r, t⟩, hget, heq⟩ := Option.map_eq_some_iff.mp h
  cases heq
  exact getMegaMapEntry_pageMap hget

/-- **A step of the walk is a lookup**: the eight-bit index of the next page
is 0 just when that page begins a megabyte. -/
theorem nextPage_eq {s : ShadowMemory} {c : PageCursor} {p : Nat} (h : AtPage s c p)
    (hindex : c.pageIndex = (p + 1) % 256) :
    s.nextPage c = (s.getPageMapEntry ((p + 1) * pagesize)).map fun r =>
      (r.1, { megaIndex := (p + 1) / 256, pageIndex := c.pageIndex, current := r.2 }) := by
  rw [getPageMapEntry_page, Option.map_map, nextPage]
  by_cases hzero : c.pageIndex = 0
  · have hmega : c.megaIndex + 1 = (p + 1) / 256 := by
      rw [h.mega]
      omega
    have hfirst : (p + 1) % 256 = 0 := hindex ▸ hzero
    rw [if_pos hzero, hmega, hfirst]
    cases s.getMegaMapEntry ((p + 1) / 256) <;> rfl
  · obtain ⟨t, ht, hcur⟩ := h.entry
    have hsame : (p + 1) / 256 = p / 256 := by omega
    rw [if_neg hzero, hsame, getMegaMapEntry_some h.inMap ht]
    simp only [Option.map_some, Function.comp_apply, Option.some.injEq, Prod.mk.injEq, true_and]
    rw [← h.mega, hcur, show t + p % 256 + 1 = t + (p + 1) % 256 by omega]

/-- The entry of a page that was looked up is inside the page map. -/
theorem Visited.entry_lt {look : ShadowMemory → Nat → Option (ShadowMemory × Nat)}
    {s q : ShadowMemory} {pages : List Nat} {w : PageWalk} {c : PageCursor} {p : Nat}
    (hv : Visited look s pages w)
    (hlook : w.shadow.getPageMapEntry (p * pagesize) = some (q, c.current))
    (hat : AtPage q c p) : q.Layout ∧ c.current < maxPageMapEntries := by
  obtain ⟨t, ht, hcur⟩ := hat.entry
  have hlayout : q.Layout := hv.layout.getPageMapEntry hlook
  exact ⟨hlayout, hcur ▸ hlayout.entry_lt ht (Nat.mod_lt _ (by decide))⟩

theorem nextPage_agrees {look : ShadowMemory → Nat → Option (ShadowMemory × Nat)}
    {s : ShadowMemory} {pages : List Nat} {w : PageWalk} {c : PageCursor} {p : Nat}
    (hl : LooksUp look) (hv : Visited look s pages w) (hc : AtPage w.shadow c p)
    (hindex : c.pageIndex = (p + 1) % 256) :
    Agrees look s (pages ++ [p + 1]) (w.shadow.nextPage c) fun x =>
      w.shadow.getPageMapEntry ((p + 1) * pagesize) = some (x.1, x.2.current)
        ∧ x.2.megaIndex = (p + 1) / 256 ∧ x.2.pageIndex = c.pageIndex := by
  rw [nextPage_eq hc hindex]
  cases hget : w.shadow.getPageMapEntry ((p + 1) * pagesize) with
  | some r => exact .ok ⟨rfl, rfl, rfl⟩
  | none => exact Or.inr ⟨rfl, hv.lookup_fails hl (hl.fails hget)⟩

/-- The table of a walk's first page. -/
theorem firstTable_agrees {look : ShadowMemory → Nat → Option (ShadowMemory × Nat)}
    {s : ShadowMemory} (hl : LooksUp look) (hs : s.Layout) (p : Nat) :
    Agrees look s [p] (s.getMegaMapEntry (p / 256)) fun x =>
      s.getPageMapEntry (p * pagesize) = some (x.1, x.2 + p % 256) := by
  have hpage := getPageMapEntry_page s p
  cases hget : s.getMegaMapEntry (p / 256) with
  | some x =>
      rw [hget] at hpage
      exact .ok hpage
  | none =>
      rw [hget] at hpage
      exact Or.inr ⟨rfl, (visited_nil hs).lookup_fails hl (hl.fails hpage)⟩

/-- One more page: its entry was looked up, and only it was changed. -/
theorem Visited.snoc {look : ShadowMemory → Nat → Option (ShadowMemory × Nat)}
    {s q : ShadowMemory} {pages : List Nat} {w w' : PageWalk} {p e : Nat} (hl : LooksUp look)
    (hv : Visited look s pages w) (hlook : look w.shadow (p * pagesize) = some (q, e))
    (hvisited : w'.visited = w.visited ++ [e]) (hsame : SameTables w'.shadow q)
    (hkeeps : ∀ {m t}, w.shadow.megaMap m = some t → w'.shadow.megaMap m = some t)
    (hentry : ∃ t, w'.shadow.megaMap (p / 256) = some t ∧ e = t + p % 256)
    (hframe : ∀ e', e' ≠ e → w'.shadow.pageMap e' = w.shadow.pageMap e')
    (hlayout : w'.shadow.Layout) : Visited look s (pages ++ [p]) w' := by
  obtain ⟨r, hr, hwr⟩ := hv.looked
  refine ⟨?_, ?_, fun e' he' => ?_, hlayout⟩
  · have hout := hl.same hwr (p * pagesize)
    rw [hlook] at hout
    obtain ⟨r', hr', hqr⟩ := hout.exists_some
    refine ⟨r', ?_, hsame.trans hqr⟩
    rw [lookupPages_snoc, hr, Option.bind_some, hr', hvisited]
    rfl
  · rw [hvisited]
    refine List.rel_append (hv.entries.imp ?_) (.cons hentry .nil)
    rintro p' e' ⟨t, ht, rfl⟩
    exact ⟨t, hkeeps ht, rfl⟩
  · rw [hvisited, List.mem_append, not_or, List.mem_singleton] at he'
    rw [hframe e' he'.2, hv.frame e' he'.1]

/-- Different pages, different entries. -/
theorem Visited.nodup {look : ShadowMemory → Nat → Option (ShadowMemory × Nat)}
    {s : ShadowMemory} {pages : List Nat} {w : PageWalk} (hv : Visited look s pages w)
    (hpages : pages.Nodup) : w.visited.Nodup := by
  have hentries := hv.entries
  have hlayout := hv.layout
  clear hv
  generalize w.visited = entries at hentries
  induction hentries with
  | nil => exact List.nodup_nil
  | @cons p e pages entries hpe hrest ih =>
      rw [List.nodup_cons] at hpages ⊢
      refine ⟨fun hmem => ?_, ih hpages.2⟩
      obtain ⟨i, hi, hget⟩ := List.mem_iff_getElem.mp hmem
      have hlen : i < pages.length := hrest.length_eq ▸ hi
      obtain ⟨t, ht, rfl⟩ := hpe
      obtain ⟨t', ht', he'⟩ := hrest.get hlen hi
      simp only [List.get_eq_getElem, hget] at ht' he'
      obtain ⟨hm, hp⟩ := hlayout.entry_inj ht ht' (Nat.mod_lt _ (by decide))
        (Nat.mod_lt _ (by decide)) he'
      have hsame : p = pages[i] := by omega
      exact hpages.1 (hsame ▸ List.getElem_mem hlen)

/-- A walk over the right pages visits the region. -/
theorem visitsRegion_of_agrees {look : ShadowMemory → Nat → Option (ShadowMemory × Nat)}
    {s : ShadowMemory} {uintaddr length : Nat} {walk : Option PageWalk}
    (h : Agrees look s (regionPages uintaddr length) walk
      (Visited look s (regionPages uintaddr length))) :
    VisitsRegion look s uintaddr length walk := by
  unfold VisitsRegion
  have hnodup : (regionPages uintaddr length).Nodup := by
    unfold regionPages
    split
    · exact List.nodup_nil
    · exact List.nodup_range'
  rcases h with ⟨w, rfl, hv⟩ | ⟨rfl, hnone⟩
  · obtain ⟨r, hr, hsame⟩ := hv.looked
    rw [hr]
    exact ⟨w, rfl, rfl, hv.nodup hnodup, hsame.megaMap, hv.frame⟩
  · rw [hnone]

theorem range'_mono (p : Nat) {n m : Nat} (h : n ≤ m) : List.range' p n <+: List.range' p m := by
  refine ⟨List.range' (p + n) (m - n), ?_⟩
  rw [List.range'_append_1, Nat.add_sub_of_le h]

/-! ## updatePages -/

theorem partBytes_cacheMapEntry (isFree : Bool) (n : Nat) (e : PageMapEntry) :
    (partBytes isFree n e).cacheMapEntry = e.cacheMapEntry := by
  unfold partBytes
  split <;> rfl

theorem wholeBytes_cacheMapEntry (isFree : Bool) (e : PageMapEntry) :
    (wholeBytes isFree e).cacheMapEntry = e.cacheMapEntry := by
  unfold wholeBytes
  split <;> rfl

/-- An entry inside the page map is updated, and nothing else. -/
theorem updatePage_spec {bytes : PageMapEntry → PageMapEntry}
    (hbytes : ∀ e, (bytes e).cacheMapEntry = e.cacheMapEntry) (isFree : Bool) {current : Nat}
    (hcur : current < maxPageMapEntries) (w : PageWalk) :
    ∃ w', updatePage isFree bytes current w = some w' ∧ w'.visited = w.visited ++ [current]
      ∧ SameTables w'.shadow w.shadow
      ∧ ∀ e, e ≠ current → w'.shadow.pageMap e = w.shadow.pageMap e := by
  have hsame := modifyPage_sameTables w.shadow current hbytes
  have hframe : ∀ e, e ≠ current →
      (w.shadow.modifyPage current bytes).pageMap e = w.shadow.pageMap e :=
    fun e he => modifyPage_of_ne _ _ he
  rw [updatePage, if_pos hcur]
  simp only
  split
  · exact ⟨_, rfl, rfl, hsame, hframe⟩
  · have htouch : ∀ e : PageMapEntry, e.setTouched.cacheMapEntry = e.cacheMapEntry := fun _ => rfl
    refine ⟨_, rfl, rfl, (modifyPage_sameTables _ current htouch).trans hsame, ?_⟩
    intro e he
    rw [← hframe e he]
    exact modifyPage_of_ne _ _ he

section updatePages

variable {s : ShadowMemory} {pages : List Nat} {w : PageWalk} {c : PageCursor} {p : Nat}
  {bytes : PageMapEntry → PageMapEntry}
  {look : ShadowMemory → Nat → Option (ShadowMemory × Nat)}

/-- The state of the walk with its cursor on page `p`, the index on the
next one. -/
structure OnPage (s : ShadowMemory) (pages : List Nat) (p : Nat) (w : PageWalk) (c : PageCursor) :
    Prop where
  visited : Visited getPageMapEntry s pages w
  atPage : AtPage w.shadow c p
  index : c.pageIndex = (p + 1) % 256

/-- A page that was looked up is updated. -/
theorem updatePage_agrees (isFree : Bool)
    (hbytes : ∀ e, (bytes e).cacheMapEntry = e.cacheMapEntry)
    (hv : Visited getPageMapEntry s pages w) {q : ShadowMemory}
    (hlook : w.shadow.getPageMapEntry (p * pagesize) = some (q, c.current))
    (hmega : c.megaIndex = p / 256) :
    Agrees getPageMapEntry s (pages ++ [p])
      (updatePage isFree bytes c.current { w with shadow := q }) fun w' =>
        Visited getPageMapEntry s (pages ++ [p]) w' ∧ AtPage w'.shadow c p := by
  have hat : AtPage q c p := atPage_of_lookup hlook hmega
  obtain ⟨hlayout, hlt⟩ := hv.entry_lt hlook hat
  obtain ⟨w', hw', hvisited, hsame, hframe⟩ :=
    updatePage_spec hbytes isFree hlt { w with shadow := q }
  have hat' : AtPage w'.shadow c p := hat.congr hsame.megaMap
  rw [hw']
  refine .ok ⟨hv.snoc looksUp_pages hlook hvisited hsame (fun hm => ?_) hat'.entry
    (fun e he => ?_) (hlayout.congr hsame), hat'⟩
  · rw [hsame.megaMap]
    exact getPageMapEntry_keeps hlook hm
  · rw [hframe e he]
    exact congrFun (getPageMapEntry_pageMap hlook) e

theorem wholePages_agrees (isFree : Bool) : ∀ (n p : Nat) {pages : List Nat} {w : PageWalk}
    {c : PageCursor}, OnPage s pages p w c →
    Agrees getPageMapEntry s (pages ++ List.range' (p + 1) n) (wholePages isFree n w c) fun x =>
      OnPage s (pages ++ List.range' (p + 1) n) (p + n) x.1 x.2
  | 0, p, pages, w, c, h => by
      rw [List.range'_zero, List.append_nil]
      exact .ok h
  | n + 1, p, pages, w, c, h => by
      have hsplit : pages ++ List.range' (p + 1) (n + 1)
          = (pages ++ [p + 1]) ++ List.range' (p + 1 + 1) n := by
        rw [List.range'_succ, List.append_assoc]
        rfl
      have hinit : pages ++ [p + 1] <+: (pages ++ [p + 1]) ++ List.range' (p + 1 + 1) n :=
        List.prefix_append _ _
      rw [hsplit, show p + (n + 1) = p + 1 + n by omega, wholePages]
      refine (nextPage_agrees looksUp_pages h.visited h.atPage h.index).bind hinit ?_
      rintro ⟨q, c'⟩ ⟨hlook, hmega, hindex⟩
      refine (updatePage_agrees isFree (wholeBytes_cacheMapEntry isFree) h.visited hlook
        hmega).bind hinit ?_
      rintro w' ⟨hv, hat⟩
      refine wholePages_agrees isFree n (p + 1) ⟨hv, ⟨hat.inMap, hat.mega, hat.entry⟩, ?_⟩
      show wrap 8 (c'.pageIndex + 1) = (p + 1 + 1) % 256
      rw [show c'.pageIndex = c.pageIndex from hindex, h.index, wrap]
      omega

/-- How many pages `updatePages` steps through. -/
def pageCount (uintaddr size : Nat) : Nat :=
  1 + (size - min (4096 - uintaddr % 4096) size) / 4096
    + if (size - min (4096 - uintaddr % 4096) size) % 4096 > 0 then 1 else 0

theorem regionPages_eq {uintaddr size : Nat} (hsize : 0 < size) :
    regionPages uintaddr size = List.range' (uintaddr / 4096) (pageCount uintaddr size) := by
  unfold regionPages pageCount
  rw [if_neg (by omega)]
  congr 1
  split <;> omega

theorem updatePages_agrees (hs : s.Layout) (uintaddr size : Nat) (isFree : Bool) :
    Agrees getPageMapEntry s (List.range' (uintaddr / 4096) (pageCount uintaddr size))
      (s.updatePages uintaddr (megaIndexOf uintaddr) (pageIndexOf uintaddr) size isFree)
      (Visited getPageMapEntry s (List.range' (uintaddr / 4096) (pageCount uintaddr size))) := by
  have hoff : uintaddr &&& pagesizeMask = uintaddr % 4096 := and_pagesizeMask uintaddr
  simp only [updatePages, hoff, pagesize, pageCount]
  generalize min (4096 - uintaddr % 4096) size = first
  generalize size - first = rest
  generalize hp : uintaddr / 4096 = p
  have hmega : megaIndexOf uintaddr = p / 256 := hp ▸ megaIndexOf_eq uintaddr
  have hindex : pageIndexOf uintaddr = p % 256 := hp ▸ pageIndexOf_eq uintaddr
  rw [hmega, hindex]
  -- the first page
  refine (firstTable_agrees looksUp_pages hs p).bind (range'_mono p (n := 1) (by omega)) ?_
  rintro ⟨q, table⟩ hlook
  let c : PageCursor := { megaIndex := p / 256, pageIndex := p % 256, current := table + p % 256 }
  refine (updatePage_agrees (c := c) isFree (partBytes_cacheMapEntry isFree first)
    (visited_nil hs) hlook rfl).bind (range'_mono p (n := 1) (by omega)) ?_
  rintro w ⟨hv, hat⟩
  -- the whole pages
  have hon : OnPage s (List.range' p 1) p w (c.incr 8) :=
    ⟨hv, ⟨hat.inMap, hat.mega, hat.entry⟩, by
      show wrap 8 (p % 256 + 1) = (p + 1) % 256
      rw [wrap]
      omega⟩
  have hloop := wholePages_agrees isFree (rest / 4096) p hon
  rw [List.range'_append_1] at hloop
  refine hloop.bind (range'_mono p (by omega)) ?_
  rintro ⟨w', c'⟩ hend
  -- the last page
  by_cases hlast : rest % 4096 > 0
  · simp only [hlast, if_true]
    have hsnoc : List.range' p (1 + rest / 4096 + 1)
        = List.range' p (1 + rest / 4096) ++ [p + rest / 4096 + 1] := by
      rw [List.range'_1_concat]
      congr 2
      omega
    rw [hsnoc]
    refine (nextPage_agrees looksUp_pages hend.visited hend.atPage hend.index).bind
      List.prefix_rfl ?_
    rintro ⟨q', c''⟩ ⟨hlook', hmega', -⟩
    exact (updatePage_agrees isFree (partBytes_cacheMapEntry isFree (rest % 4096)) hend.visited
      hlook' hmega').imp fun _ hgood => hgood.1
  · simp only [hlast, if_false, Nat.add_zero]
    exact .ok hend.visited

end updatePages

theorem updatePages_visits {s : ShadowMemory} (hs : s.Layout) {uintaddr size : Nat}
    (hsize : 0 < size) (isFree : Bool) : VisitsRegion getPageMapEntry s uintaddr size
      (s.updatePages uintaddr (megaIndexOf uintaddr) (pageIndexOf uintaddr) size isFree) := by
  refine visitsRegion_of_agrees ?_
  rw [regionPages_eq hsize]
  exact updatePages_agrees hs uintaddr size isFree

/-! ## updateCacheLines -/

/-- A line table that is asked for leaves the page tables as they are. -/
theorem getCacheMapEntry_spec {s s' : ShadowMemory} {page t : Nat}
    (h : s.getCacheMapEntry page = some (s', t)) :
    s'.megaMap = s.megaMap ∧ s'.pageMapBumpPtr = s.pageMapBumpPtr
      ∧ ∀ e, e ≠ page → s'.pageMap e = s.pageMap e := by
  unfold getCacheMapEntry at h
  split at h
  · cases h
    exact ⟨rfl, rfl, fun _ _ => rfl⟩
  · simp only [doCacheMapBumpPointer] at h
    split at h
    · cases h
    · cases h
      exact ⟨rfl, rfl, fun e he => modifyPage_of_ne _ _ he⟩

section updateCacheLines

variable {s : ShadowMemory} {w : PageWalk} {p L : Nat}

/-- The pages up to that of line `L`. -/
def pagesUpTo (p L : Nat) : List Nat := List.range' p (L / 64 + 1 - p)

theorem pagesUpTo_mono (p : Nat) {L L' : Nat} (h : L ≤ L') : pagesUpTo p L <+: pagesUpTo p L' := by
  have hpage : L / 64 ≤ L' / 64 := Nat.div_le_div_right h
  exact range'_mono p (by omega)

theorem pagesUpTo_succ (hp : p ≤ L / 64 + 1) (hL : (L + 1) / 64 = L / 64 + 1) :
    pagesUpTo p (L + 1) = pagesUpTo p L ++ [L / 64 + 1] := by
  have hlen : L / 64 + 1 + 1 - p = L / 64 + 1 - p + 1 := by omega
  rw [pagesUpTo, pagesUpTo, hL, hlen, List.range'_1_concat]
  congr 2
  omega

/-- The state of the walk with its cursor on line `L`. -/
structure OnLine (s : ShadowMemory) (p L : Nat) (w : PageWalk) (c : LineCursor) : Prop where
  visited : Visited getLineTable s (pagesUpTo p L) w
  atPage : AtPage w.shadow c.page (L / 64)
  index : c.page.pageIndex = L / 64 % 256
  le : p ≤ L / 64

theorem OnLine.modifyLine {c : LineCursor} (h : OnLine s p L w c) (c' : LineCursor)
    (hpage : c'.page = c.page) (current : Nat) (f : CacheMapEntry → CacheMapEntry) :
    OnLine s p L (w.modifyLine current f) c' := by
  obtain ⟨r, hr, hsame⟩ := h.visited.looked
  exact ⟨⟨⟨r, hr, hsame.megaMap, hsame.pageMapBumpPtr, hsame.cacheMapEntry, hsame.cacheMapBumpPtr⟩,
    h.visited.entries, h.visited.frame, h.visited.layout.congr ⟨rfl, rfl, fun _ => rfl, rfl⟩⟩,
    hpage ▸ h.atPage.congr rfl, hpage ▸ h.index, h.le⟩

/-- The line table of a page that was looked up. -/
theorem lineTable_agrees {pages : List Nat} {c : PageCursor} {q : ShadowMemory}
    (hv : Visited getLineTable s pages w)
    (hlook : w.shadow.getPageMapEntry (p * pagesize) = some (q, c.current))
    (hmega : c.megaIndex = p / 256) :
    Agrees getLineTable s (pages ++ [p]) (lineTable c.current { w with shadow := q }) fun x =>
      Visited getLineTable s (pages ++ [p]) x.1 ∧ AtPage x.1.shadow c p := by
  have hat : AtPage q c p := atPage_of_lookup hlook hmega
  obtain ⟨hlayout, hlt⟩ := hv.entry_lt hlook hat
  have hline : w.shadow.getLineTable (p * pagesize)
      = (q.getCacheMapEntry c.current).map fun r => (r.1, c.current) := by
    rw [getLineTable, hlook]
    show (q.getCacheMapEntry c.current).bind _ = _
    cases q.getCacheMapEntry c.current <;> rfl
  rw [lineTable, if_pos hlt]
  cases hget : q.getCacheMapEntry c.current with
  | some x =>
      obtain ⟨q', table⟩ := x
      obtain ⟨hmap, hbump, hframe⟩ := getCacheMapEntry_spec hget
      have hat' : AtPage q' c p := hat.congr hmap
      rw [hget] at hline
      have hlayout' : q'.Layout := hlayout.of_megaMap hmap hbump
      refine .ok ⟨hv.snoc looksUp_lines hline rfl (.refl q') (fun hm => ?_) hat'.entry
        (fun e he => ?_) hlayout', hat'⟩
      · show q'.megaMap _ = _
        rw [hmap]
        exact getPageMapEntry_keeps hlook hm
      · show q'.pageMap e = _
        rw [hframe e he]
        exact congrFun (getPageMapEntry_pageMap hlook) e
  | none =>
      rw [hget] at hline
      exact Or.inr ⟨rfl, hv.lookup_fails looksUp_lines hline⟩

/-- A step to the next line goes to the next page after a page's last line. -/
theorem nextLine_agrees {c : LineCursor} (h : OnLine s p L w c)
    (hcache : c.cacheIndex = L % 64 + 1) :
    Agrees getLineTable s (pagesUpTo p (L + 1)) (w.nextLine c) fun x =>
      OnLine s p (L + 1) x.1 x.2 ∧ x.2.cacheIndex = (L + 1) % 64 := by
  unfold nextLine
  by_cases hend : c.cacheIndex = numCachelinesPerPage
  · have hpage : (L + 1) / 64 = L / 64 + 1 := by
      simp only [numCachelinesPerPage] at hend
      omega
    have hindex : (c.page.incr 8).pageIndex = (L / 64 + 1) % 256 := by
      show wrap 8 (c.page.pageIndex + 1) = _
      rw [h.index, wrap]
      omega
    have hat : AtPage w.shadow (c.page.incr 8) (L / 64) :=
      ⟨h.atPage.inMap, h.atPage.mega, h.atPage.entry⟩
    rw [if_pos hend, pagesUpTo_succ (Nat.le_succ_of_le h.le) hpage]
    refine (nextPage_agrees looksUp_lines h.visited hat hindex).bind List.prefix_rfl ?_
    rintro ⟨q, page⟩ ⟨hlook, hmega, hindex'⟩
    refine (lineTable_agrees h.visited hlook hmega).bind List.prefix_rfl ?_
    rintro ⟨w', table⟩ ⟨hv, hat'⟩
    have hle := h.le
    refine .ok ⟨⟨?_, hpage.symm ▸ hat', ?_, by omega⟩, ?_⟩
    · rw [pagesUpTo_succ (Nat.le_succ_of_le hle) hpage]
      exact hv
    · rw [hpage, ← hindex]
      exact hindex'
    · simp only [numCachelinesPerPage] at hend
      simp only
      omega
  · have hpage : (L + 1) / 64 = L / 64 := by
      simp only [numCachelinesPerPage] at hend
      omega
    have hpages : pagesUpTo p (L + 1) = pagesUpTo p L := by rw [pagesUpTo, hpage, pagesUpTo]
    rw [if_neg hend]
    refine .ok ⟨⟨hpages.symm ▸ h.visited, hpage.symm ▸ h.atPage, hpage.symm ▸ h.index,
      hpage.symm ▸ h.le⟩, ?_⟩
    simp only [numCachelinesPerPage] at hend
    simp only
    omega

theorem wholeLines_agrees (isFree : Bool) : ∀ (n L : Nat) {w : PageWalk} {c : LineCursor},
    OnLine s p L w c → c.cacheIndex = L % 64 + 1 →
    Agrees getLineTable s (pagesUpTo p (L + n)) (wholeLines isFree n w c) fun x =>
      OnLine s p (L + n) x.1 x.2 ∧ x.2.cacheIndex = (L + n) % 64 + 1
  | 0, L, w, c, h, hcache => .ok ⟨h, hcache⟩
  | n + 1, L, w, c, h, hcache => by
      rw [wholeLines, show L + (n + 1) = L + 1 + n by omega]
      refine (nextLine_agrees h hcache).bind (pagesUpTo_mono p (Nat.le_add_right _ _)) ?_
      rintro ⟨w', c'⟩ ⟨h', hcache'⟩
      have hnext := h'.modifyLine { c' with cacheIndex := c'.cacheIndex + 1 } rfl c'.current
        (if isFree then .setEmpty else .setFull)
      refine wholeLines_agrees isFree n (L + 1) hnext ?_
      show c'.cacheIndex + 1 = _
      rw [show c'.cacheIndex = (L + 1) % 64 from hcache']

/-- The last line that `updateCacheLines` steps to. -/
def lastLine (uintaddr size : Nat) : Nat :=
  uintaddr / 64 + (size - min (64 - uintaddr % 64) size) / 64
    + if (size - min (64 - uintaddr % 64) size) % 64 > 0 then 1 else 0

theorem updateCacheLines_agrees (hs : s.Layout) (tid uintaddr size : Nat) (isFree : Bool) :
    Agrees getLineTable s (pagesUpTo (uintaddr / 4096) (lastLine uintaddr size))
      (s.updateCacheLines tid (megaIndexOf uintaddr) (pageIndexOf uintaddr)
        (cacheIndexOf uintaddr) (uintaddr &&& cachelineSizeMask) size isFree)
      (Visited getLineTable s (pagesUpTo (uintaddr / 4096) (lastLine uintaddr size))) := by
  have hoff : uintaddr &&& cachelineSizeMask = uintaddr % 64 := and_cachelineSizeMask uintaddr
  have hcache : cacheIndexOf uintaddr = uintaddr / 64 % 64 := by
    rw [cacheIndexOf_eq]
    omega
  simp only [updateCacheLines, hoff, cachelineSize, lastLine]
  have hpage : uintaddr / 4096 = uintaddr / 64 / 64 := by omega
  have hmega : megaIndexOf uintaddr = uintaddr / 64 / 64 / 256 := hpage ▸ megaIndexOf_eq uintaddr
  have hindex : pageIndexOf uintaddr = uintaddr / 64 / 64 % 256 := hpage ▸ pageIndexOf_eq uintaddr
  rw [hmega, hindex, hcache, hpage]
  generalize uintaddr / 64 = L
  generalize min (64 - uintaddr % 64) size = first
  generalize size - first = rest
  have hlast : L ≤ L + rest / 64 + if rest % 64 > 0 then 1 else 0 := by omega
  -- the first line
  have hone : pagesUpTo (L / 64) L = [L / 64] := by
    rw [pagesUpTo, Nat.add_sub_cancel_left]
    rfl
  have hfirst := firstTable_agrees looksUp_lines hs (L / 64)
  rw [← hone] at hfirst
  refine hfirst.bind (pagesUpTo_mono _ hlast) ?_
  rintro ⟨q, table⟩ hlook
  let c : PageCursor :=
    { megaIndex := L / 64 / 256, pageIndex := L / 64 % 256, current := table + L / 64 % 256 }
  have htable := lineTable_agrees (c := c) (visited_nil hs) hlook rfl
  rw [List.nil_append, ← hone] at htable
  refine htable.bind (pagesUpTo_mono _ hlast) ?_
  rintro ⟨w, lines⟩ ⟨hv, hat⟩
  have hon : OnLine s (L / 64) L w
      { page := c, current := lines + L % 64, cacheIndex := L % 64 + 1 } :=
    ⟨hv, hat, rfl, Nat.le_refl _⟩
  -- the whole lines
  refine (wholeLines_agrees isFree (rest / 64) L (hon.modifyLine _ rfl _ _) rfl).bind
    (pagesUpTo_mono _ (by omega)) ?_
  rintro ⟨w', c'⟩ ⟨hend, hcache'⟩
  -- the last line
  by_cases hpart : rest % 64 > 0
  · rw [if_pos hpart, if_pos hpart]
    refine (nextLine_agrees hend hcache').bind List.prefix_rfl ?_
    rintro ⟨w'', c''⟩ ⟨hon', -⟩
    exact .ok (hon'.modifyLine c'' rfl _ _).visited
  · rw [if_neg hpart, if_neg hpart]
    exact .ok hend.visited

end updateCacheLines

theorem updateCacheLines_visits {s : ShadowMemory} (hs : s.Layout) (tid : Nat)
    {uintaddr size : Nat} (hsize : 0 < size) (isFree : Bool) :
    VisitsRegion getLineTable s uintaddr size
      (s.updateCacheLines tid (megaIndexOf uintaddr) (pageIndexOf uintaddr)
        (cacheIndexOf uintaddr) (uintaddr &&& cachelineSizeMask) size isFree) := by
  refine visitsRegion_of_agrees ?_
  have hpages : regionPages uintaddr size
      = pagesUpTo (uintaddr / 4096) (lastLine uintaddr size) := by
    unfold regionPages pagesUpTo lastLine
    rw [if_neg (by omega)]
    congr 1
    split <;> omega
  rw [hpages]
  exact updateCacheLines_agrees hs tid uintaddr size isFree

end MemPerf.Original
