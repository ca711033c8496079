import MemPerf.PageView

/-!
# The tables only grow

Whatever is called, the tables that are there stay where they are, and
those that are made come from behind the bump pointers (`extends_step`). So
the entry of a line, once it has one, is its entry for good, and the entry
it gets was nobody's before (`Laid.lineOf_kept`, `Laid.lineOf_fresh`).
-/

namespace MemPerf.Original

open Word StepSystem PageWalk MemPerf.Original.ShadowMemory

structure Extends (s s' : ShadowMemory) : Prop where
  table : ∀ {m t}, s.megaMap m = some t → s'.megaMap m = some t
  newTable : ∀ {m t}, s'.megaMap m = some t → s.megaMap m = some t ∨ s.pageMapBumpPtr ≤ t
  lines : ∀ {e t}, (s.pageMap e).cacheMapEntry = some t → (s'.pageMap e).cacheMapEntry = some t
  newLines : ∀ {e t}, (s'.pageMap e).cacheMapEntry = some t →
    (s.pageMap e).cacheMapEntry = some t ∨ s.cacheMapBumpPtr ≤ t
  pageBump : s.pageMapBumpPtr ≤ s'.pageMapBumpPtr
  cacheBump : s.cacheMapBumpPtr ≤ s'.cacheMapBumpPtr

namespace Extends

variable {s s' s'' : ShadowMemory}

theorem refl (s : ShadowMemory) : Extends s s :=
  ⟨id, .inl, id, .inl, Nat.le_refl _, Nat.le_refl _⟩

theorem trans (h : Extends s s') (h' : Extends s' s'') : Extends s s'' where
  table ht := h'.table (h.table ht)
  newTable ht := by
    rcases h'.newTable ht with hold | hnew
    · exact h.newTable hold
    · exact .inr (h.pageBump.trans hnew)
  lines ht := h'.lines (h.lines ht)
  newLines ht := by
    rcases h'.newLines ht with hold | hnew
    · exact h.newLines hold
    · exact .inr (h.cacheBump.trans hnew)
  pageBump := h.pageBump.trans h'.pageBump
  cacheBump := h.cacheBump.trans h'.cacheBump

/-- Writes to the fields of entries other than the pointer to the lines. -/
theorem of_sameTables (h : SameTables s' s) : Extends s s' where
  table ht := (congrFun h.megaMap _).trans ht
  newTable ht := .inl ((congrFun h.megaMap _).symm.trans ht)
  lines ht := (h.cacheMapEntry _).trans ht
  newLines ht := .inl ((h.cacheMapEntry _).symm.trans ht)
  pageBump := Nat.le_of_eq h.pageMapBumpPtr.symm
  cacheBump := Nat.le_of_eq h.cacheMapBumpPtr.symm

theorem allocTable {m : Nat} (hnone : s.megaMap m = none) : Extends s (s.allocTable m) where
  table {m' t} ht := by
    have hne : m' ≠ m := by
      rintro rfl
      exact absurd (ht.symm.trans hnone) (Option.some_ne_none t)
    exact (allocTable_of_ne s hne).trans ht
  newTable {m' t} ht := by
    by_cases hm : m' = m
    · subst hm
      rw [allocTable_self] at ht
      exact .inr (Nat.le_of_eq (Option.some.inj ht))
    · exact .inl ((allocTable_of_ne s hm).symm.trans ht)
  lines := id
  newLines := .inl
  pageBump := Nat.le_add_right _ _
  cacheBump := Nat.le_refl _

theorem allocLines {e : Nat} (hnone : (s.pageMap e).cacheMapEntry = none) :
    Extends s (s.allocLines e) where
  table := id
  newTable := .inl
  lines {e' t} ht := by
    have hne : e' ≠ e := by
      rintro rfl
      exact absurd (ht.symm.trans hnone) (Option.some_ne_none t)
    rw [allocLines_of_ne s hne]
    exact ht
  newLines {e' t} ht := by
    by_cases he : e' = e
    · subst he
      rw [allocLines_self] at ht
      exact .inr (Nat.le_of_eq (Option.some.inj ht))
    · rw [allocLines_of_ne s he] at ht
      exact .inl ht
  pageBump := Nat.le_refl _
  cacheBump := Nat.le_add_right _ _

theorem getMegaMapEntry {m t : Nat} (h : s.getMegaMapEntry m = some (s', t)) : Extends s s' := by
  obtain ⟨-, ⟨-, rfl⟩ | ⟨hnone, -, -, rfl⟩⟩ := getMegaMapEntry_cases h
  · exact refl s'
  · exact allocTable hnone

theorem getPageMapEntry {a e : Nat} (h : s.getPageMapEntry a = some (s', e)) : Extends s s' := by
  rw [getPageMapEntry_eq] at h
  obtain ⟨⟨r, t⟩, hr, heq⟩ := Option.map_eq_some_iff.mp h
  cases heq
  exact getMegaMapEntry hr

theorem getCacheMapEntry {e t : Nat} (h : s.getCacheMapEntry e = some (s', t)) :
    Extends s s' := by
  unfold ShadowMemory.getCacheMapEntry at h
  split at h
  · cases h
    exact refl _
  · next hnone =>
      simp only [doCacheMapBumpPointer] at h
      split at h
      · cases h
      · cases h
        exact allocLines hnone

theorem modifyPage (s : ShadowMemory) (e : Nat) {f : PageMapEntry → PageMapEntry}
    (hf : ∀ entry, (f entry).cacheMapEntry = entry.cacheMapEntry) :
    Extends s (s.modifyPage e f) :=
  of_sameTables (modifyPage_sameTables s e hf)

theorem clear (s : ShadowMemory) (e : Nat) : Extends s (clear e s) := by
  unfold PageWalk.clear
  refine trans ?_ (modifyPage _ e fun _ => rfl)
  split
  · exact of_sameTables ⟨rfl, rfl, fun _ => rfl, rfl⟩
  · exact refl s

/-! ## The walks -/

theorem nextPage {c c' : PageCursor} (h : s.nextPage c = some (s', c')) : Extends s s' := by
  unfold ShadowMemory.nextPage at h
  split at h
  · obtain ⟨⟨q, t⟩, hget, h⟩ := Option.bind_eq_some_iff.mp h
    cases h
    exact getMegaMapEntry hget
  · cases h
    exact refl _

variable {w w' : PageWalk}

theorem updatePage {isFree : Bool} {bytes : PageMapEntry → PageMapEntry} {current : Nat}
    (hbytes : ∀ entry, (bytes entry).cacheMapEntry = entry.cacheMapEntry)
    (h : updatePage isFree bytes current w = some w') : Extends w.shadow w'.shadow := by
  unfold PageWalk.updatePage at h
  split at h
  · simp only at h
    have hpart := modifyPage w.shadow current hbytes
    split at h
    · cases h
      exact hpart
    · cases h
      exact hpart.trans (modifyPage _ current fun _ => rfl)
  · cases h

theorem wholePages (isFree : Bool) : ∀ (n : Nat) {w w' : PageWalk} {c c' : PageCursor},
    wholePages isFree n w c = some (w', c') → Extends w.shadow w'.shadow
  | 0, w, w', c, c', h => by
      cases h
      exact refl _
  | n + 1, w, w'', c, c'', h => by
      obtain ⟨⟨q, c'⟩, hnext, h⟩ := Option.bind_eq_some_iff.mp h
      obtain ⟨w', hw', h⟩ := Option.bind_eq_some_iff.mp h
      have hpage : Extends q w'.shadow :=
        updatePage (wholeBytes_cacheMapEntry isFree) hw'
      exact ((nextPage hnext).trans hpage).trans (wholePages isFree n h)

theorem updatePages {address m p size : Nat} {isFree : Bool}
    (h : s.updatePages address m p size isFree = some w) : Extends s w.shadow := by
  unfold ShadowMemory.updatePages at h
  obtain ⟨⟨q, table⟩, hget, h⟩ := Option.bind_eq_some_iff.mp h
  obtain ⟨w₁, hw₁, h⟩ := Option.bind_eq_some_iff.mp h
  obtain ⟨⟨w₂, c⟩, hw₂, h⟩ := Option.bind_eq_some_iff.mp h
  have hfirst : Extends q w₁.shadow := updatePage (partBytes_cacheMapEntry isFree _) hw₁
  have hwhole := ((getMegaMapEntry hget).trans hfirst).trans (wholePages isFree _ hw₂)
  simp only at h
  split at h
  · obtain ⟨⟨r, c'⟩, hnext, h⟩ := Option.bind_eq_some_iff.mp h
    have hlast : Extends r w.shadow := updatePage (partBytes_cacheMapEntry isFree _) h
    exact (hwhole.trans (nextPage hnext)).trans hlast
  · cases h
    exact hwhole

theorem lineTable {e t : Nat} (h : lineTable e w = some (w', t)) :
    Extends w.shadow w'.shadow := by
  unfold PageWalk.lineTable at h
  split at h
  · obtain ⟨⟨q, t'⟩, hget, h⟩ := Option.bind_eq_some_iff.mp h
    cases h
    exact getCacheMapEntry hget
  · cases h

theorem nextLine {c c' : LineCursor} (h : w.nextLine c = some (w', c')) :
    Extends w.shadow w'.shadow := by
  unfold PageWalk.nextLine at h
  split at h
  · obtain ⟨⟨q, page⟩, hq, h⟩ := Option.bind_eq_some_iff.mp h
    obtain ⟨⟨w₁, table⟩, htable, h⟩ := Option.bind_eq_some_iff.mp h
    cases h
    exact (nextPage hq).trans (lineTable htable)
  · cases h
    exact refl _

theorem modifyLine (w : PageWalk) (current : Nat) (f : CacheMapEntry → CacheMapEntry) :
    Extends w.shadow (w.modifyLine current f).shadow :=
  of_sameTables ⟨rfl, rfl, fun _ => rfl, rfl⟩

theorem wholeLines (isFree : Bool) : ∀ (n : Nat) {w w' : PageWalk} {c c' : LineCursor},
    wholeLines isFree n w c = some (w', c') → Extends w.shadow w'.shadow
  | 0, w, w', c, c', h => by
      cases h
      exact refl _
  | n + 1, w, w'', c, c'', h => by
      obtain ⟨⟨w', c'⟩, hnext, h⟩ := Option.bind_eq_some_iff.mp h
      exact ((nextLine hnext).trans (modifyLine ..)).trans (wholeLines isFree n h)

theorem updateCacheLines {tid m p i offset size : Nat} {isFree : Bool}
    (h : s.updateCacheLines tid m p i offset size isFree = some w) : Extends s w.shadow := by
  unfold ShadowMemory.updateCacheLines at h
  obtain ⟨⟨q, table⟩, hget, h⟩ := Option.bind_eq_some_iff.mp h
  obtain ⟨⟨w₁, lines⟩, htable, h⟩ := Option.bind_eq_some_iff.mp h
  obtain ⟨⟨w₂, c⟩, hw₂, h⟩ := Option.bind_eq_some_iff.mp h
  have hfirst : Extends q w₁.shadow := lineTable htable
  have hwhole := (((getMegaMapEntry hget).trans hfirst).trans (modifyLine ..)).trans
    (wholeLines isFree _ hw₂)
  simp only at h
  split at h
  · obtain ⟨⟨w₃, c'⟩, hnext, h⟩ := Option.bind_eq_some_iff.mp h
    cases h
    exact (hwhole.trans (nextLine hnext)).trans (modifyLine ..)
  · cases h
    exact hwhole

theorem cleanupPage {current : Nat} (h : cleanupPage current w = some w') :
    Extends w.shadow w'.shadow := by
  unfold PageWalk.cleanupPage at h
  split at h
  · simp only at h
    split at h
    · cases h
      exact clear w.shadow current
    · cases h
      exact refl _
  · cases h

theorem cleanPages : ∀ (n : Nat) {w w' : PageWalk} {c : PageCursor},
    cleanPages n w c = some w' → Extends w.shadow w'.shadow
  | 0, w, w', c, h => by
      cases h
      exact refl _
  | n + 1, w, w'', c, h => by
      obtain ⟨w', hw', h⟩ := Option.bind_eq_some_iff.mp h
      obtain ⟨⟨q, c'⟩, hnext, h⟩ := Option.bind_eq_some_iff.mp h
      exact ((cleanupPage hw').trans (nextPage hnext)).trans (cleanPages n h)

theorem cleanupPages {uintaddr length r : Nat}
    (h : s.cleanupPages uintaddr length = some (r, w)) : Extends s w.shadow := by
  obtain ⟨⟨q, table⟩, hget, h⟩ := Option.bind_eq_some_iff.mp h
  obtain ⟨w', hw', h⟩ := Option.bind_eq_some_iff.mp h
  cases h
  exact (getMegaMapEntry hget).trans (cleanPages _ hw')

end Extends

/-- Every call. -/
theorem extends_step {s s' : ShadowMemory} {op : ShadowOp} (h : s.step op = some s') :
    Extends s s' := by
  cases op with
  | updatePages address size isFree =>
      obtain ⟨w, hw, rfl⟩ := Option.map_eq_some_iff.mp h
      exact .updatePages hw
  | updateCacheLines tid address size isFree =>
      obtain ⟨w, hw, rfl⟩ := Option.map_eq_some_iff.mp h
      exact .updateCacheLines hw
  | cleanupPages uintaddr length =>
      obtain ⟨⟨r, w⟩, hw, rfl⟩ := Option.map_eq_some_iff.mp h
      exact .cleanupPages hw
  | getPageMapEntry address =>
      obtain ⟨⟨q, e⟩, hget, rfl⟩ := Option.map_eq_some_iff.mp h
      exact .getPageMapEntry hget

/-! ## Entries -/

section entries

variable {s s' : ShadowMemory}

theorem Extends.entryOf (h : Extends s s') {p e : Nat} (he : s.entryOf p = some e) :
    s'.entryOf p = some e := by
  obtain ⟨t, ht, rfl⟩ := Option.map_eq_some_iff.mp he
  exact entryOf_of_table (h.table ht)

/-- A line keeps its entry. -/
theorem Extends.lineOf (h : Extends s s') {l c : Nat} (hl : s.lineOf l = some c) :
    s'.lineOf l = some c := by
  obtain ⟨e, he, hl⟩ := Option.bind_eq_some_iff.mp hl
  obtain ⟨t, ht, rfl⟩ := Option.map_eq_some_iff.mp hl
  exact lineOf_of_table (h.entryOf he) (h.lines ht)

theorem ShadowMemory.Laid.lineOf_below (hs : s.Laid) {l c : Nat} (hl : s.lineOf l = some c) :
    c < s.cacheMapBumpPtr := by
  obtain ⟨e, -, hl⟩ := Option.bind_eq_some_iff.mp hl
  obtain ⟨t, ht, rfl⟩ := Option.map_eq_some_iff.mp hl
  have hbelow := hs.lines_below ht
  omega

/-- A line that gets an entry gets one of a new table. -/
theorem ShadowMemory.Laid.lineOf_fresh (hs : s.Laid) (h : Extends s s') {l c : Nat}
    (hnone : s.lineOf l = none) (hl : s'.lineOf l = some c) : s.cacheMapBumpPtr ≤ c := by
  obtain ⟨e, he, hl⟩ := Option.bind_eq_some_iff.mp hl
  obtain ⟨t, ht, rfl⟩ := Option.map_eq_some_iff.mp hl
  rcases h.newLines ht with hold | hnew
  · -- the page would have had the table, so its entry must be a new one
    obtain ⟨table, htable, rfl⟩ := Option.map_eq_some_iff.mp he
    rcases h.newTable htable with hmade | hbehind
    · rw [lineOf_of_table (entryOf_of_table hmade) hold] at hnone
      cases hnone
    · rw [hs.pages_fresh _ (Nat.le_add_right_of_le hbehind)] at hold
      cases hold
  · exact Nat.le_add_right_of_le hnew

end entries

end MemPerf.Original
