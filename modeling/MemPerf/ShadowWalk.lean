import MemPerf.ShadowMemory

/-!
# What a walk does

The page walk has a closed form (`walkPages_eq`). The line walk
allocates tables on its way, so it gets an induction rule instead
(`walkCacheLines_rule`): a property indexed by the next line number is
carried through the allocations, the first partial line, the whole lines
and the last partial line.

Lines of a range are numbered through: line `l` is slot `l % 64` of page
`l / 64`, at address `rangeBase range + 64 * l`.
-/

namespace MemPerf

namespace ShadowMemory

/-! ## Pages -/

theorem wholePages_eq (whole : PageMapEntry → PageMapEntry) (range : Nat) :
    ∀ (n current : Nat) (s : ShadowMemory), wholePages whole range n current s =
      { s with
        pageMap := fun r i =>
          if r = range ∧ current < i ∧ i ≤ current + n then whole (s.pageMap r i)
          else s.pageMap r i }
  | 0, current, s => by
      have h : (fun r i => if r = range ∧ current < i ∧ i ≤ current + 0
          then whole (s.pageMap r i) else s.pageMap r i) = s.pageMap := by
        funext r i
        rw [if_neg (by omega)]
      rw [wholePages, h]
  | n + 1, current, s => by
      rw [wholePages, wholePages_eq whole range n]
      simp only [modifyPage]
      congr 1
      funext r i
      by_cases hr : r = range
      · subst hr
        rcases lt_trichotomy i (current + 1) with hi | rfl | hi
        · rw [if_neg (by omega), if_neg (by omega), if_neg (by omega)]
        · rw [if_neg (by omega), if_pos ⟨rfl, rfl⟩, if_pos (by omega)]
        · by_cases hle : i ≤ current + (n + 1)
          · rw [if_pos (by omega), if_neg (by omega), if_pos (by omega)]
          · rw [if_neg (by omega), if_neg (by omega), if_neg (by omega)]
      · simp [hr]

/-- The entry of page `i` after the walk of an object whose first page is
`idx`, with `first` bytes on it, `n` whole pages after it and `rest`
bytes on the last. -/
def walkedPage (part : Nat → PageMapEntry → PageMapEntry)
    (whole : PageMapEntry → PageMapEntry) (idx first n rest i : Nat)
    (e : PageMapEntry) : PageMapEntry :=
  if i = idx then part first e
  else if idx < i ∧ i ≤ idx + n then whole e
  else if i = idx + n + 1 ∧ 0 < rest then part rest e
  else e

theorem walkPages_eq (part : Nat → PageMapEntry → PageMapEntry)
    (whole : PageMapEntry → PageMapEntry) (addr range idx size : Nat) (s : ShadowMemory) :
    s.walkPages part whole addr range idx size =
      { s with
        pageMap := fun r i =>
          if r = range then
            walkedPage part whole idx (min (4096 - addr % 4096) size)
              ((size - min (4096 - addr % 4096) size) / 4096)
              ((size - min (4096 - addr % 4096) size) % 4096) i (s.pageMap r i)
          else s.pageMap r i } := by
  have hoff : addr &&& pagesizeMask = addr % 4096 := and_pagesizeMask addr
  simp only [walkPages, wholePages_eq, hoff, pagesize]
  generalize min (4096 - addr % 4096) size = first
  generalize (size - first) / 4096 = n
  generalize (size - first) % 4096 = rest
  by_cases hrest : rest > 0
  · rw [if_pos hrest]
    simp only [modifyPage, walkedPage]
    congr 1
    funext r i
    by_cases hr : r = range
    · subst hr
      rcases lt_trichotomy i idx with hi | rfl | hi
      · rw [if_neg (by omega), if_neg (by omega), if_neg (by omega), if_pos rfl,
          if_neg (by omega), if_neg (by omega), if_neg (by omega)]
      · rw [if_neg (by omega), if_neg (by omega), if_pos ⟨rfl, rfl⟩, if_pos rfl, if_pos rfl]
      · by_cases hle : i ≤ idx + n
        · rw [if_neg (by omega), if_pos (by omega), if_neg (by omega), if_pos rfl,
            if_neg (by omega), if_pos ⟨hi, hle⟩]
        · by_cases hlast : i = idx + n + 1
          · subst hlast
            rw [if_pos ⟨rfl, rfl⟩, if_neg (by omega), if_neg (by omega), if_pos rfl,
              if_neg (by omega), if_neg (by omega), if_pos ⟨rfl, hrest⟩]
          · rw [if_neg (by omega), if_neg (by omega), if_neg (by omega), if_pos rfl,
              if_neg (by omega), if_neg (by omega), if_neg (by omega)]
    · simp [hr]
  · rw [if_neg hrest]
    simp only [modifyPage, walkedPage]
    congr 1
    funext r i
    by_cases hr : r = range
    · subst hr
      rcases lt_trichotomy i idx with hi | rfl | hi
      · rw [if_neg (by omega), if_neg (by omega), if_pos rfl,
          if_neg (by omega), if_neg (by omega), if_neg (by omega)]
      · rw [if_neg (by omega), if_pos ⟨rfl, rfl⟩, if_pos rfl, if_pos rfl]
      · by_cases hle : i ≤ idx + n
        · rw [if_pos (by omega), if_neg (by omega), if_pos rfl,
            if_neg (by omega), if_pos ⟨hi, hle⟩]
        · rw [if_neg (by omega), if_neg (by omega), if_pos rfl,
            if_neg (by omega), if_neg (by omega), if_neg (by omega)]
    · simp [hr]

/-! ## Line tables -/

/-- The state after a page got the table at the bump pointer. -/
def allocTable (s : ShadowMemory) (range index : Nat) : ShadowMemory :=
  { s with cacheMapBumpPtr := s.cacheMapBumpPtr + 64 }.modifyPage range index
    fun e => { e with cacheMapEntry := some s.cacheMapBumpPtr }

/-- Asking for a page's table finds it, or allocates it at the bump
pointer. -/
theorem getCacheMapEntry_cases {s s' : ShadowMemory} {range index table : Nat}
    (h : s.getCacheMapEntry range index = some (s', table)) :
    (s' = s ∧ (s.pageMap range index).cacheMapEntry = some table)
    ∨ ((s.pageMap range index).cacheMapEntry = none ∧ table = s.cacheMapBumpPtr
      ∧ s' = s.allocTable range index) := by
  unfold getCacheMapEntry at h
  split at h
  · next t ht =>
      cases h
      exact Or.inl ⟨rfl, ht⟩
  · next hnone =>
      right
      simp only [doCacheMapBumpPointer] at h
      split at h
      · cases h
      · obtain ⟨rfl, rfl⟩ := Prod.mk.injEq .. |>.mp (Option.some.inj h)
        exact ⟨hnone, rfl, rfl⟩

theorem getCacheMapEntry_table {s s' : ShadowMemory} {range index table : Nat}
    (h : s.getCacheMapEntry range index = some (s', table)) :
    (s'.pageMap range index).cacheMapEntry = some table := by
  rcases getCacheMapEntry_cases h with ⟨rfl, ht⟩ | ⟨-, rfl, rfl⟩
  · exact ht
  · simp [allocTable]

/-- Line `l` of the range lives in cell `c` of the cache map. -/
def LineAt (s : ShadowMemory) (range l c : Nat) : Prop :=
  ∃ table, (s.pageMap range (l / 64)).cacheMapEntry = some table ∧ c = table + l % 64

theorem LineAt.congr {s s' : ShadowMemory} (h : s'.pageMap = s.pageMap) {range l c : Nat} :
    s'.LineAt range l c ↔ s.LineAt range l c := by
  simp only [LineAt, h]

/-- The cursor stands on line `l`, with `cache_index` already past it. -/
structure AtLine (s : ShadowMemory) (range l : Nat) (w : LineCursor) : Prop where
  page : w.targetPage = l / 64
  cell : s.LineAt range l w.current
  next : w.cacheIndex = l % 64 + 1

/-- One step of the cursor, within a page or onto the next one. -/
theorem nextLine_spec {s s' : ShadowMemory} {range l : Nat} {w w' : LineCursor}
    (hw : s.AtLine range l w) (h : nextLine range s w = some (s', w')) :
    (s' = s ∨ ∃ table, s.getCacheMapEntry range ((l + 1) / 64) = some (s', table))
    ∧ w'.targetPage = (l + 1) / 64 ∧ s'.LineAt range (l + 1) w'.current
    ∧ w'.cacheIndex = if w.cacheIndex = 64 then 0 else w.cacheIndex := by
  obtain ⟨hpage, ⟨table, htable, hcell⟩, hnext⟩ := hw
  unfold nextLine at h
  simp only [numCachelinesPerPage] at h
  by_cases hend : w.cacheIndex = 64
  · rw [if_pos hend] at h
    obtain ⟨⟨s1, t1⟩, hget, hpair⟩ := Option.bind_eq_some_iff.mp h
    cases hpair
    have hdiv : w.targetPage + 1 = (l + 1) / 64 := by omega
    rw [hdiv] at hget
    refine ⟨Or.inr ⟨t1, hget⟩, hdiv, ⟨t1, getCacheMapEntry_table hget, ?_⟩, by rw [if_pos hend]⟩
    show t1 = t1 + (l + 1) % 64
    omega
  · rw [if_neg hend] at h
    cases h
    have hdiv : (l + 1) / 64 = l / 64 := by omega
    refine ⟨Or.inl rfl, by simpa [hdiv] using hpage, ⟨table, by rwa [hdiv], ?_⟩, ?_⟩
    · show w.current + 1 = table + (l + 1) % 64
      omega
    · rw [if_neg hend]

/-! ## The line walk -/

section Rule

variable {range : Nat} (P : Nat → ShadowMemory → Prop)
  (halloc : ∀ l i s s' table, P l s → s.getCacheMapEntry range i = some (s', table) → P l s')

include halloc

theorem nextLine_rule {l l' : Nat} {s s' : ShadowMemory} {w w' : LineCursor}
    (hw : s.AtLine range l w) (hP : P l' s) (h : nextLine range s w = some (s', w')) :
    P l' s' ∧ s'.AtLine range (l + 1) { w' with cacheIndex := w'.cacheIndex + 1 } := by
  obtain ⟨hs, hpage, hcell, hnext⟩ := nextLine_spec hw h
  have hidx := hw.next
  refine ⟨?_, hpage, hcell, ?_⟩
  · rcases hs with rfl | ⟨table, hget⟩
    · exact hP
    · exact halloc _ _ _ _ _ hP hget
  · show w'.cacheIndex + 1 = (l + 1) % 64 + 1
    split at hnext <;> omega

/-- The loop over whole lines, from line `l` on. -/
theorem wholeLines_rule {whole : Nat → ShadowMemory → ShadowMemory}
    (hpm : ∀ c s, (whole c s).pageMap = s.pageMap) :
    ∀ (n l : Nat) {s s' : ShadowMemory} {w w' : LineCursor},
      (∀ k c s, l < k → k ≤ l + n → P k s → s.LineAt range k c → P (k + 1) (whole c s)) →
      s.AtLine range l w → P (l + 1) s → wholeLines whole range n s w = some (s', w') →
      P (l + n + 1) s' ∧ s'.AtLine range (l + n) w'
  | 0, l, s, s', w, w', _, hw, hP, h => by
      cases h
      exact ⟨hP, hw⟩
  | n + 1, l, s, s', w, w', hwhole, hw, hP, h => by
      rw [wholeLines] at h
      obtain ⟨⟨s1, w1⟩, hnext, hrest⟩ := Option.bind_eq_some_iff.mp h
      obtain ⟨hP1, hpage, hcell, hidx⟩ := nextLine_rule P halloc hw hP hnext
      have hP2 : P (l + 1 + 1) (whole w1.current s1) :=
        hwhole (l + 1) _ _ (by omega) (by omega) hP1 hcell
      have hw2 : (whole w1.current s1).AtLine range (l + 1)
          { w1 with cacheIndex := w1.cacheIndex + 1 } :=
        ⟨hpage, (LineAt.congr (hpm _ _)).mpr hcell, hidx⟩
      obtain ⟨hPn, hwn⟩ := wholeLines_rule hpm n (l + 1)
        (fun k c s hlo hhi => hwhole k c s (by omega) (by omega)) hw2 hP2 hrest
      rw [show l + (n + 1) = l + 1 + n by omega]
      exact ⟨hPn, hwn⟩

/-- **The walk rule.** `P l` says that the lines below `l` are done. The
walk of `size` bytes from offset `off` of line `l₀` keeps it through
every table allocation and every line it visits. -/
theorem walkCacheLines_rule {part : Nat → Nat → ShadowMemory → ShadowMemory}
    {whole : Nat → ShadowMemory → ShadowMemory} {idx ci off size : Nat} {s s' : ShadowMemory}
    (hci : ci < 64) (hoff : off < 64)
    (hpmPart : ∀ n c s, (part n c s).pageMap = s.pageMap)
    (hpmWhole : ∀ c s, (whole c s).pageMap = s.pageMap)
    (hfirst : ∀ c s, P (64 * idx + ci) s → s.LineAt range (64 * idx + ci) c →
      P (64 * idx + ci + 1) (part (min (64 - off) size) c s))
    (hwhole : ∀ l c s, 64 * idx + ci < l → 64 * l + 64 ≤ 64 * (64 * idx + ci) + off + size →
      P l s → s.LineAt range l c → P (l + 1) (whole c s))
    (hlast : ∀ l c s, 64 * idx + ci < l → 64 * l < 64 * (64 * idx + ci) + off + size →
      64 * (64 * idx + ci) + off + size < 64 * l + 64 → P l s → s.LineAt range l c →
      P (l + 1) (part (64 * (64 * idx + ci) + off + size - 64 * l) c s))
    (h : s.walkCacheLines part whole range idx ci off size = some s')
    (h0 : P (64 * idx + ci) s) :
    ∃ l, 64 * (64 * idx + ci) + off + size ≤ 64 * l ∧ P l s' := by
  unfold walkCacheLines at h
  simp only [cachelineSize] at h
  obtain ⟨⟨s1, table⟩, hget, h⟩ := Option.bind_eq_some_iff.mp h
  have hat : s1.LineAt range (64 * idx + ci) (table + ci) := by
    refine ⟨table, ?_, by omega⟩
    rw [show (64 * idx + ci) / 64 = idx by omega]
    exact getCacheMapEntry_table hget
  have hP1 := hfirst _ _ (halloc _ _ _ _ _ h0 hget) hat
  obtain ⟨⟨s2, w2⟩, hloop, h⟩ := Option.bind_eq_some_iff.mp h
  obtain ⟨hP2, hw2⟩ := wholeLines_rule P halloc hpmWhole
    ((size - min (64 - off) size) / 64) (64 * idx + ci)
    (fun l c s hlo hhi => hwhole l c s hlo (by omega))
    ⟨by show idx = _; omega, (LineAt.congr (hpmPart _ _ _)).mpr hat,
      by show ci + 1 = _; omega⟩ hP1 hloop
  by_cases hrest : (size - min (64 - off) size) % 64 > 0
  · simp only [hrest, if_true] at h
    obtain ⟨⟨s3, w3⟩, hnext, h⟩ := Option.bind_eq_some_iff.mp h
    cases h
    obtain ⟨hP3, -, hcell, -⟩ := nextLine_rule P halloc hw2 hP2 hnext
    have hP4 := hlast _ _ _ (by omega) (by omega) (by omega) hP3 hcell
    rw [show 64 * (64 * idx + ci) + off + size
        - 64 * (64 * idx + ci + (size - min (64 - off) size) / 64 + 1)
        = (size - min (64 - off) size) % 64 by omega] at hP4
    exact ⟨_, by omega, hP4⟩
  · simp only [hrest, if_false] at h
    cases h
    exact ⟨_, by omega, hP2⟩

end Rule

end ShadowMemory

end MemPerf
