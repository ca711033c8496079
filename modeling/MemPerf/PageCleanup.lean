import MemPerf.MegaWalks

/-!
# cleanupPages and the lookups

`cleanupPages` steps from page to page like the other two walks, but its
page index is an `unsigned`, which does not come back to 0 after 256
pages. At the end of a megabyte it goes on to the next entry of the page
map, whatever table that belongs to. So it cleans the right pages only
where the tables of neighbouring megabytes happen to be neighbours
(`page_walks_agree_iff`).

Two more conditions come from the numbers: the length is rounded up from
its own start and not from the page's, and the result is a 32-bit product.
-/

namespace MemPerf.Original

open Word StepSystem PageWalk MemPerf.Original.ShadowMemory

/-- The pages of the region can all be looked up, and that of its start. -/
def InMappedSpace (s : ShadowMemory) (uintaddr length : Nat) : Prop :=
  (s.getPageMapEntry uintaddr).isSome ∧
    (lookupPages getPageMapEntry (regionPages uintaddr length) s).isSome

/-- `cleanupPages` visits the entries that looking the pages of the region
up finds, returns 4096 for each touched one and leaves all untouched. -/
def CleanupRight (s : ShadowMemory) (uintaddr length : Nat) : Prop :=
  ∃ s' entries r w, lookupPages getPageMapEntry (regionPages uintaddr length) s
      = some (s', entries)
    ∧ s.cleanupPages uintaddr length = some (r, w)
    ∧ w.visited = entries ∧ entries.Nodup
    ∧ (∀ e, e ∉ entries → w.shadow.pageMap e = s.pageMap e)
    ∧ r = 4096 * entries.countP (fun e => (s.pageMap e).touched)
    ∧ ∀ e ∈ entries, (w.shadow.pageMap e).touched = false

/-- The rounded length has the pages of the region; the tables of the
megabytes it reaches into lie one after another; fewer than `2 ^ 20` of
its pages are touched. -/
structure CleanupSafe (s : ShadowMemory) (uintaddr length : Nat) : Prop where
  pages : alignup length pagesize = pagesize * (regionPages uintaddr length).length
  tables : ∀ i, i + 1 < megabytesOf (uintaddr / 4096) (regionPages uintaddr length).length →
    s.tableAfter (megaIndexOf uintaddr) (i + 1) = s.tableAfter (megaIndexOf uintaddr) i + 256
  few : (List.range (regionPages uintaddr length).length).countP
    (fun k => (s.pageMap (s.entryAfter (uintaddr / 4096) k)).touched) < 2 ^ 20

/-! ## What the walk does -/

theorem clear_pageMap (s : ShadowMemory) (current e : Nat) : (clear current s).pageMap e =
    if e = current then { s.pageMap e with touched := false, numUsedBytes := 0 }
    else s.pageMap e := by
  unfold clear
  by_cases he : e = current
  · subst he
    rw [if_pos rfl]
    split
    · exact Function.update_self ..
    · exact Function.update_self ..
  · rw [if_neg he]
    split
    · exact modifyPage_of_ne _ _ he
    · exact modifyPage_of_ne _ _ he

theorem clear_tables (s : ShadowMemory) (current : Nat) : (clear current s).megaMap = s.megaMap
    ∧ (clear current s).pageMapBumpPtr = s.pageMapBumpPtr := by
  unfold clear
  split <;> exact ⟨rfl, rfl⟩

/-- An entry that is looked at is untouched afterwards. -/
structure CleansPage (current : Nat) (w w' : PageWalk) : Prop where
  visited : w'.visited = w.visited ++ [current]
  megaMap : w'.shadow.megaMap = w.shadow.megaMap
  bump : w'.shadow.pageMapBumpPtr = w.shadow.pageMapBumpPtr
  untouched : (w'.shadow.pageMap current).touched = false
  frame : ∀ e, e ≠ current → w'.shadow.pageMap e = w.shadow.pageMap e
  count : w'.numPages = wrap 32 (w.numPages
    + if (w.shadow.pageMap current).touched then 1 else 0)

theorem cleanupPage_cases {current : Nat} {w w' : PageWalk} (hnum : w.numPages < 2 ^ 32)
    (h : cleanupPage current w = some w') :
    current < maxPageMapEntries ∧ CleansPage current w w' := by
  unfold cleanupPage at h
  split at h
  · next hlt =>
      refine ⟨hlt, ?_⟩
      simp only at h
      split at h
      · next htouched =>
          cases h
          obtain ⟨hmap, hbump⟩ := clear_tables w.shadow current
          refine ⟨rfl, hmap, hbump, ?_, fun e he => ?_, ?_⟩
          · simp only [clear_pageMap, if_true]
          · simp only [clear_pageMap, he, if_false]
          · rw [if_pos htouched]
      · next htouched =>
          cases h
          refine ⟨rfl, rfl, rfl, by simpa using htouched, fun _ _ => rfl, ?_⟩
          rw [if_neg htouched, Nat.add_zero, wrap_of_lt hnum]
  · cases h

theorem cleanupPage_isSome {current : Nat} (h : current < maxPageMapEntries) (w : PageWalk) :
    ∃ w', cleanupPage current w = some w' := by
  rw [cleanupPage, if_pos h]
  simp only
  split
  · exact ⟨_, rfl⟩
  · exact ⟨_, rfl⟩

/-- Short of `2 ^ 32` the index is not 0 again: the next entry it is. -/
theorem nextPage_unsigned (s : ShadowMemory) {c : PageCursor} (h : c.pageIndex + 1 < 2 ^ 32) :
    s.nextPage (c.incr 32) =
      some (s, { c with pageIndex := c.pageIndex + 1, current := c.current + 1 }) := by
  have hindex : (c.incr 32).pageIndex = c.pageIndex + 1 := wrap_of_lt h
  rw [nextPage, hindex, if_neg (Nat.succ_ne_zero _), PageCursor.incr, wrap_of_lt h]

/-- What `cleanPages` has done after `n` entries from `current` on. -/
structure CleansPages (current n : Nat) (w w' : PageWalk) : Prop where
  visited : w'.visited = w.visited ++ List.range' current n
  untouched : ∀ e ∈ List.range' current n, (w'.shadow.pageMap e).touched = false
  frame : ∀ e, e ∉ List.range' current n → w'.shadow.pageMap e = w.shadow.pageMap e
  count : w'.numPages = wrap 32 (w.numPages
    + (List.range' current n).countP fun e => (w.shadow.pageMap e).touched)

theorem CleansPages.cons {current n : Nat} {w w' w'' : PageWalk} (h : CleansPage current w w')
    (h' : CleansPages (current + 1) n w' w'') : CleansPages current (n + 1) w w'' where
  visited := by
    rw [h'.visited, h.visited, List.append_assoc, List.range'_succ]
    rfl
  untouched e he := by
    rw [List.range'_succ, List.mem_cons] at he
    rcases he with rfl | he
    · rw [h'.frame e (by simp)]
      exact h.untouched
    · exact h'.untouched e he
  frame e he := by
    rw [List.range'_succ, List.mem_cons, not_or] at he
    rw [h'.frame e he.2, h.frame e he.1]
  count := by
    have hrest : (List.range' (current + 1) n).countP (fun e => (w'.shadow.pageMap e).touched)
        = (List.range' (current + 1) n).countP fun e => (w.shadow.pageMap e).touched := by
      refine List.countP_congr fun e he => ?_
      rw [h.frame e]
      rintro rfl
      simp at he
    rw [h'.count, h.count, wrap_add_wrap, hrest, List.range'_succ, List.countP_cons]
    congr 1
    omega

theorem cleanPages_cases : ∀ (n : Nat) {w w' : PageWalk} {c : PageCursor},
    w.numPages < 2 ^ 32 → c.pageIndex + n < 2 ^ 32 → cleanPages n w c = some w' →
    CleansPages c.current n w w'
  | 0, w, w', c, hnum, _, h => by
      cases h
      refine ⟨(List.append_nil _).symm, fun e he => absurd he List.not_mem_nil, fun _ _ => rfl, ?_⟩
      rw [List.range'_zero, List.countP_nil, Nat.add_zero, wrap_of_lt hnum]
  | n + 1, w, w'', c, hnum, hindex, h => by
      obtain ⟨w', hw', h⟩ := Option.bind_eq_some_iff.mp h
      obtain ⟨-, hpage⟩ := cleanupPage_cases hnum hw'
      rw [nextPage_unsigned w'.shadow (by omega)] at h
      have hnum' : w'.numPages < 2 ^ 32 := hpage.count ▸ wrap_lt 32 _
      exact .cons hpage (cleanPages_cases n hnum' (by simp only; omega) h)

theorem cleanPages_isSome : ∀ (n : Nat) {w : PageWalk} {c : PageCursor},
    c.pageIndex + n < 2 ^ 32 → c.current + n ≤ maxPageMapEntries →
    ∃ w', cleanPages n w c = some w'
  | 0, w, c, _, _ => ⟨w, rfl⟩
  | n + 1, w, c, hindex, hroom => by
      obtain ⟨w', hw'⟩ := cleanupPage_isSome (show c.current < maxPageMapEntries by omega) w
      rw [cleanPages, hw']
      show ∃ w'', (w'.shadow.nextPage (c.incr 32)).bind _ = some w''
      rw [nextPage_unsigned w'.shadow (by omega)]
      exact cleanPages_isSome n (by simp only; omega) (by simp only; omega)

/-! ## Runs -/

theorem cleanPages_layout : ∀ (n : Nat) {w w' : PageWalk} {c : PageCursor},
    w.shadow.Layout → w.numPages < 2 ^ 32 → cleanPages n w c = some w' → w'.shadow.Layout
  | 0, w, w', c, hs, _, h => by
      cases h
      exact hs
  | n + 1, w, w'', c, hs, hnum, h => by
      obtain ⟨w', hw', h⟩ := Option.bind_eq_some_iff.mp h
      obtain ⟨⟨q, c'⟩, hnext, h⟩ := Option.bind_eq_some_iff.mp h
      obtain ⟨-, hpage⟩ := cleanupPage_cases hnum hw'
      have hs' : w'.shadow.Layout := hs.of_megaMap hpage.megaMap hpage.bump
      exact cleanPages_layout n (hs'.nextPage hnext) (hpage.count ▸ wrap_lt 32 _) h

theorem layout_step {s s' : ShadowMemory} {op : ShadowOp} (hs : s.Layout)
    (h : s.step op = some s') : s'.Layout := by
  cases op with
  | updatePages address size isFree =>
      obtain ⟨w, hw, rfl⟩ := Option.map_eq_some_iff.mp h
      exact ((updatePages_agrees hs address size isFree).of_some hw).layout
  | updateCacheLines tid address size isFree =>
      obtain ⟨w, hw, rfl⟩ := Option.map_eq_some_iff.mp h
      exact ((updateCacheLines_agrees hs tid address size isFree).of_some hw).layout
  | cleanupPages uintaddr length =>
      obtain ⟨⟨r, w⟩, hw, rfl⟩ := Option.map_eq_some_iff.mp h
      obtain ⟨⟨q, t⟩, hget, hw⟩ := Option.bind_eq_some_iff.mp hw
      obtain ⟨w', hw', heq⟩ := Option.bind_eq_some_iff.mp hw
      cases heq
      exact cleanPages_layout _ (hs.getMegaMapEntry hget) (show 0 < 2 ^ 32 by decide) hw'
  | getPageMapEntry address =>
      obtain ⟨⟨q, e⟩, hget, rfl⟩ := Option.map_eq_some_iff.mp h
      exact hs.getPageMapEntry hget

/-! ## When cleanupPages is right -/

section cleanupPages

variable {s : ShadowMemory} {uintaddr length : Nat}

/-- The number of pages of the region. -/
theorem length_regionPages (uintaddr length : Nat) : (regionPages uintaddr length).length =
    if length = 0 then 0 else (uintaddr + length - 1) / 4096 + 1 - uintaddr / 4096 := by
  unfold regionPages
  split
  · rfl
  · rw [List.length_range']

theorem regionPages_range' (uintaddr length : Nat) : regionPages uintaddr length
    = List.range' (uintaddr / 4096) (regionPages uintaddr length).length := by
  rw [length_regionPages]
  unfold regionPages
  split <;> rfl

/-- What the lookups of the region and of its start tell. -/
structure Mapped (s : ShadowMemory) (p n : Nat) (s' s1 : ShadowMemory) (table : Nat) : Prop where
  start : s.getMegaMapEntry (p / 256) = some (s1, table)
  looked : lookupPages getPageMapEntry (List.range' p n) s
    = some (s', (List.range n).map (s.entryAfter p))
  table_eq : table = s.tableAfter (p / 256) 0
  inMap : ∀ k < n, p + k < 2 ^ 35
  index : p % 256 + n < 2 ^ 32
  entry_lt : ∀ k < n, s.entryAfter p k < maxPageMapEntries
  start_lt : table + p % 256 < maxPageMapEntries
  nodup : ((List.range n).map (s.entryAfter p)).Nodup

theorem mapped_of_inMappedSpace (hs : s.Layout) (h : InMappedSpace s uintaddr length) :
    ∃ s' s1 table, Mapped s (uintaddr / 4096) (regionPages uintaddr length).length s' s1 table := by
  obtain ⟨hstart, hregion⟩ := h
  rw [regionPages_range'] at hregion
  generalize (regionPages uintaddr length).length = n at hregion ⊢
  rw [getPageMapEntry_eq] at hstart
  generalize uintaddr / 4096 = p at hstart hregion ⊢
  obtain ⟨x, hx⟩ := Option.isSome_iff_exists.mp hstart
  obtain ⟨⟨s1, table⟩, hget, -⟩ := Option.map_eq_some_iff.mp hx
  obtain ⟨⟨s', entries⟩, hlooked⟩ := Option.isSome_iff_exists.mp hregion
  obtain ⟨hens, -, rfl⟩ := lookupPages_ensured hlooked
  have hstart_lt : table + p % 256 < maxPageMapEntries :=
    (hs.getMegaMapEntry hget).entry_lt (getMegaMapEntry_self hget) (Nat.mod_lt _ (by decide))
  have htable : table = s.tableAfter (p / 256) 0 :=
    ((Ensured.init s (p / 256)).next (Nat.le_refl 0) hget).2
  -- the lookups leave a layout in which all the tables are there
  have hs' : s'.Layout := lookupPages_layout _ hs hlooked
  have hmega : ∀ k < n, (p + k) / 256 - p / 256 < megabytesOf p n := by
    intro k hk
    unfold megabytesOf
    omega
  have hmade : ∀ k < n, s'.megaMap (p / 256 + ((p + k) / 256 - p / 256))
      = some (s.tableAfter (p / 256) ((p + k) / 256 - p / 256)) :=
    fun k hk => (hens (Nat.zero_lt_of_lt hk)).made _ (hmega k hk)
  refine ⟨s', s1, table, hget, hlooked, htable, fun k hk => ?_, ?_, fun k hk => ?_, hstart_lt, ?_⟩
  · have hin := (hens (Nat.zero_lt_of_lt hk)).inMap _ (hmega k hk)
    simp only [numMegabyteMapEntries] at hin
    omega
  · rcases Nat.eq_zero_or_pos n with rfl | hn
    · omega
    · have hle := hs'.tables_le fun i hi => ⟨_, (hens hn).made i hi⟩
      have hlt := hs'.bump_lt
      simp only [maxPageMapEntries, oneGb] at hlt
      unfold megabytesOf at hle
      omega
  · exact hs'.entry_lt (hmade k hk) (Nat.mod_lt _ (by decide))
  · refine List.Nodup.map_on (fun j hj k hk heq => ?_) List.nodup_range
    rw [List.mem_range] at hj hk
    obtain ⟨hm, hi⟩ := hs'.entry_inj (hmade j hj) (hmade k hk) (Nat.mod_lt _ (by decide))
      (Nat.mod_lt _ (by decide)) heq
    omega

/-- The entries of the region follow one another just when the tables of
its megabytes do. -/
theorem entries_consecutive_iff (s : ShadowMemory) (p n : Nat) :
    (∀ k < n, s.entryAfter p k = s.tableAfter (p / 256) 0 + p % 256 + k) ↔
      ∀ i, i + 1 < megabytesOf p n →
        s.tableAfter (p / 256) (i + 1) = s.tableAfter (p / 256) i + 256 := by
  unfold entryAfter megabytesOf
  constructor
  · intro h i hi
    -- the first page of the next megabyte, and one page of this one
    have hnext := h (256 * (i + 1) - p % 256) (by omega)
    have hthis := h (256 * i - p % 256) (by omega)
    rw [show (p + (256 * (i + 1) - p % 256)) / 256 - p / 256 = i + 1 by omega] at hnext
    rw [show (p + (256 * i - p % 256)) / 256 - p / 256 = i by omega] at hthis
    omega
  · intro h k hk
    have htables : ∀ i, i < (p % 256 + n + 255) / 256 →
        s.tableAfter (p / 256) i = s.tableAfter (p / 256) 0 + 256 * i := by
      intro i
      induction i with
      | zero => intro _; rfl
      | succ i ih =>
          intro hi
          rw [h i hi, ih (by omega)]
          omega
    rw [htables _ (by omega)]
    omega

/-- The result of `cleanupPages` on a region whose pages can be looked up. -/
theorem cleanupPages_cases {s' s1 : ShadowMemory} {n m table r : Nat} {w : PageWalk}
    (hm : Mapped s (uintaddr / 4096) n s' s1 table) (hrounds : alignup length pagesize = 4096 * m)
    (hle : m ≤ n) (h : s.cleanupPages uintaddr length = some (r, w)) :
    w.visited = List.range' (table + uintaddr / 4096 % 256) m
      ∧ (∀ e ∈ w.visited, (w.shadow.pageMap e).touched = false)
      ∧ (∀ e, e ∉ w.visited → w.shadow.pageMap e = s.pageMap e)
      ∧ r = wrap 32 (w.visited.countP (fun e => (s.pageMap e).touched) * 4096) := by
  have hindex := hm.index
  rw [cleanupPages, megaIndexOf_eq, pageIndexOf_eq, hrounds, hm.start, Option.bind_eq_bind,
    Option.bind_some] at h
  obtain ⟨w', hw', heq⟩ := Option.bind_eq_some_iff.mp h
  simp only [pagesize, Nat.mul_div_cancel_left m (show 0 < 4096 by decide)] at hw'
  cases heq
  have hclean := cleanPages_cases m (show 0 < 2 ^ 32 by decide) (by simp only; omega) hw'
  have hvisited : w.visited = List.range' (table + uintaddr / 4096 % 256) m := hclean.visited
  have hpages : s1.pageMap = s.pageMap := getMegaMapEntry_pageMap hm.start
  have hcount : w.numPages = w.visited.countP fun e => (s.pageMap e).touched := by
    rw [hclean.count, hvisited, Nat.zero_add, hpages]
    refine wrap_of_lt (Nat.lt_of_le_of_lt List.countP_le_length ?_)
    rw [List.length_range']
    omega
  refine ⟨hvisited, fun e he => hclean.untouched e (hvisited ▸ he), fun e he => ?_, ?_⟩
  · rw [hclean.frame e (hvisited ▸ he)]
    exact congrFun hpages e
  · rw [hcount]

theorem cleanupPages_isSome {s' s1 : ShadowMemory} {n table : Nat}
    (hm : Mapped s (uintaddr / 4096) n s' s1 table) (hrounds : alignup length pagesize = 4096 * n)
    (hroom : table + uintaddr / 4096 % 256 + n ≤ maxPageMapEntries) :
    ∃ r w, s.cleanupPages uintaddr length = some (r, w) := by
  obtain ⟨w, hw⟩ := cleanPages_isSome n (w := { shadow := s1 })
    (c := { megaIndex := uintaddr / 4096 / 256, pageIndex := uintaddr / 4096 % 256
            current := table + uintaddr / 4096 % 256 }) hm.index hroom
  rw [cleanupPages, megaIndexOf_eq, pageIndexOf_eq, hrounds, hm.start]
  simp only [pagesize, Nat.mul_div_cancel_left n (show 0 < 4096 by decide)]
  refine ⟨wrap 32 (w.numPages * 4096), w, ?_⟩
  simp only [Option.bind_eq_bind, Option.bind_some, hw]

/-- The loop has at most the region's pages as rounds. -/
theorem alignup_rounds (hin : ∀ k < (regionPages uintaddr length).length,
      uintaddr / 4096 + k < 2 ^ 35) :
    ∃ m ≤ (regionPages uintaddr length).length, alignup length pagesize = 4096 * m := by
  rw [length_regionPages] at hin ⊢
  split
  · next h0 => exact ⟨0, Nat.le_refl 0, by rw [h0]; rfl⟩
  · next hlen =>
      rw [if_neg hlen] at hin
      have hlast := hin ((uintaddr + length - 1) / 4096 - uintaddr / 4096) (by omega)
      refine ⟨(length + 4095) / 4096, by omega, ?_⟩
      rw [alignup_pagesize (by omega), Nat.mul_comm]

theorem cleanupRight_iff (hs : s.Layout) (hmapped : InMappedSpace s uintaddr length) :
    CleanupRight s uintaddr length ↔ CleanupSafe s uintaddr length := by
  obtain ⟨s', s1, table, hm⟩ := mapped_of_inMappedSpace hs hmapped
  obtain ⟨m, hle, hrounds⟩ := alignup_rounds hm.inMap
  have hlooked := hm.looked
  rw [← regionPages_range'] at hlooked
  generalize hn : (regionPages uintaddr length).length = n at hm hle hlooked
  have hfew : ∀ f : Nat → Bool, (List.range n).countP (fun k => f (s.entryAfter _ k))
      = ((List.range n).map (s.entryAfter (uintaddr / 4096))).countP f :=
    fun f => by rw [List.countP_map]; rfl
  constructor
  · rintro ⟨s'', entries, r, w, hlooked', hclean, hvisited, -, -, hr, -⟩
    rw [hlooked] at hlooked'
    cases hlooked'
    obtain ⟨hrange, -, -, hr'⟩ := cleanupPages_cases hm hrounds hle hclean
    rw [hvisited] at hrange hr'
    have hlen := congrArg List.length hrange
    rw [List.length_map, List.length_range, List.length_range'] at hlen
    subst hlen
    refine ⟨by rw [hn, hrounds], ?_, ?_⟩
    · rw [hn, megaIndexOf_eq, ← entries_consecutive_iff]
      intro k hk
      have hget := congrArg (fun l => l[k]?) hrange
      simp only [List.getElem?_map, List.getElem?_range hk, Option.map_some,
        List.getElem?_range' hk] at hget
      rw [Option.some.inj hget, hm.table_eq, Nat.one_mul]
    · rw [hn, hfew fun e => (s.pageMap e).touched]
      have hwrap := wrap_lt 32 (((List.range n).map (s.entryAfter (uintaddr / 4096))).countP
        (fun e => (s.pageMap e).touched) * 4096)
      omega
  · rintro ⟨hpages, htables, htouched⟩
    rw [hn, hrounds] at hpages
    obtain rfl : m = n := by simp only [pagesize] at hpages; omega
    rw [hn, megaIndexOf_eq, ← entries_consecutive_iff] at htables
    rw [hn, hfew fun e => (s.pageMap e).touched] at htouched
    have hrange : (List.range m).map (s.entryAfter (uintaddr / 4096))
        = List.range' (table + uintaddr / 4096 % 256) m := by
      rw [List.range'_eq_map_range]
      refine List.map_congr_left fun k hk => ?_
      rw [htables k (List.mem_range.mp hk), hm.table_eq]
    have hroom : table + uintaddr / 4096 % 256 + m ≤ maxPageMapEntries := by
      rcases Nat.eq_zero_or_pos m with rfl | hpos
      · exact Nat.le_of_lt hm.start_lt
      · have hlast := hm.entry_lt (m - 1) (by omega)
        rw [htables (m - 1) (by omega), ← hm.table_eq] at hlast
        omega
    obtain ⟨r, w, hclean⟩ := cleanupPages_isSome hm hrounds hroom
    obtain ⟨hvisited, huntouched, hframe, hr⟩ := cleanupPages_cases hm hrounds hle hclean
    have hentries := hvisited.trans hrange.symm
    rw [hentries] at huntouched hframe hr
    refine ⟨s', _, r, w, hlooked, hclean, hentries, hm.nodup, hframe, ?_, huntouched⟩
    rw [hr, wrap_of_lt (by omega), Nat.mul_comm]

end cleanupPages

/-- **The walks and the lookups agree** in every state of a run: always for
the two walks of an object, and for a cleanup just when it is safe. -/
theorem page_walks_agree_iff {past : List ShadowOp} {s : ShadowMemory}
    (h : Run ShadowMemory.step (fun _ _ _ => True) {} past s) :
    (∀ address size isFree, 0 < size → VisitsRegion getPageMapEntry s address size
      (s.updatePages address (megaIndexOf address) (pageIndexOf address) size isFree))
    ∧ (∀ tid address size isFree, 0 < size → VisitsRegion getLineTable s address size
      (s.updateCacheLines tid (megaIndexOf address) (pageIndexOf address) (cacheIndexOf address)
        (address &&& cachelineSizeMask) size isFree))
    ∧ ∀ uintaddr length, InMappedSpace s uintaddr length →
      (CleanupRight s uintaddr length ↔ CleanupSafe s uintaddr length) := by
  have hs : s.Layout := by
    refine h.invariant Layout layout_init ?_
    intro past s op s' hs _ hstep
    exact layout_step hs hstep
  exact ⟨fun _ _ isFree hsize => updatePages_visits hs hsize isFree,
    fun tid _ _ isFree hsize => updateCacheLines_visits hs tid hsize isFree,
    fun _ _ hmapped => cleanupRight_iff hs hmapped⟩

/-- An object across a megabyte boundary: its two tables were made one
after the other, and a cleanup finds both pages. -/
theorem page_walks_agree_iff_two_megabytes :
    ∃ past s, Run ShadowMemory.step (fun _ _ _ => True) {} past s
      ∧ CleanupRight s 0x4ff000 8192 := by
  let ops : List ShadowOp := [.updatePages 0x4ff000 8192 false]
  have hvals : ((ops.foldlM ShadowMemory.step {}).map fun s => (s.megaMap 4, s.megaMap 5,
      (s.getPageMapEntry 0x4ff000).isSome,
      (lookupPages getPageMapEntry (regionPages 0x4ff000 8192) s).isSome))
        = some (some 0, some 256, true, true) := by decide +kernel
  obtain ⟨s, hs, hvals⟩ := Option.map_eq_some_iff.mp hvals
  simp only [Prod.mk.injEq] at hvals
  obtain ⟨h4, h5, hstart, hregion⟩ := hvals
  have hrun : Run ShadowMemory.step (fun _ _ _ => True) {} ops s :=
    Run.ofFoldlM (fun _ _ _ _ => trivial) hs
  have hpages : (regionPages 0x4ff000 8192).length = 2 := by decide
  have hsafe : CleanupSafe s 0x4ff000 8192 := by
    refine ⟨by rw [hpages]; decide, fun i hi => ?_, ?_⟩
    · rw [hpages] at hi
      obtain rfl : i = 0 := by
        simp only [megabytesOf] at hi
        omega
      show s.tableAfter 4 1 = s.tableAfter 4 0 + 256
      rw [tableAfter, tableAfter, h4, h5]
      rfl
    · rw [hpages]
      exact Nat.lt_of_le_of_lt List.countP_le_length (by decide)
  exact ⟨ops, s, hrun, ((page_walks_agree_iff hrun).2.2 _ _ ⟨hstart, hregion⟩).mpr hsafe⟩

/-- Megabyte 5 got its table before megabyte 4. A cleanup from the last
page of megabyte 4 goes on to the entry after its table instead of the
first one of megabyte 5, and misses that page. -/
theorem cleanup_misses_next_megabyte :
    ¬ ∀ past s, Run ShadowMemory.step (fun _ _ _ => True) {} past s → ∀ uintaddr length,
      InMappedSpace s uintaddr length → CleanupRight s uintaddr length := by
  intro hclaim
  let ops : List ShadowOp := [.updatePages 0x500000 4096 false, .updatePages 0x4ff000 4096 false]
  have hvals : ((ops.foldlM ShadowMemory.step {}).map fun s => ((s.getPageMapEntry 0x4ff000).isSome,
      (lookupPages getPageMapEntry (regionPages 0x4ff000 8192) s).map Prod.snd,
      (s.cleanupPages 0x4ff000 8192).map fun r => (r.1, r.2.visited)))
        = some (true, some [511, 0], some (4096, [511, 512])) := by decide +kernel
  obtain ⟨s, hs, hvals⟩ := Option.map_eq_some_iff.mp hvals
  simp only [Prod.mk.injEq] at hvals
  obtain ⟨hstart, hlooked, hclean⟩ := hvals
  have hrun : Run ShadowMemory.step (fun _ _ _ => True) {} ops s :=
    Run.ofFoldlM (fun _ _ _ _ => trivial) hs
  obtain ⟨x, hx, hentries⟩ := Option.map_eq_some_iff.mp hlooked
  obtain ⟨s', entries, r, w, hlooked', hclean', hvisited, -⟩ :=
    hclaim ops s hrun 0x4ff000 8192 ⟨hstart, by rw [hx]; rfl⟩
  rw [hlooked'] at hx
  rw [hclean'] at hclean
  cases hx
  simp only [Option.map_some, Option.some.injEq, Prod.mk.injEq] at hclean
  exact absurd (hclean.2.symm.trans (hvisited.trans hentries)) (by decide)

end MemPerf.Original
