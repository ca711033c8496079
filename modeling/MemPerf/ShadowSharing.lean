import MemPerf.ShadowReport

/-!
# True and false sharing

The scan compares every later word of the line with the first thread `l`
of the first touched word `f`. It finds true sharing exactly when some
word was missed on by two threads. False sharing it reports exactly when
a later word was missed on by a thread other than `l` or not missed on
at all: an untouched later word counts as a difference, and a second
thread on `f` itself does not. `SharingSeen` is when that agrees with
what false sharing means (`sharing_verdict_iff`).
-/

namespace MemPerf

open StepSystem ShadowMemory

/-! ## Sharing -/

/-- Some word was missed on by two threads. -/
def TrueShared (hits : List Hit) : Prop :=
  ∃ word t₁ t₂, t₁ ≠ t₂ ∧ ⟨t₁, word⟩ ∈ hits ∧ ⟨t₂, word⟩ ∈ hits

/-- Two threads missed on two different words. -/
def FalseShared (hits : List Hit) : Prop :=
  ∃ w₁ w₂ t₁ t₂, w₁ ≠ w₂ ∧ t₁ ≠ t₂ ∧ ⟨t₁, w₁⟩ ∈ hits ∧ ⟨t₂, w₂⟩ ∈ hits

/-- The report's two flags say what happened. -/
def SharingRight (hits : List Hit) (report : LineReport) : Prop :=
  (report.trueSharing = true ↔ TrueShared hits)
  ∧ (report.falseSharing = true ↔ FalseShared hits)

/-- `f` is the first word of the line that was missed on, `l` the first
thread that did. -/
def FirstTouch (hits : List Hit) (f l : Nat) : Prop :=
  (tidsOn hits f).head? = some l ∧ ∀ word < f, tidsOn hits word = []

/-- When the scan sees the false sharing there is: a later word was
missed on by a thread other than `l`; or there is no later word; or all
later words were missed on and only `l` missed on `f`; or a second
thread missed on `f`, some later word was missed on and some was not. -/
def SharingSeen (hits : List Hit) : Prop :=
  ∀ f l, FirstTouch hits f l →
    (∃ word t, f < word ∧ t ≠ l ∧ ⟨t, word⟩ ∈ hits)
    ∨ f = 7
    ∨ ((∀ word, f < word → word < numWord → ∃ t, ⟨t, word⟩ ∈ hits)
      ∧ ∀ t, ⟨t, f⟩ ∈ hits → t = l)
    ∨ ((∃ t, t ≠ l ∧ ⟨t, f⟩ ∈ hits) ∧ (∃ word t, f < word ∧ ⟨t, word⟩ ∈ hits)
      ∧ ∃ word, f < word ∧ word < numWord ∧ ∀ t, ⟨t, word⟩ ∉ hits)

theorem mem_tidsOn {hits : List Hit} {word t : Nat} : t ∈ tidsOn hits word ↔ ⟨t, word⟩ ∈ hits := by
  unfold tidsOn
  constructor
  · intro h
    obtain ⟨⟨tid, k⟩, hmem, rfl⟩ := List.mem_map.mp h
    obtain ⟨hin, hk⟩ := List.mem_filter.mp hmem
    obtain rfl : k = word := by simpa using hk
    exact hin
  · intro h
    exact List.mem_map.mpr ⟨_, List.mem_filter.mpr ⟨h, by simp⟩, rfl⟩

/-- A line that was missed on has a first touched word. -/
theorem exists_firstTouch {hits : List Hit} (h : hits ≠ []) : ∃ f l, FirstTouch hits f l := by
  have hex : ∃ word, tidsOn hits word ≠ [] := by
    obtain ⟨⟨t, word⟩, rest, rfl⟩ := List.exists_cons_of_ne_nil h
    refine ⟨word, List.ne_nil_of_mem (mem_tidsOn.mpr (List.mem_cons_self ..))⟩
  classical
  refine ⟨Nat.find hex, (tidsOn hits (Nat.find hex)).head (Nat.find_spec hex), ?_, ?_⟩
  · exact List.head?_eq_some_head _
  · intro word hw
    by_contra hne
    exact Nat.find_min hex hw hne

/-! ## The rows of a line -/

section Rows

variable {hits : List Hit} {d : CoherencyData} {f l : Nat}

theorem zero_notMem_tidsOn (hne : ∀ h ∈ hits, h.tid ≠ 0) (word : Nat) : 0 ∉ tidsOn hits word :=
  fun h0 => hne _ (mem_tidsOn.mp h0) rfl

/-- A word with two used slots was missed on by two threads. -/
theorem crowded_iff (hne : ∀ h ∈ hits, h.tid ≠ 0) (word : Nat) :
    SharingScan.Crowded (Slots.row 16 0 (tidsOn hits word))
      ↔ ∃ t₁ t₂, t₁ ≠ t₂ ∧ ⟨t₁, word⟩ ∈ hits ∧ ⟨t₂, word⟩ ∈ hits := by
  have hlen : SharingScan.Crowded (Slots.row 16 0 (tidsOn hits word))
      ↔ 2 ≤ (Slots.arrivals (tidsOn hits word)).length := by
    rw [SharingScan.Crowded, Slots.used_row (zero_notMem_tidsOn hne word)]
    omega
  rw [hlen, Slots.two_le_length_arrivals]
  simp only [mem_tidsOn]
  constructor
  · rintro ⟨a, ha, b, hb, hab⟩
    exact ⟨a, b, hab, ha, hb⟩
  · rintro ⟨a, b, hab, ha, hb⟩
    exact ⟨a, ha, b, hb, hab⟩

/-- What the scan takes for a difference: no miss at all, or one of
another thread. -/
theorem differs_iff (hne : ∀ h ∈ hits, h.tid ≠ 0) (hl : l ≠ 0) (word : Nat) :
    (l ≠ Slots.row 16 0 (tidsOn hits word) 0
      ∨ SharingScan.Crowded (Slots.row 16 0 (tidsOn hits word)))
      ↔ (∀ t, ⟨t, word⟩ ∉ hits) ∨ ∃ t, t ≠ l ∧ ⟨t, word⟩ ∈ hits := by
  rw [crowded_iff hne, Slots.row_zero (by decide)]
  cases hT : tidsOn hits word with
  | nil =>
      have hno : ∀ t, ⟨t, word⟩ ∉ hits := fun t ht => by
        have := mem_tidsOn.mpr ht
        simp [hT] at this
      simp [hno, hl]
  | cons x rest =>
      have hx : ⟨x, word⟩ ∈ hits := mem_tidsOn.mp (by simp [hT])
      constructor
      · rintro (h | ⟨t₁, t₂, hne12, h1, h2⟩)
        · exact Or.inr ⟨x, by simpa using Ne.symm h, hx⟩
        · by_cases ht : t₁ = l
          · exact Or.inr ⟨t₂, fun h => hne12 (ht.trans h.symm), h2⟩
          · exact Or.inr ⟨t₁, ht, h1⟩
      · rintro (h | ⟨t, ht, hmem⟩)
        · exact absurd hx (h x)
        · by_cases hxl : x = l
          · exact Or.inr ⟨t, x, fun h => ht (h.trans hxl), hmem, hx⟩
          · exact Or.inl (by simpa using Ne.symm hxl)

/-- The words split at the first touched one. -/
theorem range_split (hf : f < 8) :
    List.range numWord = List.range' 0 f ++ f :: List.range' (f + 1) (7 - f) := by
  rw [List.range_eq_range', numWord, ← List.range'_succ, show 7 - f + 1 = 8 - f by omega]
  have happ := @List.range'_append_1 0 f (8 - f)
  rw [Nat.zero_add, show f + (8 - f) = 8 by omega] at happ
  exact happ.symm

theorem sharing_of_firstTouch (hne : ∀ h ∈ hits, h.tid ≠ 0) (hword : ∀ h ∈ hits, h.word < 8)
    (hrow : ∀ k, d.tidsPerWord k = Slots.row 16 0 (tidsOn hits k))
    (hft : FirstTouch hits f l) :
    (d.sharing.trueSharing = true ↔ TrueShared hits)
    ∧ (d.sharing.falseSharing = true ↔ ∃ word, f < word ∧ word < 8
      ∧ ((∀ t, ⟨t, word⟩ ∉ hits) ∨ ∃ t, t ≠ l ∧ ⟨t, word⟩ ∈ hits)) := by
  obtain ⟨hhead, hbefore⟩ := hft
  have hlf : ⟨l, f⟩ ∈ hits := mem_tidsOn.mp (List.mem_of_head? hhead)
  have hl : l ≠ 0 := hne _ hlf
  have hf : f < 8 := hword _ hlf
  have hzero : d.tidsPerWord f 0 = l := by
    rw [hrow f, Slots.row_zero (by decide), hhead]
    rfl
  have hpre : ∀ r ∈ (List.range' 0 f).map d.tidsPerWord, r 0 = 0 := by
    intro r hr
    obtain ⟨k, hk, rfl⟩ := List.mem_map.mp hr
    rw [List.mem_range'_1] at hk
    rw [hrow k, hbefore k (by omega), Slots.row_nil]
  have hscan := SharingScan.scan_first ((List.range' (f + 1) (7 - f)).map d.tidsPerWord) hpre
    (show d.tidsPerWord f 0 ≠ 0 by rwa [hzero])
  have hshare : d.sharing = ((List.range' 0 f).map d.tidsPerWord
      ++ d.tidsPerWord f :: (List.range' (f + 1) (7 - f)).map d.tidsPerWord).foldl
        SharingScan.scanWord {} := by
    rw [CoherencyData.sharing, range_split hf, List.map_append, List.map_cons]
  rw [hshare, hscan]
  simp only [decide_eq_true_eq, List.mem_cons, List.mem_map, exists_eq_or_imp]
  constructor
  · constructor
    · rintro (h | ⟨r, ⟨k, -, rfl⟩, h⟩)
      · rw [hrow f, crowded_iff hne] at h
        exact ⟨f, h⟩
      · rw [hrow k, crowded_iff hne] at h
        exact ⟨k, h⟩
    · rintro ⟨word, t₁, t₂, hne12, h1, h2⟩
      have hcrowd : SharingScan.Crowded (d.tidsPerWord word) := by
        rw [hrow word, crowded_iff hne]
        exact ⟨t₁, t₂, hne12, h1, h2⟩
      have hlt := hword _ h1
      simp only at hlt
      rcases Nat.lt_trichotomy word f with hw | rfl | hw
      · have hT := mem_tidsOn.mpr h1
        rw [hbefore word hw] at hT
        cases hT
      · exact Or.inl hcrowd
      · refine Or.inr ⟨_, ⟨word, ?_, rfl⟩, hcrowd⟩
        rw [List.mem_range'_1]
        omega
  · constructor
    · rintro ⟨r, ⟨k, hk, rfl⟩, h⟩
      rw [List.mem_range'_1] at hk
      rw [hzero, hrow k] at h
      exact ⟨k, by omega, by omega, (differs_iff hne hl k).mp h⟩
    · rintro ⟨word, h1, h2, h⟩
      refine ⟨_, ⟨word, ?_, rfl⟩, ?_⟩
      · rw [List.mem_range'_1]
        omega
      · rw [hzero, hrow word]
        exact (differs_iff hne hl word).mpr h

/-- A line that was not missed on is reported unshared. -/
theorem sharing_of_nil (hrow : ∀ k, d.tidsPerWord k = Slots.row 16 0 (tidsOn [] k)) :
    d.sharing = {} := by
  have hzero : ∀ r ∈ (List.range numWord).map d.tidsPerWord, r 0 = 0 := by
    intro r hr
    obtain ⟨k, -, rfl⟩ := List.mem_map.mp hr
    rw [hrow k]
    exact congrFun (Slots.row_nil 16 0) 0
  rw [CoherencyData.sharing, SharingScan.scan_untouched _ rfl hzero]

/-- False sharing, seen from the first touched word. -/
theorem falseShared_iff (hft : FirstTouch hits f l) : FalseShared hits ↔
    (∃ word t, f < word ∧ t ≠ l ∧ ⟨t, word⟩ ∈ hits)
    ∨ ((∃ t, t ≠ l ∧ ⟨t, f⟩ ∈ hits) ∧ ∃ word t, f < word ∧ ⟨t, word⟩ ∈ hits) := by
  obtain ⟨hhead, hbefore⟩ := hft
  have hlf : ⟨l, f⟩ ∈ hits := mem_tidsOn.mp (List.mem_of_head? hhead)
  have hge : ∀ t word, ⟨t, word⟩ ∈ hits → f ≤ word := by
    intro t word h
    by_contra hlt
    have hT := mem_tidsOn.mpr h
    rw [hbefore word (by omega)] at hT
    cases hT
  constructor
  · rintro ⟨w₁, w₂, t₁, t₂, hw, ht, h1, h2⟩
    by_cases hother : ∃ word t, f < word ∧ t ≠ l ∧ ⟨t, word⟩ ∈ hits
    · exact Or.inl hother
    · -- later words are `l`'s alone, so one of the two misses is on `f`
      have honly : ∀ t word, f < word → ⟨t, word⟩ ∈ hits → t = l := by
        intro t word hlt hmem
        by_contra hne
        exact hother ⟨word, t, hlt, hne, hmem⟩
      right
      rcases Nat.lt_or_ge f w₁ with h | h
      · obtain rfl := honly t₁ w₁ h h1
        have hwf : w₂ = f := by
          by_contra hne
          exact ht (honly t₂ w₂ (by have := hge _ _ h2; omega) h2).symm
        exact ⟨⟨t₂, Ne.symm ht, hwf ▸ h2⟩, w₁, t₁, h, h1⟩
      · have hwf : w₁ = f := by have := hge _ _ h1; omega
        have hlt : f < w₂ := by have := hge _ _ h2; omega
        obtain rfl := honly t₂ w₂ hlt h2
        exact ⟨⟨t₁, ht, hwf ▸ h1⟩, w₂, t₂, hlt, h2⟩
  · rintro (⟨word, t, hlt, ht, hmem⟩ | ⟨⟨t, ht, hmem⟩, word, t', hlt, hmem'⟩)
    · exact ⟨word, f, t, l, by omega, ht, hmem, hlf⟩
    · by_cases htt : t' = t
      · subst htt
        exact ⟨word, f, t', l, by omega, ht, hmem', hlf⟩
      · exact ⟨word, f, t', t, by omega, htt, hmem', hmem⟩

theorem FirstTouch.unique {f' l' : Nat} (h : FirstTouch hits f l) (h' : FirstTouch hits f' l') :
    f = f' ∧ l = l' := by
  have hword : f = f' := by
    rcases Nat.lt_trichotomy f f' with hlt | heq | hlt
    · have hhead := h.1
      rw [h'.2 f hlt] at hhead
      cases hhead
    · exact heq
    · have hhead := h'.1
      rw [h.2 f' hlt] at hhead
      cases hhead
  subst hword
  exact ⟨rfl, Option.some.inj (h.1.symm.trans h'.1)⟩

/-- The scan of a line's rows is right exactly when it sees the sharing. -/
theorem sharing_right_iff (hne : ∀ h ∈ hits, h.tid ≠ 0) (hword : ∀ h ∈ hits, h.word < 8)
    (hrow : ∀ k, d.tidsPerWord k = Slots.row 16 0 (tidsOn hits k)) (totalMisses : Nat) :
    SharingRight hits (d.report totalMisses) ↔ SharingSeen hits := by
  by_cases hnil : hits = []
  · subst hnil
    have hseen : SharingSeen [] := fun f l hft => by simp [FirstTouch, tidsOn] at hft
    have hright : SharingRight [] (d.report totalMisses) := by
      simp [SharingRight, CoherencyData.report, sharing_of_nil hrow, TrueShared, FalseShared]
    exact iff_of_true hright hseen
  · obtain ⟨f, l, hft⟩ := exists_firstTouch hnil
    obtain ⟨htrue, hfalse⟩ := sharing_of_firstTouch hne hword hrow hft
    have hfs := falseShared_iff hft
    have hf : f < 8 := hword ⟨l, f⟩ (mem_tidsOn.mp (List.mem_of_head? hft.1))
    have hright : SharingRight hits (d.report totalMisses)
        ↔ (d.sharing.falseSharing = true ↔ FalseShared hits) := by
      simp only [SharingRight, CoherencyData.report]
      exact ⟨fun h => h.2, fun h => ⟨htrue, h⟩⟩
    rw [hright, hfalse, hfs]
    constructor
    · intro h f' l' hft'
      obtain ⟨rfl, rfl⟩ := hft'.unique hft
      by_cases hother : ∃ word t, f' < word ∧ t ≠ l' ∧ ⟨t, word⟩ ∈ hits
      · exact Or.inl hother
      right
      by_cases hf7 : f' = 7
      · exact Or.inl hf7
      right
      by_cases huntouched : ∃ word, f' < word ∧ word < numWord ∧ ∀ t, ⟨t, word⟩ ∉ hits
      · right
        obtain ⟨word, h1, h2, h3⟩ := huntouched
        rcases h.mp ⟨word, h1, h2, Or.inl h3⟩ with h' | h'
        · exact absurd h' hother
        · exact ⟨h'.1, h'.2, word, h1, h2, h3⟩
      · left
        have htouched : ∀ word, f' < word → word < numWord → ∃ t, ⟨t, word⟩ ∈ hits := by
          intro word h1 h2
          by_contra hno
          exact huntouched ⟨word, h1, h2, fun t ht => hno ⟨t, ht⟩⟩
        refine ⟨htouched, fun t ht => ?_⟩
        by_contra hne'
        obtain ⟨t', ht'⟩ := htouched (f' + 1) (by omega) (by simp only [numWord]; omega)
        obtain ⟨word, h1, h2, h3⟩ := h.mpr (Or.inr ⟨⟨t, hne', ht⟩, f' + 1, t', by omega, ht'⟩)
        rcases h3 with h3 | ⟨t'', h4, h5⟩
        · exact huntouched ⟨word, h1, h2, h3⟩
        · exact hother ⟨word, t'', h1, h4, h5⟩
    · intro hseen
      rcases hseen f l hft with hother | hf7 | ⟨htouched, honly⟩ | ⟨hsecond, hlater, hunt⟩
      · refine iff_of_true ?_ (Or.inl hother)
        obtain ⟨word, t, h1, h2, h3⟩ := hother
        exact ⟨word, h1, hword _ h3, Or.inr ⟨t, h2, h3⟩⟩
      · refine iff_of_false ?_ ?_
        · rintro ⟨word, h1, h2, -⟩
          omega
        · rintro (⟨word, t, h1, -, h3⟩ | ⟨-, word, t, h1, h3⟩) <;>
          · have := hword _ h3
            simp only at this
            omega
      · constructor
        · rintro ⟨word, h1, h2, h3 | ⟨t, h4, h5⟩⟩
          · obtain ⟨t, ht⟩ := htouched word h1 h2
            exact absurd ht (h3 t)
          · exact Or.inl ⟨word, t, h1, h4, h5⟩
        · rintro (⟨word, t, h1, h2, h3⟩ | ⟨⟨t, h1, h2⟩, -⟩)
          · exact ⟨word, h1, hword _ h3, Or.inr ⟨t, h2, h3⟩⟩
          · exact absurd (honly t h2) h1
      · refine iff_of_true ?_ (Or.inr ⟨hsecond, hlater⟩)
        obtain ⟨word, h1, h2, h3⟩ := hunt
        exact ⟨word, h1, h2, Or.inl h3⟩

end Rows

/-! ## Runs -/

/-- No page is cleaned, and sampled threads have non-zero indices. -/
def ThreadMisses (_ : List ShadowOp) (_ : Watched) : ShadowOp → Prop
  | .cleanupPages _ _ => False
  | .doMemoryAccess tid _ _ => tid ≠ 0
  | _ => True

/-- The hits of a run are by threads with non-zero indices on one of the
eight words. -/
theorem run_hits {past : List ShadowOp} {w : Watched}
    (h : Run Watched.step ThreadMisses {} past w) :
    ∀ r l, ∀ hit ∈ w.hits r l, hit.tid ≠ 0 ∧ hit.word < 8 := by
  refine h.invariant (fun w => ∀ r l, ∀ hit ∈ w.hits r l, hit.tid ≠ 0 ∧ hit.word < 8)
    (fun _ _ _ hh => by cases hh) fun past w op w' hw hg hs r l hit hhit => ?_
  obtain ⟨mem, -, hw'⟩ := Option.bind_eq_some_iff.mp hs
  obtain rfl := Option.some.inj hw'
  rcases List.mem_append.mp hhit with hold | hnew
  · exact hw r l hit hold
  · cases op with
    | mallocUpdateObject address size => simp [hitOn] at hnew
    | freeUpdateObject address objStat => simp [hitOn] at hnew
    | cleanupPages uintaddr length => exact absurd hg not_false
    | doMemoryAccess tid uintaddr miss =>
        cases miss with
        | false => simp [hitOn] at hnew
        | true =>
            simp only [hitOn] at hnew
            split at hnew
            · obtain rfl := List.mem_singleton.mp hnew
              refine ⟨hg, ?_⟩
              simp only [wordIndexOf, and_cachelineSizeMask, Nat.shiftRight_eq_div_pow]
              omega
            · cases hnew

/-- **Sharing verdicts**: the report on a tracked line with a score is
right exactly when the scan sees the sharing of its misses. -/
theorem sharing_verdict_iff {past : List ShadowOp} {w : Watched}
    (h : Run Watched.step ThreadMisses {} past w) {reports : List LineReport}
    {s' : ShadowMemory} (hprint : w.mem.printCoherencyCaches = some (reports, s'))
    {r l c : Nat} (hl : w.mem.LineAt r l c) (htr : w.mem.tracked r l = true) :
    ∃ i < w.mem.numOfCoherencyCaches, (w.mem.coherencyCaches i).cme = some c
      ∧ ((w.mem.coherencyCaches i).score w.mem.conflictData.totalMisses ≠ 0 →
        (∃ report ∈ reports, report.cme = some c)
        ∧ ∀ report ∈ reports, report.cme = some c →
          (SharingRight (w.hits r l) report ↔ SharingSeen (w.hits r l))) := by
  have hw : Watching w := Watching.run (fun past w op hg => by
    cases op <;> first | exact hg | trivial) h
  refine hw.reported hprint hl htr fun i hi hci => ?_
  have hhits := run_hits h r l
  exact sharing_right_iff (fun hit hh => (hhits hit hh).1) (fun hit hh => (hhits hit hh).2)
    (hw.rows i hi r l c hci hl fun hit hh => (hhits hit hh).1) _

/-- Two threads on the first and the last word of a line. -/
theorem sharing_verdict_two_threads :
    ∃ past w reports s', Run Watched.step ThreadMisses {} past w
      ∧ w.mem.printCoherencyCaches = some (reports, s')
      ∧ ∃ report ∈ reports, report.falseSharing = true ∧ SharingRight (w.hits 1 0) report := by
  let ops : List ShadowOp := .mallocUpdateObject 0x10000000000 64
    :: .doMemoryAccess 2 0x10000000038 true
    :: List.replicate 6 (.doMemoryAccess 1 0x10000000000 true)
    ++ [.doMemoryAccess 2 0x10000000038 true]
  have hrunVals : ((ops.foldlM Watched.step {}).map fun w =>
      (w.mem.table 1 0, w.mem.tracked 1 0, w.hits 1 0)) = some (some 0, true,
        [⟨1, 0⟩, ⟨1, 0⟩, ⟨2, 7⟩]) := by decide +kernel
  have hprintVals : ((ops.foldlM Watched.step {}).bind fun w => w.mem.printCoherencyCaches.map
      fun out => (w.mem.numOfCoherencyCaches,
        (w.mem.coherencyCaches 0).score w.mem.conflictData.totalMisses,
        out.1.map LineReport.falseSharing)) = some (1, 87, [true]) := by decide +kernel
  obtain ⟨w, hw, hvals⟩ := Option.map_eq_some_iff.mp hrunVals
  simp only [Prod.mk.injEq] at hvals
  obtain ⟨htable, htracked, hhits⟩ := hvals
  rw [hw, Option.bind_some] at hprintVals
  obtain ⟨⟨reports, s'⟩, hprint, hvals⟩ := Option.map_eq_some_iff.mp hprintVals
  simp only [Prod.mk.injEq] at hvals
  obtain ⟨hnum, hscore, hfalse⟩ := hvals
  have hrun : Run Watched.step ThreadMisses {} ops w := by
    refine Run.ofFoldlM (fun op hop past t => ?_) hw
    have hall : ∀ op ∈ ops, op = .mallocUpdateObject 0x10000000000 64
        ∨ op = .doMemoryAccess 1 0x10000000000 true
        ∨ op = .doMemoryAccess 2 0x10000000038 true := by decide +kernel
    rcases hall op hop with rfl | rfl | rfl
    · trivial
    · exact Nat.one_ne_zero
    · exact Nat.succ_ne_zero 1
  obtain ⟨i, hi, -, hverdict⟩ := sharing_verdict_iff hrun hprint
    (show w.mem.LineAt 1 0 0 from ⟨0, htable, rfl⟩) htracked
  obtain rfl : i = 0 := by omega
  obtain ⟨⟨report, hrep, hcme⟩, hright⟩ := hverdict (by rw [hscore]; decide)
  have hseen : SharingSeen (w.hits 1 0) := by
    intro f l hft
    rw [hhits] at hft ⊢
    have hf : f = 0 := by
      by_contra hne
      have := hft.2 0 (by omega)
      simp [tidsOn] at this
    have hl : l = 1 := by
      subst hf
      have := hft.1
      simp only [tidsOn] at this
      exact (Option.some.inj this).symm
    subst hf hl
    exact Or.inl ⟨7, 2, by decide, by decide, by decide⟩
  refine ⟨ops, w, reports, s', hrun, hprint, report, hrep, ?_, (hright report hrep hcme).mpr hseen⟩
  have hmem : report.falseSharing ∈ reports.map LineReport.falseSharing :=
    List.mem_map.mpr ⟨report, hrep, rfl⟩
  rw [hfalse] at hmem
  exact List.mem_singleton.mp hmem

/-- Six misses of one thread on one word: the untouched words after it
are taken for false sharing. -/
theorem lone_thread_reported_sharing :
    ¬ ∀ past w reports s' r l c, Run Watched.step ThreadMisses {} past w →
      w.mem.printCoherencyCaches = some (reports, s') → w.mem.LineAt r l c →
      (∀ word, (Slots.arrivals (tidsOn (w.hits r l) word)).length ≤ 16) →
      ∀ report ∈ reports, report.cme = some c → SharingRight (w.hits r l) report := by
  intro hclaim
  let ops : List ShadowOp := .mallocUpdateObject 0x10000000000 64
    :: List.replicate 6 (.doMemoryAccess 1 0x10000000000 true)
  have hrunVals : ((ops.foldlM Watched.step {}).map fun w => (w.mem.table 1 0, w.hits 1 0))
      = some (some 0, [⟨1, 0⟩]) := by decide +kernel
  have hprintVals : ((ops.foldlM Watched.step {}).bind fun w => w.mem.printCoherencyCaches.map
      fun out => out.1.map fun report => (report.cme, report.falseSharing))
      = some [(some 0, true)] := by decide +kernel
  obtain ⟨w, hw, hvals⟩ := Option.map_eq_some_iff.mp hrunVals
  simp only [Prod.mk.injEq] at hvals
  obtain ⟨htable, hhits⟩ := hvals
  rw [hw, Option.bind_some] at hprintVals
  obtain ⟨⟨reports, s'⟩, hprint, hvals⟩ := Option.map_eq_some_iff.mp hprintVals
  have hrun : Run Watched.step ThreadMisses {} ops w := by
    refine Run.ofFoldlM (fun op hop past t => ?_) hw
    rcases List.mem_cons.mp hop with rfl | hop
    · trivial
    · obtain rfl := List.eq_of_mem_replicate hop
      exact Nat.one_ne_zero
  obtain ⟨report, hrep, hreport⟩ : ∃ report ∈ reports,
      (report.cme, report.falseSharing) = (some 0, true) :=
    List.mem_map.mp (by rw [hvals]; exact List.mem_singleton.mpr rfl)
  obtain ⟨hcme, hfalse⟩ := Prod.mk.inj hreport
  have hfew : ∀ word, (Slots.arrivals (tidsOn (w.hits 1 0) word)).length ≤ 16 := by
    intro word
    rw [hhits]
    by_cases hword : word = 0
    · subst hword
      decide
    · rw [tidsOn, List.filter_eq_nil_iff.mpr (by simpa using Ne.symm hword)]
      decide
  have hright := hclaim ops w reports s' 1 0 0 hrun hprint ⟨0, htable, rfl⟩ hfew report hrep hcme
  obtain ⟨w₁, w₂, t₁, t₂, -, hne, h1, h2⟩ := hright.2.mp hfalse
  rw [hhits, List.mem_singleton] at h1 h2
  exact hne ((Hit.mk.inj h1).1.trans (Hit.mk.inj h2).1.symm)

end MemPerf
