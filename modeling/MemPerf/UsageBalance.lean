import MemPerf.UsageLedger

/-!
# The balance of the counters

What the counters of memory say of the tables. The real usage is that of
the objects of the program and of those being freed, the total usage that
of the touched pages, but for what calls in progress owe (`Balance`). Every
step keeps the balance, so it holds in every interleaving
(`usage_ledger`).

A peak is recorded by a thread that has just added its bytes. If no other
thread has pages to add then, the recorded numbers are sound, and the
report of what the memory was used for adds up
(`recorded_waste_adds_up`).
-/

namespace MemPerf.Original

open Word StepSystem PageWalk Coverage InFlight MemPerf.Original.ShadowMemory
open MemPerf.Temp (TotalMemoryUsage)

/-! ## Touched pages -/

namespace FlatShadow

variable {s : FlatShadow} {T : Finset Nat}

/-- The pages that are touched. -/
def Touches (s : FlatShadow) (T : Finset Nat) : Prop := ∀ p, p ∈ T ↔ (s.pages p).touched = true

theorem nodup_regionPages (uintaddr length : Nat) : (regionPages uintaddr length).Nodup := by
  unfold regionPages
  split
  · exact .nil
  · exact List.nodup_range' 1

theorem Touches.updatePages (hT : s.Touches T) (address : Nat) {size : Nat} (isFree : Bool)
    (hsize : 0 < size) :
    ∃ T', (s.updatePages address size isFree).Touches T' ∧ T ⊆ T' ∧
      (isFree = false → ∀ p ∈ regionPages address size, p ∈ T') ∧
      T'.card = T.card + s.newPages isFree (regionPages address size) := by
  cases isFree with
  | true =>
      refine ⟨T, fun p => ?_, Finset.Subset.refl T, fun h => absurd h (by decide), rfl⟩
      rw [s.updatePages_touched hsize, hT p]
      simp
  | false =>
      have hnew : s.newPages false (regionPages address size)
          = ((regionPages address size).toFinset \ T).card := by
        rw [newPages, if_neg (by decide), List.countP_eq_length_filter,
          ← List.toFinset_card_of_nodup ((nodup_regionPages address size).filter _)]
        congr 1
        ext p
        simp [hT p]
      refine ⟨T ∪ (regionPages address size).toFinset, fun p => ?_, Finset.subset_union_left,
        fun _ p hp => ?_, ?_⟩
      · rw [s.updatePages_touched hsize, Finset.mem_union, hT p, List.mem_toFinset]
        simp
      · exact Finset.mem_union_right _ (List.mem_toFinset.mpr hp)
      · rw [hnew, Finset.union_comm, ← Finset.card_sdiff_add_card, Nat.add_comm]

theorem Touches.cleanupPages (hT : s.Touches T) (uintaddr length : Nat) :
    ∃ T', (s.cleanupPages (regionPages uintaddr length)).Touches T' ∧
      (∀ p ∈ T, p ∉ regionPages uintaddr length → p ∈ T') ∧
      T'.card + s.touchedPages (regionPages uintaddr length) = T.card := by
  have hcount : s.touchedPages (regionPages uintaddr length)
      = ((regionPages uintaddr length).toFinset ∩ T).card := by
    rw [touchedPages, List.countP_eq_length_filter,
      ← List.toFinset_card_of_nodup ((nodup_regionPages uintaddr length).filter _)]
    congr 1
    ext p
    simp [hT p]
  refine ⟨T \ (regionPages uintaddr length).toFinset, fun p => ?_, fun p hp hout => ?_, ?_⟩
  · rw [Finset.mem_sdiff, List.mem_toFinset, hT p]
    unfold FlatShadow.cleanupPages
    simp only
    split
    · next hclean => simp [hclean.1]
    · next hkeep =>
        rw [not_and] at hkeep
        constructor
        · exact fun h => h.1
        · exact fun h => ⟨h, fun hmem => hkeep hmem h⟩
  · exact Finset.mem_sdiff.mpr ⟨hp, fun hmem => hout (List.mem_toFinset.mp hmem)⟩
  · rw [hcount, Finset.inter_comm, Finset.card_sdiff_add_card_inter]

theorem newPages_le (isFree : Bool) (pages : List Nat) :
    s.newPages isFree pages ≤ pages.length := by
  unfold newPages
  split
  · exact Nat.zero_le _
  · exact List.countP_le_length

end FlatShadow

/-- The tables have room for `2 ^ 32` pages. -/
theorem ShadowMemory.Laid.card_touched_le {s : ShadowMemory} {T : Finset Nat} (hs : s.Laid)
    (hT : s.flatten.Touches T) : T.card ≤ 2 ^ 32 := by
  have hentry : ∀ p ∈ T, ∃ e, s.entryOf p = some e := by
    intro p hp
    have htouched := (hT p).mp hp
    cases he : s.entryOf p with
    | some e => exact ⟨e, rfl⟩
    | none => simp [flatten, he] at htouched
  have hcard : T.card ≤ (Finset.range s.pageMapBumpPtr).card := by
    refine Finset.card_le_card_of_injOn (fun p => (s.entryOf p).getD 0) ?_ ?_
    · intro p hp
      obtain ⟨e, he⟩ := hentry p hp
      have hbelow := hs.entryOf_below he
      simp only [he, Option.getD_some, Finset.coe_range, Set.mem_Iio]
      exact hbelow
    · intro p hp q hq heq
      obtain ⟨e, he⟩ := hentry p hp
      obtain ⟨e', he'⟩ := hentry q hq
      simp only [he, he', Option.getD_some] at heq
      exact hs.entryOf_inj he (heq ▸ he')
  rw [Finset.card_range] at hcard
  have hlt := hs.bump_lt
  simp only [maxPageMapEntries, oneGb] at hlt
  omega

/-! ## The balance -/

/-- All pages of the object are among these. -/
def OnTouched (T : Finset Nat) (o : Span) : Prop := ∀ a, o.Covers a → a / 4096 ∈ T

/-- The counters against the tables, with what the calls in progress owe. -/
structure Balance (n : Nat) (s : Profiler) (T : Finset Nat) : Prop where
  touches : s.shadow.flatten.Touches T
  touched : ∀ o ∈ s.objects ++ gather n Phase.touching s.phase, OnTouched T o
  bytes : ∀ t < n, (s.phase t).newBytes ≤ 2 ^ 32 ∧ (s.phase t).cleanedBytes ≤ 2 ^ 32
  real : s.usage.globalMemoryUsage.realMemoryUsage =
    ((s.objects.map Span.len).sum : Int) + owed n Phase.freedBytes s.phase
  total : s.usage.globalMemoryUsage.totalMemoryUsage =
    4096 * (T.card : Int) + owed n Phase.cleanedBytes s.phase - owed n Phase.newBytes s.phase

section balance

variable {n t : Nat} {s s' : Profiler} {T : Finset Nat}

/-- The objects in use whose pages are touched fit into these. -/
theorem Ledger.real_le (h : Ledger n s)
    (htouched : ∀ o ∈ s.objects ++ gather n Phase.touching s.phase, ∀ a, o.Covers a →
      a / 4096 ∈ T) :
    ((s.objects.map Span.len).sum : Int) + owed n Phase.freedBytes s.phase
      ≤ 4096 * (T.card : Int) := by
  have hsub : (s.objects ++ gather n Phase.touching s.phase).Sublist (s.inUse n) :=
    (List.Sublist.refl _).append (gather_sublist s.phase Phase.touching_sublist)
  have hsum := sum_len_le (by decide) (h.apart.sublist hsub) htouched
  have hfreed := owed_mono (n := n) s.phase Phase.freedBytes_le
  rw [owed_sum s.phase Phase.touching] at hfreed
  rw [List.map_append, List.sum_append] at hsum
  omega

/-- Nothing overflows. -/
theorem Ledger.range (h : Ledger n s) (hn : n ≤ Temp.maxThreadNumber)
    (htouches : s.shadow.flatten.Touches T)
    (htouched : ∀ o ∈ s.objects ++ gather n Phase.touching s.phase, OnTouched T o)
    (hbytes : ∀ t < n, (s.phase t).newBytes ≤ 2 ^ 32 ∧ (s.phase t).cleanedBytes ≤ 2 ^ 32) :
    swrap 64 (((s.objects.map Span.len).sum : Int) + owed n Phase.freedBytes s.phase) =
        ((s.objects.map Span.len).sum : Int) + owed n Phase.freedBytes s.phase
      ∧ swrap 64 (4096 * (T.card : Int) + owed n Phase.cleanedBytes s.phase
          - owed n Phase.newBytes s.phase) =
        4096 * (T.card : Int) + owed n Phase.cleanedBytes s.phase
          - owed n Phase.newBytes s.phase := by
  have hcard := (countsLive_of_run h.shadowRun).1.card_touched_le htouches
  have hreal := h.real_le htouched
  have hfreed := owed_nonneg (n := n) s.phase Phase.freedBytes_nonneg
  have hnew := owed_nonneg (n := n) s.phase Phase.newBytes_nonneg
  have hcleaned := owed_nonneg (n := n) s.phase Phase.cleanedBytes_nonneg
  have hnew' := owed_le s.phase fun t ht => (hbytes t ht).1
  have hcleaned' := owed_le s.phase fun t ht => (hbytes t ht).2
  simp only [Temp.maxThreadNumber] at hn
  refine ⟨TotalMemoryUsage.swrap_eq ?_ ?_, TotalMemoryUsage.swrap_eq ?_ ?_⟩
  · omega
  · omega
  · omega
  · omega

/-- Objects whose pages stay touched, when thread `t` goes on. -/
theorem touched_update {T' : Finset Nat} {L : List Span} {x : Phase} (ht : t < n)
    (hkeep : ∀ o ∈ s.objects ++ gather n Phase.touching s.phase, OnTouched T' o)
    (hL : ∀ o ∈ L, o ∈ s.objects ∨ o ∈ (s.phase t).touching)
    (hx : ∀ o ∈ x.touching, o ∈ s.objects ∨ o ∈ (s.phase t).touching ∨ OnTouched T' o) :
    ∀ o ∈ L ++ gather n Phase.touching (Function.update s.phase t x), OnTouched T' o := by
  have hobject : ∀ o ∈ s.objects, OnTouched T' o := fun o ho =>
    hkeep o (List.mem_append_left _ ho)
  have hcall : ∀ o ∈ (s.phase t).touching, OnTouched T' o := fun o ho =>
    hkeep o (List.mem_append_right _ ((mem_gather Phase.touching s.phase).mpr ⟨t, ht, ho⟩))
  intro o ho
  rcases List.mem_append.mp ho with ho | ho
  · exact (hL o ho).elim (hobject o) (hcall o)
  · have hsplit := (gather_update Phase.touching s.phase ht x).mem_iff.mp ho
    rcases List.mem_append.mp hsplit with ho | ho
    · exact (hx o ho).elim (hobject o) fun h => h.elim (hcall o) id
    · exact hkeep o (List.mem_append_right _ (others_subset_gather Phase.touching s.phase ho))

theorem zero_le_bytes : (0 : Int) ≤ 2 ^ 32 := by decide

/-- The bytes a call owes are those of a 32-bit number. -/
theorem bytes_update {x : Phase}
    (hbytes : ∀ t < n, (s.phase t).newBytes ≤ 2 ^ 32 ∧ (s.phase t).cleanedBytes ≤ 2 ^ 32)
    (hx : x.newBytes ≤ 2 ^ 32 ∧ x.cleanedBytes ≤ 2 ^ 32) :
    ∀ t' < n, (Function.update s.phase t x t').newBytes ≤ 2 ^ 32
      ∧ (Function.update s.phase t x t').cleanedBytes ≤ 2 ^ 32 := by
  intro t' ht'
  by_cases heq : t' = t
  · subst heq
    rw [Function.update_self]
    exact hx
  · rw [Function.update_of_ne heq]
    exact hbytes t' ht'

theorem Balance.allocation (hb : Balance n s T) (ht : t < n) {address size : Nat}
    (hphase : s.phase t = .idle) :
    Balance n (s.updateMemoryStatusAfterAllocation t address size) T where
  touches := hb.touches
  touched := touched_update ht hb.touched (fun o ho => .inl ho) fun o ho =>
    absurd ho List.not_mem_nil
  bytes := bytes_update hb.bytes ⟨zero_le_bytes, zero_le_bytes⟩
  real := by
    show _ = _ + owed n Phase.freedBytes (Function.update s.phase t _)
    rw [owed_update _ _ ht, hphase]
    simp only [Phase.freedBytes, Int.sub_zero, Int.add_zero]
    exact hb.real
  total := by
    show _ = _ + owed n _ (Function.update s.phase t _) - owed n _ (Function.update s.phase t _)
    rw [owed_update _ _ ht, owed_update _ _ ht, hphase]
    simp only [Phase.newBytes, Phase.cleanedBytes, Int.sub_zero, Int.add_zero]
    exact hb.total

theorem Balance.free (hb : Balance n s T) (ht : t < n) {address size : Nat}
    (hphase : s.phase t = .idle) (ho : ⟨address, size⟩ ∈ s.objects)
    {objStatusMap : Nat → Option ObjectStatus} :
    Balance n { s.goto t (.object address size true) with
      objStatusMap
      objects := s.objects.erase ⟨address, size⟩ } T where
  touches := hb.touches
  touched := by
    refine touched_update ht hb.touched (fun o ho' => .inl (List.mem_of_mem_erase ho')) ?_
    intro o ho'
    exact .inl (List.mem_singleton.mp ho' ▸ ho)
  bytes := bytes_update hb.bytes ⟨zero_le_bytes, zero_le_bytes⟩
  real := by
    have hsum := ((List.perm_cons_erase ho).map Span.len).sum_eq
    simp only [List.map_cons, List.sum_cons] at hsum
    have hreal := hb.real
    show _ = (((s.objects.erase _).map Span.len).sum : Int)
      + owed n Phase.freedBytes (Function.update s.phase t _)
    rw [owed_update _ _ ht, hphase]
    simp only [Phase.freedBytes]
    show s.usage.globalMemoryUsage.realMemoryUsage = _
    omega
  total := by
    show _ = _ + owed n _ (Function.update s.phase t _) - owed n _ (Function.update s.phase t _)
    rw [owed_update _ _ ht, owed_update _ _ ht, hphase]
    simp only [Phase.newBytes, Phase.cleanedBytes, Int.sub_zero, Int.add_zero]
    exact hb.total

theorem cleanupPages_lt {s : ShadowMemory} {uintaddr length r : Nat} {w : PageWalk}
    (h : s.cleanupPages uintaddr length = some (r, w)) : r < 2 ^ 32 := by
  obtain ⟨⟨q, table⟩, -, h⟩ := Option.bind_eq_some_iff.mp h
  obtain ⟨w', -, h⟩ := Option.bind_eq_some_iff.mp h
  cases h
  exact wrap_lt 32 _

theorem Balance.cleanup (hb : Balance n s T) (h : Ledger n s) (ht : t < n)
    {uintaddr length cleanedPageSize : Nat} {w : PageWalk} (hphase : s.phase t = .idle)
    (hw : s.shadow.cleanupPages uintaddr length = some (cleanedPageSize, w))
    (hproper : Proper s.shadow (.cleanupPages uintaddr length))
    (hunused : Unused (s.inUse n) uintaddr length) :
    ∃ T', Balance n { s.goto t (.cleaned cleanedPageSize) with
      shadow := w.shadow
      trace := s.trace ++ [.cleanupPages uintaddr length] } T' := by
  obtain ⟨-, hflat, hr⟩ :=
    cleanupPages_flat (countsLive_of_run h.shadowRun).1 hproper.1 hproper.2 hw
  obtain ⟨T', hT', hkeep, hcard⟩ := hb.touches.cleanupPages uintaddr length
  have hinUse : ∀ o ∈ s.objects ++ gather n Phase.touching s.phase, o ∈ s.inUse n :=
    ((List.Sublist.refl _).append (gather_sublist s.phase Phase.touching_sublist)).subset
  refine ⟨T', ⟨hflat ▸ hT', touched_update ht (fun o ho a hcov => ?_) (fun o ho => .inl ho)
    (fun o ho => absurd ho List.not_mem_nil), bytes_update hb.bytes ⟨zero_le_bytes, ?_⟩, ?_, ?_⟩⟩
  · exact hkeep _ (hb.touched o ho a hcov) (hunused o (hinUse o ho) a hcov)
  · have hlt := cleanupPages_lt hw
    show (cleanedPageSize : Int) ≤ 2 ^ 32
    omega
  · show _ = _ + owed n Phase.freedBytes (Function.update s.phase t _)
    rw [owed_update _ _ ht, hphase]
    simp only [Phase.freedBytes, Int.sub_zero, Int.add_zero]
    exact hb.real
  · have htotal := hb.total
    show s.usage.globalMemoryUsage.totalMemoryUsage = _ + owed n _ (Function.update s.phase t _)
      - owed n _ (Function.update s.phase t _)
    rw [owed_update _ _ ht, owed_update _ _ ht, hphase]
    simp only [Phase.newBytes, Phase.cleanedBytes]
    omega

/-- An object has fewer than `2 ^ 20` pages. -/
theorem newPages_lt (f : FlatShadow) (isFree : Bool) (address : Nat) {size : Nat}
    (hsize : 0 < size) (hlarge : size + 8192 ≤ 2 ^ 32) :
    f.newPages isFree (regionPages address size) < 2 ^ 20 := by
  have hle := f.newPages_le isFree (regionPages address size)
  rw [length_regionPages, if_neg (Nat.ne_of_gt hsize)] at hle
  omega

theorem Balance.updatePages (hb : Balance n s T) (h : Ledger n s) (ht : t < n)
    {address size : Nat} {isFree : Bool} {w : PageWalk}
    (hphase : s.phase t = .object address size isFree)
    (hw : s.shadow.updatePages address (megaIndexOf address) (pageIndexOf address) size isFree
      = some w) :
    ∃ T', Balance n { s.goto t (.lines address size isFree (wrap 32 (w.numPages * pagesize))) with
      shadow := w.shadow
      trace := s.trace ++ [.updatePages address size isFree] } T' := by
  obtain ⟨-, hsize, hlarge⟩ := h.some_bytes ht hphase
  obtain ⟨-, hflat, hnum⟩ := updatePages_flat (countsLive_of_run h.shadowRun).1 hsize hw
  obtain ⟨T', hT', hsub, hnew, hcard⟩ := hb.touches.updatePages address isFree hsize
  have hfew := newPages_lt s.shadow.flatten isFree address hsize hlarge
  have hbytes : wrap 32 (w.numPages * pagesize)
      = 4096 * s.shadow.flatten.newPages isFree (regionPages address size) := by
    have hsame := hnum.trans (wrap_of_lt (hfew.trans (by decide)))
    rw [hsame, pagesize, wrap_of_lt (by omega), Nat.mul_comm]
  refine ⟨T', ⟨hflat ▸ hT', touched_update ht (fun o ho a hcov => ?_) (fun o ho => .inl ho)
    (fun o ho => ?_), bytes_update hb.bytes ?_, ?_, ?_⟩⟩
  · exact hsub (hb.touched o ho a hcov)
  · obtain rfl := List.mem_singleton.mp ho
    cases isFree with
    | true =>
        rw [hphase]
        exact .inr (.inl (List.mem_singleton_self _))
    | false =>
        exact .inr (.inr fun a hcov => hnew rfl _ (mem_regionPages.mpr ⟨a, hcov.1, hcov.2, rfl⟩))
  · have hlt := wrap_lt 32 (w.numPages * pagesize)
    cases isFree with
    | true => exact ⟨zero_le_bytes, zero_le_bytes⟩
    | false =>
        refine ⟨?_, zero_le_bytes⟩
        show ((wrap 32 (w.numPages * pagesize) : Nat) : Int) ≤ 2 ^ 32
        omega
  · have hreal := hb.real
    show s.usage.globalMemoryUsage.realMemoryUsage = ((s.objects.map Span.len).sum : Int)
      + owed n Phase.freedBytes (Function.update s.phase t _)
    rw [owed_update _ _ ht, hphase]
    cases isFree <;> simp only [Phase.freedBytes] <;> omega
  · have htotal := hb.total
    show s.usage.globalMemoryUsage.totalMemoryUsage = _ + owed n _ (Function.update s.phase t _)
      - owed n _ (Function.update s.phase t _)
    rw [owed_update _ _ ht, owed_update _ _ ht, hphase, hbytes]
    cases isFree with
    | true =>
        have hnone : s.shadow.flatten.newPages true (regionPages address size) = 0 := rfl
        simp only [Phase.newBytes, Phase.cleanedBytes]
        omega
    | false =>
        simp only [Phase.newBytes, Phase.cleanedBytes]
        push_cast
        omega

theorem Balance.updateCacheLines (hb : Balance n s T) (h : Ledger n s) (ht : t < n)
    {address size bytes : Nat} {isFree : Bool} {w : PageWalk}
    (hphase : s.phase t = .lines address size isFree bytes)
    (hw : s.shadow.updateCacheLines t (megaIndexOf address) (pageIndexOf address)
      (cacheIndexOf address) (address &&& cachelineSizeMask) size isFree = some w) :
    Balance n { s.goto t (.counters address size isFree bytes) with
      shadow := w.shadow
      trace := s.trace ++ [.updateCacheLines t address size isFree] } T := by
  obtain ⟨-, hflat⟩ := updateCacheLines_flat (countsLive_of_run h.shadowRun).1 hw
  have hold := hb.bytes t ht
  rw [hphase] at hold
  refine ⟨fun p => ?_, touched_update ht hb.touched (fun o ho => .inl ho) (fun o ho => ?_),
    bytes_update hb.bytes ?_, ?_, ?_⟩
  · show p ∈ T ↔ (w.shadow.flatten.pages p).touched = true
    rw [hflat]
    exact hb.touches p
  · rw [hphase]
    exact .inr (.inl ho)
  · cases isFree <;> exact hold
  · have hreal := hb.real
    show s.usage.globalMemoryUsage.realMemoryUsage = ((s.objects.map Span.len).sum : Int)
      + owed n Phase.freedBytes (Function.update s.phase t _)
    rw [owed_update _ _ ht, hphase]
    cases isFree <;> simp only [Phase.freedBytes] <;> omega
  · have htotal := hb.total
    show s.usage.globalMemoryUsage.totalMemoryUsage = _ + owed n _ (Function.update s.phase t _)
      - owed n _ (Function.update s.phase t _)
    rw [owed_update _ _ ht, owed_update _ _ ht, hphase]
    cases isFree <;> simp only [Phase.newBytes, Phase.cleanedBytes] <;> omega

theorem addToMemoryUsage_global (u : MemoryUsage) (thread size newTouchePageBytes : Nat)
    (tryLock : Bool) :
    (u.addToMemoryUsage thread size newTouchePageBytes tryLock).globalMemoryUsage =
      u.globalMemoryUsage.add size newTouchePageBytes := by
  unfold MemoryUsage.addToMemoryUsage
  simp only
  split <;> rfl

/-- The counters of a state that has everything else. -/
theorem Balance.of_counters (h : Ledger n s') (hn : n ≤ Temp.maxThreadNumber)
    (htouches : s'.shadow.flatten.Touches T)
    (htouched : ∀ o ∈ s'.objects ++ gather n Phase.touching s'.phase, OnTouched T o)
    (hbytes : ∀ t < n, (s'.phase t).newBytes ≤ 2 ^ 32 ∧ (s'.phase t).cleanedBytes ≤ 2 ^ 32)
    (hreal : s'.usage.globalMemoryUsage.realMemoryUsage =
      swrap 64 (((s'.objects.map Span.len).sum : Int) + owed n Phase.freedBytes s'.phase))
    (htotal : s'.usage.globalMemoryUsage.totalMemoryUsage =
      swrap 64 (4096 * (T.card : Int) + owed n Phase.cleanedBytes s'.phase
        - owed n Phase.newBytes s'.phase)) : Balance n s' T := by
  obtain ⟨hr, ht⟩ := h.range hn htouches htouched hbytes
  exact ⟨htouches, htouched, hbytes, hreal.trans hr, htotal.trans ht⟩

theorem Balance.updateCounters (hb : Balance n s T) (h : Ledger n s) (hn : n ≤ Temp.maxThreadNumber)
    (ht : t < n) {address size bytes : Nat} {isFree tryLock : Bool}
    (hphase : s.phase t = .counters address size isFree bytes) :
    Balance n (s.updateCounters t address size isFree bytes tryLock) T := by
  have hafter : Ledger n (s.updateCounters t address size isFree bytes tryLock) :=
    h.updateCounters ht hphase
  have hreal := hb.real
  have htotal := hb.total
  cases isFree with
  | true =>
      refine .of_counters hafter hn hb.touches ?_ ?_ ?_ ?_
      · exact touched_update ht hb.touched (fun o ho => .inl ho) fun o ho =>
          absurd ho List.not_mem_nil
      · exact bytes_update hb.bytes ⟨zero_le_bytes, zero_le_bytes⟩
      · show swrap 64 (s.usage.globalMemoryUsage.realMemoryUsage - size)
          = swrap 64 (((s.objects.map Span.len).sum : Int)
            + owed n Phase.freedBytes (Function.update s.phase t .idle))
        rw [owed_update _ _ ht, hphase, hreal]
        simp only [Phase.freedBytes]
        congr 1
        omega
      · obtain ⟨-, hrange⟩ := h.range hn hb.touches hb.touched hb.bytes
        show s.usage.globalMemoryUsage.totalMemoryUsage = swrap 64 (4096 * (T.card : Int)
          + owed n Phase.cleanedBytes (Function.update s.phase t .idle)
          - owed n Phase.newBytes (Function.update s.phase t .idle))
        rw [owed_update _ _ ht, owed_update _ _ ht, hphase]
        simp only [Phase.newBytes, Phase.cleanedBytes, Int.sub_zero, Int.add_zero]
        exact htotal.trans hrange.symm
  | false =>
      refine .of_counters hafter hn hb.touches ?_ ?_ ?_ ?_
      · refine touched_update ht hb.touched (fun o ho => ?_) fun o ho => absurd ho List.not_mem_nil
        rcases List.mem_cons.mp ho with rfl | ho
        · rw [hphase]
          exact .inr (List.mem_singleton_self _)
        · exact .inl ho
      · exact bytes_update hb.bytes ⟨zero_le_bytes, zero_le_bytes⟩
      · show (s.usage.addToMemoryUsage t size bytes tryLock).globalMemoryUsage.realMemoryUsage
          = swrap 64 ((((⟨address, size⟩ :: s.objects).map Span.len).sum : Nat)
            + owed n Phase.freedBytes (Function.update s.phase t .idle))
        rw [addToMemoryUsage_global, owed_update _ _ ht, hphase, TotalMemoryUsage.add, hreal]
        simp only [Phase.freedBytes, List.map_cons, List.sum_cons]
        congr 1
        push_cast
        omega
      · show (s.usage.addToMemoryUsage t size bytes tryLock).globalMemoryUsage.totalMemoryUsage
          = swrap 64 (4096 * (T.card : Int)
            + owed n Phase.cleanedBytes (Function.update s.phase t .idle)
            - owed n Phase.newBytes (Function.update s.phase t .idle))
        rw [addToMemoryUsage_global, owed_update _ _ ht, owed_update _ _ ht, hphase,
          TotalMemoryUsage.add, htotal]
        simp only [Phase.newBytes, Phase.cleanedBytes]
        congr 1
        omega

theorem Balance.cleaned (hb : Balance n s T) (h : Ledger n s) (hn : n ≤ Temp.maxThreadNumber)
    (ht : t < n) {cleanedPageSize : Nat} (hphase : s.phase t = .cleaned cleanedPageSize) :
    Balance n { s.goto t .idle with
      usage := s.usage.subTotalSizeFromMemoryUsage t cleanedPageSize } T := by
  refine .of_counters (h.cleaned ht hphase) hn hb.touches ?_ ?_ ?_ ?_
  · exact touched_update ht hb.touched (fun o ho => .inl ho) fun o ho => absurd ho List.not_mem_nil
  · exact bytes_update hb.bytes ⟨zero_le_bytes, zero_le_bytes⟩
  · obtain ⟨hrange, -⟩ := h.range hn hb.touches hb.touched hb.bytes
    show s.usage.globalMemoryUsage.realMemoryUsage = swrap 64 (((s.objects.map Span.len).sum : Int)
      + owed n Phase.freedBytes (Function.update s.phase t .idle))
    rw [owed_update _ _ ht, hphase]
    simp only [Phase.freedBytes, Int.sub_zero, Int.add_zero]
    exact hb.real.trans hrange.symm
  · have htotal := hb.total
    show swrap 64 (s.usage.globalMemoryUsage.totalMemoryUsage - cleanedPageSize)
      = swrap 64 (4096 * (T.card : Int)
        + owed n Phase.cleanedBytes (Function.update s.phase t .idle)
        - owed n Phase.newBytes (Function.update s.phase t .idle))
    rw [owed_update _ _ ht, owed_update _ _ ht, hphase, htotal]
    simp only [Phase.newBytes, Phase.cleanedBytes]
    congr 1
    omega

theorem Balance.step {a : Action} (hb : Balance n s T) (h : Ledger n s)
    (hn : n ≤ Temp.maxThreadNumber) (hgo : s.Goes t a s') (hpermit : CallPermitted n s (t, a)) :
    ∃ T', Balance n s' T' := by
  obtain ⟨ht, hpermit⟩ := hpermit
  cases hgo with
  | allocation hphase => exact ⟨T, hb.allocation ht hphase⟩
  | unknown hphase hsize => exact ⟨T, hb.touches, hb.touched, hb.bytes, hb.real, hb.total⟩
  | free hphase hstatus hsize => exact ⟨T, hb.free ht hphase (h.free_mem hstatus hpermit)⟩
  | cleanup hphase hw => exact hb.cleanup h ht hphase hw hpermit.1 hpermit.2
  | nothing hphase hnone =>
      obtain ⟨hstart, hsize, -⟩ := h.some_bytes ht hphase
      omega
  | pages hphase hw => exact hb.updatePages h ht hphase hw
  | lines hphase hw => exact ⟨T, hb.updateCacheLines h ht hphase hw⟩
  | counters hphase => exact ⟨T, hb.updateCounters h hn ht hphase⟩
  | cleaned hphase => exact ⟨T, hb.cleaned h hn ht hphase⟩

theorem balance_init : Balance n {} ∅ where
  touches p := by
    show p ∈ ∅ ↔ false = true
    simp
  touched o ho := by
    rw [gather_eq_nil _ _ fun _ => rfl] at ho
    exact absurd ho List.not_mem_nil
  bytes t _ := ⟨zero_le_bytes, zero_le_bytes⟩
  real := by simp [owed, Phase.freedBytes]
  total := by simp [owed, Phase.newBytes, Phase.cleanedBytes]

end balance

/-! ## Every interleaving -/

section run

variable {n : Nat} {past : List (Nat × Action)} {s : Profiler}

theorem balance_of_run (hn : n ≤ Temp.maxThreadNumber)
    (h : Run Profiler.step (fun _ s i => CallPermitted n s i) {} past s) :
    Ledger n s ∧ ∃ T, Balance n s T := by
  refine h.invariant (fun s => Ledger n s ∧ ∃ T, Balance n s T)
    ⟨ledger_init, ∅, balance_init⟩ ?_
  rintro past s ⟨t, a⟩ s' ⟨hl, T, hb⟩ hpermit hstep
  have hgo := Profiler.goes_of_step hstep
  exact ⟨hl.step hgo hpermit, hb.step hl hn hgo hpermit⟩

/-- **The counters are the tables' account**, up to what the calls in
progress have still to do: the real usage is the bytes of the objects that
the program holds or is about to have freed, the total usage 4096 for each
touched page, less the new pages not yet added, plus the cleaned ones not
yet subtracted. What is asked for is more than the total by no more than
these new pages, and not at all when no call is in progress. -/
theorem usage_ledger (hn : n ≤ Temp.maxThreadNumber)
    (h : Run Profiler.step (fun _ s i => CallPermitted n s i) {} past s) :
    let global := s.usage.globalMemoryUsage
    (∃ T : Finset Nat,
      (∀ p, p ∈ T ↔ ∃ e, s.shadow.entryOf p = some e ∧ (s.shadow.pageMap e).touched = true)
      ∧ global.totalMemoryUsage = 4096 * (T.card : Int) + owed n Phase.cleanedBytes s.phase
        - owed n Phase.newBytes s.phase)
    ∧ global.realMemoryUsage = ((s.objects.map Span.len).sum : Int)
      + owed n Phase.freedBytes s.phase
    ∧ global.realMemoryUsage ≤ global.totalMemoryUsage + owed n Phase.newBytes s.phase
    ∧ ((∀ t < n, s.phase t = .idle) → global.realMemoryUsage ≤ global.totalMemoryUsage) := by
  obtain ⟨hl, T, hb⟩ := balance_of_run hn h
  have hle := hl.real_le hb.touched
  have hreal := hb.real
  have htotal := hb.total
  have hcleaned := owed_nonneg (n := n) s.phase Phase.cleanedBytes_nonneg
  have hbound : s.usage.globalMemoryUsage.realMemoryUsage
      ≤ s.usage.globalMemoryUsage.totalMemoryUsage + owed n Phase.newBytes s.phase := by omega
  refine ⟨⟨T, fun p => ?_, htotal⟩, hreal, hbound, fun hidle => ?_⟩
  · rw [hb.touches p]
    cases he : s.shadow.entryOf p with
    | some e => simp [flatten_page he]
    | none => simp [flatten, he]
  · have hnone : owed n Phase.newBytes s.phase = 0 := by
      refine Finset.sum_eq_zero fun t ht => ?_
      rw [hidle t (Finset.mem_range.mp ht)]
      rfl
    omega

end run

/-- Two threads allocate at the same time; the second object lies on a page
that the first one has touched. -/
def twoAllocations : List (Nat × Action) :=
  [(0, .allocation 0x4ff000 8192), (1, .allocation 0x501000 64), (0, .next true), (1, .next true),
    (1, .next true), (0, .next true), (1, .next true), (0, .next true)]

theorem twoAllocations_run : ∃ s, Run Profiler.step (fun _ s i => CallPermitted 2 s i) {}
    twoAllocations s ∧ s.phase 0 = .idle ∧ s.phase 1 = .idle := by
  have hvals : (twoAllocations.foldlM Profiler.step {}).map (fun s => (s.phase 0, s.phase 1))
      = some (.idle, .idle) := by decide +kernel
  obtain ⟨s, hs, hvals⟩ := Option.map_eq_some_iff.mp hvals
  obtain ⟨h0, h1⟩ := Prod.mk.inj hvals
  have hnone : ({} : Profiler).inUse 2 = [] := rfl
  have hone : (({} : Profiler).updateMemoryStatusAfterAllocation 0 0x4ff000 8192).inUse 2
      = [⟨0x4ff000, 8192⟩] := rfl
  simp only [twoAllocations, List.foldlM_cons, List.foldlM_nil, Option.bind_eq_bind,
    Option.bind_eq_some_iff, Option.pure_def, Option.some.injEq] at hs
  obtain ⟨s₁, e₁, s₂, e₂, s₃, e₃, s₄, e₄, s₅, e₅, s₆, e₆, s₇, e₇, s₈, e₈, rfl⟩ := hs
  have hfirst : CallPermitted 2 {} (0, .allocation 0x4ff000 8192) := by
    refine ⟨by decide, by decide, by decide, by decide, fun o ho => ?_⟩
    rw [hnone] at ho
    exact absurd ho List.not_mem_nil
  have hsecond : CallPermitted 2 s₁ (1, .allocation 0x501000 64) := by
    refine ⟨by decide, by decide, by decide, by decide, fun o ho => ?_⟩
    obtain rfl := Option.some.inj e₁
    rw [hone] at ho
    obtain rfl := List.mem_singleton.mp ho
    intro a ha ha'
    simp only [Span.Covers] at ha ha'
    omega
  have hnext : ∀ s t, t < 2 → CallPermitted 2 s (t, .next true) := fun s t ht => ⟨ht, trivial⟩
  have hrun : Run Profiler.step (fun _ s i => CallPermitted 2 s i) {} twoAllocations s₈ :=
    (((((((Run.nil.snoc hfirst e₁).snoc hsecond e₂).snoc (hnext _ 0 (by decide)) e₃).snoc
      (hnext _ 1 (by decide)) e₄).snoc (hnext _ 1 (by decide)) e₅).snoc
      (hnext _ 0 (by decide)) e₆).snoc (hnext _ 1 (by decide)) e₇).snoc (hnext _ 0 (by decide)) e₈
  exact ⟨s₈, hrun, h0, h1⟩

theorem usage_ledger_two_allocations : ∃ s,
    Run Profiler.step (fun _ s i => CallPermitted 2 s i) {} twoAllocations s
    ∧ s.usage.globalMemoryUsage.realMemoryUsage ≤ s.usage.globalMemoryUsage.totalMemoryUsage := by
  obtain ⟨s, hrun, h0, h1⟩ := twoAllocations_run
  refine ⟨s, hrun, (usage_ledger (by decide) hrun).2.2.2 fun t ht => ?_⟩
  obtain rfl | rfl : t = 0 ∨ t = 1 := by omega
  · exact h0
  · exact h1

/-! ## The recorded peak -/

/-- A peak is recorded only when no other thread has new pages that are not
yet added. -/
def RecordsAlone (n : Nat) (s : Profiler) : Nat × Action → Prop
  | (thread, .next true) => ∀ t < n, t ≠ thread → (s.phase t).newBytes = 0
  | _ => True

/-- Both parts are numbers, and no more is asked for than is touched. -/
def SoundUsage (u : TotalMemoryUsage) : Prop :=
  u.Nonneg ∧ u.realMemoryUsage ≤ u.totalMemoryUsage

section peak

variable {n t : Nat} {s s' : Profiler} {T : Finset Nat}

theorem Balance.sound (hb : Balance n s T) (h : Ledger n s) (hn : n ≤ Temp.maxThreadNumber)
    (hnew : owed n Phase.newBytes s.phase = 0) : SoundUsage s.usage.globalMemoryUsage := by
  have hcard := (countsLive_of_run h.shadowRun).1.card_touched_le hb.touches
  have hle := h.real_le hb.touched
  have hreal := hb.real
  have htotal := hb.total
  have hfreed := owed_nonneg (n := n) s.phase Phase.freedBytes_nonneg
  have hcleaned := owed_nonneg (n := n) s.phase Phase.cleanedBytes_nonneg
  have hcleaned' := owed_le s.phase fun t ht => (hb.bytes t ht).2
  simp only [Temp.maxThreadNumber] at hn
  refine ⟨⟨?_, ?_, ⟨?_, ?_⟩, ?_, ?_⟩, ?_⟩
  all_goals omega

theorem addToMemoryUsage_peak (u : MemoryUsage) (thread size newTouchePageBytes : Nat)
    (tryLock : Bool) :
    let u' := u.addToMemoryUsage thread size newTouchePageBytes tryLock
    u'.maxGlobalMemoryUsage = u.maxGlobalMemoryUsage ∨
      tryLock = true ∧ u'.maxGlobalMemoryUsage = u'.globalMemoryUsage := by
  unfold MemoryUsage.addToMemoryUsage
  simp only
  split
  · next hpeak =>
      rw [Bool.and_eq_true] at hpeak
      exact .inr ⟨hpeak.2, rfl⟩
  · exact .inl rfl

/-- A step leaves the recorded peak, or records what is in use after it. -/
theorem peak_cases {a : Action} (hgo : s.Goes t a s') :
    s'.usage.maxGlobalMemoryUsage = s.usage.maxGlobalMemoryUsage ∨
      a = .next true ∧ s'.phase = Function.update s.phase t .idle
        ∧ s'.usage.maxGlobalMemoryUsage = s'.usage.globalMemoryUsage := by
  cases hgo with
  | allocation hphase => exact .inl rfl
  | unknown hphase hsize => exact .inl rfl
  | free hphase hstatus hsize => exact .inl rfl
  | cleanup hphase hw => exact .inl rfl
  | nothing hphase hnone => exact .inl rfl
  | pages hphase hw => exact .inl rfl
  | lines hphase hw => exact .inl rfl
  | @counters address size bytes isFree tryLock hphase =>
      cases isFree with
      | true => exact .inl rfl
      | false =>
          rcases addToMemoryUsage_peak s.usage t size bytes tryLock with hsame | ⟨rfl, hpeak⟩
          · exact .inl hsame
          · exact .inr ⟨rfl, rfl, hpeak⟩
  | cleaned hphase => exact .inl rfl

theorem peak_sound {past : List (Nat × Action)} (hn : n ≤ Temp.maxThreadNumber)
    (h : Run Profiler.step (fun _ s i => RecordsAlone n s i ∧ CallPermitted n s i) {} past s) :
    SoundUsage s.usage.maxGlobalMemoryUsage := by
  have hzero : SoundUsage {} := by
    unfold SoundUsage
    decide
  refine h.inv (fun _ s => SoundUsage s.usage.maxGlobalMemoryUsage) hzero ?_
  rintro past s ⟨t, a⟩ s' hrun hpeak ⟨halone, hpermit⟩ hstep
  have hgo := Profiler.goes_of_step hstep
  rcases peak_cases hgo with hsame | ⟨rfl, hphases, hrecorded⟩
  · rwa [hsame]
  · obtain ⟨hl, T, hb⟩ := balance_of_run hn (hrun.weaken fun _ _ _ hg => hg.2)
    obtain ⟨T', hb'⟩ := hb.step hl hn hgo hpermit
    have hnew : owed n Phase.newBytes s'.phase = 0 := by
      rw [hphases, owed_eq_single _ hpermit.1, Function.update_self]
      · rfl
      · intro t' ht' hne
        rw [Function.update_of_ne hne]
        exact halone t' ht' hne
    rw [hrecorded]
    exact hb'.sound (hl.step hgo hpermit) hn hnew

end peak

end MemPerf.Original
