import MemPerf.Lib.Run
import MemPerf.ShadowCounts

/-!
# Exact byte accounting

The shadow counters abstract to a set of disjoint byte intervals: every
page entry and every line entry counts the bytes of its unit that live
objects cover. The environment (`Accountable`) adds objects that are
apart from the live ones, frees live objects as they were added, and
cleans regions without live bytes; it may sample memory accesses at any
time, which leaves the counters alone.

`Accounts` is the invariant, phrased per address range: entry `i` of
range `r` counts the overlaps of the live objects of that range with the
page at `rangeBase r + 4096 * i`. A whole unit may be overwritten instead
of added to because disjointness leaves no other object in it.
-/

namespace MemPerf

open Coverage StepSystem

/-! ## Intervals that resolve -/

/-- Every page of `[A, A + n)` resolves to the same range, strictly
inside its page map. -/
def Resolves (A n : Nat) : Prop :=
  ∃ range < numAddressRange, ∀ a, A ≤ a → a < A + n →
    ∃ index < maxPageMapEntries, getPageIndex (a / pagesize * pagesize) = (range, index)

/-- Bytes of a resolving interval, in the coordinates of its range. -/
theorem Resolves.byte {A n a : Nat} (h : Resolves A n) (h1 : A ≤ a) (h2 : a < A + n) :
    (getPageIndex A).1 < numAddressRange
    ∧ getPageIndex a = ((getPageIndex A).1, (a - rangeBase (getPageIndex A).1) / 4096)
    ∧ rangeBase (getPageIndex A).1 ≤ a
    ∧ (a - rangeBase (getPageIndex A).1) / 4096 < maxPageMapEntries := by
  obtain ⟨r, hr, hall⟩ := h
  obtain ⟨j, -, hj⟩ := hall A le_rfl (by omega)
  obtain ⟨k, hlt, hk⟩ := hall a h1 h2
  simp only [pagesize, getPageIndex_page] at hj hk
  obtain ⟨hb, hidx⟩ := getPageIndex_found hk hr
  rw [hj]
  exact ⟨hr, by rw [hk, hidx], hb, hidx ▸ hlt⟩

/-! ## Live objects -/

/-- The objects alive after one more operation. -/
def liveStep (live : List Span) : ShadowOp → List Span
  | .mallocUpdateObject address size => ⟨address, size⟩ :: live
  | .freeUpdateObject address objStat => live.erase ⟨address, objStat.size⟩
  | .cleanupPages _ _ => live
  | .doMemoryAccess _ _ _ => live

def liveObjects (past : List ShadowOp) : List Span := past.foldl liveStep []

theorem liveObjects_snoc (past : List ShadowOp) (op : ShadowOp) :
    liveObjects (past ++ [op]) = liveStep (liveObjects past) op := by
  simp [liveObjects]

/-- What `cleanupPages` clears: from the page of the start, the length
rounded up to whole pages. -/
def cleanedRegion (uintaddr length : Nat) : Span :=
  ⟨uintaddr / pagesize * pagesize, (length + pagesizeMask) / pagesize * pagesize⟩

/-- Which operation the environment may issue next. -/
def Accountable (past : List ShadowOp) (_ : ShadowMemory) : ShadowOp → Prop
  | .mallocUpdateObject address size =>
      Resolves address size ∧ ∀ o ∈ liveObjects past, Span.Apart ⟨address, size⟩ o
  | .freeUpdateObject address objStat => ⟨address, objStat.size⟩ ∈ liveObjects past
  | .cleanupPages uintaddr length =>
      Resolves (cleanedRegion uintaddr length).start (cleanedRegion uintaddr length).len
      ∧ ∀ o ∈ liveObjects past, (cleanedRegion uintaddr length).Apart o
  | .doMemoryAccess _ _ _ => True

/-- The object's counters are in this range. -/
def StartsIn (range : Nat) (o : Span) : Prop :=
  (getPageIndex o.start).1 = range ∧ range < numAddressRange

instance (range : Nat) (o : Span) : Decidable (StartsIn range o) :=
  inferInstanceAs (Decidable (_ ∧ _))

/-- The live objects of one range. -/
def inRange (live : List Span) (range : Nat) : List Span :=
  live.filter fun o => decide (StartsIn range o)

/-- Bytes of `[rangeBase range + off, .. + n)` under live objects of the
range, each object counted by itself. -/
def rangeUse (live : List Span) (range off n : Nat) : Nat :=
  ((inRange live range).map fun o => o.overlap (rangeBase range + off) n).sum

theorem rangeUse_cons (o : Span) (live : List Span) (range off n : Nat) :
    rangeUse (o :: live) range off n =
      (if StartsIn range o then o.overlap (rangeBase range + off) n else 0)
        + rangeUse live range off n := by
  unfold rangeUse inRange
  by_cases h : StartsIn range o
  · simp [h]
  · simp [h]

theorem rangeUse_perm {live live' : List Span} (h : live.Perm live') (range off n : Nat) :
    rangeUse live range off n = rangeUse live' range off n :=
  ((h.filter _).map _).sum_eq

theorem rangeUse_erase {live : List Span} {o : Span} (ho : o ∈ live) (range off n : Nat) :
    rangeUse live range off n =
      (if StartsIn range o then o.overlap (rangeBase range + off) n else 0)
        + rangeUse (live.erase o) range off n := by
  rw [rangeUse_perm (List.perm_cons_erase ho), rangeUse_cons]

theorem rangeUse_le {live : List Span} (h : live.Pairwise Span.Apart) (range off n : Nat) :
    rangeUse live range off n ≤ n :=
  sum_overlap_le (h.filter _) _ _

/-! ## The invariant -/

/-- The counters are those of the live objects. -/
structure Accounts (live : List Span) (s : ShadowMemory) : Prop where
  apart : live.Pairwise Span.Apart
  counts : Counts (fun r i => rangeUse live r (4096 * i) 4096)
    (fun r l => rangeUse live r (64 * l) 64) s

theorem accounts_init : Accounts [] {} where
  apart := .nil
  counts :=
    { layout := ShadowMemory.layout_init
      pages := fun _ _ => rfl
      lines := fun _ _ _ _ => rfl
      untabled := fun _ _ _ => rfl }

namespace Accounts

open ShadowMemory

variable {live : List Span} {s s' : ShadowMemory}

/-- An object of no bytes is in no counter. -/
theorem rangeUse_cons_empty (A : Nat) (live : List Span) (range off n : Nat) :
    rangeUse (⟨A, 0⟩ :: live) range off n = rangeUse live range off n := by
  rw [rangeUse_cons, Span.overlap_empty, ite_self, Nat.zero_add]

theorem not_startsIn {A n r i range : Nat} (hp : getPageIndex A = (r, i))
    (hr : r = numAddressRange) : ¬ StartsIn range ⟨A, n⟩ := by
  rintro ⟨h1, h2⟩
  rw [hp] at h1
  exact absurd (h1 ▸ h2) (by simp [hr])

section Walk

variable {A B n i : Nat} (hA : A = B + 4096 * i + A % 4096)

include hA

/-! The shares of the lines an object at `A` is walked through. -/

theorem overlap_firstLine :
    (Span.mk A n).overlap (B + 64 * (64 * i + A % 4096 / 64)) 64 = min (64 - A % 64) n := by
  rw [Span.overlap_first (by simp only; omega) (by simp only; omega)]
  simp only
  omega

theorem overlap_midLine {l : Nat} (h1 : 64 * i + A % 4096 / 64 < l)
    (h2 : 64 * l + 64 ≤ 64 * (64 * i + A % 4096 / 64) + A % 64 + n) :
    (Span.mk A n).overlap (B + 64 * l) 64 = 64 :=
  Span.overlap_full (by simp only; omega) (by simp only; omega)

theorem overlap_lastLine {l : Nat} (h1 : 64 * i + A % 4096 / 64 < l)
    (h2 : 64 * (64 * i + A % 4096 / 64) + A % 64 + n < 64 * l + 64) :
    (Span.mk A n).overlap (B + 64 * l) 64
      = 64 * (64 * i + A % 4096 / 64) + A % 64 + n - 64 * l := by
  rw [Span.overlap_last (by simp only; omega) (by simp only; omega)]
  simp only
  omega

theorem overlap_otherLine {l : Nat} (h : l < 64 * i + A % 4096 / 64
      ∨ 64 * (64 * i + A % 4096 / 64) + A % 64 + n ≤ 64 * l) :
    (Span.mk A n).overlap (B + 64 * l) 64 = 0 :=
  Span.overlap_outside (by simp only; omega)

end Walk

theorem malloc {A n : Nat} (hs : Accounts live s) (hap : ∀ o ∈ live, Span.Apart ⟨A, n⟩ o)
    (h : s.mallocUpdateObject A n = some s') : Accounts (⟨A, n⟩ :: live) s' := by
  have hpw : (⟨A, n⟩ :: live).Pairwise Span.Apart := List.pairwise_cons.mpr ⟨hap, hs.apart⟩
  refine ⟨hpw, ?_⟩
  by_cases hn : n = 0
  · subst hn
    have hss : s' = s := by simpa [mallocUpdateObject] using h.symm
    simp only [rangeUse_cons_empty, hss]
    exact hs.counts
  rcases hp : getPageIndex A with ⟨r, i⟩
  by_cases hr8 : r = numAddressRange
  · have hss : s' = s := by simpa [mallocUpdateObject, hp, hr8] using h.symm
    have hsame : ∀ range off u, rangeUse (⟨A, n⟩ :: live) range off u
        = rangeUse live range off u := by
      intro range off u
      rw [rangeUse_cons, if_neg (not_startsIn hp hr8), Nat.zero_add]
    simp only [hsame, hss]
    exact hs.counts
  obtain ⟨hr, hA⟩ := getPageIndex_start hp hr8
  simp only [mallocUpdateObject, hn, if_false, hp, hr8, mallocUpdatePages, walkPages_eq,
    mallocUpdateCacheLines, shiftRight_log2CachelineSize, and_pagesizeMask,
    and_cachelineSizeMask] at h
  have hcons : ∀ off u, rangeUse (⟨A, n⟩ :: live) r off u
      = (Span.mk A n).overlap (rangeBase r + off) u + rangeUse live r off u := by
    intro off u
    rw [rangeUse_cons, if_pos ⟨by rw [hp], hr⟩]
  have hfit : ∀ off u,
      (Span.mk A n).overlap (rangeBase r + off) u + rangeUse live r off u ≤ u :=
    fun off u => hcons off u ▸ rangeUse_le hpw r off u
  have hother : ∀ r' off u, r' ≠ r →
      rangeUse (⟨A, n⟩ :: live) r' off u = rangeUse live r' off u := by
    intro r' off u hne
    rw [rangeUse_cons, if_neg (fun hst => hne (by rw [← hst.1, hp])), Nat.zero_add]
  refine Counts.walk (hs.counts.repage _ ?_ ?_) (by omega) (by omega) mallocPartLine_touches
    mallocWholeLine_touches ?_ ?_ ?_ ?_ h
  · intro r' i'
    split
    · exact walkedPage_cacheMapEntry .addUsedBytes .setFull (fun _ _ => rfl) (fun _ => rfl) ..
    · rfl
  · intro r' i'
    split
    · next hrr =>
        subst hrr
        rw [hcons]
        exact walkedPage_add hA (by omega) rfl (hs.counts.pages r' i') (hfit _ _)
    · next hrr =>
        rw [hother _ _ _ hrr]
        exact hs.counts.pages r' i'
  · intro c t ht
    have hfit' := hfit (64 * (64 * i + A % 4096 / 64)) 64
    rw [hcons]
    rw [overlap_firstLine hA] at hfit' ⊢
    exact mallocPartLine_count ht hfit'
  · intro l c t h1 h2 ht
    have hfit' := hfit (64 * l) 64
    rw [hcons]
    rw [overlap_midLine hA h1 h2] at hfit' ⊢
    simp only [mallocWholeLine, modifyLine_cacheMap_self, CacheMapEntry.setFull, cachelineSize]
    omega
  · intro l c t h1 h2 h3 ht
    have hfit' := hfit (64 * l) 64
    rw [hcons]
    rw [overlap_lastLine hA h1 h3] at hfit' ⊢
    exact mallocPartLine_count ht hfit'
  · intro r' l hout
    by_cases hrr : r' = r
    · subst hrr
      rw [hcons, overlap_otherLine hA (by tauto), Nat.zero_add]
    · exact hother _ _ _ hrr

theorem free {A : Nat} {o : ObjStat} (hs : Accounts live s) (hmem : ⟨A, o.size⟩ ∈ live)
    (h : s.freeUpdateObject A o = some s') : Accounts (live.erase ⟨A, o.size⟩) s' := by
  refine ⟨hs.apart.erase _, ?_⟩
  have herase := rangeUse_erase hmem
  by_cases hn : o.size = 0
  · have hss : s' = s := by simpa [freeUpdateObject, hn] using h.symm
    have hsame : ∀ range off u, rangeUse (live.erase ⟨A, o.size⟩) range off u
        = rangeUse live range off u := by
      intro range off u
      rw [herase, hn, Span.overlap_empty, ite_self, Nat.zero_add]
    simp only [hsame, hss]
    exact hs.counts
  rcases hp : getPageIndex A with ⟨r, i⟩
  by_cases hr8 : r = numAddressRange
  · have hss : s' = s := by simpa [freeUpdateObject, hp, hr8] using h.symm
    have hsame : ∀ range off u, rangeUse (live.erase ⟨A, o.size⟩) range off u
        = rangeUse live range off u := by
      intro range off u
      rw [herase, if_neg (not_startsIn hp hr8), Nat.zero_add]
    simp only [hsame, hss]
    exact hs.counts
  obtain ⟨hr, hA⟩ := getPageIndex_start hp hr8
  simp only [freeUpdateObject, hn, if_false, hp, hr8, freeUpdatePages, walkPages_eq,
    freeUpdateCacheLines, shiftRight_log2CachelineSize, and_pagesizeMask,
    and_cachelineSizeMask] at h
  have hcons : ∀ off u, rangeUse live r off u
      = (Span.mk A o.size).overlap (rangeBase r + off) u
        + rangeUse (live.erase ⟨A, o.size⟩) r off u := by
    intro off u
    rw [herase, if_pos ⟨by rw [hp], hr⟩]
  have hfit : ∀ off u, (Span.mk A o.size).overlap (rangeBase r + off) u
      + rangeUse (live.erase ⟨A, o.size⟩) r off u ≤ u :=
    fun off u => hcons off u ▸ rangeUse_le hs.apart r off u
  have hother : ∀ r' off u, r' ≠ r →
      rangeUse (live.erase ⟨A, o.size⟩) r' off u = rangeUse live r' off u := by
    intro r' off u hne
    rw [herase, if_neg (fun hst => hne (by rw [← hst.1, hp])), Nat.zero_add]
  refine Counts.walk (hs.counts.repage _ ?_ ?_) (by omega) (by omega) (freePartLine_touches o)
    (freeWholeLine_touches o) ?_ ?_ ?_ ?_ h
  · intro r' i'
    split
    · exact walkedPage_cacheMapEntry .subUsedBytes .setEmpty (fun _ _ => rfl) (fun _ => rfl) ..
    · rfl
  · intro r' i'
    split
    · next hrr =>
        subst hrr
        exact walkedPage_sub hA (by omega) rfl (hcons _ _ ▸ hs.counts.pages r' i') (hfit _ _)
    · next hrr =>
        rw [hother _ _ _ hrr]
        exact hs.counts.pages r' i'
  · intro c t ht
    have hfit' := hfit (64 * (64 * i + A % 4096 / 64)) 64
    rw [hcons] at ht
    rw [overlap_firstLine hA] at hfit' ht
    exact freePartLine_count ht hfit'
  · intro l c t h1 h2 ht
    have hfit' := hfit (64 * l) 64
    rw [overlap_midLine hA h1 h2] at hfit'
    rw [freeWholeLine_count]
    omega
  · intro l c t h1 h2 h3 ht
    have hfit' := hfit (64 * l) 64
    rw [hcons] at ht
    rw [overlap_lastLine hA h1 h3] at hfit' ht
    exact freePartLine_count ht hfit'
  · intro r' l hout
    by_cases hrr : r' = r
    · subst hrr
      rw [hcons, overlap_otherLine hA (by tauto), Nat.zero_add]
    · exact hother _ _ _ hrr

/-- Units without a live byte use nothing. -/
theorem rangeUse_eq_zero {live : List Span} {region : Span} {r off n : Nat}
    (hap : ∀ o ∈ live, region.Apart o) (h1 : region.start ≤ rangeBase r + off)
    (h2 : rangeBase r + off + n ≤ region.start + region.len) : rangeUse live r off n = 0 :=
  sum_overlap_eq_zero fun o ho a ha1 ha2 =>
    hap o (List.mem_of_mem_filter ho) a ⟨by omega, by omega⟩

theorem cleanup {a n : Nat} (hs : Accounts live s)
    (hres : Resolves (cleanedRegion a n).start (cleanedRegion a n).len)
    (hap : ∀ o ∈ live, (cleanedRegion a n).Apart o) : Accounts live (s.cleanupPages a n) := by
  refine ⟨hs.apart, ?_⟩
  simp only [cleanupPages]
  by_cases hn : n = 0
  · subst hn
    exact hs.counts
  simp only [cleanedRegion, pagesize, pagesizeMask] at hres
  -- the last byte of the region is inside the page map, so no length wraps
  obtain ⟨-, -, hbase, hbound⟩ := hres.byte
    (show a / 4096 * 4096 ≤ a / 4096 * 4096 + (n + 4095) / 4096 * 4096 - 1 by omega) (by omega)
  obtain ⟨hr, hidx, hb, -⟩ := hres.byte le_rfl
    (show a / 4096 * 4096 < a / 4096 * 4096 + (n + 4095) / 4096 * 4096 by omega)
  rw [getPageIndex_page] at hr hidx hb hbase hbound
  rcases hp : getPageIndex a with ⟨r, i⟩
  rw [hp] at hr hidx hb hbase hbound
  have hstart := getPageIndex_address hp hr
  simp only [maxPageMapEntries, oneGb] at hb hbase hbound
  have hrounds : alignup n pagesize / pagesize = (n + 4095) / 4096 := by
    rw [alignup_pagesize (by omega), pagesize]
    omega
  rw [hrounds]
  refine hs.counts.clearPages _ _ (fun j h1 h2 => ?_) fun l h1 h2 => ?_
  · refine rangeUse_eq_zero hap ?_ ?_ <;> simp only [cleanedRegion, pagesize, pagesizeMask] <;>
      omega
  · refine rangeUse_eq_zero hap ?_ ?_ <;> simp only [cleanedRegion, pagesize, pagesizeMask] <;>
      omega

theorem access {tid a : Nat} {miss : Bool} (hs : Accounts live s) :
    Accounts live (s.doMemoryAccess tid a miss) := by
  refine ⟨hs.apart, ?_⟩
  unfold doMemoryAccess
  split
  · exact hs.counts
  · next pme c hline =>
      obtain ⟨r, i, -, -, -, -, hl, -⟩ := sampledLine_cases hline
      have hs1 : Counts (fun r i => rangeUse live r (4096 * i) 4096)
          (fun r l => rangeUse live r (64 * l) 64) { s with
            friendlinessStatus := Function.update s.friendlinessStatus tid
              ((s.friendlinessStatus tid).recordANewSampling (s.cacheMap c).getUsedBytes
                pme.getUsedBytes) } :=
        ⟨⟨hs.counts.layout.below, hs.counts.layout.apart, hs.counts.layout.fresh⟩,
          hs.counts.pages, hs.counts.lines, hs.counts.untabled⟩
      split
      · exact hs1.touch hl (recordMiss_touches _ _ _ _)
          ((recordMiss_count _ _ _ _).trans (hs.counts.lines _ _ _ hl)) fun _ _ _ => rfl
      · exact hs1

/-- One step: every permitted operation moves the counters as it moves
the live objects. -/
theorem step {past : List ShadowOp} {op : ShadowOp} (hs : Accounts (liveObjects past) s)
    (hg : Accountable past s op) (h : s.step op = some s') :
    Accounts (liveObjects (past ++ [op])) s' := by
  rw [liveObjects_snoc]
  cases op with
  | mallocUpdateObject address size => exact hs.malloc hg.2 h
  | freeUpdateObject address objStat => exact hs.free hg h
  | cleanupPages uintaddr length =>
      cases h
      exact hs.cleanup hg.1 hg.2
  | doMemoryAccess tid uintaddr miss =>
      cases h
      exact hs.access

/-- A whole run. -/
theorem run {past : List ShadowOp} (h : Run ShadowMemory.step Accountable {} past s) :
    Accounts (liveObjects past) s :=
  h.inv (fun past s => Accounts (liveObjects past) s) accounts_init
    fun _ _ _ _ _ hs hg hstep => hs.step hg hstep

end Accounts

/-- Live objects resolve, all along a run. -/
theorem liveObjects_resolve {past : List ShadowOp} {s : ShadowMemory}
    (h : Run ShadowMemory.step Accountable {} past s) :
    ∀ o ∈ liveObjects past, Resolves o.start o.len :=
  h.inv (fun past _ => ∀ o ∈ liveObjects past, Resolves o.start o.len) (by simp [liveObjects])
    fun past s op s' _ hs hg _ => by
      rw [liveObjects_snoc]
      cases op with
      | mallocUpdateObject address size =>
          intro o ho
          rcases List.mem_cons.mp ho with rfl | ho
          · exact hg.1
          · exact hs o ho
      | freeUpdateObject address objStat => exact fun o ho => hs o (List.mem_of_mem_erase ho)
      | cleanupPages uintaddr length => exact hs
      | doMemoryAccess tid uintaddr miss => exact hs

/-! ## What the counters mean -/

section Meaning

variable {live : List Span} {s : ShadowMemory}

/-- On a unit inside one page, the use counted for the page's range is
the number of bytes live objects cover. -/
theorem rangeUse_eq_covered (hap : live.Pairwise Span.Apart)
    (hres : ∀ o ∈ live, Resolves o.start o.len) {A r i off n : Nat}
    (hA : A = rangeBase r + off) (hin : A % 4096 + n ≤ 4096) (hp : getPageIndex A = (r, i))
    (hr : r < numAddressRange) : rangeUse live r off n = covered live A n := by
  have hbyte : ∀ o ∈ live, ∀ a, A ≤ a → a < A + n → o.Covers a → StartsIn r o := by
    intro o ho a h1 h2 hcov
    obtain ⟨-, hidx, -⟩ := (hres o ho).byte hcov.1 hcov.2
    have hpage : a / 4096 = A / 4096 := by omega
    rw [← getPageIndex_page, hpage, getPageIndex_page, hp] at hidx
    exact ⟨(congrArg Prod.fst hidx).symm, hr⟩
  rw [rangeUse, inRange, ← covered_eq_sum (hap.filter _), ← hA]
  refine covered_congr fun a h1 h2 => ⟨?_, ?_⟩
  · rintro ⟨o, ho, hcov⟩
    exact ⟨o, List.mem_of_mem_filter ho, hcov⟩
  · rintro ⟨o, ho, hcov⟩
    exact ⟨o, List.mem_filter.mpr ⟨ho, by simpa using hbyte o ho a h1 h2 hcov⟩, hcov⟩

/-- A page entry that is no address's own counts nothing. -/
theorem rangeUse_eq_zero_of_no_page (hres : ∀ o ∈ live, Resolves o.start o.len) {r i : Nat}
    (hno : ∀ A, getPageIndex A ≠ (r, i)) : rangeUse live r (4096 * i) 4096 = 0 := by
  refine sum_overlap_eq_zero fun o ho a h1 h2 hcov => hno a ?_
  obtain ⟨hmem, hst⟩ := List.mem_filter.mp ho
  obtain ⟨-, hidx, -⟩ := (hres o hmem).byte hcov.1 hcov.2
  rw [(of_decide_eq_true hst).1] at hidx
  rw [hidx]
  congr 1
  omega

/-- The accounting law of a state: `live` are the live objects. -/
structure ExactAccounting (live : List Span) (s : ShadowMemory) : Prop where
  /-- A page's entry counts its bytes under live objects. -/
  page : ∀ {A r i}, A % pagesize = 0 → getPageIndex A = (r, i) → r < numAddressRange →
    (s.pageMap r i).numUsedBytes = covered live A pagesize
  /-- Entries that are no page's stay at zero. -/
  noPage : ∀ {r i}, (∀ A, getPageIndex A ≠ (r, i)) → (s.pageMap r i).numUsedBytes = 0
  /-- A line's entry counts its bytes under live objects. -/
  line : ∀ {A r i t}, A % cachelineSize = 0 → getPageIndex A = (r, i) → r < numAddressRange →
    s.table r i = some t →
    (s.cacheMap (t + A % pagesize / cachelineSize)).numUsedBytes = covered live A cachelineSize
  /-- A line without an entry has no live byte. -/
  noTable : ∀ {A r i}, A % cachelineSize = 0 → getPageIndex A = (r, i) → r < numAddressRange →
    s.table r i = none → covered live A cachelineSize = 0
  pageBounds : ∀ r i, 0 ≤ (s.pageMap r i).numUsedBytes ∧ (s.pageMap r i).numUsedBytes ≤ pagesize
  lineBounds : ∀ c, 0 ≤ (s.cacheMap c).numUsedBytes ∧ (s.cacheMap c).numUsedBytes ≤ cachelineSize
  pageGetUsedBytes : ∀ r i, (s.pageMap r i).getUsedBytes = (s.pageMap r i).numUsedBytes
  lineGetUsedBytes : ∀ c, (s.cacheMap c).getUsedBytes = (s.cacheMap c).numUsedBytes

/-- Every cell of the cache map counts a line, or nothing yet. -/
theorem Accounts.cell (hs : Accounts live s) (c : Nat) :
    ∃ w ≤ 64, (s.cacheMap c).numUsedBytes = (w : Nat) := by
  by_cases hc : ∃ r i t, s.table r i = some t ∧ t ≤ c ∧ c < t + 64
  · obtain ⟨r, i, t, ht, h1, h2⟩ := hc
    refine ⟨_, rangeUse_le hs.apart r (64 * (64 * i + (c - t))) 64,
      hs.counts.lines r (64 * i + (c - t)) c ⟨t, ?_, by omega⟩⟩
    rw [show (64 * i + (c - t)) / 64 = i by omega]
    exact ht
  · refine ⟨0, by omega, ?_⟩
    rw [hs.counts.layout.fresh c fun r i t ht h => hc ⟨r, i, t, ht, h⟩]
    rfl

theorem Accounts.exactAccounting (hs : Accounts live s)
    (hres : ∀ o ∈ live, Resolves o.start o.len) : ExactAccounting live s where
  page hA hp hr := by
    have hpage := getPageIndex_address hp hr
    simp only [pagesize] at hA ⊢
    rw [hs.counts.pages, rangeUse_eq_covered hs.apart hres (by omega) (by omega) hp hr]
  noPage hno := by
    rw [hs.counts.pages, rangeUse_eq_zero_of_no_page hres hno]
    rfl
  line {A r i t} hA hp hr ht := by
    have hpage := getPageIndex_address hp hr
    simp only [cachelineSize, pagesize] at hA ⊢
    have hl : s.LineAt r (64 * i + A % 4096 / 64) (t + A % 4096 / 64) := by
      refine ⟨t, ?_, by omega⟩
      rw [show (64 * i + A % 4096 / 64) / 64 = i by omega]
      exact ht
    rw [hs.counts.lines _ _ _ hl, rangeUse_eq_covered hs.apart hres _ _ hp hr] <;> omega
  noTable {A r i} hA hp hr ht := by
    have hpage := getPageIndex_address hp hr
    simp only [cachelineSize] at hA ⊢
    have hA' : A = rangeBase r + 64 * (64 * i + A % 4096 / 64) := by omega
    rw [← rangeUse_eq_covered hs.apart hres hA' (by omega) hp hr]
    refine hs.counts.untabled r _ ?_
    rwa [show (64 * i + A % 4096 / 64) / 64 = i by omega]
  pageBounds r i := by
    have hle := rangeUse_le hs.apart r (4096 * i) 4096
    simp only [hs.counts.pages, pagesize]
    omega
  lineBounds c := by
    obtain ⟨w, hw, hc⟩ := hs.cell c
    simp only [hc, cachelineSize]
    omega
  pageGetUsedBytes r i := by
    have hle := rangeUse_le hs.apart r (4096 * i) 4096
    simp only [PageMapEntry.getUsedBytes, hs.counts.pages, pagesize]
    rw [if_neg (by omega), if_neg (by omega)]
  lineGetUsedBytes c := by
    obtain ⟨w, hw, hc⟩ := hs.cell c
    simp only [CacheMapEntry.getUsedBytes, hc, cachelineSize]
    rw [if_neg (by omega), if_neg (by omega)]

/-- The next allocation adds to a page or line no more than it has room
for, and the next free takes from it no more than it holds: no `int16_t`
or `int8_t` field wraps. -/
structure NeverWraps (past : List ShadowOp) (s : ShadowMemory) : Prop where
  addToPage : ∀ {address size A r i}, Accountable past s (.mallocUpdateObject address size) →
    A % pagesize = 0 → getPageIndex A = (r, i) → r < numAddressRange →
    (s.pageMap r i).numUsedBytes + (Span.mk address size).overlap A pagesize ≤ pagesize
  addToLine : ∀ {address size A r i t}, Accountable past s (.mallocUpdateObject address size) →
    A % cachelineSize = 0 → getPageIndex A = (r, i) → r < numAddressRange →
    s.table r i = some t →
    (s.cacheMap (t + A % pagesize / cachelineSize)).numUsedBytes
      + (Span.mk address size).overlap A cachelineSize ≤ cachelineSize
  subFromPage : ∀ {address objStat A r i},
    Accountable past s (.freeUpdateObject address objStat) →
    A % pagesize = 0 → getPageIndex A = (r, i) → r < numAddressRange →
    (Span.mk address objStat.size).overlap A pagesize ≤ (s.pageMap r i).numUsedBytes
  subFromLine : ∀ {address objStat A r i t},
    Accountable past s (.freeUpdateObject address objStat) →
    A % cachelineSize = 0 → getPageIndex A = (r, i) → r < numAddressRange →
    s.table r i = some t →
    (Span.mk address objStat.size).overlap A cachelineSize
      ≤ (s.cacheMap (t + A % pagesize / cachelineSize)).numUsedBytes

end Meaning

theorem ExactAccounting.neverWraps {past : List ShadowOp} {s : ShadowMemory}
    (h : ExactAccounting (liveObjects past) s) (hap : (liveObjects past).Pairwise Span.Apart) :
    NeverWraps past s := by
  have hadd : ∀ {address size}, Accountable past s (.mallocUpdateObject address size) →
      ∀ A n, covered (liveObjects past) A n + (Span.mk address size).overlap A n ≤ n := by
    intro address size hg A n
    have hle := covered_le (⟨address, size⟩ :: liveObjects past) A n
    rw [covered_cons (List.pairwise_cons.mpr ⟨hg.2, hap⟩)] at hle
    omega
  constructor
  · intro address size A r i hg hA hp hr
    rw [h.page hA hp hr]
    exact_mod_cast hadd hg A pagesize
  · intro address size A r i t hg hA hp hr ht
    rw [h.line hA hp hr ht]
    exact_mod_cast hadd hg A cachelineSize
  · intro address objStat A r i hg hA hp hr
    rw [h.page hA hp hr]
    exact_mod_cast overlap_le_covered hg A pagesize
  · intro address objStat A r i t hg hA hp hr ht
    rw [h.line hA hp hr ht]
    exact_mod_cast overlap_le_covered hg A cachelineSize

/-- **Shadow accounting is exact**, after every run the environment may
drive, and stays so through the next step. -/
theorem shadow_accounting_exact {past : List ShadowOp} {s : ShadowMemory}
    (h : Run ShadowMemory.step Accountable {} past s) :
    ExactAccounting (liveObjects past) s ∧ NeverWraps past s := by
  have hs := Accounts.run h
  have hexact := hs.exactAccounting (liveObjects_resolve h)
  exact ⟨hexact, hexact.neverWraps hs.apart⟩

/-- Two neighbours on one page, across lines; the first one is freed. -/
theorem shadow_accounting_exact_neighbours :
    ∃ s, Run ShadowMemory.step Accountable {}
      [.mallocUpdateObject 0x10000000030 200, .mallocUpdateObject 0x100000000f8 100,
        .freeUpdateObject 0x10000000030 ⟨1, 0, 200⟩] s
      ∧ ExactAccounting [⟨0x100000000f8, 100⟩] s := by
  have hres : ∀ A n, 0x10000000000 ≤ A → A + n ≤ 0x10000001000 → Resolves A n := by
    intro A n h1 h2
    refine ⟨1, by decide, fun a ha1 ha2 => ⟨0, by decide, ?_⟩⟩
    rw [pagesize, show a / 4096 * 4096 = 0x10000000000 by omega]
    decide
  have h0 : Run ShadowMemory.step Accountable {} [] {} := .nil
  have hg1 : ∀ s, Accountable [] s (.mallocUpdateObject 0x10000000030 200) := fun _ =>
    ⟨hres _ _ (by decide) (by decide), fun o ho => by simp [liveObjects] at ho⟩
  have hg2 : ∀ s, Accountable [.mallocUpdateObject 0x10000000030 200] s
      (.mallocUpdateObject 0x100000000f8 100) := fun _ =>
    ⟨hres _ _ (by decide) (by decide), fun o ho a h1 h2 => by
      obtain rfl : o = ⟨0x10000000030, 200⟩ := List.mem_singleton.mp ho
      simp only [Span.Covers] at h1 h2
      omega⟩
  have hg3 : ∀ s, Accountable [.mallocUpdateObject 0x10000000030 200,
      .mallocUpdateObject 0x100000000f8 100] s
      (.freeUpdateObject 0x10000000030 ⟨1, 0, 200⟩) := fun _ => by
    simp [Accountable, liveObjects, liveStep]
  have hrun := ((h0.snoc (hg1 _) rfl).snoc (hg2 _) rfl).snoc (hg3 _) rfl
  exact ⟨_, hrun, (shadow_accounting_exact hrun).1⟩

end MemPerf
