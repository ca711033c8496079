import MemPerf.Lib.Coverage
import MemPerf.ShadowLayout

/-!
# Counters under a walk

`Counts U E s` gives the page counters of a state as `U` and its line
counters as `E`. Allocating a table, rewriting one line, walking an
object and clearing a page each change the two functions in a known way;
what a walk does to a single unit is a matter of how much of the unit
the object overlaps.
-/

namespace MemPerf

open Word Coverage

/-! ## The counters of a state -/

/-- The page counters of `s` are `U` and its line counters are `E`; a
page without a line table has nothing on its lines. -/
structure Counts (U E : Nat → Nat → Nat) (s : ShadowMemory) : Prop where
  layout : s.Layout
  pages : ∀ r i, (s.pageMap r i).numUsedBytes = U r i
  lines : ∀ r l c, s.LineAt r l c → (s.cacheMap c).numUsedBytes = E r l
  untabled : ∀ r l, s.table r (l / 64) = none → E r l = 0

namespace Counts

open ShadowMemory

variable {U E E' : Nat → Nat → Nat} {s s' : ShadowMemory}

theorem alloc (hs : Counts U E s) {range index : Nat} (hnone : s.table range index = none) :
    Counts U E (s.allocTable range index) where
  layout := hs.layout.alloc hnone
  pages r i := by
    rw [← hs.pages r i, allocTable, modifyPage_pageMap]
    split <;> rfl
  lines r l c := by
    rintro ⟨t, ht, rfl⟩
    have ht' : (s.allocTable range index).table r (l / 64) = some t := ht
    rw [table_allocTable] at ht'
    split at ht'
    · next hpage =>
        -- a cell of the new table still has its initial contents
        obtain ⟨rfl, rfl⟩ := hpage
        cases ht'
        show (s.cacheMap (s.cacheMapBumpPtr + l % 64)).numUsedBytes = E r l
        rw [hs.layout.fresh _ fun r' i' t' h' => by have := hs.layout.below h'; omega,
          hs.untabled r l hnone]
        rfl
    · exact hs.lines r l _ ⟨t, ht', rfl⟩
  untabled r l hr := by
    rw [table_allocTable] at hr
    split at hr
    · cases hr
    · exact hs.untabled r l hr

theorem getCacheMapEntry (hs : Counts U E s) {range index t : Nat}
    (h : s.getCacheMapEntry range index = some (s', t)) : Counts U E s' := by
  rcases getCacheMapEntry_cases h with ⟨rfl, -⟩ | ⟨hnone, -, rfl⟩
  · exact hs
  · exact hs.alloc hnone

/-- Rewriting the cell of one line changes the count of that line only. -/
theorem touch (hs : Counts U E s) {range l c : Nat} (hl : s.LineAt range l c)
    (ht : TouchesOnly c s s') (hv : (s'.cacheMap c).numUsedBytes = E' range l)
    (hE : ∀ r k, ¬ (r = range ∧ k = l) → E' r k = E r k) : Counts U E' s' where
  layout := hs.layout.touch hl ht
  pages r i := by rw [ht.pageMap]; exact hs.pages r i
  lines r k c' hk := by
    have hk' : s.LineAt r k c' := (LineAt.congr ht.pageMap).mp hk
    by_cases hc : c' = c
    · subst hc
      obtain ⟨rfl, rfl⟩ := hs.layout.lineAt_inj hk' hl
      exact hv
    · have hne : ¬ (r = range ∧ k = l) := by
        rintro ⟨rfl, rfl⟩
        exact hc (lineAt_unique hk' hl)
      rw [ht.cacheMap c' hc, hE r k hne]
      exact hs.lines r k c' hk'
  untabled r k hr := by
    rw [table_congr ht.pageMap] at hr
    have hne : ¬ (r = range ∧ k = l) := by
      rintro ⟨rfl, rfl⟩
      obtain ⟨t, ht, -⟩ := hl
      exact absurd (hr.symm.trans ht) (by simp)
    rw [hE r k hne]
    exact hs.untabled r k hr

/-- Rewriting counters of page entries, tables left where they are. -/
theorem repage {U' : Nat → Nat → Nat} (hs : Counts U E s) (f : Nat → Nat → PageMapEntry)
    (hf : ∀ r i, (f r i).cacheMapEntry = (s.pageMap r i).cacheMapEntry)
    (hU : ∀ r i, (f r i).numUsedBytes = U' r i) : Counts U' E { s with pageMap := f } where
  layout := hs.layout.pages f hf
  pages := hU
  lines r l c := by
    rintro ⟨t, ht, hc⟩
    exact hs.lines r l c ⟨t, (hf r (l / 64)).symm.trans ht, hc⟩
  untabled r l hr := hs.untabled r l ((hf r (l / 64)).symm.trans hr)

/-- The line walk turns the counts `E` into `E'` when each visited line
goes from the one to the other and no other line differs. -/
theorem walk {part : Nat → Nat → ShadowMemory → ShadowMemory}
    {whole : Nat → ShadowMemory → ShadowMemory} {range idx ci off size : Nat}
    (hs : Counts U E s) (hci : ci < 64) (hoff : off < 64)
    (hpart : ∀ n c s, TouchesOnly c s (part n c s)) (hwhole : ∀ c s, TouchesOnly c s (whole c s))
    (hfirst : ∀ c (t : ShadowMemory), (t.cacheMap c).numUsedBytes = E range (64 * idx + ci) →
      ((part (min (64 - off) size) c t).cacheMap c).numUsedBytes = E' range (64 * idx + ci))
    (hmid : ∀ l c (t : ShadowMemory), 64 * idx + ci < l →
      64 * l + 64 ≤ 64 * (64 * idx + ci) + off + size → (t.cacheMap c).numUsedBytes = E range l →
      ((whole c t).cacheMap c).numUsedBytes = E' range l)
    (hlast : ∀ l c (t : ShadowMemory), 64 * idx + ci < l →
      64 * l < 64 * (64 * idx + ci) + off + size →
      64 * (64 * idx + ci) + off + size < 64 * l + 64 → (t.cacheMap c).numUsedBytes = E range l →
      ((part (64 * (64 * idx + ci) + off + size - 64 * l) c t).cacheMap c).numUsedBytes
        = E' range l)
    (hout : ∀ r l, r ≠ range ∨ l < 64 * idx + ci ∨ 64 * (64 * idx + ci) + off + size ≤ 64 * l →
      E' r l = E r l)
    (h : s.walkCacheLines part whole range idx ci off size = some s') : Counts U E' s' := by
  let upTo : Nat → Nat → Nat → Nat := fun k r l => if r = range ∧ l < k then E' r l else E r l
  have htouch : ∀ l c (t t' : ShadowMemory), Counts U (upTo l) t → t.LineAt range l c →
      TouchesOnly c t t' → ((t.cacheMap c).numUsedBytes = E range l →
        (t'.cacheMap c).numUsedBytes = E' range l) → Counts U (upTo (l + 1)) t' := by
    intro l c t t' ht hl htt hv
    refine ht.touch hl htt ?_ fun r k hne => ?_
    · have hnow : upTo l range l = E range l := by simp [upTo]
      have hthen : upTo (l + 1) range l = E' range l := by simp [upTo]
      rw [hthen]
      exact hv (hnow ▸ ht.lines range l c hl)
    · have hiff : (r = range ∧ k < l + 1) ↔ (r = range ∧ k < l) := by omega
      simp only [upTo, hiff]
  obtain ⟨k, hk, hsk⟩ := walkCacheLines_rule (fun k t => Counts U (upTo k) t)
    (fun _ _ _ _ _ ht hget => ht.getCacheMapEntry hget) hci hoff
    (fun n c s => (hpart n c s).pageMap) (fun c s => (hwhole c s).pageMap)
    (fun c t ht hl => htouch _ c t _ ht hl (hpart _ c t) (hfirst c t))
    (fun l c t h1 h2 ht hl => htouch l c t _ ht hl (hwhole c t) (hmid l c t h1 h2))
    (fun l c t h1 h2 h3 ht hl => htouch l c t _ ht hl (hpart _ c t) (hlast l c t h1 h2 h3)) h
    (by
      have hstart : upTo (64 * idx + ci) = E := by
        funext r l
        by_cases hrl : r = range ∧ l < 64 * idx + ci
        · simp only [upTo, if_pos hrl]
          exact hout r l (Or.inr (Or.inl hrl.2))
        · simp only [upTo, if_neg hrl]
      rw [hstart]
      exact hs)
  have hend : upTo k = E' := by
    funext r l
    by_cases hrl : r = range ∧ l < k
    · simp only [upTo, if_pos hrl]
    · simp only [upTo, if_neg hrl]
      exact (hout r l (by omega)).symm
  rwa [hend] at hsk

/-- Clearing a page that counts nothing. -/
theorem clear (hs : Counts U E s) {range index : Nat} (hU : U range index = 0)
    (hE : ∀ l, l / 64 = index → E range l = 0) : Counts U E (s.clear range index) where
  layout := hs.layout.clear range index
  pages r i := by
    have hpm : ∀ t : ShadowMemory, t.pageMap = s.pageMap →
        ((t.modifyPage range index fun e => { e with numUsedBytes := 0 }).pageMap r i).numUsedBytes
          = U r i := by
      intro t ht
      rw [modifyPage_pageMap, ht]
      split
      · next hri => rw [hri.1, hri.2, hU]; rfl
      · exact hs.pages r i
    unfold ShadowMemory.clear
    split
    · exact hpm _ rfl
    · exact hpm _ rfl
  lines r l c hl := by
    have hl' : s.LineAt r l c := by
      obtain ⟨t, ht, hc⟩ := hl
      exact ⟨t, (clear_table s range index r (l / 64)).symm.trans ht, hc⟩
    rw [clear_cacheMap]
    split
    · next hcell =>
        -- the cell is in the cleared table, so the line is on the cleared page
        obtain ⟨t, ht, h1, h2⟩ := hcell
        obtain ⟨t', ht', rfl⟩ := hl'
        obtain ⟨rfl, hi⟩ := hs.layout.apart ht' ht (by omega) (by omega)
        rw [hE l hi]
        rfl
    · exact hs.lines r l c hl'
  untabled r l hr := by
    rw [clear_table] at hr
    exact hs.untabled r l hr

theorem clearPages {range : Nat} : ∀ (n current : Nat) {s : ShadowMemory}, Counts U E s →
    (∀ i, current ≤ i → i < current + n → U range i = 0) →
    (∀ l, current ≤ l / 64 → l / 64 < current + n → E range l = 0) →
    Counts U E (ShadowMemory.clearPages range n current s)
  | 0, _, _, hs, _, _ => hs
  | n + 1, current, _, hs, hU, hE =>
      clearPages n (current + 1) (hs.clear (hU current (by omega) (by omega))
        fun l hl => hE l (by omega) (by omega))
        (fun i h1 h2 => hU i (by omega) (by omega)) (fun l h1 h2 => hE l (by omega) (by omega))

end Counts

/-! ## What an operation does to one counter -/

namespace ShadowMemory

theorem walkedPage_add {e : PageMapEntry} {U idx off len i : Nat} {o : Span} {B : Nat}
    (ho : o.start = B + 4096 * idx + off) (hoff : off < 4096) (hlen : o.len = len)
    (he : e.numUsedBytes = U) (hfit : o.overlap (B + 4096 * i) 4096 + U ≤ 4096) :
    (walkedPage .addUsedBytes .setFull idx (min (4096 - off) len)
      ((len - min (4096 - off) len) / 4096) ((len - min (4096 - off) len) % 4096)
      i e).numUsedBytes = (o.overlap (B + 4096 * i) 4096 + U : Nat) := by
  have hadd : ∀ n, n + U ≤ 4096 → (e.addUsedBytes n).numUsedBytes = (n + U : Nat) := by
    intro n hn
    simp only [PageMapEntry.addUsedBytes, he]
    rw [swrap_of_range] <;> omega
  unfold walkedPage
  split
  · next hi =>
      rw [Span.overlap_first (by omega) (by omega)] at hfit ⊢
      rw [show min (B + 4096 * i + 4096 - o.start) o.len = min (4096 - off) len by omega] at *
      exact hadd _ hfit
  · split
    · next h =>
        rw [Span.overlap_full (by omega) (by omega)] at hfit ⊢
        show (4096 : Int) = _
        omega
    · split
      · next h =>
          rw [Span.overlap_last (by omega) (by omega)] at hfit ⊢
          rw [show o.start + o.len - (B + 4096 * i) = (len - min (4096 - off) len) % 4096 by
            omega] at *
          exact hadd _ hfit
      · next h => rw [Span.overlap_outside (by omega), he, Nat.zero_add]

theorem walkedPage_sub {e : PageMapEntry} {U idx off len i : Nat} {o : Span} {B : Nat}
    (ho : o.start = B + 4096 * idx + off) (hoff : off < 4096) (hlen : o.len = len)
    (he : e.numUsedBytes = (o.overlap (B + 4096 * i) 4096 + U : Nat))
    (hfit : o.overlap (B + 4096 * i) 4096 + U ≤ 4096) :
    (walkedPage .subUsedBytes .setEmpty idx (min (4096 - off) len)
      ((len - min (4096 - off) len) / 4096) ((len - min (4096 - off) len) % 4096)
      i e).numUsedBytes = U := by
  have hsub : ∀ n, n + U ≤ 4096 → e.numUsedBytes = (n + U : Nat) →
      (e.subUsedBytes n).numUsedBytes = U := by
    intro n hn hen
    simp only [PageMapEntry.subUsedBytes, hen]
    rw [swrap_of_range] <;> omega
  unfold walkedPage
  split
  · next hi =>
      rw [Span.overlap_first (by omega) (by omega)] at he hfit
      rw [show min (B + 4096 * i + 4096 - o.start) o.len = min (4096 - off) len by omega] at *
      exact hsub _ hfit he
  · split
    · next h =>
        rw [Span.overlap_full (by omega) (by omega)] at hfit
        show (0 : Int) = _
        omega
    · split
      · next h =>
          rw [Span.overlap_last (by omega) (by omega)] at he hfit
          rw [show o.start + o.len - (B + 4096 * i) = (len - min (4096 - off) len) % 4096 by
            omega] at *
          exact hsub _ hfit he
      · next h => rw [he, Span.overlap_outside (by omega), Nat.zero_add]

theorem mallocPartLine_count {c n w : Nat} {t : ShadowMemory}
    (hw : (t.cacheMap c).numUsedBytes = w) (hfit : n + w ≤ 64) :
    ((mallocPartLine n c t).cacheMap c).numUsedBytes = (n + w : Nat) := by
  simp only [mallocPartLine, modifyLine_cacheMap_self, CacheMapEntry.addUsedBytes, hw]
  rw [swrap_of_range] <;> omega

theorem freePartLine_count {o : ObjStat} {c n w : Nat} {t : ShadowMemory}
    (hw : (t.cacheMap c).numUsedBytes = (n + w : Nat)) (hfit : n + w ≤ 64) :
    ((freePartLine o n c t).cacheMap c).numUsedBytes = w := by
  have hsub : ((t.cacheMap c).subUsedBytes n).numUsedBytes = w := by
    simp only [CacheMapEntry.subUsedBytes, hw]
    rw [swrap_of_range] <;> omega
  simp only [freePartLine]
  split <;> split <;> simpa [setConflictData, modifyCoherency] using hsub

theorem freeWholeLine_count (o : ObjStat) (c : Nat) (t : ShadowMemory) :
    ((freeWholeLine o c t).cacheMap c).numUsedBytes = 0 := by
  simp [freeWholeLine, CacheMapEntry.setEmpty]

/-- A sampled miss leaves the byte count of its line alone. -/
theorem recordMiss_count (tid addr c : Nat) (t : ShadowMemory) :
    ((t.recordMiss tid addr c).cacheMap c).numUsedBytes = (t.cacheMap c).numUsedBytes := by
  have haddMiss : ∀ (d : ConflictData) (e : CacheMapEntry),
      (d.addMiss addr c e).2.numUsedBytes = e.numUsedBytes := by
    intro d e
    simp only [ConflictData.addMiss]
    split
    · split <;> rfl
    · rfl
  rw [recordMiss, recordCoherency_usage, addMiss]
  simpa using haddMiss t.conflictData (t.cacheMap c)

end ShadowMemory

end MemPerf
