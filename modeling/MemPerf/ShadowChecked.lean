import MemPerf.ShadowWalk

/-!
# Checked walks

Several properties are about every access an operation makes, also in
the middle of a walk: that a search ends at the line's entry, that a page
entry is the right one. Such a property is stated by a twin of the
operation that makes the same steps and stops with a `Fault` at an access
that is not as it should be; the property holds if twin and operation do
the same (`orAbort`).

Here are the line walk with checked actions and the one lemma about it.
-/

namespace MemPerf

inductive Fault where
  /-- The `abort()` of an exhausted cache map. -/
  | cacheMapExhausted
  | searchFailed
  | counterCarry
  | wrongEntry
deriving DecidableEq, Repr

/-- An operation that can only abort, as a checked one. -/
def orAbort {α : Type} : Option α → Except Fault α
  | some a => .ok a
  | none => .error .cacheMapExhausted

theorem orAbort_ne_wrongEntry {α : Type} (a : Option α) : orAbort a ≠ .error .wrongEntry := by
  cases a <;> simp [orAbort]

namespace ShadowMemory

/-! ## The line walk -/

def nextLineChecked (get : ShadowMemory → Nat → Except Fault (ShadowMemory × Nat))
    (s : ShadowMemory) (w : LineCursor) : Except Fault (ShadowMemory × LineCursor) :=
  if w.cacheIndex = numCachelinesPerPage then do
    let (s, table) ← get s (w.targetPage + 1)
    .ok (s, { targetPage := w.targetPage + 1, current := table, cacheIndex := 0 })
  else .ok (s, { w with current := w.current + 1 })

def wholeLinesChecked (get : ShadowMemory → Nat → Except Fault (ShadowMemory × Nat))
    (whole : Nat → ShadowMemory → Except Fault ShadowMemory) :
    Nat → ShadowMemory → LineCursor → Except Fault (ShadowMemory × LineCursor)
  | 0, s, w => .ok (s, w)
  | n + 1, s, w => do
      let (s, w) ← nextLineChecked get s w
      let s ← whole w.current s
      wholeLinesChecked get whole n s { w with cacheIndex := w.cacheIndex + 1 }

/-- `get` gets the line table of a page of the walk. -/
def walkCacheLinesChecked (get : ShadowMemory → Nat → Except Fault (ShadowMemory × Nat))
    (part : Nat → Nat → ShadowMemory → Except Fault ShadowMemory)
    (whole : Nat → ShadowMemory → Except Fault ShadowMemory)
    (pageIndex cacheIndex firstCacheLineOffset size : Nat) (s : ShadowMemory) :
    Except Fault ShadowMemory := do
  let (s, table) ← get s pageIndex
  let current := table + cacheIndex
  let curCacheLineBytes := min (cachelineSize - firstCacheLineOffset) size
  let s ← part curCacheLineBytes current s
  let sizeRemain := size - curCacheLineBytes
  let (s, w) ← wholeLinesChecked get whole (sizeRemain / cachelineSize) s
    { targetPage := pageIndex, current := current, cacheIndex := cacheIndex + 1 }
  if sizeRemain % cachelineSize > 0 then do
    let (s, w) ← nextLineChecked get s w
    part (sizeRemain % cachelineSize) w.current s
  else .ok s

section walk

variable {P : ShadowMemory → Prop} {range : Nat}
  {get : ShadowMemory → Nat → Except Fault (ShadowMemory × Nat)}
  {part : Nat → Nat → ShadowMemory → ShadowMemory} {whole : Nat → ShadowMemory → ShadowMemory}
  {partChecked : Nat → Nat → ShadowMemory → Except Fault ShadowMemory}
  {wholeChecked : Nat → ShadowMemory → Except Fault ShadowMemory}

/-- `get` is `getCacheMapEntry` on page `i`, and keeps `P`. -/
def Gets (P : ShadowMemory → Prop) (range : Nat)
    (get : ShadowMemory → Nat → Except Fault (ShadowMemory × Nat)) (i : Nat) : Prop :=
  ∀ s, P s → get s i = orAbort (s.getCacheMapEntry range i)
    ∧ ∀ s' t, s.getCacheMapEntry range i = some (s', t) → P s'

/-- The action of a whole line is the checked one, and keeps `P`. -/
def ActsWhole (P : ShadowMemory → Prop) (whole : Nat → ShadowMemory → ShadowMemory)
    (wholeChecked : Nat → ShadowMemory → Except Fault ShadowMemory) : Prop :=
  ∀ s, P s → ∀ c, P (whole c s) ∧ wholeChecked c s = .ok (whole c s)

/-- The same of a part of a line. -/
def ActsPart (P : ShadowMemory → Prop) (part : Nat → Nat → ShadowMemory → ShadowMemory)
    (partChecked : Nat → Nat → ShadowMemory → Except Fault ShadowMemory) : Prop :=
  ∀ s, P s → ∀ n c, P (part n c s) ∧ partChecked n c s = .ok (part n c s)

theorem nextLineChecked_eq {s : ShadowMemory} {w : LineCursor} (hs : P s)
    (hget : w.cacheIndex = 64 → Gets P range get (w.targetPage + 1)) :
    nextLineChecked get s w = orAbort (nextLine range s w)
    ∧ ∀ s' w', nextLine range s w = some (s', w') → P s'
      ∧ 64 * w'.targetPage + w'.cacheIndex = 64 * w.targetPage + w.cacheIndex := by
  unfold nextLineChecked nextLine
  by_cases hcross : w.cacheIndex = numCachelinesPerPage
  · rw [if_pos hcross, if_pos hcross]
    obtain ⟨heq, hkeep⟩ := hget hcross s hs
    rw [heq]
    cases hopt : s.getCacheMapEntry range (w.targetPage + 1) with
    | none => exact ⟨rfl, fun s' w' h => by cases h⟩
    | some found =>
        obtain ⟨s1, t⟩ := found
        refine ⟨rfl, fun s' w' h => ?_⟩
        cases h
        have hcross' : w.cacheIndex = 64 := hcross
        refine ⟨hkeep s1 t hopt, ?_⟩
        simp only
        omega
  · rw [if_neg hcross, if_neg hcross]
    refine ⟨rfl, fun s' w' h => ?_⟩
    cases h
    exact ⟨hs, rfl⟩

theorem wholeLinesChecked_eq (hwhole : ActsWhole P whole wholeChecked) :
    ∀ (n : Nat) {s : ShadowMemory} (w : LineCursor), P s →
    (∀ i, w.targetPage < i → 64 * i < 64 * w.targetPage + w.cacheIndex + n → Gets P range get i) →
    wholeLinesChecked get wholeChecked n s w = orAbort (wholeLines whole range n s w)
    ∧ ∀ s' w', wholeLines whole range n s w = some (s', w') → P s'
      ∧ 64 * w'.targetPage + w'.cacheIndex = 64 * w.targetPage + w.cacheIndex + n
      ∧ w.targetPage ≤ w'.targetPage
  | 0, s, w, hs, _ => ⟨rfl, fun s' w' h => by cases h; exact ⟨hs, rfl, le_rfl⟩⟩
  | n + 1, s, w, hs, hget => by
      rw [wholeLines, wholeLinesChecked]
      obtain ⟨hnext, hkeep⟩ := nextLineChecked_eq (w := w) hs
        fun hcross => hget _ (Nat.lt_succ_self _) (by omega)
      rw [hnext]
      cases hopt : nextLine range s w with
      | none => exact ⟨rfl, fun s' w' h => by cases h⟩
      | some next =>
          obtain ⟨s1, w1⟩ := next
          obtain ⟨h1, hline⟩ := hkeep s1 w1 hopt
          have hpage : w.targetPage ≤ w1.targetPage := by
            unfold nextLine at hopt
            split at hopt
            · obtain ⟨found, -, h⟩ := Option.bind_eq_some_iff.mp hopt
              cases h
              exact Nat.le_succ _
            · cases hopt
              exact le_rfl
          obtain ⟨h2, hchecked⟩ := hwhole s1 h1 w1.current
          simp only [orAbort, bind, Except.bind, Option.bind, hchecked]
          obtain ⟨hrest, hend⟩ := wholeLinesChecked_eq hwhole n
            { w1 with cacheIndex := w1.cacheIndex + 1 } h2 fun i hi hlt => by
              simp only at hi hlt
              exact hget i (by omega) (by omega)
          refine ⟨hrest, fun s' w' h => ?_⟩
          obtain ⟨h3, hsum, hle⟩ := hend s' w' h
          simp only at hsum hle
          exact ⟨h3, by omega, by omega⟩

/-- **The checked walk is the walk** if its actions are and its pages are
got as they are: page `i` is asked for only if the walk gets that far. -/
theorem walkCacheLinesChecked_eq (hpart : ActsPart P part partChecked)
    (hwhole : ActsWhole P whole wholeChecked) {s : ShadowMemory} (hs : P s)
    {pageIndex cacheIndex firstCacheLineOffset size : Nat}
    (hget : ∀ i, pageIndex ≤ i → 64 * (i - pageIndex) ≤ cacheIndex
      + (size - min (cachelineSize - firstCacheLineOffset) size + 63) / 64 → Gets P range get i) :
    s.walkCacheLinesChecked get partChecked wholeChecked pageIndex cacheIndex
        firstCacheLineOffset size
      = orAbort (s.walkCacheLines part whole range pageIndex cacheIndex firstCacheLineOffset size)
    ∧ ∀ s', s.walkCacheLines part whole range pageIndex cacheIndex firstCacheLineOffset size
        = some s' → P s' := by
  rw [walkCacheLines, walkCacheLinesChecked]
  obtain ⟨hfirst, hkeep⟩ := hget pageIndex le_rfl (by omega) s hs
  rw [hfirst]
  cases hopt : s.getCacheMapEntry range pageIndex with
  | none => exact ⟨rfl, fun s' h => by cases h⟩
  | some found =>
      obtain ⟨s1, table⟩ := found
      generalize min (cachelineSize - firstCacheLineOffset) size = first at hget ⊢
      obtain ⟨h2, hpart1⟩ := hpart s1 (hkeep s1 table hopt) first (table + cacheIndex)
      simp only [orAbort, bind, Except.bind, Option.bind, hpart1]
      obtain ⟨hlines, h3⟩ := wholeLinesChecked_eq hwhole
        ((size - first) / cachelineSize) { targetPage := pageIndex
                                           current := table + cacheIndex
                                           cacheIndex := cacheIndex + 1 } h2
        fun i hi hlt => hget i (Nat.le_of_lt hi) (by simp only [cachelineSize] at hi hlt; omega)
      rw [hlines]
      generalize wholeLines whole range ((size - first) / cachelineSize)
        (part first (table + cacheIndex) s1) _ = walked at h3 ⊢
      cases walked with
      | none => exact ⟨rfl, fun s' h => by cases h⟩
      | some last =>
          obtain ⟨s3, w3⟩ := last
          obtain ⟨h3, hsum, hle⟩ := h3 s3 w3 rfl
          simp only [cachelineSize] at hsum hle
          simp only [orAbort]
          by_cases hrest : (size - first) % cachelineSize > 0
          · rw [if_pos hrest, if_pos hrest]
            simp only [cachelineSize] at hrest
            obtain ⟨hnext, h4⟩ := nextLineChecked_eq (w := w3) h3 fun hcross =>
              hget _ (by omega) (by omega)
            rw [hnext]
            cases hopt' : nextLine range s3 w3 with
            | none => exact ⟨rfl, fun s' h => by cases h⟩
            | some next =>
                obtain ⟨s4, w4⟩ := next
                obtain ⟨h5, hlast⟩ := hpart s4 (h4 s4 w4 hopt').1
                  ((size - first) % cachelineSize) w4.current
                exact ⟨hlast, fun s' h => by cases h; exact h5⟩
          · rw [if_neg hrest, if_neg hrest]
            exact ⟨rfl, fun s' h => by cases h; exact h3⟩

end walk

end ShadowMemory

end MemPerf
