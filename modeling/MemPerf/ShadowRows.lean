import MemPerf.ShadowWatch

/-!
# The thread lists of a tracked line

Each of the eight rows `tidsPerWord[w]` of a line's entry holds the
threads that missed on word `w` since the tracking of the line began:
every thread once, in order of first miss, the first sixteen of them,
then zeros (`tracked_rows_exact`). A sampled miss rewrites one row of
the entry of its own line.

`cleanupPages` ends the tracking of the lines of a page by zeroing their
flags, but their entries stay. When such a line is tracked again it has
two entries, and of the misses that follow the new one hears nothing
(`rows_split_after_cleanup`). So the runs are those in which a cleanup
meets no tracked line.
-/

namespace MemPerf

open StepSystem ShadowMemory

/-! ## The misses since the tracking began -/

/-- The shadow memory, and for each tracked line its sampled misses since
the tracking began, oldest first. -/
structure LineHistory where
  mem : ShadowMemory := {}
  hits : Nat → Nat → List Hit := fun _ _ => []

/-- The miss that sets a line's flag is the first of its history; a line
whose flag is cleared has none. -/
def LineHistory.step (w : LineHistory) (op : ShadowOp) : Option LineHistory := do
  let mem ← w.mem.step op
  some
    { mem := mem
      hits := fun range l =>
        if mem.tracked range l then w.hits range l ++ w.mem.hitOn mem range l op else [] }

/-- The operation cleans no page that holds a tracked line. -/
def KeepsTracking (s : ShadowMemory) : ShadowOp → Prop
  | .cleanupPages uintaddr length => ∀ l c, s.LineAt (getPageIndex uintaddr).1 l c →
      (getPageIndex uintaddr).2 ≤ l / 64 →
      l / 64 < (getPageIndex uintaddr).2 + alignup length pagesize / pagesize →
      (s.cacheMap c).coherency = false
  | _ => True

/-- A row after the threads `missed` missed on its word. -/
structure RowExact (missed : List Nat) (row : Nat → Nat) : Prop where
  slots : (List.range 16).map row =
    (Slots.arrivals missed).take 16 ++ List.replicate (16 - (Slots.arrivals missed).length) 0
  distinct : ∀ i < 16, ∀ j < 16, row i = row j → row i ≠ 0 → i = j

/-- The rows of every tracked line that only threads with a non-zero
index missed on. -/
def LineHistory.RowsExact (w : LineHistory) : Prop :=
  ∀ r l c, w.mem.LineAt r l c → w.mem.tracked r l = true → (∀ h ∈ w.hits r l, h.tid ≠ 0) →
    (∃ i < w.mem.numOfCoherencyCaches, (w.mem.coherencyCaches i).cme = some c) ∧
    ∀ i < w.mem.numOfCoherencyCaches, (w.mem.coherencyCaches i).cme = some c →
      ∀ word, RowExact (tidsOn (w.hits r l) word) ((w.mem.coherencyCaches i).tidsPerWord word)

/-- From `s` to `s'` at most one row was rewritten: that of `word` in an
entry of line cell `c`, the only line cell that may have changed. -/
structure RewritesRow (c word : Nat) (s s' : ShadowMemory) : Prop where
  lines : ∀ c', c' ≠ c → s'.cacheMap c' = s.cacheMap c'
  entries : ∀ i, s'.coherencyCaches i = s.coherencyCaches i ∨
    ((s'.coherencyCaches i).cme = some c
      ∧ (s'.coherencyCaches i).callKey = (s.coherencyCaches i).callKey
      ∧ (s'.coherencyCaches i).allocateTid = (s.coherencyCaches i).allocateTid
      ∧ ∀ word', word' ≠ word →
        (s'.coherencyCaches i).tidsPerWord word' = (s.coherencyCaches i).tidsPerWord word')

/-- An access rewrites at most the row of its word in the entry of its line. -/
def AccessFramed (s : ShadowMemory) (tid uintaddr : Nat) (miss : Bool) : Prop :=
  match s.sampledLine uintaddr with
  | some (_, c) => RewritesRow c (wordIndexOf uintaddr) s (s.doMemoryAccess tid uintaddr miss)
  | none => s.doMemoryAccess tid uintaddr miss = s

/-! ## Cleaning pages without tracked lines -/

namespace ShadowMemory

/-- What is left when pages without tracked lines are cleaned: all of the
coherency table, and all cells but some that had no flag. -/
structure CleanedUntracked (s s' : ShadowMemory) : Prop where
  table : ∀ r i, s'.table r i = s.table r i
  caches : s'.coherencyCaches = s.coherencyCaches
  num : s'.numOfCoherencyCaches = s.numOfCoherencyCaches
  cell : ∀ c, s'.cacheMap c = s.cacheMap c
    ∨ s'.cacheMap c = {} ∧ (s.cacheMap c).coherency = false

theorem clear_cleaned {s : ShadowMemory} {range index : Nat}
    (h : ∀ l c, s.LineAt range l c → l / 64 = index → (s.cacheMap c).coherency = false) :
    CleanedUntracked s (s.clear range index) := by
  have hcell : ∀ c, (s.clear range index).cacheMap c = s.cacheMap c
      ∨ (s.clear range index).cacheMap c = {} ∧ (s.cacheMap c).coherency = false := by
    intro c
    rw [clear_cacheMap]
    split
    · next hin =>
        obtain ⟨t, ht, hlo, hhi⟩ := hin
        have hpage : (64 * index + (c - t)) / 64 = index := by omega
        refine Or.inr ⟨rfl, h (64 * index + (c - t)) c ⟨t, ?_, by omega⟩ hpage⟩
        rw [hpage]
        exact ht
    · exact Or.inl rfl
  have htable := clear_table s range index
  revert hcell htable
  unfold clear
  split
  · exact fun hcell htable => ⟨htable, rfl, rfl, hcell⟩
  · exact fun hcell htable => ⟨htable, rfl, rfl, hcell⟩

theorem CleanedUntracked.trans {s s' s'' : ShadowMemory} (h : CleanedUntracked s s')
    (h' : CleanedUntracked s' s'') : CleanedUntracked s s'' where
  table r i := (h'.table r i).trans (h.table r i)
  caches := h'.caches.trans h.caches
  num := h'.num.trans h.num
  cell c := by
    rcases h'.cell c with hc | ⟨hc, hflag⟩
    · rw [hc]
      exact h.cell c
    · rcases h.cell c with hc' | ⟨-, hflag'⟩
      · exact Or.inr ⟨hc, hc' ▸ hflag⟩
      · exact Or.inr ⟨hc, hflag'⟩

theorem CleanedUntracked.lineAt {s s' : ShadowMemory} (h : CleanedUntracked s s') {r l c : Nat} :
    s'.LineAt r l c ↔ s.LineAt r l c := by
  have htable : ∀ t, s'.table r (l / 64) = some t ↔ s.table r (l / 64) = some t := by
    intro t
    rw [h.table]
  exact exists_congr fun t => and_congr_left' (htable t)

theorem CleanedUntracked.coherency {s s' : ShadowMemory} (h : CleanedUntracked s s') (c : Nat) :
    (s'.cacheMap c).coherency = (s.cacheMap c).coherency := by
  rcases h.cell c with hc | ⟨hc, hflag⟩
  · rw [hc]
  · rw [hc, hflag]
    rfl

theorem clearPages_cleaned {range : Nat} : ∀ (n current : Nat) {s : ShadowMemory},
    (∀ l c, s.LineAt range l c → current ≤ l / 64 → l / 64 < current + n →
      (s.cacheMap c).coherency = false) →
    CleanedUntracked s (clearPages range n current s)
  | 0, _, _, _ => ⟨fun _ _ => rfl, rfl, rfl, fun _ => Or.inl rfl⟩
  | n + 1, current, s, h => by
      have h1 : CleanedUntracked s (s.clear range current) :=
        clear_cleaned fun l c hl hi => h l c hl (by omega) (by omega)
      refine h1.trans (clearPages_cleaned n (current + 1) fun l c hl hlo hhi => ?_)
      rw [h1.coherency]
      exact h l c (h1.lineAt.mp hl) (by omega) (by omega)

end ShadowMemory

namespace Watching

variable {w : Watched}

theorem cleanup (hw : Watching w) {uintaddr length : Nat}
    (hkeep : KeepsTracking w.mem (.cleanupPages uintaddr length)) :
    Watching ⟨w.mem.cleanupPages uintaddr length, w.hits, w.frees⟩ := by
  have hlay : (w.mem.cleanupPages uintaddr length).Layout := Layout.clearPages _ _ hw.layout
  have hclean : CleanedUntracked w.mem (w.mem.cleanupPages uintaddr length) :=
    clearPages_cleaned _ _ hkeep
  generalize w.mem.cleanupPages uintaddr length = s' at hlay hclean
  -- a cell that has the flag was not cleaned
  have hcell : ∀ c, (s'.cacheMap c).coherency = true → s'.cacheMap c = w.mem.cacheMap c := by
    intro c hc
    rcases hclean.cell c with hsame | ⟨hempty, -⟩
    · exact hsame
    · rw [hempty] at hc
      cases hc
  refine ⟨hlay, hclean.num.symm ▸ hw.num_le, ?_, ?_, ?_, ?_, ?_, ?_, ?_⟩
  · show FlaggedTable _ s'.numOfCoherencyCaches _
    rw [hclean.num]
    refine hw.table.mono (fun i _ => ?_) fun c hc => (hclean.coherency c).trans hc
    show (s'.coherencyCaches i).cme = _
    rw [hclean.caches]
  · intro c hc
    obtain ⟨i, hi, hci⟩ := hw.member c ((hclean.coherency c).symm.trans hc)
    exact ⟨i, hclean.num.symm ▸ hi, by rw [hclean.caches]; exact hci⟩
  · intro c hc
    show 5 ≤ s'.missCount c
    rw [missCount, hcell c hc]
    exact hw.five c ((hclean.coherency c).symm.trans hc)
  · intro i hi
    rw [hclean.caches]
    exact hw.fresh i (hclean.num ▸ hi)
  · intro i hi r l c hc hl
    rw [hclean.caches] at hc ⊢
    exact hw.rows i (hclean.num ▸ hi) r l c hc (hclean.lineAt.mp hl)
  · intro i hi r l c hc hl
    rw [hclean.caches] at hc ⊢
    exact hw.owners i (hclean.num ▸ hi) r l c hc (hclean.lineAt.mp hl)
  · intro r l htr
    refine hw.quiet r l ?_
    have htr' : s'.tracked r l = false := htr
    unfold ShadowMemory.tracked at htr' ⊢
    rw [hclean.table] at htr'
    cases ht : w.mem.table r (l / 64) with
    | none => rfl
    | some t =>
        simp only [ht] at htr' ⊢
        exact (hclean.coherency _).symm.trans htr'

/-- A watched state's histories are what is kept of tracked lines. -/
theorem hits_eq (hw : Watching w) :
    (fun r l => if w.mem.tracked r l then w.hits r l else []) = w.hits := by
  funext r l
  by_cases htr : w.mem.tracked r l = true
  · rw [if_pos htr]
  · rw [if_neg htr, (hw.quiet r l (by simpa using htr)).1]

end Watching

/-! ## Runs -/

namespace LineHistory

variable {w w' : LineHistory}

/-- A history is a watched run that forgets the frees. -/
def Good (w : LineHistory) : Prop := ∃ frees, Watching ⟨w.mem, w.hits, frees⟩

theorem Good.step (hw : w.Good) {op : ShadowOp} (hop : KeepsTracking w.mem op)
    (h : w.step op = some w') : w'.Good := by
  obtain ⟨frees, hw⟩ := hw
  obtain ⟨mem, hmem, hw'⟩ := Option.bind_eq_some_iff.mp h
  obtain rfl := Option.some.inj hw'
  have hnext : ∃ frees', Watching
      ⟨mem, fun r l => w.hits r l ++ w.mem.hitOn mem r l op, frees'⟩ := by
    by_cases hclean : NoCleanup op
    · have hstep : Watched.step ⟨w.mem, w.hits, frees⟩ op = some
          ⟨mem, fun r l => w.hits r l ++ w.mem.hitOn mem r l op,
            fun r l => frees r l ++ w.mem.freeOn r l op⟩ := by
        simp only [Watched.step, hmem]
        rfl
      exact ⟨_, hw.step hclean hstep⟩
    · cases op with
      | cleanupPages uintaddr length =>
          obtain rfl := Option.some.inj hmem
          simp only [hitOn, List.append_nil]
          exact ⟨frees, hw.cleanup hop⟩
      | mallocUpdateObject address size => exact absurd trivial hclean
      | freeUpdateObject address objStat => exact absurd trivial hclean
      | doMemoryAccess tid uintaddr miss => exact absurd trivial hclean
  obtain ⟨frees', hw'⟩ := hnext
  refine ⟨frees', ?_⟩
  have hhits := hw'.hits_eq
  simp only at hhits ⊢
  rw [hhits]
  exact hw'

theorem Good.rowsExact (hw : w.Good) : w.RowsExact := by
  obtain ⟨frees, hw⟩ := hw
  intro r l c hl htr hne
  refine ⟨hw.member c ((tracked_eq hl).symm.trans htr), fun i hi hc word => ?_⟩
  rw [hw.rows i hi r l c hc hl hne word]
  exact ⟨Slots.map_row _ _ _, fun i _ j _ => Slots.row_inj⟩

end LineHistory

/-- What came before concerned no entry, and no other line cell. -/
theorem RewritesRow.after {s s₁ s' : ShadowMemory} {c word : Nat} (h : RewritesRow c word s₁ s')
    (hcaches : s₁.coherencyCaches = s.coherencyCaches)
    (hcells : ∀ c', c' ≠ c → s₁.cacheMap c' = s.cacheMap c') : RewritesRow c word s s' where
  lines c' hne := (h.lines c' hne).trans (hcells c' hne)
  entries i := by
    have hentry := h.entries i
    rw [hcaches] at hentry
    exact hentry

/-- The coherency half of a miss on a line whose entry the search finds. -/
theorem recordCoherency_rewrites {s : ShadowMemory} {c : Nat}
    (hfound : (s.cacheMap c).coherency = true →
      (s.coherencyCaches (s.coherencyIndex c)).cme = some c) (tid uintaddr : Nat) :
    RewritesRow c (wordIndexOf uintaddr) s (s.recordCoherency tid uintaddr c) := by
  refine ⟨(recordCoherency_touches tid uintaddr c s).cacheMap, fun i => ?_⟩
  have hrow : ∀ (d : CoherencyData) (word' : Nat), word' ≠ wordIndexOf uintaddr →
      (d.recordWord (wordIndexOf uintaddr) tid).tidsPerWord word' = d.tidsPerWord word' :=
    fun d word' hne => Function.update_of_ne hne _ _
  rcases recordCoherency_outcomes s tid uintaddr c with
    ⟨-, htr, heq⟩ | ⟨-, -, -, heq⟩ | ⟨-, -, -, heq⟩ | ⟨-, heq⟩
  · rw [heq]
    by_cases hi : i = s.coherencyIndex c
    · subst hi
      refine Or.inr ?_
      simp only [modifyCoherency, Function.update_self]
      exact ⟨hfound htr, rfl, rfl, fun word' hne => hrow _ word' hne⟩
    · exact Or.inl (Function.update_of_ne hi _ _)
  · rw [heq]
    by_cases hi : i = s.numOfCoherencyCaches
    · subst hi
      refine Or.inr ?_
      simp only [Function.update_self]
      exact ⟨rfl, rfl, rfl, fun word' hne => hrow _ word' hne⟩
    · exact Or.inl (Function.update_of_ne hi _ _)
  · rw [heq]
    exact Or.inl rfl
  · rw [heq]
    exact Or.inl rfl

namespace LineHistory

variable {w : LineHistory}

theorem Good.accessFramed (hw : w.Good) (tid uintaddr : Nat) (miss : Bool) :
    AccessFramed w.mem tid uintaddr miss := by
  obtain ⟨frees, hw⟩ := hw
  unfold AccessFramed
  cases hsampled : w.mem.sampledLine uintaddr with
  | none => simp only [doMemoryAccess, hsampled]
  | some found =>
      obtain ⟨pme, c⟩ := found
      simp only [doMemoryAccess, hsampled]
      split
      · -- the friendliness totals and the conflict table concern no row
        have hfound : (w.mem.cacheMap c).coherency = true →
            (w.mem.coherencyCaches (w.mem.coherencyIndex c)).cme = some c := by
          intro htr
          obtain ⟨i, hi, hci⟩ := hw.member c htr
          rw [coherencyIndex_eq hi hci fun j hj hcj => hw.entry_unique hj hi hcj hci]
          exact hci
        generalize hs1 : ({ w.mem with
          friendlinessStatus := Function.update w.mem.friendlinessStatus tid
            ((w.mem.friendlinessStatus tid).recordANewSampling (w.mem.cacheMap c).getUsedBytes
              pme.getUsedBytes) } : ShadowMemory) = s1
        have hcaches : (s1.addMiss uintaddr c).coherencyCaches = w.mem.coherencyCaches := by
          rw [← hs1]
          rfl
        have hcells : ∀ c', c' ≠ c → (s1.addMiss uintaddr c).cacheMap c' = w.mem.cacheMap c' := by
          intro c' hne
          rw [(addMiss_touches uintaddr c s1).cacheMap c' hne, ← hs1]
        have hflag : ((s1.addMiss uintaddr c).cacheMap c).coherency
            = (w.mem.cacheMap c).coherency := by
          rw [coherency_eq_of_low7 (addMiss_low7 s1 uintaddr c c), ← hs1]
        have hindex : (s1.addMiss uintaddr c).coherencyIndex c = w.mem.coherencyIndex c := by
          rw [← hs1]
          rfl
        have hrec := recordCoherency_rewrites (s := s1.addMiss uintaddr c) (c := c)
          (by rw [hflag, hindex, hcaches]; exact hfound) tid uintaddr
        exact hrec.after hcaches hcells
      · exact ⟨fun _ _ => rfl, fun _ => Or.inl rfl⟩

end LineHistory

/-- **The thread lists of tracked lines are exact** in every state of a run
that cleans no page with a tracked line, and the next access rewrites at
most the row of its word. -/
theorem tracked_rows_exact {past : List ShadowOp} {w : LineHistory}
    (h : Run LineHistory.step (fun _ w op => KeepsTracking w.mem op) {} past w) :
    w.RowsExact ∧ ∀ tid uintaddr miss, AccessFramed w.mem tid uintaddr miss := by
  have hw : w.Good := by
    refine h.invariant LineHistory.Good ⟨fun _ _ => [], watching_init⟩ ?_
    intro past w op w' hw hop hstep
    exact hw.step hop hstep
  exact ⟨hw.rowsExact, hw.accessFramed⟩

/-- An object of eight bytes and six misses of a thread on it. -/
def sixMisses (tid : Nat) : List ShadowOp :=
  .mallocUpdateObject 0x10000000000 8
    :: List.replicate 6 (.doMemoryAccess tid 0x10000000000 true)

/-- Three threads on one word: the row has them in order of first miss. -/
theorem tracked_rows_exact_three_threads :
    ∃ past w, Run LineHistory.step (fun _ w op => KeepsTracking w.mem op) {} past w
      ∧ w.RowsExact ∧ tidsOn (w.hits 1 0) 0 = [3, 1, 3, 2, 1] := by
  let ops : List ShadowOp := sixMisses 3
    ++ [1, 3, 2, 1].map fun tid => .doMemoryAccess tid 0x10000000000 true
  have hvals : ((ops.foldlM LineHistory.step {}).map fun w => tidsOn (w.hits 1 0) 0)
      = some [3, 1, 3, 2, 1] := by decide +kernel
  obtain ⟨w, hw, htids⟩ := Option.map_eq_some_iff.mp hvals
  have hkeeps : ∀ op ∈ ops, ∀ w : LineHistory, KeepsTracking w.mem op := by
    intro op hop w
    simp only [ops, sixMisses, List.cons_append, List.mem_cons, List.mem_append, List.mem_map]
      at hop
    rcases hop with rfl | hop | ⟨tid, -, rfl⟩
    · trivial
    · obtain rfl := List.eq_of_mem_replicate hop
      trivial
    · trivial
  have hrun : Run LineHistory.step (fun _ w op => KeepsTracking w.mem op) {} ops w :=
    Run.ofFoldlM (fun op hop _ w => hkeeps op hop w) hw
  exact ⟨ops, w, hrun, (tracked_rows_exact hrun).1, htids⟩

/-- A tracked line's page is freed, cleaned and used again: the line gets
a second entry, and the miss of thread 3 after that goes to the first. -/
theorem rows_split_after_cleanup :
    ¬ ∀ past w, Run LineHistory.step (fun _ _ _ => True) {} past w → w.RowsExact := by
  intro hclaim
  let ops : List ShadowOp := sixMisses 1
    ++ .freeUpdateObject 0x10000000000 ⟨1, 1, 8⟩ :: .cleanupPages 0x10000000000 4096
      :: (sixMisses 2 ++ [.doMemoryAccess 3 0x10000000000 true])
  have hvals : ((ops.foldlM LineHistory.step {}).map fun w =>
      ((w.mem.table 1 0, w.mem.tracked 1 0, w.hits 1 0), (w.mem.numOfCoherencyCaches,
        (w.mem.coherencyCaches 1).cme, (w.mem.coherencyCaches 1).tidsPerWord 0 1)))
        = some ((some 0, true, [⟨2, 0⟩, ⟨3, 0⟩]), (2, some 0, 0)) := by decide +kernel
  obtain ⟨w, hw, hvals⟩ := Option.map_eq_some_iff.mp hvals
  simp only [Prod.mk.injEq] at hvals
  obtain ⟨⟨htable, htr, hhits⟩, hnum, hcme, hslot⟩ := hvals
  have hrun : Run LineHistory.step (fun _ _ _ => True) {} ops w :=
    Run.ofFoldlM (fun _ _ _ _ => trivial) hw
  have hrows := (hclaim ops w hrun 1 0 0 ⟨0, htable, rfl⟩ htr (by rw [hhits]; decide)).2
  -- the row of word 0 in the second entry should have thread 3 in its second slot
  have hslots := (hrows 1 (by omega) hcme 0).slots
  rw [hhits] at hslots
  have hsecond := congrArg (fun row => row.getD 1 0) hslots
  rw [show (List.range 16).map ((w.mem.coherencyCaches 1).tidsPerWord 0)
    = (w.mem.coherencyCaches 1).tidsPerWord 0 0 :: (w.mem.coherencyCaches 1).tidsPerWord 0 1
      :: (List.range' 2 14).map ((w.mem.coherencyCaches 1).tidsPerWord 0) from rfl] at hsecond
  simp only [List.getD_cons_succ, List.getD_cons_zero, hslot] at hsecond
  exact absurd hsecond (by decide)

end MemPerf
