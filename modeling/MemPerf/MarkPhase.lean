import MemPerf.LeakCheck

/-!
# The mark phase ends

`mark` is the loop as a function; here it is run turn by turn, with the
stretches of memory its turns scan. An address can be on the worklist many
times, but a turn scans only the bytes of an entry it has just marked, and
a mark is never taken off while the loop runs. So every table, whatever
the memory holds and whatever marks are already there, gives a finite
number of turns: one for each address on the list at the start and at most
one for each word scanned.
-/

namespace MemPerf.Temp

open Chained Word

namespace Leakcheck

variable {v : View} {s : Leakcheck} {addr : Nat}

/-- The candidate is an allocated object without a mark. -/
def Unscanned (s : Leakcheck) (addr : Nat) : Prop :=
  ∃ o, s.objStatusMap.find addr = some o ∧ o.mark = false ∧ o.allocated = true

/-- The stretch of memory exploring a candidate scans. -/
def scanOf (s : Leakcheck) (addr : Nat) : Option (Nat × Nat) :=
  match s.objStatusMap.find addr with
  | some object =>
      if object.mark = false ∧ object.allocated = true then
        some (addr, wrap 64 (addr + object.sizeClassSizeAndIndex.size))
      else none
  | none => none

/-- The words of a stretch. -/
def wordsOf (scan : Nat × Nat) : Nat := (pointers scan.1 (aligndown scan.2 8)).length

/-- At most so many turns of the loop, and the stretches they scan. -/
def markTurns (v : View) : Nat → Leakcheck → Leakcheck × List (Nat × Nat)
  | 0, s => (s, [])
  | n + 1, s =>
      match s.unexploredObjects with
      | [] => (s, [])
      | addr :: rest =>
          let s := { s with unexploredObjects := rest }
          let (t, scans) := markTurns v n (exploreHeapObject v s addr)
          (t, (scanOf s addr).toList ++ scans)

/-- The stretch of `scanOf` is the one the code searches, and it searches
no other. -/
theorem explore_eq_scan (v : View) (s : Leakcheck) (addr : Nat) :
    exploreHeapObject v s addr =
      match scanOf s addr with
      | some scan =>
          searchHeapPointers v
            { s with objStatusMap := s.objStatusMap.modify addr fun o => { o with mark := true } }
            scan.1 scan.2
      | none => s := by
  unfold exploreHeapObject scanOf
  cases hf : s.objStatusMap.find addr with
  | some object =>
      by_cases h : object.mark = false ∧ object.allocated = true
      · simp only [if_pos h]
      · simp only [if_neg h]
  | none => rfl

theorem scanOf_eq_some {scan : Nat × Nat} (h : scanOf s addr = some scan) :
    scan.1 = addr ∧ Unscanned s addr := by
  unfold scanOf at h
  split at h
  · next object hf =>
      split at h
      · next ho =>
          obtain rfl := Option.some.inj h
          exact ⟨rfl, object, hf, ho⟩
      · cases h
  · cases h

/-- What a turn does to the table and the list: a turn that scans marks
the entry it scans, a turn that does not changes nothing. -/
theorem turn_cases (v : View) (s : Leakcheck) (addr : Nat) :
    scanOf s addr = none ∧ exploreHeapObject v s addr = s ∨
    ∃ scan, scanOf s addr = some scan ∧
      (exploreHeapObject v s addr).objStatusMap =
        s.objStatusMap.modify addr (fun o => { o with mark := true }) ∧
      (exploreHeapObject v s addr).unexploredObjects.length ≤
        s.unexploredObjects.length + wordsOf scan := by
  have heq := explore_eq_scan v s addr
  cases hscan : scanOf s addr with
  | none => exact .inl ⟨rfl, by rw [heq, hscan]⟩
  | some scan =>
      simp only [hscan] at heq
      refine .inr ⟨scan, rfl, ?_, ?_⟩
      · rw [heq, searchHeapPointers, foldl_checkInsert]
      · rw [heq, searchHeapPointers, foldl_checkInsert, List.length_append]
        refine Nat.add_le_add_left (Nat.le_trans (List.length_filter_le ..) ?_) _
        rw [List.length_map, wordsOf]

/-- What is still unscanned after a turn was unscanned before it, and is
not what the turn scanned. -/
theorem Unscanned.of_turn {a : Nat} (h : Unscanned (exploreHeapObject v s addr) a) :
    Unscanned s a ∧ ∀ scan, scanOf s addr = some scan → a ≠ addr := by
  rcases turn_cases v s addr with ⟨hscan, hsame⟩ | ⟨scan, hscan, hmap, -⟩
  · rw [hsame] at h
    exact ⟨h, fun scan hsome => by rw [hscan] at hsome; cases hsome⟩
  · obtain ⟨o, hf, hmark, hallocated⟩ := h
    rw [hmap, HashMap.find_modify] at hf
    split at hf
    · obtain ⟨o', -, rfl⟩ := Option.map_eq_some_iff.mp hf
      cases hmark
    · next hne => exact ⟨⟨o, hf, hmark, hallocated⟩, fun _ _ => hne⟩

/-- `mark` comes to an empty worklist after finitely many turns, which scan
distinct allocated objects that had no mark; the number of turns is at
most the length of the list and the words of what is scanned. -/
theorem mark_terminates (v : View) (s : Leakcheck) :
    ∃ n scans, markTurns v n s = (mark v s, scans) ∧ (mark v s).unexploredObjects = [] ∧
      (scans.map Prod.fst).Nodup ∧ (∀ scan ∈ scans, Unscanned s scan.1) ∧
      n ≤ s.unexploredObjects.length + (scans.map wordsOf).sum := by
  induction s using mark.induct v with
  | case1 s hempty =>
      have hmark : mark v s = s := by rw [mark, hempty]
      refine ⟨0, [], by rw [hmark]; rfl, by rw [hmark, hempty], List.nodup_nil, ?_, Nat.zero_le _⟩
      exact fun scan hscan => by cases hscan
  | case2 s addr rest hlist ih =>
      obtain ⟨n, scans, hrun, hend, hnodup, hunscanned, hturns⟩ := ih
      have hmark : mark v s
          = mark v (exploreHeapObject v { s with unexploredObjects := rest } addr) := by
        rw [mark, hlist]
      refine ⟨n + 1, (scanOf { s with unexploredObjects := rest } addr).toList ++ scans,
        ?_, by rw [hmark]; exact hend, ?_, fun scan hscan => ?_, ?_⟩
      · simp only [markTurns, hlist, hrun, hmark]
      · rw [List.map_append, List.nodup_append]
        refine ⟨?_, hnodup, ?_⟩
        · cases scanOf { s with unexploredObjects := rest } addr <;> simp
        · rintro a ha b hb rfl
          obtain ⟨scan, hscan, rfl⟩ := List.mem_map.mp ha
          obtain ⟨scan', hscan', heq⟩ := List.mem_map.mp hb
          have hfirst := Option.mem_toList.mp hscan
          have hne := (hunscanned scan' hscan').of_turn.2 scan hfirst
          exact hne (heq.trans (scanOf_eq_some hfirst).1)
      · rcases List.mem_append.mp hscan with hfirst | hlater
        · obtain ⟨hstart, hun⟩ := scanOf_eq_some (Option.mem_toList.mp hfirst)
          exact hstart ▸ hun
        · exact (hunscanned scan hlater).of_turn.1
      · have hlength : s.unexploredObjects.length = rest.length + 1 := by rw [hlist]; rfl
        rcases turn_cases v { s with unexploredObjects := rest } addr with
          ⟨hscan, hsame⟩ | ⟨scan, hscan, -, hgrow⟩
        · rw [hsame] at hturns
          rw [hscan]
          simp only [Option.toList_none, List.nil_append] at hturns ⊢
          omega
        · rw [hscan]
          simp only [Option.toList_some, List.map_append, List.map_cons, List.map_nil,
            List.sum_append, List.sum_cons, List.sum_nil] at hturns hgrow ⊢
          omega

end Leakcheck

end MemPerf.Temp
