import MemPerf.Lib.Reach
import MemPerf.MemoryWaste

/-!
# The leak check

`leakcheck` of the `MEMORY` build. The words of the registers, the stack
and the globals are offered to a worklist; the objects on it are marked
and their words offered in turn; what is allocated and not marked in the
end is reported as leaked.
-/

namespace MemPerf.Temp

open Chained Reach Word

/-- `aligndown`, for a power of two. -/
def aligndown (addr alignto : Nat) : Nat := addr - (addr &&& (alignto - 1))

/-- What a check reads: the window `_heapBegin`, `_heapEnd` and the memory,
by 8-byte words. -/
structure Leakcheck.View where
  heapBegin : Nat
  heapEnd : Nat
  memory : Nat → Nat

/-- What a check writes. -/
structure Leakcheck where
  objStatusMap : HashMap Nat ObjectStatus
  unexploredObjects : List Nat := []
  totalLeakageSize : Nat := 0
  backtrace : Backtrace

namespace Leakcheck

variable (v : View)

def isPossibleHeapPointer (s : Leakcheck) (addr : Nat) : Bool :=
  if v.heapBegin < addr ∧ addr < v.heapEnd then
    match s.objStatusMap.find addr with
    | some status => !status.mark
    | none => false
  else false

def checkInsertUnexploredList (s : Leakcheck) (addr : Nat) : Leakcheck :=
  if isPossibleHeapPointer v s addr then
    { s with unexploredObjects := s.unexploredObjects ++ [addr] }
  else s

/-- The addresses the loop `while(ptr < stop) ptr++` visits. -/
def pointers (start stop : Nat) : List Nat :=
  (List.range ((stop - start + 7) / 8)).map fun i => start + 8 * i

def searchHeapPointers (s : Leakcheck) (start stop : Nat) : Leakcheck :=
  ((pointers start (aligndown stop 8)).map v.memory).foldl (checkInsertUnexploredList v) s

/-- The object is marked through a pointer into the table. -/
def exploreHeapObject (s : Leakcheck) (addr : Nat) : Leakcheck :=
  match s.objStatusMap.find addr with
  | some object =>
      if object.mark = false ∧ object.allocated = true then
        let stop := wrap 64 (addr + object.sizeClassSizeAndIndex.size)
        searchHeapPointers v
          { s with objStatusMap := s.objStatusMap.modify addr fun o => { o with mark := true } }
          addr stop
      else s
  | none => s

/-! ## The worklist -/

/-- The number of entries without a mark. -/
def unmarked (s : Leakcheck) : Nat :=
  s.objStatusMap.total fun e => if e.value.mark then 0 else 1

variable {v}

@[simp] theorem checkInsert_objStatusMap (s : Leakcheck) (addr : Nat) :
    (checkInsertUnexploredList v s addr).objStatusMap = s.objStatusMap := by
  unfold checkInsertUnexploredList
  split <;> rfl

/-- Offering words changes nothing but the worklist, which gains those that
may point to an unmarked object. -/
theorem foldl_checkInsert (s : Leakcheck) (words : List Nat) :
    words.foldl (checkInsertUnexploredList v) s =
      { s with unexploredObjects :=
          s.unexploredObjects ++ words.filter (isPossibleHeapPointer v s) } := by
  induction words generalizing s with
  | nil => simp
  | cons w words ih =>
      have hsame : isPossibleHeapPointer v (checkInsertUnexploredList v s w) =
          isPossibleHeapPointer v s := by
        funext addr
        simp [isPossibleHeapPointer]
      rw [List.foldl_cons, ih, hsame]
      unfold checkInsertUnexploredList
      by_cases hw : isPossibleHeapPointer v s w = true
      · simp [hw]
      · simp [hw]

/-- What exploring a candidate does: nothing, or it marks an allocated
object and offers the words inside. -/
theorem explore_cases (s : Leakcheck) (addr : Nat) :
    exploreHeapObject v s addr = s ∧
      (∀ o, s.objStatusMap.find addr = some o → o.mark = true ∨ o.allocated = false) ∨
    ∃ o, s.objStatusMap.find addr = some o ∧ o.mark = false ∧ o.allocated = true ∧
      exploreHeapObject v s addr = searchHeapPointers v
        { s with objStatusMap := s.objStatusMap.modify addr fun o => { o with mark := true } }
        addr (wrap 64 (addr + o.sizeClassSizeAndIndex.size)) := by
  unfold exploreHeapObject
  cases hf : s.objStatusMap.find addr with
  | none => exact .inl ⟨rfl, fun o ho => by cases ho⟩
  | some o =>
      by_cases ho : o.mark = false ∧ o.allocated = true
      · exact .inr ⟨o, rfl, ho.1, ho.2, by simp [ho]⟩
      · refine .inl ⟨by simp [ho], fun o' ho' => ?_⟩
        obtain rfl : o = o' := Option.some.inj ho'
        by_contra hcon
        exact ho (by simpa using hcon)

/-- Each round takes a candidate off the list and adds some only when it
has marked one more entry. -/
theorem explore_decreases (s : Leakcheck) (addr : Nat) (rest : List Nat) :
    let s' := exploreHeapObject v { s with unexploredObjects := rest } addr
    s'.unmarked < s.unmarked ∨ s'.unmarked = s.unmarked ∧ s'.unexploredObjects = rest := by
  rcases explore_cases (v := v) { s with unexploredObjects := rest } addr with
    ⟨heq, -⟩ | ⟨o, hf, hmark, -, heq⟩
  · exact .inr (by rw [heq]; exact ⟨rfl, rfl⟩)
  · left
    rw [heq]
    have htotal := HashMap.total_modify
      (fun e : Entry Nat ObjectStatus => if e.value.mark then 0 else 1)
      hf fun o => { o with mark := true }
    simp only [hmark] at htotal
    simp only [searchHeapPointers, foldl_checkInsert, unmarked] at htotal ⊢
    simp at htotal
    omega

variable (v)

def mark (s : Leakcheck) : Leakcheck :=
  match _ : s.unexploredObjects with
  | [] => s
  | addr :: rest => mark (exploreHeapObject v { s with unexploredObjects := rest } addr)
termination_by (s.unmarked, s.unexploredObjects.length)
decreasing_by
  have h := explore_decreases (v := v) s addr rest
  rcases h with hlt | ⟨heq, hrest⟩
  · exact Prod.Lex.left _ _ hlt
  · rename_i hlist
    rw [heq, hrest, hlist]
    exact Prod.Lex.right _ (by simp)

/-- The loop of `sweep` over copies of the entries: the mark is taken off
the copy, the table keeps it. -/
def sweepEntry (runningThreadIndex objectAddress : Nat) (s : Leakcheck)
    (e : Entry Nat ObjectStatus) : Leakcheck :=
  if e.value.mark then s
  else if e.value.allocated = true ∧ e.value.tid = runningThreadIndex ∧ e.key ≠ objectAddress then
    let size := e.value.sizeClassSizeAndIndex.size
    { s with
      totalLeakageSize := wrap 64 (s.totalLeakageSize + size)
      backtrace := s.backtrace.addLeak e.value.callKey size }
  else s

/-- The words of the registers and the stack. -/
def doSlowLeakCheck (s : Leakcheck) (words : List Nat) : Leakcheck :=
  words.foldl (checkInsertUnexploredList v) s

/-- `globals` are the words of the global regions. -/
def sweep (runningThreadIndex objectAddress : Nat) (s : Leakcheck) (globals : List Nat) :
    Leakcheck :=
  let s := mark v (globals.foldl (checkInsertUnexploredList v) s)
  s.objStatusMap.iterate.foldl (sweepEntry runningThreadIndex objectAddress)
    { s with totalLeakageSize := 0 }

end Leakcheck

end MemPerf.Temp
