import MemPerf.Globalize

/-!
# The report of the counters

The printing functions of `GlobalStatus`: the cycles of each class of
call, the totals of each lock type, the details of the important locks,
and the system calls. A line is the list of the integers in it; what a
function prints is a list of lines, and there is none if a division by
zero stops it. The quotients that are printed in floating point are left
out.

Nothing stops a function when each class with a lock or a system call has
calls at all, and no contention rate is over a hundred when no lock has
more contended calls than calls (`Printable`).
-/

namespace MemPerf

open Word Chained

/-- `/` of unsigned integers; there is none by zero. -/
def quotient (a b : Nat) : Option Nat := if b = 0 then none else some (a / b)

/-- A line of `printCountingEvents`. -/
structure CountingEventsLine where
  allocationType : Nat
  numOfSampledCountingFunctions : Nat
  cycles : Nat
  average : Nat
deriving DecidableEq, Repr

/-- The lines of a class in `printOverviewLocks` and `printDetailLocks`. -/
structure LockLine where
  allocationType : Nat
  calls : Nat
  contentionCalls : Nat
  contentionRate : Nat
  cycles : Nat
  cyclesPerLock : Nat
  cyclesPerFunction : Nat
deriving DecidableEq, Repr

/-- A line of `printSyscalls`. -/
structure SyscallLine where
  syscallType : SystemCallType
  allocationType : Nat
  num : Nat
  cycles : Nat
  cyclesPerCall : Nat
  cyclesPerFunction : Nat
deriving DecidableEq, Repr

/-- The lock types in the order of their numbers. -/
def lockTypes : List LockType := [.mutex, .spin, .mutexTry, .spinTry]

/-- The system calls in the order of their numbers. -/
def systemCallTypes : List SystemCallType := [.mmap, .madvise, .sbrk, .mprotect, .munmap, .mremap]

namespace GlobalStatus

variable (g : GlobalStatus)

def countingEventsLine (type : Nat) : Option CountingEventsLine := do
  let average ← quotient (g.cycles type) (g.numOfSampledCountingFunctions type)
  some { allocationType := type
         numOfSampledCountingFunctions := g.numOfSampledCountingFunctions type
         cycles := g.cycles type
         average }

def printCountingEvents : Option (List CountingEventsLine) :=
  ((List.range numOfAllocationType).filter
    fun type => g.numOfSampledCountingFunctions type ≠ 0).mapM g.countingEventsLine

/-- The rate is computed in `unsigned int`s. -/
def lockLine (counts : Nat → LockCounts) (type : Nat) : Option LockLine := do
  let contentionRate ←
    quotient (wrap 32 ((counts type).numOfCallsWithContentions * 100)) (counts type).numOfCalls
  let cyclesPerLock ← quotient (counts type).cycles (counts type).numOfCalls
  let cyclesPerFunction ← quotient (counts type).cycles (g.numOfSampledCountingFunctions type)
  some { allocationType := type
         calls := (counts type).numOfCalls
         contentionCalls := (counts type).numOfCallsWithContentions
         contentionRate
         cycles := (counts type).cycles
         cyclesPerLock
         cyclesPerFunction }

/-- The loop over the classes that both functions have. -/
def lockLines (counts : Nat → LockCounts) : Option (List LockLine) :=
  ((List.range numOfAllocationType).filter fun type => 0 < (counts type).numOfCalls).mapM
    (g.lockLine counts)

def printOverviewLocks : Option (List (List LockLine)) :=
  (lockTypes.filter fun lockType => 0 < (g.overviewLockData lockType).numOfLocks).mapM
    fun lockType => g.lockLines (g.overviewLockData lockType).counts

end GlobalStatus

/-- More than 500 cycles for each call of some class. -/
def DetailLockData.isAnImportantLock (d : DetailLockData) (g : GlobalStatus) : Bool :=
  (List.range numOfAllocationType).any fun type =>
    decide (g.numOfSampledCountingFunctions type ≠ 0) &&
      (quotient (d.counts type).cycles (g.numOfSampledCountingFunctions type)).any (500 < ·)

namespace GlobalStatus

variable (g : GlobalStatus)

/-- The address of each important lock, and its lines. -/
def printDetailLocks : Option (List (Nat × List LockLine)) :=
  (g.globalLockUsage.iterate.filter fun e => e.value.isAnImportantLock g).mapM fun e => do
    let lines ← g.lockLines e.value.counts
    some (e.key, lines)

def syscallLine (x : SystemCallType × Nat) : Option SyscallLine := do
  let data := g.systemCallData x.1 x.2
  let cyclesPerCall ← quotient data.cycles data.num
  let cyclesPerFunction ← quotient data.cycles (g.numOfSampledCountingFunctions x.2)
  some { syscallType := x.1
         allocationType := x.2
         num := data.num
         cycles := data.cycles
         cyclesPerCall
         cyclesPerFunction }

def printSyscalls : Option (List SyscallLine) :=
  ((systemCallTypes.product (List.range numOfAllocationType)).filter
    fun x => 0 < (g.systemCallData x.1 x.2).num).mapM g.syscallLine

/-! ## When a line is printed -/

theorem quotient_of_pos {a b : Nat} (h : 0 < b) : quotient a b = some (a / b) := if_neg h.ne'

/-- A loop whose rounds all succeed succeeds, and its results are theirs. -/
theorem exists_mapM {α β : Type} {f : α → Option β} {P : β → Prop} {l : List α}
    (h : ∀ a ∈ l, ∃ b, f a = some b ∧ P b) : ∃ bs, l.mapM f = some bs ∧ ∀ b ∈ bs, P b := by
  induction l with
  | nil => exact ⟨[], rfl, fun b hb => by cases hb⟩
  | cons a l ih =>
      obtain ⟨b, hb, hPb⟩ := h a (List.mem_cons_self ..)
      obtain ⟨bs, hbs, hPbs⟩ := ih fun a' ha' => h a' (List.mem_cons_of_mem a ha')
      refine ⟨b :: bs, by simp [hb, hbs], ?_⟩
      intro b' hb'
      rcases List.mem_cons.mp hb' with rfl | hb'
      · exact hPb
      · exact hPbs b' hb'

theorem exists_printCountingEvents : ∃ lines, g.printCountingEvents = some lines := by
  obtain ⟨lines, hlines, -⟩ := exists_mapM (P := fun _ => True) (f := g.countingEventsLine)
    (l := (List.range numOfAllocationType).filter fun type =>
      g.numOfSampledCountingFunctions type ≠ 0)
    fun type htype => by
      have hpos := Nat.pos_of_ne_zero (of_decide_eq_true (List.mem_filter.mp htype).2)
      rw [countingEventsLine, quotient_of_pos hpos]
      exact ⟨_, rfl, trivial⟩
  exact ⟨lines, hlines⟩

/-- The counts of a lock or a lock type can be printed: a class with calls
of it has calls at all, and the contended calls are some of the calls. -/
structure Printable (counts : Nat → LockCounts) : Prop where
  sampled : ∀ type < numOfAllocationType, 0 < (counts type).numOfCalls →
    0 < g.numOfSampledCountingFunctions type
  contended : ∀ type < numOfAllocationType,
    (counts type).numOfCallsWithContentions ≤ (counts type).numOfCalls

variable {g}

theorem Printable.lockLines {counts : Nat → LockCounts} (h : g.Printable counts) :
    ∃ lines, g.lockLines counts = some lines ∧ ∀ line ∈ lines, line.contentionRate ≤ 100 := by
  refine exists_mapM fun type htype => ?_
  obtain ⟨hrange, hcalls⟩ := List.mem_filter.mp htype
  have hpos : 0 < (counts type).numOfCalls := of_decide_eq_true hcalls
  have htype := List.mem_range.mp hrange
  have hle := h.contended type htype
  rw [lockLine, quotient_of_pos hpos, quotient_of_pos hpos,
    quotient_of_pos (h.sampled type htype hpos)]
  refine ⟨_, rfl, ?_⟩
  -- the product may wrap, which only makes the rate smaller
  calc wrap 32 ((counts type).numOfCallsWithContentions * 100) / (counts type).numOfCalls
      ≤ (counts type).numOfCalls * 100 / (counts type).numOfCalls :=
        Nat.div_le_div_right ((Nat.mod_le ..).trans (Nat.mul_le_mul_right 100 hle))
    _ = 100 := Nat.mul_div_cancel_left 100 hpos

theorem exists_printOverviewLocks
    (h : ∀ lockType, g.Printable (g.overviewLockData lockType).counts) :
    ∃ lines, g.printOverviewLocks = some lines ∧
      ∀ ls ∈ lines, ∀ line ∈ ls, line.contentionRate ≤ 100 :=
  exists_mapM fun lockType _ => (h lockType).lockLines

theorem exists_printDetailLocks
    (h : g.globalLockUsage.Forall fun e => g.Printable e.value.counts) :
    ∃ lines, g.printDetailLocks = some lines ∧
      ∀ x ∈ lines, ∀ line ∈ x.2, line.contentionRate ≤ 100 := by
  refine exists_mapM fun e he => ?_
  obtain ⟨i, hi⟩ := HashMap.mem_of_mem_iterate (List.mem_filter.mp he).1
  obtain ⟨lines, hlines, hrates⟩ := (h i e hi).lockLines
  exact ⟨(e.key, lines), by rw [hlines]; rfl, hrates⟩

theorem exists_printSyscalls
    (h : ∀ syscallType, ∀ type < numOfAllocationType, 0 < (g.systemCallData syscallType type).num →
      0 < g.numOfSampledCountingFunctions type) :
    ∃ lines, g.printSyscalls = some lines := by
  obtain ⟨lines, hlines, -⟩ := exists_mapM (P := fun _ => True) (f := g.syscallLine)
    (l := (systemCallTypes.product (List.range numOfAllocationType)).filter
      fun x => 0 < (g.systemCallData x.1 x.2).num) fun x hx => by
        obtain ⟨hmem, hnum⟩ := List.mem_filter.mp hx
        have hpos : 0 < (g.systemCallData x.1 x.2).num := of_decide_eq_true hnum
        have htype := List.mem_range.mp (List.mem_product.mp hmem).2
        rw [syscallLine, quotient_of_pos hpos, quotient_of_pos (h x.1 x.2 htype hpos)]
        exact ⟨_, rfl, trivial⟩
  exact ⟨lines, hlines⟩

end GlobalStatus

end MemPerf
