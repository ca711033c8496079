import MemPerf.Backtrace
import MemPerf.Lib.Run
import MemPerf.Lib.Sort

/-!
# The call site reports

`printOutput` and `printLeak` gather the call sites with at least a
kilobyte into `BTqueue`, sort them and print the first five. The two
differ in the field they read.

`BTqueue` has a place for each of the 256 keys, and its length is counted
in an 8-bit `numOfBT`. The check after each gathered entry asks whether
the counter has reached 256, which 8 bits never do: the 256th entry takes
the counter back to zero, nothing is sorted and nothing is printed. Up to
255 entries the report is right, whatever the sort does with ties.
-/

namespace MemPerf.Temp

open Chained Word Sorting StepSystem

namespace Backtrace

structure BTAddrMemPair where
  numberOfFrame : Nat
  memory : Nat
  frames : List Nat
deriving DecidableEq, Repr

def compare (a b : BTAddrMemPair) : Bool := decide (a.memory > b.memory)

/-- The local array and its counter. -/
structure BTQueue where
  queue : Nat → BTAddrMemPair
  numOfBT : Nat

inductive Fault where
  | outsideQueue
  | aborted
deriving DecidableEq, Repr

/-- What is printed of an entry: its kilobytes and the addresses handed
to `addr2line`. -/
structure Printed where
  memory : Nat
  addrs : List Nat
deriving DecidableEq, Repr

section Print

variable (bytes : BackTraceMemory → Nat)

/-- One turn of the gathering loop. -/
def gather (q : BTQueue) (status : BackTraceMemory) : Except Fault BTQueue :=
  if bytes status / 1024 ≠ 0 then
    if q.numOfBT < maxBtAddrNum then
      let pair := { numberOfFrame := status.numberOfFrame
                    memory := wrap 32 (bytes status / 1024)
                    frames := status.frames }
      let numOfBT := wrap 8 (q.numOfBT + 1)
      if numOfBT ≥ maxBtAddrNum then .error .aborted
      else .ok { queue := Function.update q.queue q.numOfBT pair, numOfBT }
    else .error .outsideQueue
  else .ok q

/-- `stack` is what the array holds before it is written. -/
def gatherAll (stack : Nat → BTAddrMemPair) (sites : List (Entry Nat BackTraceMemory)) :
    Except Fault BTQueue :=
  sites.foldlM (fun q e => gather bytes q e.value) { queue := stack, numOfBT := 0 }

def BTQueue.entries (q : BTQueue) : List BTAddrMemPair := (List.range q.numOfBT).map q.queue

variable (convertToVMA : Nat → Nat) (sort : Sorter compare)

/-- The first four frames are the profiler's own. -/
def printPair (p : BTAddrMemPair) : Printed :=
  { memory := p.memory, addrs := ((p.frames.take p.numberOfFrame).drop 4).map convertToVMA }

def printQueue (q : BTQueue) : List Printed :=
  ((sort.sort q.entries).take (min 5 q.numOfBT)).filterMap fun p =>
    if p.memory ≠ 0 then some (printPair convertToVMA p) else none

def print (stack : Nat → BTAddrMemPair) (record : HashMap Nat BackTraceMemory) :
    Except Fault (List Printed) :=
  (gatherAll bytes stack record.iterate).map (printQueue convertToVMA sort)

end Print

section Reports

variable (convertToVMA : Nat → Nat) (sort : Sorter compare) (stack : Nat → BTAddrMemPair)
  (b : Backtrace)

/-- What `BTMemMapRecord` points at. -/
def record : HashMap Nat BackTraceMemory := b.buckets b.btMemMapRecord

def printOutput : Except Fault (List Printed) :=
  print BackTraceMemory.memAllocated convertToVMA sort stack b.record

def printLeak : Except Fault (List Printed) :=
  print BackTraceMemory.memLeaked convertToVMA sort stack b.record

end Reports

/-! ## Gathering -/

variable {bytes : BackTraceMemory → Nat}

/-- The call sites with at least a kilobyte. -/
def consumers (bytes : BackTraceMemory → Nat) (sites : List (Entry Nat BackTraceMemory)) :
    List (Entry Nat BackTraceMemory) :=
  sites.filter fun e => 1024 ≤ bytes e.value

/-- The pair the loop makes of a call site. -/
def pairOf (bytes : BackTraceMemory → Nat) (e : Entry Nat BackTraceMemory) : BTAddrMemPair :=
  { numberOfFrame := e.value.numberOfFrame
    memory := wrap 32 (bytes e.value / 1024)
    frames := e.value.frames }

/-- A turn of the loop on an entry it takes: no fault, one entry more, and
the counter back at zero after the last one the array has room for. -/
theorem gather_of_le {q : BTQueue} {e : Entry Nat BackTraceMemory} (h : 1024 ≤ bytes e.value)
    (hq : q.numOfBT < 256) :
    gather bytes q e.value = .ok
      { queue := Function.update q.queue q.numOfBT (pairOf bytes e)
        numOfBT := wrap 8 (q.numOfBT + 1) } := by
  have hkilo : bytes e.value / 1024 ≠ 0 := by omega
  have hnever : ¬ wrap 8 (q.numOfBT + 1) ≥ 256 := Nat.not_le.mpr (wrap_lt 8 _)
  simp only [gather, if_pos hkilo, maxBtAddrNum, if_pos hq, if_neg hnever]
  rfl

theorem gather_of_lt {q : BTQueue} {status : BackTraceMemory} (h : bytes status < 1024) :
    gather bytes q status = .ok q := by
  have hkilo : bytes status / 1024 = 0 := by omega
  simp [gather, hkilo]

theorem entries_push (q : BTQueue) (pair : BTAddrMemPair) :
    BTQueue.entries { queue := Function.update q.queue q.numOfBT pair, numOfBT := q.numOfBT + 1 } =
      q.entries ++ [pair] := by
  simp only [BTQueue.entries, List.range_succ, List.map_append, List.map_cons, List.map_nil,
    Function.update_self]
  congr 1
  refine List.map_congr_left fun i hi => Function.update_of_ne ?_ ..
  exact Nat.ne_of_lt (List.mem_range.mp hi)

/-- The whole loop, from any counter: it never faults, the counter is the
count modulo 256, and as long as the count fits the array holds every
consumer in the order met. -/
theorem foldlM_gather (bytes : BackTraceMemory → Nat) :
    ∀ (sites : List (Entry Nat BackTraceMemory)) {q : BTQueue}, q.numOfBT < 256 →
    ∃ q', sites.foldlM (fun q e => gather bytes q e.value) q = .ok q' ∧
      q'.numOfBT = wrap 8 (q.numOfBT + (consumers bytes sites).length) ∧
      (q.numOfBT + (consumers bytes sites).length < 256 →
        q'.entries = q.entries ++ (consumers bytes sites).map (pairOf bytes))
  | [], q, hq => ⟨q, rfl, (wrap_of_lt (w := 8) hq).symm, fun _ => by simp [consumers]⟩
  | e :: sites, q, hq => by
      by_cases h : 1024 ≤ bytes e.value
      · obtain ⟨q', hfold, hnum, hentries⟩ := foldlM_gather bytes sites
          (q := ⟨Function.update q.queue q.numOfBT (pairOf bytes e), wrap 8 (q.numOfBT + 1)⟩)
          (wrap_lt 8 _)
        have hcons : consumers bytes (e :: sites) = e :: consumers bytes sites := by
          simp [consumers, h]
        refine ⟨q', ?_, ?_, fun hroom => ?_⟩
        · rw [List.foldlM_cons, gather_of_le h hq]
          exact hfold
        · rw [hnum, hcons, List.length_cons]
          simp only [wrap]
          omega
        · rw [hcons, List.length_cons] at hroom
          have hnext : wrap 8 (q.numOfBT + 1) = q.numOfBT + 1 :=
            wrap_of_lt (w := 8) (by omega)
          simp only [hnext, entries_push] at hentries
          rw [hentries (by omega), hcons, List.map_cons, List.append_assoc, List.singleton_append]
      · obtain ⟨q', hfold, hnum, hentries⟩ := foldlM_gather bytes sites hq
        have hcons : consumers bytes (e :: sites) = consumers bytes sites := by
          simp [consumers, h]
        refine ⟨q', ?_, by rw [hcons]; exact hnum, by rw [hcons]; exact hentries⟩
        rw [List.foldlM_cons, gather_of_lt (Nat.not_le.mp h)]
        exact hfold

/-! ## The report -/

/-- A table with every call site once, under an 8-bit key. -/
structure CallSites (m : HashMap Nat BackTraceMemory) : Prop where
  wellFormed : m.WellFormed
  keys : m.Forall fun e => e.key < 256

variable {convertToVMA : Nat → Nat} {sort : Sorter compare} {stack : Nat → BTAddrMemPair}
  {m : HashMap Nat BackTraceMemory}

/-- There are at most as many consumers as there are keys. -/
theorem CallSites.consumers_le (h : CallSites m) : (consumers bytes m.iterate).length ≤ 256 := by
  have hsub : (m.iterate.map Entry.key) ⊆ List.range 256 := by
    intro k hk
    obtain ⟨e, he, rfl⟩ := List.mem_map.mp hk
    rw [h.wellFormed.iterate_eq] at he
    obtain ⟨i, -, hei⟩ := List.mem_flatMap.mp he
    exact List.mem_range.mpr (h.keys i e hei)
  have hlen := (List.subperm_of_subset h.wellFormed.nodup_iterate hsub).length_le
  rw [List.length_map, List.length_range] at hlen
  exact Nat.le_trans (List.length_filter_le ..) hlen

/-- The line that should stand for a call site. -/
def lineOf (bytes : BackTraceMemory → Nat) (convertToVMA : Nat → Nat)
    (e : Entry Nat BackTraceMemory) : Printed :=
  { memory := bytes e.value / 1024
    addrs := ((e.value.frames.take e.value.numberOfFrame).drop 4).map convertToVMA }

/-- The array is filled without a fault and holds every consumer. -/
def Gathered (bytes : BackTraceMemory → Nat) (stack : Nat → BTAddrMemPair)
    (m : HashMap Nat BackTraceMemory) : Prop :=
  ∃ q, gatherAll bytes stack m.iterate = .ok q ∧
    q.entries = (consumers bytes m.iterate).map (pairOf bytes)

/-- The lines are those of the five top consumers, or of all when there
are fewer, in descending order. -/
def ListsTop (bytes : BackTraceMemory → Nat) (convertToVMA : Nat → Nat)
    (m : HashMap Nat BackTraceMemory) (printed : Except Fault (List Printed)) : Prop :=
  ∃ listed others : List (Entry Nat BackTraceMemory),
    (listed ++ others).Perm m.iterate ∧
    printed = .ok (listed.map (lineOf bytes convertToVMA)) ∧
    listed.length = min 5 (consumers bytes m.iterate).length ∧
    (∀ e ∈ listed, 1024 ≤ bytes e.value) ∧
    (listed.map fun e => bytes e.value / 1024).Pairwise (· ≥ ·) ∧
    ∀ e ∈ listed, ∀ o ∈ others, bytes o.value / 1024 ≤ bytes e.value / 1024

/-- A consumer's pair prints as its line: no kilobytes are cut off. -/
theorem print_pairOf {e : Entry Nat BackTraceMemory} (hle : 1024 ≤ bytes e.value)
    (hlt : bytes e.value < 2 ^ 42) :
    (if (pairOf bytes e).memory ≠ 0 then some (printPair convertToVMA (pairOf bytes e)) else none) =
      some (lineOf bytes convertToVMA e) := by
  have hwrap : wrap 32 (bytes e.value / 1024) = bytes e.value / 1024 :=
    wrap_of_lt (w := 32) (by omega)
  have hkilo : bytes e.value / 1024 ≠ 0 := by omega
  simp [pairOf, printPair, lineOf, hwrap, hkilo]

/-- Sorting the array sorts the consumers behind it, by kilobytes. -/
theorem exists_sorted (sort : Sorter compare) {sites : List (Entry Nat BackTraceMemory)}
    (hlt : ∀ e ∈ sites, bytes e.value < 2 ^ 42) :
    ∃ es : List (Entry Nat BackTraceMemory), es.Perm sites ∧
      es.map (pairOf bytes) = sort.sort (sites.map (pairOf bytes)) ∧
      es.Pairwise fun a b => bytes b.value / 1024 ≤ bytes a.value / 1024 := by
  obtain ⟨es, hmap, hperm⟩ := exists_map_of_perm (sort.perm (sites.map (pairOf bytes)))
  refine ⟨es, hperm, hmap, ?_⟩
  have hsorted := sort.sorted (sites.map (pairOf bytes))
  rw [← hmap, List.pairwise_map] at hsorted
  refine hsorted.imp_of_mem fun {a b} ha hb hab => ?_
  have hwrap : ∀ e ∈ es, (pairOf bytes e).memory = bytes e.value / 1024 := fun e he => by
    have := hlt e (hperm.subset he)
    exact wrap_of_lt (w := 32) (by omega)
  simpa [compare, hwrap a ha, hwrap b hb] using hab

/-- With room for all consumers the report is right. -/
theorem print_listsTop (hbytes : ∀ e ∈ m.iterate, bytes e.value < 2 ^ 42)
    (hroom : (consumers bytes m.iterate).length < 256) :
    Gathered bytes stack m ∧
      ListsTop bytes convertToVMA m (print bytes convertToVMA sort stack m) := by
  obtain ⟨q, hfold, hnum, hentries⟩ := foldlM_gather bytes m.iterate
    (q := ⟨stack, 0⟩) (Nat.zero_lt_succ 255)
  simp only [Nat.zero_add] at hnum hentries
  rw [wrap_of_lt (w := 8) hroom] at hnum
  replace hentries : q.entries = (consumers bytes m.iterate).map (pairOf bytes) := hentries hroom
  refine ⟨⟨q, hfold, hentries⟩, ?_⟩
  obtain ⟨es, hperm, hmap, hsorted⟩ :=
    exists_sorted sort fun e (he : e ∈ consumers bytes m.iterate) =>
      hbytes e (List.mem_filter.mp he).1
  have hlen := hperm.length_eq
  have hmem : ∀ e ∈ es, 1024 ≤ bytes e.value ∧ bytes e.value < 2 ^ 42 := fun e he => by
    obtain ⟨hin, hle⟩ := List.mem_filter.mp (hperm.subset he)
    exact ⟨of_decide_eq_true hle, hbytes e hin⟩
  have hprinted : printQueue convertToVMA sort q =
      (es.take 5).map (lineOf bytes convertToVMA) := by
    have htake : (es.map (pairOf bytes)).take (min 5 q.numOfBT)
        = (es.take 5).map (pairOf bytes) := by
      have hmin : es.take (min 5 es.length) = es.take 5 := List.take_eq_take_iff.mpr (by omega)
      rw [hnum, ← hlen, ← List.map_take, hmin]
    rw [printQueue, hentries, ← hmap, htake, List.filterMap_map]
    refine (List.filterMap_congr fun e he => ?_).trans (congrFun List.filterMap_eq_map _)
    have he' := hmem e (List.mem_of_mem_take he)
    exact print_pairOf he'.1 he'.2
  refine ⟨es.take 5, es.drop 5 ++ m.iterate.filter fun e => !decide (1024 ≤ bytes e.value),
    ?_, ?_, ?_, ?_, ?_, ?_⟩
  · rw [← List.append_assoc, List.take_append_drop]
    exact (hperm.append_right _).trans (List.filter_append_perm _ _)
  · rw [print, gatherAll, hfold, ← hprinted]
    rfl
  · rw [List.length_take, hlen]
  · exact fun e he => (hmem e (List.mem_of_mem_take he)).1
  · rw [List.pairwise_map]
    exact hsorted.sublist (List.take_sublist _ _)
  · intro e he o ho
    rcases List.mem_append.mp ho with hdrop | hsmall
    · rw [← List.take_append_drop 5 es, List.pairwise_append] at hsorted
      exact hsorted.2.2 e he o hdrop
    · have hle := (hmem e (List.mem_of_mem_take he)).1
      have hsmall' : bytes o.value < 1024 := by
        simpa using (List.mem_filter.mp hsmall).2
      omega

/-- The counter back at zero: nothing is printed. -/
theorem print_of_full (hfull : (consumers bytes m.iterate).length = 256) :
    print bytes convertToVMA sort stack m = .ok [] := by
  obtain ⟨q, hfold, hnum, -⟩ := foldlM_gather bytes m.iterate
    (q := ⟨stack, 0⟩) (Nat.zero_lt_succ 255)
  have hzero : q.numOfBT = 0 := by simpa [hfull, wrap] using hnum
  rw [print, gatherAll, hfold]
  simp [Except.map, printQueue, hzero]

theorem not_listsTop_of_full (hfull : (consumers bytes m.iterate).length = 256) :
    ¬ ListsTop bytes convertToVMA m (print bytes convertToVMA sort stack m) := by
  rintro ⟨listed, others, -, hprinted, hlength, -⟩
  rw [print_of_full hfull, Except.ok.injEq] at hprinted
  have hnil : listed = [] := List.map_eq_nil_iff.mp hprinted.symm
  rw [hnil, hfull] at hlength
  simp at hlength

/-- One of the two reports, for every table. -/
theorem CallSites.print_iff (h : CallSites m) (hbytes : m.Forall fun e => bytes e.value < 2 ^ 42) :
    (Gathered bytes stack m ∧
      ListsTop bytes convertToVMA m (print bytes convertToVMA sort stack m)) ↔
      (consumers bytes m.iterate).length ≠ 256 := by
  constructor
  · rintro ⟨-, hlists⟩ hfull
    exact not_listsTop_of_full hfull hlists
  · intro hne
    refine print_listsTop (fun e he => ?_) (Nat.lt_of_le_of_ne h.consumers_le hne)
    rw [h.wellFormed.iterate_eq] at he
    obtain ⟨i, -, hei⟩ := List.mem_flatMap.mp he
    exact hbytes i e hei

/-! ## The tables of a run -/

theorem CallSites.init {size : Nat} (hsize : 0 < size) :
    CallSites (HashMap.init id size hsize) where
  wellFormed := HashMap.init_wellFormed _ hsize
  keys := HashMap.init_forall _ hsize _

theorem CallSites.modify (h : CallSites m) (callsiteKey : Nat)
    (g : BackTraceMemory → BackTraceMemory) : CallSites (m.modify callsiteKey g) where
  wellFormed := h.wellFormed.modify callsiteKey g
  keys := h.keys.modify fun value hfind => by
    have hkey : (⟨callsiteKey, value⟩ : Entry Nat BackTraceMemory).key < 256 := h.keys.find hfind
    exact hkey

theorem CallSites.insert (h : CallSites m) {callsiteKey : Nat} (status : BackTraceMemory)
    (hkey : callsiteKey < 256) (hnew : m.find callsiteKey = none) :
    CallSites (m.insert callsiteKey status) where
  wellFormed := by
    refine h.wellFormed.insert status hnew ?_
    have hsub : (m.home callsiteKey).list.map Entry.key ⊆ List.range 256 := by
      intro k hk
      obtain ⟨e, he, rfl⟩ := List.mem_map.mp hk
      exact List.mem_range.mpr (h.keys _ e he)
    have hlen := (List.subperm_of_subset (h.wellFormed.nodup _) hsub).length_le
    rw [List.length_map, List.length_range] at hlen
    exact Nat.lt_of_le_of_lt (Nat.succ_le_succ hlen) (by decide)
  keys := h.keys.insert hkey

inductive SiteCall where
  | doABackTrace (callsiteKey size : Nat) (frames : List Nat)
  | addLeak (callsiteKey size : Nat)
  | subMem (callsiteKey size : Nat)
  | recordMem
deriving DecidableEq, Repr

/-- Keys are 8-bit values. -/
def SiteCall.Typed : SiteCall → Prop
  | .doABackTrace callsiteKey _ _ | .addLeak callsiteKey _ | .subMem callsiteKey _ =>
      callsiteKey < 256
  | .recordMem => True

def siteStep (b : Backtrace) : SiteCall → Option Backtrace
  | .doABackTrace callsiteKey size frames => some (b.doABackTrace callsiteKey size frames)
  | .addLeak callsiteKey size => some (b.addLeak callsiteKey size)
  | .subMem callsiteKey size => some (b.subMem callsiteKey size)
  | .recordMem => some b.recordMem

theorem modify_callSites {b : Backtrace} (h : ∀ map, CallSites (b.buckets map)) (callsiteKey : Nat)
    (g : BackTraceMemory → BackTraceMemory) (map : Nat) :
    CallSites ((b.modify callsiteKey g).buckets map) := by
  by_cases hmap : map = b.btMemMap
  · subst hmap
    simp only [Backtrace.modify, Function.update_self]
    exact (h _).modify callsiteKey g
  · simp only [Backtrace.modify, Function.update_of_ne hmap]
    exact h map

theorem doABackTrace_callSites {b : Backtrace} (h : ∀ map, CallSites (b.buckets map))
    {callsiteKey : Nat} (hkey : callsiteKey < 256) (size : Nat) (frames : List Nat) (map : Nat) :
    CallSites ((b.doABackTrace callsiteKey size frames).buckets map) := by
  unfold doABackTrace
  refine modify_callSites (fun map' => ?_) callsiteKey _ map
  split
  · next hnew =>
      by_cases hmap : map' = b.btMemMap
      · subst hmap
        simp only [Function.update_self]
        exact (h _).insert _ hkey hnew
      · simp only [Function.update_of_ne hmap]
        exact h map'
  · exact h map'

/-- The tables of every run are of the kind the reports are about. -/
theorem run_callSites {past : List SiteCall} {b : Backtrace}
    (hrun : Run siteStep (fun _ _ call => call.Typed) init past b) (map : Nat) :
    CallSites (b.buckets map) := by
  refine hrun.invariant (fun b => ∀ map, CallSites (b.buckets map)) (fun _ => .init _)
    (fun past b call b' h hguard hstep => ?_) map
  cases call with
  | doABackTrace callsiteKey size frames =>
      obtain rfl : b.doABackTrace callsiteKey size frames = b' := by simpa [siteStep] using hstep
      exact doABackTrace_callSites h hguard size frames
  | addLeak callsiteKey size =>
      obtain rfl : b.addLeak callsiteKey size = b' := by simpa [siteStep] using hstep
      exact modify_callSites h callsiteKey _
  | subMem callsiteKey size =>
      obtain rfl : b.subMem callsiteKey size = b' := by simpa [siteStep] using hstep
      exact modify_callSites h callsiteKey _
  | recordMem =>
      obtain rfl : b.recordMem = b' := by simpa [siteStep] using hstep
      exact h

/-- A table in which all 256 call sites hold this many bytes. -/
def everySite (memAllocated : Nat) : Backtrace :=
  { init with buckets := fun _ =>
      { hashfunc := id, bucketsTotal := 256, bucketsTotal_pos := by decide
        buckets := fun i =>
          if i < 256 then { list := [⟨i, { memAllocated }⟩], count := 1 } else {} } }

theorem everySite_callSites (memAllocated map : Nat) :
    CallSites ((everySite memAllocated).buckets map) := by
  refine ⟨⟨fun i e he => ?_, fun i => ?_, fun i => ?_⟩, fun i e he => ?_⟩
  all_goals simp only [everySite] at *
  all_goals split at *
  all_goals simp_all [HashMap.hashIndex]
  exact Nat.and_two_pow_sub_one_of_lt_two_pow (n := 8) ‹_›

theorem everySite_consumers {memAllocated : Nat} (h : 1024 ≤ memAllocated) :
    (consumers BackTraceMemory.memAllocated (everySite memAllocated).record.iterate).length
      = 256 := by
  have hall : (everySite memAllocated).record.iterate =
      (List.range 256).map fun i => ⟨i, { memAllocated }⟩ := by
    rw [record, (everySite_callSites memAllocated _).wellFormed.iterate_eq,
      ← List.flatMap_singleton' (List.map _ _), List.flatMap_map]
    refine List.flatMap_congr fun i hi => ?_
    have hlt : i < 256 := List.mem_range.mp hi
    simp [everySite, hlt]
  rw [hall, consumers, List.filter_eq_self.mpr, List.length_map, List.length_range]
  intro e he
  obtain ⟨i, -, rfl⟩ := List.mem_map.mp he
  simpa using h

/-- Both reports of a record table, for every number of call sites. -/
theorem reports_list_top_iff (b : Backtrace) (convertToVMA : Nat → Nat) (sort : Sorter compare)
    (stack : Nat → BTAddrMemPair) (h : CallSites b.record)
    (hbytes : b.record.Forall fun e => e.value.memAllocated < 2 ^ 42 ∧ e.value.memLeaked < 2 ^ 42) :
    ((Gathered BackTraceMemory.memAllocated stack b.record ∧
        ListsTop BackTraceMemory.memAllocated convertToVMA b.record
          (b.printOutput convertToVMA sort stack)) ↔
      (consumers BackTraceMemory.memAllocated b.record.iterate).length ≠ 256) ∧
    ((Gathered BackTraceMemory.memLeaked stack b.record ∧
        ListsTop BackTraceMemory.memLeaked convertToVMA b.record
          (b.printLeak convertToVMA sort stack)) ↔
      (consumers BackTraceMemory.memLeaked b.record.iterate).length ≠ 256) :=
  ⟨h.print_iff (hbytes.mono fun _ hb => hb.1), h.print_iff (hbytes.mono fun _ hb => hb.2)⟩

/-- One call site, and the merge sort. -/
theorem reports_list_top_one_site :
    CallSites (ofSite 3 4096).record ∧
      ListsTop BackTraceMemory.memAllocated id (ofSite 3 4096).record
        ((ofSite 3 4096).printOutput id (byKey BTAddrMemPair.memory) fun _ => ⟨0, 0, []⟩) := by
  have hsites : CallSites (ofSite 3 4096).record :=
    (CallSites.init (by decide)).insert _ (by decide) (by decide)
  have hbytes : (ofSite 3 4096).record.Forall fun e =>
      e.value.memAllocated < 2 ^ 42 ∧ e.value.memLeaked < 2 ^ 42 :=
    (HashMap.init_forall _ _ _).insert (by decide)
  exact ⟨hsites, (((reports_list_top_iff (ofSite 3 4096) id (byKey BTAddrMemPair.memory) _ hsites
    hbytes).1).mpr (by decide +kernel)).2⟩

/-- With all 256 call sites at a kilobyte nothing is printed. -/
theorem reports_list_top_every_site :
    CallSites (everySite 1024).record ∧
      ((everySite 1024).record.Forall fun e =>
        e.value.memAllocated < 2 ^ 42 ∧ e.value.memLeaked < 2 ^ 42) ∧
      (everySite 1024).printOutput id (byKey BTAddrMemPair.memory) (fun _ => ⟨0, 0, []⟩) = .ok [] ∧
      ¬ ListsTop BackTraceMemory.memAllocated id (everySite 1024).record
        ((everySite 1024).printOutput id (byKey BTAddrMemPair.memory) fun _ => ⟨0, 0, []⟩) := by
  have hfull := everySite_consumers (Nat.le_refl 1024)
  refine ⟨everySite_callSites 1024 _, fun i e he => ?_, print_of_full hfull,
    not_listsTop_of_full hfull⟩
  simp only [record, everySite] at he
  split at he
  · obtain rfl := List.mem_singleton.mp he
    exact (by decide : 1024 < 2 ^ 42 ∧ 0 < 2 ^ 42)
  · cases he

end Backtrace

end MemPerf.Temp
