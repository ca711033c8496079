import MemPerf.Lib.HashMap

/-!
# Memory per call site

`Backtrace` of the `MEMORY` build: a map from 8-bit call site keys to the
bytes allocated and leaked there. The map's header holds a pointer to its
bucket array, and `recordMem` copies the header, so the bucket arrays are
kept apart from the headers here.
-/

namespace MemPerf.Temp

open Chained Word

/-- `MAX_BT_ADDR_NUM` -/
@[simp] abbrev maxBtAddrNum : Nat := 256

structure BackTraceMemory where
  memAllocated : Nat := 0
  memLeaked : Nat := 0
  numberOfFrame : Nat := 0
  frames : List Nat := []
deriving DecidableEq, Repr

/-- `buckets` is the memory behind the bucket pointers; the two maps are
the pointers their headers hold. -/
structure Backtrace where
  buckets : Nat → HashMap Nat BackTraceMemory
  btMemMap : Nat
  btMemMapRecord : Nat

namespace Backtrace

/-- `Backtrace::init` -/
def init : Backtrace :=
  { buckets := fun _ => HashMap.init id maxBtAddrNum (by decide)
    btMemMap := 0
    btMemMapRecord := 1 }

variable (b : Backtrace)

/-- Rewrite the entry of a key through the pointer `BTMemMap.find` gives. -/
def modify (callsiteKey : Nat) (g : BackTraceMemory → BackTraceMemory) : Backtrace :=
  { b with buckets :=
      Function.update b.buckets b.btMemMap ((b.buckets b.btMemMap).modify callsiteKey g) }

/-- A call site's first allocation makes its entry, with the frames that
`backtrace` found; `callsiteKey` is what the stack hashes to. -/
def doABackTrace (callsiteKey size : Nat) (frames : List Nat) : Backtrace :=
  let inserted :=
    if (b.buckets b.btMemMap).find callsiteKey = none then
      { b with buckets :=
          Function.update b.buckets b.btMemMap ((b.buckets b.btMemMap).insert callsiteKey
            { numberOfFrame := frames.length, frames }) }
    else b
  inserted.modify callsiteKey fun status =>
    { status with memAllocated := wrap 64 (status.memAllocated + size) }

def addLeak (callsiteKey size : Nat) : Backtrace :=
  b.modify callsiteKey fun status => { status with memLeaked := wrap 64 (status.memLeaked + size) }

def subMem (callsiteKey size : Nat) : Backtrace :=
  b.modify callsiteKey fun status =>
    { status with memAllocated := wsub 64 status.memAllocated size }

/-- `memcpy` of the header. -/
def recordMem : Backtrace := { b with btMemMapRecord := b.btMemMap }

/-- What an iteration over a map yields of each entry. -/
def pairs (map : Nat) : List (Nat × Nat) :=
  (b.buckets map).iterate.map fun e => (e.key, e.value.memAllocated)

variable {b} {callsiteKey size : Nat}

@[simp] theorem subMem_btMemMapRecord :
    (b.subMem callsiteKey size).btMemMapRecord = b.btMemMapRecord := rfl

@[simp] theorem addLeak_btMemMapRecord :
    (b.addLeak callsiteKey size).btMemMapRecord = b.btMemMapRecord := rfl

/-- The fields of every entry fit in 64 bits. -/
def Words (b : Backtrace) : Prop :=
  ∀ map, (b.buckets map).Forall fun e => e.value.memAllocated < 2 ^ 64

/-- Taking that many bytes off the call site changes no entry. -/
def Keeps (b : Backtrace) (callsiteKey size : Nat) : Prop :=
  size = 0 ∨ (b.buckets b.btMemMap).find callsiteKey = none

/-- One call site is known. -/
def ofSite (callsiteKey memAllocated : Nat) : Backtrace :=
  { init with buckets := fun _ =>
      (HashMap.init id maxBtAddrNum (by decide)).insert callsiteKey { memAllocated } }

theorem ofSite_words {memAllocated : Nat} (h : memAllocated < 2 ^ 64) :
    (ofSite callsiteKey memAllocated).Words :=
  fun _ => (HashMap.init_forall _ _ _).insert h

theorem Words.modify (h : b.Words) {g : BackTraceMemory → BackTraceMemory}
    (hg : ∀ status, status.memAllocated < 2 ^ 64 → (g status).memAllocated < 2 ^ 64) :
    (b.modify callsiteKey g).Words := by
  intro map
  by_cases hmap : map = b.btMemMap
  · subst hmap
    simp only [Backtrace.modify, Function.update_self]
    refine (h _).modify fun status hf => hg status ?_
    have hfound := (h b.btMemMap).find hf
    exact hfound
  · simp only [Backtrace.modify, Function.update_of_ne hmap]
    exact h map

/-- A write that leaves `memAllocated` alone shows in no iteration. -/
theorem pairs_modify {g : BackTraceMemory → BackTraceMemory}
    (hg : ∀ status, (b.buckets b.btMemMap).find callsiteKey = some status →
      (g status).memAllocated = status.memAllocated) (map : Nat) :
    (b.modify callsiteKey g).pairs map = b.pairs map := by
  by_cases hmap : map = b.btMemMap
  · subst hmap
    simp only [pairs, Backtrace.modify, Function.update_self]
    exact HashMap.map_iterate_modify fun status hf => by rw [hg status hf]
  · simp only [pairs, Backtrace.modify, Function.update_of_ne hmap]

theorem addLeak_pairs (callsiteKey size map : Nat) :
    (b.addLeak callsiteKey size).pairs map = b.pairs map := by
  unfold addLeak
  refine pairs_modify ?_ map
  intro status _
  rfl

theorem Keeps.pairs (h : b.Keeps callsiteKey size) (hb : b.Words) (map : Nat) :
    (b.subMem callsiteKey size).pairs map = b.pairs map := by
  refine pairs_modify (fun status hf => ?_) map
  rcases h with rfl | hnone
  · have hfound := (hb b.btMemMap).find hf
    exact wsub_of_le (Nat.zero_le _) hfound
  · rw [hnone] at hf
    cases hf

end Backtrace

end MemPerf.Temp
