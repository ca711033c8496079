import MemPerf.MemoryWaste

/-!
# Global sums

`MemoryWasteGlobalStatus`: the per-thread counters of a recorded status
summed over the existing threads, and the blowup computed from them.
-/

namespace MemPerf.Temp

open Rows Word

/-- `r` is a copy of the counters as far as the existing threads and the
classes go. -/
structure MemoryWasteStatus.SnapshotOf (p : ProgramStatus) (totalNumOfThread : Nat)
    (r current : MemoryWasteStatus) : Prop where
  rows : ∀ thread < totalNumOfThread, ∀ c < p.numberOfClassSizes,
    let i := p.arrayIndex thread c
    r.internalFragment i = current.internalFragment i ∧
    r.numOfAllocatedObjects i = current.numOfAllocatedObjects i ∧
    r.numOfFreelistObjects i = current.numOfFreelistObjects i ∧
    r.numOfNewAllocations i = current.numOfNewAllocations i ∧
    r.numOfReusedAllocations i = current.numOfReusedAllocations i ∧
    r.numOfFree i = current.numOfFree i
  blowupFlag : ∀ c < p.numberOfClassSizes, r.blowupFlag c = current.blowupFlag c

structure MemoryWasteGlobalStatus where
  internalFragment : Nat → Int := fun _ => 0
  numOfAllocatedObjects : Nat → Int := fun _ => 0
  numOfFreelistObjects : Nat → Int := fun _ => 0
  numOfNewAllocations : Nat → Nat := fun _ => 0
  numOfReusedAllocations : Nat → Nat := fun _ => 0
  numOfFree : Nat → Nat := fun _ => 0
  memoryBlowup : Nat → Int := fun _ => 0

namespace MemoryWasteGlobalStatus

/-- `a[c] += x` on an array of `unsigned int`. -/
def addUnsigned (a : Nat → Nat) (c x : Nat) : Nat → Nat :=
  Function.update a c (wrap 32 (a c + x))

/-- The body of the two loops of `globalize`. -/
def addCell (p : ProgramStatus) (r : MemoryWasteStatus) (thread : Nat)
    (g : MemoryWasteGlobalStatus) (c : Nat) : MemoryWasteGlobalStatus :=
  let i := p.arrayIndex thread c
  { g with
    internalFragment := addAt 64 g.internalFragment c (r.internalFragment i)
    numOfAllocatedObjects := addAt 32 g.numOfAllocatedObjects c (r.numOfAllocatedObjects i)
    numOfFreelistObjects := addAt 32 g.numOfFreelistObjects c (r.numOfFreelistObjects i)
    numOfNewAllocations := addUnsigned g.numOfNewAllocations c (r.numOfNewAllocations i)
    numOfReusedAllocations := addUnsigned g.numOfReusedAllocations c (r.numOfReusedAllocations i)
    numOfFree := addUnsigned g.numOfFree c (r.numOfFree i) }

def globalize (p : ProgramStatus) (totalNumOfThread : Nat) (recordStatus : MemoryWasteStatus)
    (g : MemoryWasteGlobalStatus) : MemoryWasteGlobalStatus :=
  (List.range totalNumOfThread).foldl
    (fun g thread => (List.range p.numberOfClassSizes).foldl (addCell p recordStatus thread) g) g

def calculateBlowup (p : ProgramStatus) (recordStatus : MemoryWasteStatus)
    (g : MemoryWasteGlobalStatus) : MemoryWasteGlobalStatus :=
  { g with memoryBlowup := fun c =>
      if c < p.numberOfClassSizes then
        swrap 64 (p.classSizes c * swrap 64 (g.numOfFreelistObjects c - recordStatus.blowupFlag c))
      else g.memoryBlowup c }

variable {p : ProgramStatus} {totalNumOfThread c : Nat} {r : MemoryWasteStatus}

/-- A field that each cell adds to accumulates its column. -/
theorem globalize_field {w : Nat} {field : MemoryWasteGlobalStatus → Nat → Int} {rows : Nat → Int}
    (hcell : ∀ (g : MemoryWasteGlobalStatus) (thread c : Nat),
      field (addCell p r thread g c) = addAt w (field g) c (rows (p.arrayIndex thread c)))
    (g : MemoryWasteGlobalStatus) (hc : c < p.numberOfClassSizes) :
    field (globalize p totalNumOfThread r g) c =
      accumulate w (fun thread => rows (p.arrayIndex thread c)) totalNumOfThread (field g c) := by
  have hloop : field (globalize p totalNumOfThread r g) = addRows w p.numberOfClassSizes
      totalNumOfThread (fun thread c => rows (p.arrayIndex thread c)) (field g) := by
    refine (List.foldl_hom field fun g thread => ?_).symm
    exact List.foldl_hom field fun g c => (hcell g thread c).symm
  rw [hloop, addRows_apply _ _ hc]

theorem globalize_internalFragment (hc : c < p.numberOfClassSizes) :
    (globalize p totalNumOfThread r {}).internalFragment c =
      accumulate 64 (fun thread => r.internalFragment (p.arrayIndex thread c)) totalNumOfThread 0 :=
  globalize_field (fun _ _ _ => rfl) {} hc

theorem globalize_numOfAllocatedObjects (hc : c < p.numberOfClassSizes) :
    (globalize p totalNumOfThread r {}).numOfAllocatedObjects c =
      accumulate 32 (fun thread => r.numOfAllocatedObjects (p.arrayIndex thread c))
        totalNumOfThread 0 :=
  globalize_field (fun _ _ _ => rfl) {} hc

theorem globalize_numOfFreelistObjects (hc : c < p.numberOfClassSizes) :
    (globalize p totalNumOfThread r {}).numOfFreelistObjects c =
      accumulate 32 (fun thread => r.numOfFreelistObjects (p.arrayIndex thread c))
        totalNumOfThread 0 :=
  globalize_field (fun _ _ _ => rfl) {} hc

end MemoryWasteGlobalStatus

end MemPerf.Temp
