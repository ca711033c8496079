import MemPerf.Lib.HashSteps
import MemPerf.Lib.Run
import MemPerf.ObjectPairing

/-!
# The object table under concurrency

Threads in `yymalloc` and `yyfree`, one step of one thread at a time.
`ObjTable::allocUpdate` searches `objStatusMap` without a lock, and takes
the lock of the address only to insert; the entry it finds it updates
without any. `ObjTable::freeUpdate` only searches. What keeps the threads
apart is the real allocator: an address belongs to the thread that is
allocating or freeing it, or to the program.

A thread in the middle of an insertion has linked its entry but not yet
counted it, and other threads search the bucket meanwhile.
-/

namespace MemPerf

open Chained Word StepSystem

/-- Where a thread stands. `size` is `allocatingType.objectSize` as an
`unsigned int`. -/
inductive Point where
  | outside
  /-- `RealX::malloc` has returned. -/
  | allocated (address size : Nat)
  /-- `find` has returned NULL. -/
  | missed (address size : Nat)
  /-- Holding the lock of the address. -/
  | locked (address size : Nat)
  /-- The entry is in its list. -/
  | linked (address size : Nat)
  /-- `insert` has returned. -/
  | counted (address size : Nat)
  /-- `find` has returned an entry. -/
  | hit (address size : Nat) (status : Ref)
  /-- `allocUpdate` has returned. -/
  | entered (address size : Nat)
  /-- In `yyfree`, before `freeUpdate`. -/
  | freeing (address : Nat)
  /-- `freeUpdate` has returned. -/
  | looked (address : Nat) (objStat : Option Ref)
  /-- Before `RealX::free`. -/
  | released (address : Nat)
deriving DecidableEq, Repr

namespace Point

/-- The address the thread is at work on. -/
def address : Point → Option Nat
  | outside => none
  | allocated address _ | missed address _ | locked address _ | linked address _
  | counted address _ | hit address _ _ | entered address _
  | freeing address | looked address _ | released address => some address

/-- The address of the running insertion. -/
def inserting : Point → Option Nat
  | locked address _ | linked address _ | counted address _ => some address
  | _ => none

/-- The address whose entry is linked and not counted. -/
def linking : Point → Option Nat
  | linked address _ => some address
  | _ => none

end Point

/-- A live object: what its allocation stored, and the thread that is
allocating or freeing it, if one is. -/
structure Object where
  tid : Nat
  size : Nat
  thread : Option Nat := none
deriving DecidableEq, Repr

/-- `HashLocksSet`: the lock of an address. -/
def lockIndex (address : Nat) : Nat := hashAddr address &&& (maxObjNum - 1)

/-- The threads, the table and its locks, the real allocator's objects, and
what has happened: the addresses handed out and inserted, and the updates
of the shadow memory. -/
structure ObjectThreads where
  objStatusMap : HashMap Nat ObjStat := HashMap.init hashAddr maxObjNum (by decide)
  hashLocksSet : Nat → Bool := fun _ => false
  points : Nat → Point := fun _ => .outside
  objects : Nat → Option Object := fun _ => none
  handedOut : Finset Nat := ∅
  inserted : List Nat := []
  updates : List ShadowOp := []

inductive ThreadStep where
  /-- The real allocator hands out an address. -/
  | malloc (thread sz address : Nat)
  | free (thread ptr : Nat)
  /-- The thread's next step. `callKey` is what `Callsite::getCallKey`
  returns, if it is called. -/
  | next (thread callKey : Nat)
deriving DecidableEq, Repr

namespace ObjectThreads

variable (s : ObjectThreads)

def moveTo (thread : Nat) (p : Point) : ObjectThreads :=
  { s with points := Function.update s.points thread p }

/-- The shadow update of a free, with the fields the entry has now. -/
def freeUpdateObject (address : Nat) (objStat : Option Ref) : List ShadowOp :=
  match objStat.bind s.objStatusMap.deref with
  | some entry => if entry.value.size ≠ 0 then [.freeUpdateObject address entry.value] else []
  | none => []

/-- The next step of a thread inside `yymalloc` or `yyfree`. A thread that
waits for a lock has none. -/
def advance (thread callKey : Nat) : Option ObjectThreads :=
  match s.points thread with
  | .outside => none
  | .allocated address size =>
      match s.objStatusMap.ref? address with
      | none => some (s.moveTo thread (.missed address size))
      | some status => some (s.moveTo thread (.hit address size status))
  | .missed address size =>
      if s.hashLocksSet (lockIndex address) then none
      else some { s.moveTo thread (.locked address size) with
        hashLocksSet := Function.update s.hashLocksSet (lockIndex address) true }
  | .locked address size =>
      some { s.moveTo thread (.linked address size) with
        objStatusMap := s.objStatusMap.link address { callKey, tid := wrap 16 thread, size } }
  | .linked address size =>
      some { s.moveTo thread (.counted address size) with
        objStatusMap := s.objStatusMap.countUp address
        inserted := s.inserted ++ [address] }
  | .counted address size =>
      some { s.moveTo thread (.entered address size) with
        hashLocksSet := Function.update s.hashLocksSet (lockIndex address) false }
  | .hit address size status =>
      some { s.moveTo thread (.entered address size) with
        objStatusMap := s.objStatusMap.write status fun _ =>
          { callKey, tid := wrap 16 thread, size } }
  | .entered address size =>
      some { s.moveTo thread .outside with
        objects := Function.update s.objects address
          ((s.objects address).map fun o => { o with thread := none })
        updates := s.updates ++ [.mallocUpdateObject address size] }
  | .freeing address =>
      some (s.moveTo thread (.looked address (s.objStatusMap.ref? address)))
  | .looked address objStat =>
      some { s.moveTo thread (.released address) with
        updates := s.updates ++ s.freeUpdateObject address objStat }
  | .released address =>
      some { s.moveTo thread .outside with objects := Function.update s.objects address none }

/-- The real allocator never hands out NULL or a live address, and the
program frees an object once, after its allocation has returned. -/
def step : ThreadStep → Option ObjectThreads
  | .malloc thread sz address =>
      if s.points thread = .outside ∧ address ≠ 0 ∧ s.objects address = none then
        some { s.moveTo thread (.allocated address (wrap 32 sz)) with
          objects := Function.update s.objects address
            (some { tid := wrap 16 thread, size := wrap 32 sz, thread := some thread })
          handedOut := insert address s.handedOut }
      else none
  | .free thread ptr =>
      match s.objects ptr with
      | some o =>
          if s.points thread = .outside ∧ o.thread = none then
            some { s.moveTo thread (.freeing ptr) with
              objects := Function.update s.objects ptr (some { o with thread := some thread }) }
          else none
      | none => none
  | .next thread callKey => s.advance thread callKey

/-! ## What should hold -/

/-- One entry an address, no insertion lost, no two insertions into one
bucket at a time, and every free about to use what the allocation of its
object stored. -/
structure Consistent : Prop where
  once : (s.objStatusMap.entries.map Entry.key).Nodup
  kept : ∀ address ∈ s.inserted, (s.objStatusMap.find address).isSome
  apart : ∀ thread thread' address address',
    (s.points thread).inserting = some address → (s.points thread').inserting = some address' →
      s.objStatusMap.hashIndex address = s.objStatusMap.hashIndex address' → thread = thread'
  frees : ∀ thread address objStat, s.points thread = .looked address objStat →
    ∃ object status, s.objects address = some object ∧
      objStat.bind s.objStatusMap.deref = some ⟨address, status⟩ ∧
      status.tid = object.tid ∧ status.size = object.size

/-- The addresses of a bucket that were handed out so far. -/
def handedOutIn (i : Nat) : Finset Nat := s.handedOut.filter fun address => lockIndex address = i

/-- The bucket of a new address has not got 65536 different ones. -/
def Room : ThreadStep → Prop
  | .malloc _ _ address => (insert address (s.handedOutIn (lockIndex address))).card < 2 ^ 16
  | _ => True

instance : ∀ i, Decidable (s.Room i)
  | .malloc _ _ address =>
      inferInstanceAs
        (Decidable ((insert address (s.handedOutIn (lockIndex address))).card < 2 ^ 16))
  | .free _ _ => inferInstanceAs (Decidable True)
  | .next _ _ => inferInstanceAs (Decidable True)

end ObjectThreads

/-! ## What the threads rely on -/

namespace ObjectThreads

variable {s s' : ObjectThreads} {thread thread' address address' size tid : Nat} {p : Point}

/-- The table has, or will have when all is counted, this entry. -/
def Stored (s : ObjectThreads) (address tid size : Nat) : Prop :=
  ∃ status, s.objStatusMap.recount.find address = some status ∧
    status.tid = tid ∧ status.size = size

/-- The address is the thread's. -/
def Owns (s : ObjectThreads) (thread address tid size : Nat) : Prop :=
  s.objects address = some { tid, size, thread := some thread }

/-- Everything a thread relies on is about its own address. -/
def Relies (s : ObjectThreads) (thread : Nat) : Point → Prop
  | .outside => True
  | .allocated address size => s.Owns thread address (wrap 16 thread) size
  | .missed address size | .locked address size =>
      s.Owns thread address (wrap 16 thread) size ∧ s.objStatusMap.recount.ref? address = none
  | .linked address size =>
      s.Owns thread address (wrap 16 thread) size ∧ s.Stored address (wrap 16 thread) size ∧
        address ∉ s.inserted
  | .counted address size | .entered address size =>
      s.Owns thread address (wrap 16 thread) size ∧ s.Stored address (wrap 16 thread) size
  | .hit address size status =>
      s.Owns thread address (wrap 16 thread) size ∧
        s.objStatusMap.recount.ref? address = some status
  | .freeing address => ∃ tid size, s.Owns thread address tid size ∧ s.Stored address tid size
  | .looked address objStat =>
      ∃ tid size, s.Owns thread address tid size ∧ s.Stored address tid size ∧
        s.objStatusMap.recount.ref? address = objStat
  | .released address => ∃ tid size, s.Owns thread address tid size

/-- Nothing has happened at the address. -/
structure SameAt (s s' : ObjectThreads) (address : Nat) : Prop where
  find : s'.objStatusMap.recount.find address = s.objStatusMap.recount.find address
  ref : s'.objStatusMap.recount.ref? address = s.objStatusMap.recount.ref? address
  object : s'.objects address = s.objects address
  inserted : address ∈ s'.inserted ↔ address ∈ s.inserted

theorem Stored.same (h : s.Stored address tid size) (hsame : SameAt s s' address) :
    s'.Stored address tid size := by
  rw [Stored, hsame.find]
  exact h

theorem Relies.owner (h : s.Relies thread p) (hp : p.address = some address) :
    ∃ tid size, s.Owns thread address tid size := by
  cases p with
  | outside => cases hp
  | allocated => cases hp; exact ⟨_, _, h⟩
  | missed => cases hp; exact ⟨_, _, h.1⟩
  | locked => cases hp; exact ⟨_, _, h.1⟩
  | linked => cases hp; exact ⟨_, _, h.1⟩
  | counted => cases hp; exact ⟨_, _, h.1⟩
  | hit => cases hp; exact ⟨_, _, h.1⟩
  | entered => cases hp; exact ⟨_, _, h.1⟩
  | freeing =>
      cases hp
      obtain ⟨tid, size, hown, -⟩ := h
      exact ⟨tid, size, hown⟩
  | looked =>
      cases hp
      obtain ⟨tid, size, hown, -⟩ := h
      exact ⟨tid, size, hown⟩
  | released => cases hp; exact h

/-- What happens at other addresses does not concern the thread. -/
theorem Relies.same (h : s.Relies thread p)
    (hsame : ∀ address, p.address = some address → SameAt s s' address) : s'.Relies thread p := by
  cases p with
  | outside => trivial
  | allocated address size =>
      have hat := hsame address rfl
      rw [Relies, Owns, hat.object]
      exact h
  | missed address size =>
      have hat := hsame address rfl
      rw [Relies, Owns, hat.object, hat.ref]
      exact h
  | locked address size =>
      have hat := hsame address rfl
      rw [Relies, Owns, hat.object, hat.ref]
      exact h
  | linked address size =>
      have hat := hsame address rfl
      rw [Relies, Owns, Stored, hat.object, hat.find, hat.inserted]
      exact h
  | counted address size =>
      have hat := hsame address rfl
      rw [Relies, Owns, Stored, hat.object, hat.find]
      exact h
  | hit address size status =>
      have hat := hsame address rfl
      rw [Relies, Owns, hat.object, hat.ref]
      exact h
  | entered address size =>
      have hat := hsame address rfl
      rw [Relies, Owns, Stored, hat.object, hat.find]
      exact h
  | freeing address =>
      have hat := hsame address rfl
      simp only [Relies, Owns, Stored, hat.object, hat.find] at h ⊢
      exact h
  | looked address objStat =>
      have hat := hsame address rfl
      simp only [Relies, Owns, Stored, hat.object, hat.find, hat.ref] at h ⊢
      exact h
  | released address =>
      have hat := hsame address rfl
      simp only [Relies, Owns, hat.object] at h ⊢
      exact h

structure Relying (s : ObjectThreads) : Prop where
  relies : ∀ thread, s.Relies thread (s.points thread)
  quiet : ∀ address object, s.objects address = some object → object.thread = none →
    s.Stored address object.tid object.size
  live : ∀ address object, s.objects address = some object → address ∈ s.handedOut
  kept : ∀ address ∈ s.inserted, (s.objStatusMap.recount.find address).isSome

/-- Two threads are never at work on one address. -/
theorem Relying.thread_unique (h : Relying s) (hp : (s.points thread).address = some address)
    (hp' : (s.points thread').address = some address) : thread = thread' := by
  obtain ⟨tid, size, hown⟩ := (h.relies thread).owner hp
  obtain ⟨tid', size', hown'⟩ := (h.relies thread').owner hp'
  rw [Owns] at hown hown'
  rw [hown] at hown'
  cases hown'
  rfl

/-- A step of one thread, at one address, which is nobody else's. -/
theorem Relying.frame (h : Relying s) (thread address : Nat)
    (hpoints : ∀ other ≠ thread, s'.points other = s.points other)
    (hmine : ∀ other ≠ thread, (s.points other).address ≠ some address)
    (hsame : ∀ b ≠ address, SameAt s s' b)
    (hself : s'.Relies thread (s'.points thread))
    (hquiet : ∀ object, s'.objects address = some object → object.thread = none →
      s'.Stored address object.tid object.size)
    (hhanded : s.handedOut ⊆ s'.handedOut)
    (hlive : ∀ object, s'.objects address = some object → address ∈ s'.handedOut)
    (hkept : address ∈ s'.inserted → (s'.objStatusMap.recount.find address).isSome) :
    Relying s' where
  relies other := by
    by_cases hother : other = thread
    · subst hother
      exact hself
    · rw [hpoints other hother]
      refine (h.relies other).same fun b hb => hsame b ?_
      rintro rfl
      exact hmine other hother hb
  quiet b object hobject hthread := by
    by_cases hb : b = address
    · subst hb
      exact hquiet object hobject hthread
    · have hat := hsame b hb
      rw [hat.object] at hobject
      exact (h.quiet b object hobject hthread).same hat
  live b object hobject := by
    by_cases hb : b = address
    · subst hb
      exact hlive object hobject
    · rw [(hsame b hb).object] at hobject
      exact hhanded (h.live b object hobject)
  kept b hb := by
    by_cases hne : b = address
    · subst hne
      exact hkept hb
    · have hat := hsame b hne
      rw [hat.find]
      exact h.kept b (hat.inserted.mp hb)

/-! ## The locks and the counts -/

/-- A thread that inserts holds the lock of its bucket, and only the bucket
it is linking into counts one entry less than it has. -/
structure Locked (s : ObjectThreads) : Prop where
  held : ∀ thread address, (s.points thread).inserting = some address →
    s.hashLocksSet (lockIndex address) = true
  apart : ∀ thread thread' address address', (s.points thread).inserting = some address →
    (s.points thread').inserting = some address' → lockIndex address = lockIndex address' →
      thread = thread'
  counted : ∀ i, (∀ thread address, (s.points thread).linking = some address →
    lockIndex address ≠ i) →
      (s.objStatusMap.buckets i).count = (s.objStatusMap.buckets i).list.length
  pending : ∀ thread address, (s.points thread).linking = some address →
    (s.objStatusMap.buckets (lockIndex address)).count + 1 =
        (s.objStatusMap.buckets (lockIndex address)).list.length ∧
      (s.objStatusMap.buckets (lockIndex address)).list.getLast?.map Entry.key = some address

theorem inserting_of_linking (h : p.linking = some address) : p.inserting = some address := by
  cases p <;> first | exact h | cases h

theorem address_of_inserting (h : p.inserting = some address) : p.address = some address := by
  cases p <;> first | exact h | cases h

section Locked

variable {p' : Point} {other : Nat}

/-- A step that neither starts nor ends an insertion, nor counts or links. -/
theorem Locked.frame (h : Locked s)
    (hinserting : ∀ thread, (s'.points thread).inserting = (s.points thread).inserting)
    (hlinking : ∀ thread, (s'.points thread).linking = (s.points thread).linking)
    (hlocks : s'.hashLocksSet = s.hashLocksSet)
    (hcount : ∀ i, (s'.objStatusMap.buckets i).count = (s.objStatusMap.buckets i).count)
    (hkeys : ∀ i, (s'.objStatusMap.buckets i).list.map Entry.key =
      (s.objStatusMap.buckets i).list.map Entry.key) : Locked s' := by
  have hlength : ∀ i, (s'.objStatusMap.buckets i).list.length =
      (s.objStatusMap.buckets i).list.length := fun i => by
    simpa using congrArg List.length (hkeys i)
  refine ⟨?_, ?_, ?_, ?_⟩
  · simp only [hinserting, hlocks]
    exact h.held
  · simp only [hinserting]
    exact h.apart
  · simp only [hlinking, hcount, hlength]
    exact h.counted
  · intro thread address hlink
    rw [hlinking] at hlink
    rw [hcount, hlength, ← List.getLast?_map, hkeys, List.getLast?_map]
    exact h.pending thread address hlink

theorem points_moveTo (s : ObjectThreads) (thread : Nat) (p : Point) (other : Nat) :
    (s.moveTo thread p).points other = if other = thread then p else s.points other :=
  Function.update_apply ..

theorem inserting_moveTo (h : p'.inserting = (s.points thread).inserting) (other : Nat) :
    ((s.moveTo thread p').points other).inserting = (s.points other).inserting := by
  rw [points_moveTo]
  split
  · next heq => rw [h, heq]
  · rfl

theorem linking_moveTo (h : p'.linking = (s.points thread).linking) (other : Nat) :
    ((s.moveTo thread p').points other).linking = (s.points other).linking := by
  rw [points_moveTo]
  split
  · next heq => rw [h, heq]
  · rfl

/-- Nobody else inserts into the bucket of a thread that does. -/
theorem Locked.other_bucket (h : Locked s) (hp : (s.points thread).inserting = some address)
    (hother : other ≠ thread) (hp' : (s.points other).inserting = some address') :
    lockIndex address' ≠ lockIndex address := by
  intro heq
  exact hother (h.apart other thread address' address hp' hp heq)

theorem Locked.lock (h : Locked s) (hp : s.points thread = .missed address size)
    (hfree : ¬ s.hashLocksSet (lockIndex address) = true) :
    Locked { s.moveTo thread (.locked address size) with
      hashLocksSet := Function.update s.hashLocksSet (lockIndex address) true } := by
  have hlinking : ∀ other, ((s.moveTo thread (.locked address size)).points other).linking =
      (s.points other).linking := linking_moveTo (by rw [hp]; rfl)
  have hothers : ∀ other address', other ≠ thread → (s.points other).inserting = some address' →
      lockIndex address' ≠ lockIndex address := by
    intro other address' hother hins heq
    exact hfree (heq ▸ h.held other address' hins)
  refine ⟨fun other address' hins => ?_, fun other other' a a' hins hins' heq => ?_, ?_, ?_⟩
  · simp only [points_moveTo] at hins
    by_cases hother : other = thread
    · rw [if_pos hother] at hins
      cases hins
      exact Function.update_self ..
    · rw [if_neg hother] at hins
      have hne := hothers other address' hother hins
      exact (Function.update_of_ne hne _ _).trans (h.held other address' hins)
  · simp only [points_moveTo] at hins hins'
    by_cases hother : other = thread
    · rw [if_pos hother] at hins
      cases hins
      by_cases hother' : other' = thread
      · exact hother.trans hother'.symm
      · rw [if_neg hother'] at hins'
        exact absurd heq.symm (hothers other' a' hother' hins')
    · rw [if_neg hother] at hins
      by_cases hother' : other' = thread
      · rw [if_pos hother'] at hins'
        cases hins'
        exact absurd heq (hothers other a hother hins)
      · rw [if_neg hother'] at hins'
        exact h.apart other other' a a' hins hins' heq
  · simp only [hlinking]
    exact h.counted
  · simp only [hlinking]
    exact h.pending

theorem Locked.link (h : Locked s) (hindex : s.objStatusMap.hashIndex address = lockIndex address)
    (hp : s.points thread = .locked address size) (status : ObjStat) :
    Locked { s.moveTo thread (.linked address size) with
      objStatusMap := s.objStatusMap.link address status } := by
  have hins : (s.points thread).inserting = some address := by rw [hp]; rfl
  have hinserting : ∀ other, ((s.moveTo thread (.linked address size)).points other).inserting =
      (s.points other).inserting := inserting_moveTo (by rw [hp]; rfl)
  have hsame : ∀ i, i ≠ lockIndex address →
      (s.objStatusMap.link address status).buckets i = s.objStatusMap.buckets i :=
    fun i hi => HashMap.setBucket_of_ne _ (hindex ▸ hi) _
  have hself : (s.objStatusMap.link address status).buckets (lockIndex address) =
      { s.objStatusMap.buckets (lockIndex address) with
        list := (s.objStatusMap.buckets (lockIndex address)).list ++ [⟨address, status⟩] } := by
    rw [← hindex]
    exact HashMap.link_home ..
  have hothers : ∀ other address', other ≠ thread → (s.points other).linking = some address' →
      lockIndex address' ≠ lockIndex address := fun other address' hother hlink =>
    h.other_bucket hins hother (inserting_of_linking hlink)
  refine ⟨?_, ?_, fun i hi => ?_, fun other address' hlink => ?_⟩
  · simp only [hinserting]
    exact h.held
  · simp only [hinserting]
    exact h.apart
  · have hne : i ≠ lockIndex address := by
      refine fun heq => hi thread address ?_ heq.symm
      rw [points_moveTo, if_pos rfl]
      rfl
    simp only [hsame i hne]
    refine h.counted i fun other address' hlink => ?_
    by_cases hother : other = thread
    · rw [hother, hp] at hlink
      cases hlink
    · refine hi other address' ?_
      rw [points_moveTo, if_neg hother]
      exact hlink
  · simp only [points_moveTo] at hlink
    by_cases hother : other = thread
    · rw [if_pos hother] at hlink
      cases hlink
      -- nobody was linking into this bucket
      have hcount := h.counted (lockIndex address) fun other' a hlink' heq => by
        by_cases hother' : other' = thread
        · rw [hother', hp] at hlink'
          cases hlink'
        · exact hothers other' a hother' hlink' heq
      simp only [hself, hcount, List.length_append, List.length_singleton, true_and]
      simp
    · rw [if_neg hother] at hlink
      simp only [hsame _ (hothers other address' hother hlink)]
      exact h.pending other address' hlink

theorem Locked.count (h : Locked s) (hindex : s.objStatusMap.hashIndex address = lockIndex address)
    (hshort : (s.objStatusMap.buckets (lockIndex address)).list.length < 2 ^ 16)
    (hp : s.points thread = .linked address size) (inserted : List Nat) :
    Locked { s.moveTo thread (.counted address size) with
      objStatusMap := s.objStatusMap.countUp address
      inserted } := by
  have hins : (s.points thread).inserting = some address := by rw [hp]; rfl
  have hlink : (s.points thread).linking = some address := by rw [hp]; rfl
  have hinserting : ∀ other, ((s.moveTo thread (.counted address size)).points other).inserting =
      (s.points other).inserting := inserting_moveTo (by rw [hp]; rfl)
  have hsame : ∀ i, i ≠ lockIndex address →
      (s.objStatusMap.countUp address).buckets i = s.objStatusMap.buckets i :=
    fun i hi => HashMap.setBucket_of_ne _ (hindex ▸ hi) _
  have hself : (s.objStatusMap.countUp address).buckets (lockIndex address) =
      { s.objStatusMap.buckets (lockIndex address) with
        count := wrap 16 ((s.objStatusMap.buckets (lockIndex address)).count + 1) } := by
    rw [← hindex]
    exact HashMap.setBucket_self ..
  refine ⟨?_, ?_, fun i hi => ?_, fun other address' hlink' => ?_⟩
  · simp only [hinserting]
    exact h.held
  · simp only [hinserting]
    exact h.apart
  · by_cases hne : i = lockIndex address
    · subst hne
      have hpending := (h.pending thread address hlink).1
      simp only [hself, hpending]
      exact wrap_of_lt hshort
    · simp only [hsame i hne]
      refine h.counted i fun other address' hlink' => ?_
      by_cases hother : other = thread
      · rw [hother, hlink] at hlink'
        cases hlink'
        exact Ne.symm hne
      · refine hi other address' ?_
        rw [points_moveTo, if_neg hother]
        exact hlink'
  · simp only [points_moveTo] at hlink'
    by_cases hother : other = thread
    · rw [if_pos hother] at hlink'
      cases hlink'
    · rw [if_neg hother] at hlink'
      simp only [hsame _ (h.other_bucket hins hother (inserting_of_linking hlink'))]
      exact h.pending other address' hlink'

theorem Locked.unlock (h : Locked s) (hp : s.points thread = .counted address size) :
    Locked { s.moveTo thread (.entered address size) with
      hashLocksSet := Function.update s.hashLocksSet (lockIndex address) false } := by
  have hins : (s.points thread).inserting = some address := by rw [hp]; rfl
  have hlinking : ∀ other, ((s.moveTo thread (.entered address size)).points other).linking =
      (s.points other).linking := linking_moveTo (by rw [hp]; rfl)
  have hother : ∀ other address',
      ((s.moveTo thread (.entered address size)).points other).inserting = some address' →
        other ≠ thread ∧ (s.points other).inserting = some address' := by
    intro other address' hins'
    rw [points_moveTo] at hins'
    split at hins'
    · cases hins'
    · next hne => exact ⟨hne, hins'⟩
  refine ⟨fun other address' hins' => ?_, fun other other' a a' hins₁ hins₂ => ?_, ?_, ?_⟩
  · obtain ⟨hne, hins'⟩ := hother other address' hins'
    have hbucket := h.other_bucket hins hne hins'
    exact (Function.update_of_ne hbucket _ _).trans (h.held other address' hins')
  · exact h.apart other other' a a' (hother other a hins₁).2 (hother other' a' hins₂).2
  · simp only [hlinking]
    exact h.counted
  · simp only [hlinking]
    exact h.pending

end Locked

/-! ## The table -/

/-- The entries are those of a finite map, for addresses handed out, and
there is room in the counts for all of these. -/
structure Tabled (s : ObjectThreads) : Prop where
  index : ∀ address, s.objStatusMap.hashIndex address = lockIndex address
  holds : ∃ l, s.objStatusMap.recount.Holds l
  handed : ∀ address ∈ s.objStatusMap.entries.map Entry.key, address ∈ s.handedOut
  room : ∀ i, (s.handedOutIn i).card < 2 ^ 16

theorem Tabled.same (h : Tabled s) (hmap : s'.objStatusMap.recount = s.objStatusMap.recount)
    (hhanded : s'.handedOut = s.handedOut) : Tabled s' where
  index address := by
    rw [← HashMap.recount_hashIndex, hmap]
    exact h.index address
  holds := hmap ▸ h.holds
  handed := by
    rw [hhanded, ← HashMap.recount_entries, hmap]
    exact h.handed
  room i := by
    rw [handedOutIn, hhanded]
    exact h.room i

/-- Room for the entry of an address that was handed out and has none. -/
theorem Tabled.room_entry (h : Tabled s) (hhanded : address ∈ s.handedOut)
    (hnew : s.objStatusMap.recount.ref? address = none) :
    (s.objStatusMap.home address).list.length + 1 < 2 ^ 16 := by
  obtain ⟨l, hl⟩ := h.holds
  have hfind : lookup address l = none := by
    rw [← hl.find, ← HashMap.ref_eq_none_iff]
    exact hnew
  have hkeys : ∀ key, key ∈ l.map Entry.key → key ∈ s.handedOut := by
    intro key hkey
    refine h.handed key ?_
    rw [← HashMap.recount_entries, (hl.entries_perm.map Entry.key).mem_iff]
    exact hkey
  have hsub : insert address (s.objStatusMap.recount.keysIn (lockIndex address) l) ⊆
      s.handedOutIn (lockIndex address) := by
    intro key hkey
    rw [handedOutIn, Finset.mem_filter]
    rcases Finset.mem_insert.mp hkey with rfl | hkey
    · exact ⟨hhanded, rfl⟩
    · rw [HashMap.mem_keysIn, HashMap.recount_hashIndex, h.index] at hkey
      exact ⟨hkeys key hkey.1, hkey.2⟩
  have habsent : address ∉ s.objStatusMap.recount.keysIn (lockIndex address) l := by
    rw [HashMap.mem_keysIn]
    rintro ⟨hmem, -⟩
    obtain ⟨e, he, hkey⟩ := List.mem_map.mp hmem
    exact lookup_eq_none_iff.mp hfind e he hkey
  have hlength : (s.objStatusMap.home address).list.length =
      (s.objStatusMap.recount.keysIn (lockIndex address) l).card := by
    rw [← HashMap.length_part hl.nodup, ← hl.list, HashMap.home, h.index, HashMap.recount_list]
  have hcard := (Finset.card_le_card hsub).trans_lt (h.room (lockIndex address))
  rw [Finset.card_insert_of_notMem habsent] at hcard
  rw [hlength]
  exact hcard

theorem Tabled.counted (h : Tabled s) : s.objStatusMap.recount.Counted := by
  obtain ⟨l, hl⟩ := h.holds
  exact hl.counted

theorem Tabled.link (h : Tabled s) (hhanded : address ∈ s.handedOut)
    (hnew : s.objStatusMap.recount.ref? address = none) (status : ObjStat)
    (hmap : s'.objStatusMap = s.objStatusMap.link address status)
    (hsame : s'.handedOut = s.handedOut) : Tabled s' := by
  have hroom := h.room_entry hhanded hnew
  have hrecount : s'.objStatusMap.recount = s.objStatusMap.recount.insert address status := by
    rw [hmap]
    exact HashMap.recount_link hroom
  obtain ⟨l, hl⟩ := h.holds
  have hfind : lookup address l = none := by
    rw [← hl.find, ← HashMap.ref_eq_none_iff]
    exact hnew
  have hinsert : (s.objStatusMap.recount.insert address status).Holds
      (l ++ [⟨address, status⟩]) := by
    refine hl.insert hfind ?_
    rw [HashMap.Holds.Room, ← hl.list]
    exact hroom
  refine ⟨fun b => ?_, ⟨_, hrecount ▸ hinsert⟩, fun b hb => ?_, fun i => ?_⟩
  · rw [hmap]
    exact h.index b
  · rw [← HashMap.recount_entries, hrecount, HashMap.mem_keys_entries_insert] at hb
    rw [hsame]
    rcases hb with rfl | hb
    · exact hhanded
    · exact h.handed b hb
  · rw [handedOutIn, hsame]
    exact h.room i

theorem Tabled.write (h : Tabled s) (r : Ref) (f : ObjStat → ObjStat)
    (hmap : s'.objStatusMap = s.objStatusMap.write r f) (hsame : s'.handedOut = s.handedOut) :
    Tabled s' := by
  obtain ⟨l, hl⟩ := h.holds
  obtain ⟨l', hl'⟩ := hl.write_any r f
  refine ⟨fun b => ?_, ⟨l', ?_⟩, fun b hb => ?_, fun i => ?_⟩
  · rw [hmap]
    exact h.index b
  · rw [hmap, HashMap.recount_write]
    exact hl'
  · rw [hmap, HashMap.keys_entries_write] at hb
    rw [hsame]
    exact h.handed b hb
  · rw [handedOutIn, hsame]
    exact h.room i

/-- A new address, if its bucket has room for it. -/
theorem Tabled.handOut (h : Tabled s)
    (hroom : (insert address (s.handedOutIn (lockIndex address))).card < 2 ^ 16)
    (hmap : s'.objStatusMap = s.objStatusMap)
    (hhanded : s'.handedOut = insert address s.handedOut) :
    Tabled s' where
  index b := by
    rw [hmap]
    exact h.index b
  holds := hmap ▸ h.holds
  handed b hb := by
    rw [hmap] at hb
    rw [hhanded]
    exact Finset.mem_insert_of_mem (h.handed b hb)
  room i := by
    rw [handedOutIn, hhanded, Finset.filter_insert]
    split
    · next hi => exact hi ▸ hroom
    · exact h.room i

/-! ## Every step keeps all this -/

structure Inv (s : ObjectThreads) : Prop where
  tabled : Tabled s
  relying : Relying s
  locked : Locked s

theorem SameAt.of_recount (hmap : s'.objStatusMap.recount = s.objStatusMap.recount)
    (hobject : s'.objects address = s.objects address)
    (hinserted : address ∈ s'.inserted ↔ address ∈ s.inserted) : SameAt s s' address :=
  ⟨by rw [hmap], by rw [hmap], hobject, hinserted⟩

/-- A step that changes nothing at any address. -/
theorem Relying.move (h : Relying s) (thread : Nat)
    (hmap : s'.objStatusMap.recount = s.objStatusMap.recount)
    (hobjects : s'.objects = s.objects) (hhanded : s'.handedOut = s.handedOut)
    (hinserted : s'.inserted = s.inserted)
    (hpoints : ∀ other ≠ thread, s'.points other = s.points other)
    (hself : s'.Relies thread (s'.points thread)) : Relying s' := by
  have hsame : ∀ b, SameAt s s' b := fun b =>
    .of_recount hmap (by rw [hobjects]) (by rw [hinserted])
  refine ⟨fun other => ?_, fun b object hobject hthread => ?_, ?_, ?_⟩
  · by_cases hother : other = thread
    · subst hother
      exact hself
    · rw [hpoints other hother]
      exact (h.relies other).same fun b _ => hsame b
  · rw [hobjects] at hobject
    exact (h.quiet b object hobject hthread).same (hsame b)
  · rw [hobjects, hhanded]
    exact h.live
  · rw [hinserted, hmap]
    exact h.kept

theorem Relying.others (h : Relying s) (hp : (s.points thread).address = some address) {other : Nat}
    (hother : other ≠ thread) : (s.points other).address ≠ some address := fun hp' =>
  hother (h.thread_unique hp' hp)

theorem Relying.handed (h : Relying s) (hp : (s.points thread).address = some address) :
    address ∈ s.handedOut := by
  obtain ⟨tid, size, hown⟩ := (h.relies thread).owner hp
  exact h.live address _ hown

theorem points_moveTo_self (s : ObjectThreads) (thread : Nat) (p : Point) :
    (s.moveTo thread p).points thread = p := Function.update_self ..

theorem points_moveTo_other (s : ObjectThreads) (p : Point) {thread other : Nat}
    (h : other ≠ thread) : (s.moveTo thread p).points other = s.points other :=
  Function.update_of_ne h ..

/-- A thread works on the table at the address it owns. -/
theorem Relying.own (h : Relying s) (haddress : (s.points thread).address = some address)
    (hown : s.Owns thread address tid size) (hpoints : s'.points = (s.moveTo thread p).points)
    (hobjects : s'.objects = s.objects) (hhanded : s'.handedOut = s.handedOut)
    (hsame : ∀ b ≠ address, SameAt s s' b) (hself : s'.Relies thread p)
    (hkept : address ∈ s'.inserted → (s'.objStatusMap.recount.find address).isSome) :
    Relying s' := by
  refine h.frame thread address (fun other hother => ?_)
    (fun other hother => h.others haddress hother)
    hsame ?_ ?_ (by rw [hhanded]) (fun _ _ => ?_) hkept
  · rw [hpoints, points_moveTo_other s p hother]
  · rw [hpoints, points_moveTo_self]
    exact hself
  · intro o ho hnone
    rw [hobjects, hown] at ho
    cases ho
    cases hnone
  · rw [hhanded]
    exact h.handed haddress

/-- Nobody relies on a lock. -/
theorem Relying.relock (h : Relying s) (hself : s.Relies thread p) (hashLocksSet : Nat → Bool) :
    Relying { s.moveTo thread p with hashLocksSet } := by
  refine h.move thread rfl rfl rfl rfl (fun other hother => points_moveTo_other s p hother) ?_
  simp only [points_moveTo_self]
  exact hself

/-- A search sees what the table will be, unless the entry of the very
address is not counted yet. -/
theorem Inv.ref (h : Inv s) (hno : ∀ thread, (s.points thread).linking ≠ some address) :
    s.objStatusMap.ref? address = s.objStatusMap.recount.ref? address := by
  have hhome : s.objStatusMap.home address = s.objStatusMap.buckets (lockIndex address) := by
    rw [HashMap.home, h.tabled.index]
  by_cases hpending : ∃ thread b, (s.points thread).linking = some b ∧
      lockIndex b = lockIndex address
  · obtain ⟨thread, b, hlink, hbucket⟩ := hpending
    obtain ⟨hcount, hlast⟩ := h.locked.pending thread b hlink
    rw [hbucket, ← hhome] at hcount hlast
    refine HashMap.ref_recount_of_pending hcount fun e he hkey => ?_
    rw [he, Option.map_some, hkey] at hlast
    exact hno thread (hlink.trans hlast.symm)
  · refine HashMap.ref_recount_of_counted ?_
    rw [hhome]
    exact h.locked.counted (lockIndex address) fun thread b hlink hbucket =>
      hpending ⟨thread, b, hlink, hbucket⟩

/-- So does the thread that the address belongs to. -/
theorem Inv.ref_own (h : Inv s) {thread address : Nat}
    (hp : (s.points thread).address = some address)
    (hlink : (s.points thread).linking = none) :
    s.objStatusMap.ref? address = s.objStatusMap.recount.ref? address := by
  refine h.ref fun other hother => ?_
  have haddress := address_of_inserting (inserting_of_linking hother)
  have heq := h.relying.thread_unique haddress hp
  rw [heq, hlink] at hother
  cases hother

/-- A thread goes on without changing anything the others rely on. -/
theorem Inv.moveTo (h : Inv s) (hinserting : p.inserting = (s.points thread).inserting)
    (hlinking : p.linking = (s.points thread).linking) (hself : s.Relies thread p)
    (updates : List ShadowOp) : Inv { s.moveTo thread p with updates } where
  tabled := h.tabled.same rfl rfl
  relying := by
    refine h.relying.move thread rfl rfl rfl rfl (fun other hother =>
      points_moveTo_other s p hother) ?_
    simp only [points_moveTo_self]
    exact hself
  locked := h.locked.frame (inserting_moveTo hinserting) (linking_moveTo hlinking) rfl
    (fun _ => rfl) fun _ => rfl

section Steps

variable {callKey sz : Nat} {status : Ref} {objStat : Option Ref} {object : Object}

theorem Inv.malloc (h : Inv s) (hpoint : s.points thread = .outside)
    (hobject : s.objects address = none) (hroom : s.Room (.malloc thread sz address)) :
    Inv { s.moveTo thread (.allocated address (wrap 32 sz)) with
      objects := Function.update s.objects address
        (some { tid := wrap 16 thread, size := wrap 32 sz, thread := some thread })
      handedOut := insert address s.handedOut } where
  tabled := h.tabled.handOut hroom rfl rfl
  relying := by
    refine h.relying.frame thread address (fun other hother =>
      points_moveTo_other s _ hother) (fun other _ hother => ?_) (fun b hb => ?_) ?_ ?_
      (Finset.subset_insert _ _) (fun _ _ => Finset.mem_insert_self _ _) (h.relying.kept address)
    · obtain ⟨tid, size, hown⟩ := (h.relying.relies other).owner hother
      rw [Owns, hobject] at hown
      cases hown
    · exact .of_recount rfl (Function.update_of_ne hb _ _) Iff.rfl
    · simp only [points_moveTo_self]
      exact Function.update_self ..
    · intro o ho hthread
      simp only [Function.update_self, Option.some.injEq] at ho
      subst ho
      cases hthread
  locked := h.locked.frame (inserting_moveTo (by rw [hpoint]; rfl))
    (linking_moveTo (by rw [hpoint]; rfl)) rfl (fun _ => rfl) fun _ => rfl

theorem Inv.free (h : Inv s) (hpoint : s.points thread = .outside)
    (hobject : s.objects address = some object) (hthread : object.thread = none) :
    Inv { s.moveTo thread (.freeing address) with
      objects := Function.update s.objects address
        (some { object with thread := some thread }) } where
  tabled := h.tabled.same rfl rfl
  relying := by
    refine h.relying.frame thread address (fun other hother =>
      points_moveTo_other s _ hother) (fun other _ hother => ?_) (fun b hb => ?_) ?_ ?_
      subset_rfl (fun _ _ => h.relying.live address object hobject) (h.relying.kept address)
    · obtain ⟨tid, size, hown⟩ := (h.relying.relies other).owner hother
      rw [Owns, hobject] at hown
      cases hown
      cases hthread
    · exact .of_recount rfl (Function.update_of_ne hb _ _) Iff.rfl
    · simp only [points_moveTo_self]
      exact ⟨object.tid, object.size, Function.update_self ..,
        h.relying.quiet address object hobject hthread⟩
    · intro o ho hnone
      simp only [Function.update_self, Option.some.injEq] at ho
      subst ho
      cases hnone
  locked := h.locked.frame (inserting_moveTo (by rw [hpoint]; rfl))
    (linking_moveTo (by rw [hpoint]; rfl)) rfl (fun _ => rfl) fun _ => rfl

/-- The search of an allocation. -/
theorem Inv.allocated (h : Inv s) (hpoint : s.points thread = .allocated address size) :
    s.Owns thread address (wrap 16 thread) size ∧
      s.objStatusMap.ref? address = s.objStatusMap.recount.ref? address := by
  have hself := h.relying.relies thread
  rw [hpoint] at hself
  exact ⟨hself, h.ref_own (by rw [hpoint]; rfl) (by rw [hpoint]; rfl)⟩

theorem Inv.miss (h : Inv s) (hpoint : s.points thread = .allocated address size)
    (hfind : s.objStatusMap.ref? address = none) :
    Inv (s.moveTo thread (.missed address size)) := by
  obtain ⟨hown, hsearch⟩ := h.allocated hpoint
  have hself : s.Relies thread (.missed address size) := ⟨hown, hsearch.symm.trans hfind⟩
  exact h.moveTo (by rw [hpoint]; rfl) (by rw [hpoint]; rfl) hself s.updates

theorem Inv.hit (h : Inv s) (hpoint : s.points thread = .allocated address size)
    (hfind : s.objStatusMap.ref? address = some status) :
    Inv (s.moveTo thread (.hit address size status)) := by
  obtain ⟨hown, hsearch⟩ := h.allocated hpoint
  have hself : s.Relies thread (.hit address size status) := ⟨hown, hsearch.symm.trans hfind⟩
  exact h.moveTo (by rw [hpoint]; rfl) (by rw [hpoint]; rfl) hself s.updates

theorem Inv.lock (h : Inv s) (hpoint : s.points thread = .missed address size)
    (hfree : ¬ s.hashLocksSet (lockIndex address) = true) :
    Inv { s.moveTo thread (.locked address size) with
      hashLocksSet := Function.update s.hashLocksSet (lockIndex address) true } where
  tabled := h.tabled.same rfl rfl
  relying := by
    have hself := h.relying.relies thread
    rw [hpoint] at hself
    exact h.relying.relock (p := .locked address size) hself _
  locked := h.locked.lock hpoint hfree

theorem Inv.link (h : Inv s) (hpoint : s.points thread = .locked address size) :
    Inv { s.moveTo thread (.linked address size) with
      objStatusMap := s.objStatusMap.link address { callKey, tid := wrap 16 thread, size } } := by
  obtain ⟨hown, hnew⟩ : s.Relies thread (.locked address size) := hpoint ▸ h.relying.relies thread
  have haddress : (s.points thread).address = some address := by rw [hpoint]; rfl
  have hhanded := h.relying.handed haddress
  have hroom := h.tabled.room_entry hhanded hnew
  have hfind : s.objStatusMap.recount.find address = none := HashMap.ref_eq_none_iff.mp hnew
  have hrecount : (s.objStatusMap.link address { callKey, tid := wrap 16 thread, size }).recount =
      s.objStatusMap.recount.insert address { callKey, tid := wrap 16 thread, size } :=
    HashMap.recount_link hroom
  have hfinds : ∀ b, (s.objStatusMap.recount.insert address
      { callKey, tid := wrap 16 thread, size }).find b =
      if b = address then some { callKey, tid := wrap 16 thread, size }
      else s.objStatusMap.recount.find b := h.tabled.counted.find_insert hroom hfind
  refine ⟨h.tabled.link hhanded hnew _ rfl rfl, ?_, h.locked.link (h.tabled.index address) hpoint _⟩
  refine h.relying.own haddress hown rfl rfl rfl (fun b hb => ?_) ?_ fun hmem => ?_
  · refine ⟨?_, ?_, rfl, Iff.rfl⟩
    · simp only [hrecount, hfinds, if_neg hb]
    · simp only [hrecount, h.tabled.counted.ref_insert hroom hnew, if_neg hb]
  · refine ⟨hown, ⟨{ callKey, tid := wrap 16 thread, size }, ?_, rfl, rfl⟩, fun hmem => ?_⟩
    · simp only [hrecount, hfinds, if_true]
    · have hkept := h.relying.kept address hmem
      rw [hfind] at hkept
      cases hkept
  · have hkept := h.relying.kept address hmem
    rw [hfind] at hkept
    cases hkept

theorem Inv.count (h : Inv s) (hpoint : s.points thread = .linked address size) :
    Inv { s.moveTo thread (.counted address size) with
      objStatusMap := s.objStatusMap.countUp address
      inserted := s.inserted ++ [address] } := by
  obtain ⟨hown, hstored, -⟩ : s.Relies thread (.linked address size) :=
    hpoint ▸ h.relying.relies thread
  have haddress : (s.points thread).address = some address := by rw [hpoint]; rfl
  have hrecount : (s.objStatusMap.countUp address).recount = s.objStatusMap.recount :=
    HashMap.recount_countUp
  have hshort : (s.objStatusMap.buckets (lockIndex address)).list.length < 2 ^ 16 :=
    (h.tabled.counted (lockIndex address)).2
  refine ⟨h.tabled.same hrecount rfl, ?_, h.locked.count (h.tabled.index address) hshort hpoint _⟩
  refine h.relying.own haddress hown rfl rfl rfl (fun b hb => ?_) ?_ fun _ => ?_
  · exact .of_recount hrecount rfl (by simp [hb])
  · refine ⟨hown, ?_⟩
    rw [Stored, hrecount]
    exact hstored
  · obtain ⟨status, hfind, -⟩ := hstored
    simp only [hrecount, hfind, Option.isSome_some]

theorem Inv.unlock (h : Inv s) (hpoint : s.points thread = .counted address size) :
    Inv { s.moveTo thread (.entered address size) with
      hashLocksSet := Function.update s.hashLocksSet (lockIndex address) false } where
  tabled := h.tabled.same rfl rfl
  relying := by
    have hself := h.relying.relies thread
    rw [hpoint] at hself
    exact h.relying.relock (p := .entered address size) hself _
  locked := h.locked.unlock hpoint

/-- The update of an entry that was found. -/
theorem Inv.update (h : Inv s) (hpoint : s.points thread = .hit address size status) :
    Inv { s.moveTo thread (.entered address size) with
      objStatusMap := s.objStatusMap.write status fun _ =>
        { callKey, tid := wrap 16 thread, size } } := by
  obtain ⟨hown, href⟩ : s.Relies thread (.hit address size status) :=
    hpoint ▸ h.relying.relies thread
  have haddress : (s.points thread).address = some address := by rw [hpoint]; rfl
  have hrecount := s.objStatusMap.recount_write status fun _ =>
    { callKey, tid := wrap 16 thread, size }
  have hmodify := HashMap.write_eq_modify href fun _ => { callKey, tid := wrap 16 thread, size }
  obtain ⟨old, hold⟩ : ∃ old, s.objStatusMap.recount.find address = some old := by
    cases hfind : s.objStatusMap.recount.find address with
    | none => rw [← HashMap.ref_eq_none_iff, href] at hfind; cases hfind
    | some old => exact ⟨old, rfl⟩
  have hfinds : ∀ b, (s.objStatusMap.write status fun _ =>
      { callKey, tid := wrap 16 thread, size }).recount.find b =
      if b = address then some { callKey, tid := wrap 16 thread, size }
      else s.objStatusMap.recount.find b := by
    intro b
    rw [hrecount, hmodify, HashMap.find_modify]
    by_cases hb : b = address
    · rw [if_pos hb, if_pos hb, hb, hold, Option.map_some]
    · rw [if_neg hb, if_neg hb]
  refine ⟨h.tabled.write status (fun _ => { callKey, tid := wrap 16 thread, size }) rfl rfl, ?_, ?_⟩
  · refine h.relying.own haddress hown rfl rfl rfl (fun b hb => ?_) ?_ fun _ => ?_
    · refine ⟨by simp only [hfinds, if_neg hb], ?_, rfl, Iff.rfl⟩
      simp only [hrecount, HashMap.ref_write]
    · exact ⟨hown, { callKey, tid := wrap 16 thread, size }, by simp only [hfinds, if_true],
        rfl, rfl⟩
    · simp only [hfinds, if_true, Option.isSome_some]
  · have hbuckets := s.objStatusMap.write_buckets status fun _ =>
      { callKey, tid := wrap 16 thread, size }
    exact h.locked.frame (inserting_moveTo (by rw [hpoint]; rfl))
      (linking_moveTo (by rw [hpoint]; rfl)) rfl (fun i => (hbuckets i).2) fun i => (hbuckets i).1

/-- The object is the program's. -/
theorem Inv.leave (h : Inv s) (hpoint : s.points thread = .entered address size) :
    Inv { s.moveTo thread .outside with
      objects := Function.update s.objects address
        ((s.objects address).map fun o => { o with thread := none })
      updates := s.updates ++ [.mallocUpdateObject address size] } where
  tabled := h.tabled.same rfl rfl
  relying := by
    obtain ⟨hown, hstored⟩ : s.Relies thread (.entered address size) :=
      hpoint ▸ h.relying.relies thread
    have haddress : (s.points thread).address = some address := by rw [hpoint]; rfl
    refine h.relying.frame thread address (fun other hother => points_moveTo_other s _ hother)
      (fun other hother => h.relying.others haddress hother) (fun b hb => ?_) ?_ ?_ subset_rfl
      (fun _ _ => h.relying.handed haddress) (h.relying.kept address)
    · exact .of_recount rfl (Function.update_of_ne hb _ _) Iff.rfl
    · simp only [points_moveTo_self]
      trivial
    · intro o ho _
      rw [Owns] at hown
      simp only [Function.update_self, hown, Option.map_some, Option.some.injEq] at ho
      subst ho
      exact hstored
  locked := h.locked.frame (inserting_moveTo (by rw [hpoint]; rfl))
    (linking_moveTo (by rw [hpoint]; rfl)) rfl (fun _ => rfl) fun _ => rfl

theorem Inv.look (h : Inv s) (hpoint : s.points thread = .freeing address) :
    Inv (s.moveTo thread (.looked address (s.objStatusMap.ref? address))) := by
  obtain ⟨tid, size, hown, hstored⟩ : s.Relies thread (.freeing address) :=
    hpoint ▸ h.relying.relies thread
  have hsearch : s.objStatusMap.ref? address = s.objStatusMap.recount.ref? address :=
    h.ref_own (by rw [hpoint]; rfl) (by rw [hpoint]; rfl)
  have hself : s.Relies thread (.looked address (s.objStatusMap.ref? address)) :=
    ⟨tid, size, hown, hstored, hsearch.symm⟩
  exact h.moveTo (by rw [hpoint]; rfl) (by rw [hpoint]; rfl) hself s.updates

theorem Inv.use (h : Inv s) (hpoint : s.points thread = .looked address objStat)
    (updates : List ShadowOp) : Inv { s.moveTo thread (.released address) with updates } := by
  obtain ⟨tid, size, hown, -, -⟩ : s.Relies thread (.looked address objStat) :=
    hpoint ▸ h.relying.relies thread
  have hself : s.Relies thread (.released address) := ⟨tid, size, hown⟩
  exact h.moveTo (by rw [hpoint]; rfl) (by rw [hpoint]; rfl) hself updates

/-- The real allocator has the address back; the entry stays. -/
theorem Inv.release (h : Inv s) (hpoint : s.points thread = .released address) :
    Inv { s.moveTo thread .outside with objects := Function.update s.objects address none } where
  tabled := h.tabled.same rfl rfl
  relying := by
    have haddress : (s.points thread).address = some address := by rw [hpoint]; rfl
    refine h.relying.frame thread address (fun other hother => points_moveTo_other s _ hother)
      (fun other hother => h.relying.others haddress hother) (fun b hb => ?_) ?_ ?_ subset_rfl
      (fun o ho => ?_) (h.relying.kept address)
    · exact .of_recount rfl (Function.update_of_ne hb _ _) Iff.rfl
    · simp only [points_moveTo_self]
      trivial
    · intro o ho
      simp only [Function.update_self] at ho
      cases ho
    · simp only [Function.update_self] at ho
      cases ho
  locked := h.locked.frame (inserting_moveTo (by rw [hpoint]; rfl))
    (linking_moveTo (by rw [hpoint]; rfl)) rfl (fun _ => rfl) fun _ => rfl

theorem Inv.advance (h : Inv s) (hs : s.advance thread callKey = some s') : Inv s' := by
  cases hpoint : s.points thread with
  | outside => simp [ObjectThreads.advance, hpoint] at hs
  | allocated address size =>
      simp only [ObjectThreads.advance, hpoint] at hs
      cases hfind : s.objStatusMap.ref? address with
      | none =>
          simp only [hfind, Option.some.injEq] at hs
          exact hs ▸ h.miss hpoint hfind
      | some status =>
          simp only [hfind, Option.some.injEq] at hs
          exact hs ▸ h.hit hpoint hfind
  | missed address size =>
      simp only [ObjectThreads.advance, hpoint] at hs
      split at hs
      · cases hs
      · next hfree =>
          cases hs
          exact h.lock hpoint hfree
  | locked address size =>
      simp only [ObjectThreads.advance, hpoint, Option.some.injEq] at hs
      exact hs ▸ h.link hpoint
  | linked address size =>
      simp only [ObjectThreads.advance, hpoint, Option.some.injEq] at hs
      exact hs ▸ h.count hpoint
  | counted address size =>
      simp only [ObjectThreads.advance, hpoint, Option.some.injEq] at hs
      exact hs ▸ h.unlock hpoint
  | hit address size status =>
      simp only [ObjectThreads.advance, hpoint, Option.some.injEq] at hs
      exact hs ▸ h.update hpoint
  | entered address size =>
      simp only [ObjectThreads.advance, hpoint, Option.some.injEq] at hs
      exact hs ▸ h.leave hpoint
  | freeing address =>
      simp only [ObjectThreads.advance, hpoint, Option.some.injEq] at hs
      exact hs ▸ h.look hpoint
  | looked address objStat =>
      simp only [ObjectThreads.advance, hpoint, Option.some.injEq] at hs
      exact hs ▸ h.use hpoint _
  | released address =>
      simp only [ObjectThreads.advance, hpoint, Option.some.injEq] at hs
      exact hs ▸ h.release hpoint

theorem Inv.step (h : Inv s) (i : ThreadStep) (hroom : s.Room i) (hs : s.step i = some s') :
    Inv s' := by
  cases i with
  | malloc thread sz address =>
      simp only [ObjectThreads.step] at hs
      split at hs
      · next hguard =>
          cases hs
          exact h.malloc hguard.1 hguard.2.2 hroom
      · cases hs
  | free thread ptr =>
      simp only [ObjectThreads.step] at hs
      cases hobject : s.objects ptr with
      | none => simp [hobject] at hs
      | some o =>
          simp only [hobject] at hs
          split at hs
          · next hguard =>
              cases hs
              exact h.free hguard.1 hobject hguard.2
          · cases hs
  | next thread callKey => exact h.advance hs

end Steps

/-! ## Every run -/

theorem Inv.init : Inv {} where
  tabled :=
    { index := fun _ => rfl
      holds := ⟨[], HashMap.Holds.init hashAddr (by decide)⟩
      handed := fun address hmem => by
        obtain ⟨i, -, hmem⟩ := HashMap.mem_keys_entries.mp hmem
        cases hmem
      room := fun _ => Nat.two_pow_pos 16 }
  relying :=
    { relies := fun _ => trivial
      quiet := fun _ _ hobject => by cases hobject
      live := fun _ _ hobject => by cases hobject
      kept := fun _ hmem => by cases hmem }
  locked :=
    { held := fun _ _ hins => by cases hins
      apart := fun _ _ _ _ hins => by cases hins
      counted := fun _ _ => rfl
      pending := fun _ _ hlink => by cases hlink }

theorem Inv.consistent (h : Inv s) : Consistent s where
  once := by
    obtain ⟨l, hl⟩ := h.tabled.holds
    exact (hl.entries_perm.map Entry.key).nodup_iff.mpr hl.nodup
  kept address hmem := by
    have hno : ∀ thread, (s.points thread).linking ≠ some address := by
      intro thread hlink
      have hself := h.relying.relies thread
      cases hp : s.points thread <;> rw [hp] at hlink hself <;> cases hlink
      exact hself.2.2 hmem
    have hsearch := h.ref hno
    have hkept := h.relying.kept address hmem
    rw [Option.isSome_iff_ne_none, Ne, ← HashMap.ref_eq_none_iff] at hkept ⊢
    rwa [hsearch]
  apart thread thread' address address' hins hins' hindex := by
    rw [h.tabled.index, h.tabled.index] at hindex
    exact h.locked.apart thread thread' address address' hins hins' hindex
  frees thread address objStat hpoint := by
    obtain ⟨tid, size, hown, ⟨status, hfind, htid, hsize⟩, href⟩ :
        s.Relies thread (.looked address objStat) := hpoint ▸ h.relying.relies thread
    refine ⟨_, status, hown, ?_, htid, hsize⟩
    rw [HashMap.find_eq_deref, href] at hfind
    cases objStat with
    | none => cases hfind
    | some r =>
        obtain ⟨value, hvalue⟩ := HashMap.deref_ref href
        rw [Option.bind_some, hvalue] at hfind
        cases hfind
        exact hvalue

end ObjectThreads

/-- Whatever the interleaving, as long as no bucket gets 65536 different
addresses, the table is consistent in every state. -/
theorem object_threads_consistent {past : List ThreadStep} {s : ObjectThreads}
    (h : Run ObjectThreads.step (fun _ => ObjectThreads.Room) {} past s) : s.Consistent :=
  (h.invariant ObjectThreads.Inv .init fun _ _ i _ hinv hroom hs =>
    hinv.step i hroom hs).consistent

/-- Two threads allocate in one bucket, the second waiting for the first;
then it frees the first one's object. -/
theorem object_threads_consistent_two_threads : ∃ past s,
    Run ObjectThreads.step (fun _ => ObjectThreads.Room) {} past s ∧
      s.points 2 = .looked 4096 (some (32, 0)) ∧ s.Consistent := by
  have hrun : (([.malloc 1 16 4096, .malloc 2 24 4160, .next 1 0, .next 2 0, .next 1 0, .next 1 0,
      .next 1 0, .next 1 0, .next 1 0, .next 2 0, .next 2 0, .next 2 0, .next 2 0, .next 2 0,
      .free 2 4096, .next 2 0] : List ThreadStep).foldlM
        (fun s i => if ObjectThreads.Room s i then ObjectThreads.step s i else none) {}).map
          (fun s => s.points 2) = some (.looked 4096 (some (32, 0))) := by decide +kernel
  obtain ⟨s, hs, hpoint⟩ := Option.map_eq_some_iff.mp hrun
  exact ⟨_, s, Run.ofChecked hs, hpoint, object_threads_consistent (Run.ofChecked hs)⟩

/-! ## A bucket that gets too many addresses -/

namespace ObjectThreads

/-- One thread has allocated these objects one after the other, each at a
new address. -/
structure Loaded (s : ObjectThreads) (addresses : List Nat) : Prop where
  outside : s.points 0 = .outside
  objects : ∀ address ∉ addresses, s.objects address = none
  unlocked : ∀ i, s.hashLocksSet i = false
  keys : ∀ address ∈ s.objStatusMap.entries.map Entry.key, address ∈ addresses
  inserted : s.inserted = addresses
  index : ∀ address, s.objStatusMap.hashIndex address = lockIndex address
  counts : s.objStatusMap.CountsInRange

variable {s : ObjectThreads} {addresses : List Nat} {address : Nat} {past : List ThreadStep}

theorem Loaded.init : Loaded {} [] where
  outside := rfl
  objects _ _ := rfl
  unlocked _ := rfl
  keys address hmem := by
    obtain ⟨i, -, hmem⟩ := HashMap.mem_keys_entries.mp hmem
    cases hmem
  inserted := rfl
  index _ := rfl
  counts := HashMap.init_countsInRange hashAddr (by decide)

/-- The seven steps of an allocation at a new address. -/
def allocation (address : Nat) : List ThreadStep :=
  .malloc 0 1 address :: List.replicate 6 (.next 0 0)

/-- What they come to. -/
def allocate (s : ObjectThreads) (address : Nat) : ObjectThreads where
  objStatusMap := s.objStatusMap.insert address { callKey := 0, tid := 0, size := 1 }
  hashLocksSet := Function.update s.hashLocksSet (lockIndex address) false
  points := Function.update s.points 0 .outside
  objects := Function.update s.objects address (some { tid := 0, size := 1 })
  handedOut := insert address s.handedOut
  inserted := s.inserted ++ [address]
  updates := s.updates ++ [.mallocUpdateObject address 1]

theorem Loaded.run (h : Loaded s addresses) (hnew : address ∉ addresses) (hnull : address ≠ 0) :
    (allocation address).foldlM step s = some (s.allocate address) := by
  have hmiss : s.objStatusMap.ref? address = none := by
    rw [Option.eq_none_iff_forall_not_mem]
    exact fun r hr => hnew (h.keys address (HashMap.mem_keys_of_ref hr))
  have hguard : s.points 0 = .outside ∧ address ≠ 0 ∧ s.objects address = none :=
    ⟨h.outside, hnull, h.objects address hnew⟩
  simp [allocation, allocate, List.replicate, step, advance, moveTo, hguard, hmiss, h.unlocked,
    HashMap.insert_eq_link_countUp, wrap]

theorem Loaded.allocate (h : Loaded s addresses) (address : Nat) :
    Loaded (s.allocate address) (addresses ++ [address]) where
  outside := by simp only [ObjectThreads.allocate, Function.update_self]
  objects b hb := by
    rw [List.mem_append, List.mem_singleton, not_or] at hb
    exact (Function.update_of_ne hb.2 _ _).trans (h.objects b hb.1)
  unlocked i := by
    by_cases hi : i = lockIndex address
    · subst hi
      exact Function.update_self ..
    · exact (Function.update_of_ne hi _ _).trans (h.unlocked i)
  keys b hb := by
    rw [List.mem_append, List.mem_singleton]
    rcases HashMap.mem_keys_entries_insert.mp hb with heq | hb
    · exact Or.inr heq
    · exact Or.inl (h.keys b hb)
  inserted := by rw [ObjectThreads.allocate, h.inserted]
  index := h.index
  counts := h.counts.insert _ _

/-- Allocations at different addresses, one after the other. -/
theorem run_allocations (hnodup : addresses.Nodup) (hnull : 0 ∉ addresses) :
    ∃ s, (addresses.flatMap allocation).foldlM step {} = some s ∧ Loaded s addresses := by
  induction addresses using List.reverseRecOn with
  | nil => exact ⟨{}, rfl, .init⟩
  | append_singleton addresses address ih =>
      rw [List.nodup_append] at hnodup
      rw [List.mem_append, List.mem_singleton, not_or] at hnull
      obtain ⟨s, hs, hloaded⟩ := ih hnodup.1 hnull.1
      have hnew : address ∉ addresses := fun hmem =>
        hnodup.2.2 address hmem address (List.mem_singleton_self address) rfl
      refine ⟨s.allocate address, ?_, hloaded.allocate address⟩
      rw [List.flatMap_append, List.flatMap_singleton, List.foldlM_append, hs]
      exact hloaded.run hnew (Ne.symm hnull.2)

/-- A table that has lost nothing has at most 65535 entries in a bucket. -/
theorem Loaded.card_lt (h : Loaded s addresses) (hs : s.Consistent) (bucket : Finset Nat) (i : Nat)
    (hbucket : ∀ address ∈ bucket, address ∈ addresses ∧ lockIndex address = i) :
    bucket.card < 2 ^ 16 := by
  refine (HashMap.card_found_le fun address hmem => ?_).trans_lt (h.counts i)
  obtain ⟨haddress, hindex⟩ := hbucket address hmem
  exact ⟨(h.index address).trans hindex, hs.kept address (h.inserted ▸ haddress)⟩

/-- 65536 addresses, all of them in the first bucket. -/
def strideAddress (k : Nat) : Nat := 2 ^ 29 * (k + 1)

def strideAddresses : List Nat := (List.range (2 ^ 16)).map strideAddress

theorem lockIndex_stride (k : Nat) : lockIndex (strideAddress k) = 0 := by
  have hshift : hashAddr (strideAddress k) = 2 ^ 22 * (k + 1) := by
    rw [hashAddr, strideAddress, Nat.shiftRight_eq_div_pow]
    omega
  rw [lockIndex, hshift, show maxObjNum - 1 = 2 ^ 22 - 1 from rfl, Nat.and_two_pow_sub_one_eq_mod]
  omega

theorem strideAddress_injective : Function.Injective strideAddress := fun k k' heq => by
  simp only [strideAddress] at heq
  omega

theorem mem_strideAddresses :
    address ∈ strideAddresses ↔ ∃ k < 2 ^ 16, strideAddress k = address := by
  rw [strideAddresses, List.mem_map]
  simp only [List.mem_range]

theorem strideAddresses_nodup :
    strideAddresses.Nodup := List.nodup_range.map strideAddress_injective

theorem null_not_mem_strideAddresses : 0 ∉ strideAddresses := by
  rw [mem_strideAddresses]
  rintro ⟨k, -, hk⟩
  simp only [strideAddress] at hk
  omega

/-- Sequential allocations are enough to lose an insertion. -/
theorem object_table_loses_entries : ¬ ∀ (past : List ThreadStep) (s : ObjectThreads),
    Run step (fun _ _ _ => True) {} past s → s.Consistent := by
  intro h
  obtain ⟨s, hs, hloaded⟩ := run_allocations strideAddresses_nodup null_not_mem_strideAddresses
  have hconsistent := h _ s (Run.ofFoldlM (fun _ _ _ _ => trivial) hs)
  have hcard := hloaded.card_lt hconsistent ((Finset.range (2 ^ 16)).image strideAddress) 0
    fun address hmem => by
      obtain ⟨k, hk, rfl⟩ := Finset.mem_image.mp hmem
      exact ⟨mem_strideAddresses.mpr ⟨k, Finset.mem_range.mp hk, rfl⟩, lockIndex_stride k⟩
  rw [Finset.card_image_of_injective _ strideAddress_injective, Finset.card_range] at hcard
  exact absurd hcard (Nat.lt_irrefl _)

end ObjectThreads

end MemPerf
