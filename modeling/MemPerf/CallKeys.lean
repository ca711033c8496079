import MemPerf.ObjectPairing
import MemPerf.Lib.HashSteps
import MemPerf.Lib.SpinLock

/-!
# The call keys

`Callsite::getCallKey` hashes the stack depth and the return address of an
allocation into 8 bits. A key that is new is entered in `callTable` with
its return address, under the lock of the key in `hashLocksSet`; whether
it is new is looked up in `callKeyBook` before the lock is taken, so
several threads may find a key new at once.

The book is written before the table. A thread that finds the key in the
book returns it although the entry may still be missing: the two agree
again when the lock is free.
-/

namespace MemPerf

open Chained Word SpinLock StepSystem

/-- `NUM_CALLKEY` -/
def numCallKeys : Nat := 256

theorem numCallKeys_pos : 0 < numCallKeys := by decide

/-- `HashFuncs::hash_uint8_t` -/
def hashUint8 (x : Nat) : Nat := x

/-- What a call of `getCallKey` is given: its argument, and what it reads
off its stack. -/
structure KeyCall where
  oldCallKey : Nat
  stackOffset : Nat
  returnAddr : Nat
deriving DecidableEq, Repr

/-- `HashMap <uint8_t, void *, PrivateHeap> callTable`, `callKeyBook` and
`numCallKey`. `returned` are the keys the calls have returned, as the
objects record them, and `calls` are the calls so far; no code reads
these. -/
structure CallKeys where
  callKeyBook : Nat → Bool := fun _ => false
  callTable : HashMap Nat Nat := HashMap.init hashUint8 numCallKeys numCallKeys_pos
  numCallKey : Nat := 0
  returned : List Nat := []
  calls : List KeyCall := []

/-- The key of a return address, this deep in the stack. -/
def callKeyOf (stackOffset returnAddr : Nat) : Nat :=
  wrap 8 (wrap 64 (stackOffset + returnAddr) >>> 4)

/-- `CallKeyHashLocksSet`: the lock of a key. -/
def callKeyLock (key : Nat) : Nat := hashUint8 key &&& (numCallKeys - 1)

/-- Where a thread stands. -/
inductive CallPoint where
  | outside
  | called (oldCallKey callKey returnAddr : Nat)
  /-- The key is not in the book. -/
  | missed (callKey returnAddr : Nat)
  | locked (callKey returnAddr : Nat)
  /-- `callKeyBook[callKey] = true` -/
  | booked (callKey returnAddr : Nat)
  /-- In `insertIfAbsent`, which has found nothing. -/
  | absent (callKey returnAddr : Nat)
  | linked (callKey : Nat)
  /-- `insertIfAbsent` has returned. -/
  | entered (callKey : Nat)
  | unlocked (callKey : Nat)
  /-- `numCallKey` has been read. -/
  | counting (callKey numCallKey : Nat)
  | returning (callKey : Nat)
deriving DecidableEq, Repr

namespace CallPoint

def next : CallPoint → Next Nat
  | missed callKey _ => .lock (callKeyLock callKey)
  | entered callKey => .unlock (callKeyLock callKey)
  | _ => .plain

def pass : CallPoint → CallPoint
  | missed callKey returnAddr => locked callKey returnAddr
  | entered callKey => unlocked callKey
  | p => p

/-- The old key is that of an object, or 0. -/
def plain (d : CallKeys) : CallPoint → KeyCall → Option (CallKeys × CallPoint)
  | outside, call =>
      if call.oldCallKey = 0 ∨ call.oldCallKey ∈ d.returned then
        let callKey := callKeyOf call.stackOffset call.returnAddr
        some ({ d with calls := d.calls ++ [call] },
          called call.oldCallKey callKey call.returnAddr)
      else none
  | called oldCallKey callKey returnAddr, _ =>
      if callKey ≠ oldCallKey ∧ d.callKeyBook callKey = false then
        some (d, missed callKey returnAddr)
      else some (d, returning callKey)
  | locked callKey returnAddr, _ =>
      some ({ d with callKeyBook := Function.update d.callKeyBook callKey true },
        booked callKey returnAddr)
  | booked callKey returnAddr, _ =>
      match d.callTable.getEntry callKey with
      | some _ => some (d, entered callKey)
      | none => some (d, absent callKey returnAddr)
  | absent callKey returnAddr, _ =>
      some ({ d with callTable := d.callTable.link callKey returnAddr }, linked callKey)
  | linked callKey, _ =>
      some ({ d with callTable := d.callTable.countUp callKey }, entered callKey)
  | unlocked callKey, _ => some (d, counting callKey d.numCallKey)
  | counting callKey numCallKey, _ =>
      some ({ d with numCallKey := wrap 16 (numCallKey + 1) }, returning callKey)
  | returning callKey, _ => some ({ d with returned := d.returned ++ [callKey] }, outside)
  | missed _ _, _ | entered _, _ => none

/-- The key whose lock the thread has. -/
def holding : CallPoint → Option Nat
  | locked callKey _ | booked callKey _ | absent callKey _ | linked callKey | entered callKey =>
      some callKey
  | _ => none

theorem plain_holding {d d' : CallKeys} {p p' : CallPoint} {call : KeyCall}
    (h : plain d p call = some (d', p')) : p'.holding = p.holding := by
  cases p with
  | outside =>
      simp only [plain] at h
      split at h
      · cases h; rfl
      · cases h
  | called oldCallKey callKey returnAddr =>
      simp only [plain] at h
      split at h <;> (cases h; rfl)
  | booked callKey returnAddr =>
      simp only [plain] at h
      split at h <;> (cases h; rfl)
  | missed | entered => cases h
  | locked | absent | linked | unlocked | counting | returning => cases h; rfl

end CallPoint

open CallPoint

def callKeyProgram : Program Nat CallKeys CallPoint KeyCall where
  next := next
  pass := pass
  plain := plain
  inside p := p.holding.map callKeyLock
  lock_outside {p _} h := by
    cases p with
    | missed => rfl
    | _ => cases h
  lock_inside {p _} h := by
    cases p with
    | missed => cases h; rfl
    | _ => cases h
  unlock_inside {p _} h := by
    cases p with
    | entered => cases h; rfl
    | _ => cases h
  unlock_outside {p _} h := by
    cases p with
    | entered => rfl
    | _ => cases h
  plain_inside _ h := congrArg (Option.map callKeyLock) (plain_holding h)

/-! ## What the table says of a key -/

namespace CallKeys

/-- A call with this return address had this key. -/
def FromCall (d : CallKeys) (key addr : Nat) : Prop :=
  ∃ call ∈ d.calls, callKeyOf call.stackOffset call.returnAddr = key ∧ call.returnAddr = addr

theorem FromCall.lt {d : CallKeys} {key addr : Nat} (h : d.FromCall key addr) :
    key < numCallKeys := by
  obtain ⟨call, -, rfl, -⟩ := h
  exact wrap_lt 8 _

/-- The table as it was set up, and no returned key unknown. -/
structure WellFormed (d : CallKeys) : Prop where
  hashfunc : d.callTable.hashfunc = hashUint8
  bucketsTotal : d.callTable.bucketsTotal = numCallKeys
  book : ∀ key, d.callKeyBook key = true → key < numCallKeys
  returned : ∀ key ∈ d.returned, key = 0 ∨ d.callKeyBook key = true

/-- The bucket of the key holds the return address of a call that had this
key, and nothing else. -/
def Entered (d : CallKeys) (key : Nat) : Prop :=
  ∃ addr, d.callTable.home key = { list := [⟨key, addr⟩], count := 1 } ∧ d.FromCall key addr

/-- The table agrees with the book. -/
structure Agrees (d : CallKeys) (key : Nat) : Prop where
  new : d.callKeyBook key = false → d.callTable.home key = {}
  old : d.callKeyBook key = true → d.Entered key

/-- What is the same before and after a step of a thread that has the lock
of `held` or none. -/
structure Frame (held : Option Nat) (d d' : CallKeys) : Prop where
  hashfunc : d'.callTable.hashfunc = d.callTable.hashfunc
  bucketsTotal : d'.callTable.bucketsTotal = d.callTable.bucketsTotal
  home : ∀ key < numCallKeys, held ≠ some key → d'.callTable.home key = d.callTable.home key
  book : ∀ key, held ≠ some key → d'.callKeyBook key = d.callKeyBook key
  grows : ∀ key, d.callKeyBook key = true → d'.callKeyBook key = true
  calls : ∀ call ∈ d.calls, call ∈ d'.calls

variable {d d' : CallKeys} {key : Nat} {held : Option Nat}

theorem WellFormed.hashIndex (h : d.WellFormed) (hkey : key < numCallKeys) :
    d.callTable.hashIndex key = key := by
  rw [HashMap.hashIndex, h.hashfunc, h.bucketsTotal, hashUint8,
    show numCallKeys - 1 = 2 ^ 8 - 1 from rfl, Nat.and_two_pow_sub_one_eq_mod]
  exact Nat.mod_eq_of_lt hkey

theorem callKeyLock_eq (hkey : key < numCallKeys) : callKeyLock key = key := by
  rw [callKeyLock, hashUint8, show numCallKeys - 1 = 2 ^ 8 - 1 from rfl,
    Nat.and_two_pow_sub_one_eq_mod]
  exact Nat.mod_eq_of_lt hkey

theorem Entered.find (h : d.Entered key) :
    ∃ addr, d.callTable.find key = some addr ∧ d.FromCall key addr := by
  obtain ⟨addr, hhome, hfrom⟩ := h
  refine ⟨addr, ?_, hfrom⟩
  simp [HashMap.find, HashMap.getEntry, hhome]

theorem Frame.fromCall {addr : Nat} (h : Frame held d d') (hd : d.FromCall key addr) :
    d'.FromCall key addr := by
  obtain ⟨call, hcall, hkey⟩ := hd
  exact ⟨call, h.calls call hcall, hkey⟩

theorem Frame.entered (h : Frame held d d') (hkey : key < numCallKeys) (hheld : held ≠ some key)
    (hd : d.Entered key) : d'.Entered key := by
  obtain ⟨addr, hhome, hfrom⟩ := hd
  exact ⟨addr, (h.home key hkey hheld).trans hhome, h.fromCall hfrom⟩

theorem Frame.agrees (h : Frame held d d') (hkey : key < numCallKeys) (hheld : held ≠ some key)
    (hd : d.Agrees key) : d'.Agrees key where
  new hbook := (h.home key hkey hheld).trans (hd.new ((h.book key hheld).symm.trans hbook))
  old hbook := h.entered hkey hheld (hd.old ((h.book key hheld).symm.trans hbook))

end CallKeys

open CallKeys

/-! ## What a thread knows -/

namespace CallPoint

/-- What a thread knows of its key, where it stands. -/
def Knows : CallPoint → CallKeys → Prop
  | outside, _ => True
  | called oldCallKey callKey returnAddr, d =>
      (oldCallKey = 0 ∨ d.callKeyBook oldCallKey = true) ∧ d.FromCall callKey returnAddr
  | missed callKey returnAddr, d => d.FromCall callKey returnAddr
  | locked callKey returnAddr, d => d.FromCall callKey returnAddr ∧ d.Agrees callKey
  | booked callKey returnAddr, d => d.FromCall callKey returnAddr ∧ d.callKeyBook callKey = true
      ∧ (d.callTable.home callKey = {} ∨ d.Entered callKey)
  | absent callKey returnAddr, d => d.FromCall callKey returnAddr ∧ d.callKeyBook callKey = true
      ∧ d.callTable.home callKey = {}
  | linked callKey, d => d.callKeyBook callKey = true
      ∧ ∃ addr, d.callTable.home callKey = { list := [⟨callKey, addr⟩] } ∧ d.FromCall callKey addr
  | entered callKey, d => d.callKeyBook callKey = true ∧ d.Entered callKey
  | unlocked callKey, d | counting callKey _, d => d.callKeyBook callKey = true
  | returning callKey, d => callKey = 0 ∨ d.callKeyBook callKey = true

/-- It relies on the others for nothing that is not behind its lock. -/
theorem Knows.frame {p : CallPoint} {d d' : CallKeys} {held : Option Nat} (h : p.Knows d)
    (hframe : Frame held d d') (hheld : ∀ key, held = some key → p.holding ≠ some key) :
    p.Knows d' := by
  have hother : ∀ key, p.holding = some key → held ≠ some key := fun key hp hk => hheld key hk hp
  cases p with
  | outside => trivial
  | called oldCallKey callKey returnAddr =>
      exact ⟨h.1.imp_right (hframe.grows _), hframe.fromCall h.2⟩
  | missed callKey returnAddr => exact hframe.fromCall h
  | locked callKey returnAddr =>
      exact ⟨hframe.fromCall h.1, hframe.agrees h.1.lt (hother _ rfl) h.2⟩
  | booked callKey returnAddr =>
      obtain ⟨hfrom, hbook, hhome⟩ := h
      refine ⟨hframe.fromCall hfrom, hframe.grows _ hbook,
        hhome.imp ?_ (hframe.entered hfrom.lt (hother _ rfl))⟩
      exact (hframe.home callKey hfrom.lt (hother _ rfl)).trans
  | absent callKey returnAddr =>
      obtain ⟨hfrom, hbook, hhome⟩ := h
      exact ⟨hframe.fromCall hfrom, hframe.grows _ hbook,
        (hframe.home callKey hfrom.lt (hother _ rfl)).trans hhome⟩
  | linked callKey =>
      obtain ⟨hbook, addr, hhome, hfrom⟩ := h
      exact ⟨hframe.grows _ hbook, addr,
        (hframe.home callKey hfrom.lt (hother _ rfl)).trans hhome, hframe.fromCall hfrom⟩
  | entered callKey =>
      obtain ⟨hbook, addr, hhome, hfrom⟩ := h
      exact ⟨hframe.grows _ hbook, addr,
        (hframe.home callKey hfrom.lt (hother _ rfl)).trans hhome, hframe.fromCall hfrom⟩
  | unlocked callKey => exact hframe.grows _ h
  | counting callKey numCallKey => exact hframe.grows _ h
  | returning callKey => exact h.imp_right (hframe.grows _)

/-- What one step does. -/
theorem plain_spec {d d' : CallKeys} {p p' : CallPoint} {call : KeyCall} (hd : d.WellFormed)
    (hp : p.Knows d) (h : plain d p call = some (d', p')) :
    Frame p.holding d d' ∧ d'.WellFormed ∧ p'.Knows d' := by
  have hsame : Frame p.holding d d :=
    ⟨rfl, rfl, fun _ _ _ => rfl, fun _ _ => rfl, fun _ => id, fun _ => id⟩
  -- another key has another bucket
  have hindex : ∀ {key callKey}, callKey < numCallKeys → key < numCallKeys →
      some callKey ≠ some key → d.callTable.hashIndex key ≠ d.callTable.hashIndex callKey := by
    intro key callKey hcall hkey hne heq
    rw [hd.hashIndex hkey, hd.hashIndex hcall] at heq
    exact hne (congrArg some heq.symm)
  cases p with
  | missed | entered => cases h
  | outside =>
      simp only [plain] at h
      split at h
      · next hold =>
          cases h
          have hcall : call ∈ d.calls ++ [call] := by simp
          exact ⟨⟨rfl, rfl, fun _ _ _ => rfl, fun _ _ => rfl, fun _ => id,
              fun _ => List.mem_append_left _⟩,
            ⟨hd.hashfunc, hd.bucketsTotal, hd.book, hd.returned⟩,
            hold.elim .inl (hd.returned _), call, hcall, rfl, rfl⟩
      · cases h
  | called oldCallKey callKey returnAddr =>
      simp only [plain] at h
      split at h
      · cases h
        exact ⟨hsame, hd, hp.2⟩
      · next hknown =>
          cases h
          refine ⟨hsame, hd, ?_⟩
          by_cases hkey : callKey = oldCallKey
          · subst hkey
            exact hp.1
          · exact .inr (by simpa [hkey] using hknown)
  | locked callKey returnAddr =>
      cases h
      refine ⟨⟨rfl, rfl, fun _ _ _ => rfl, fun key hkey => ?_, fun key hkey => ?_, fun _ => id⟩,
        ⟨hd.hashfunc, hd.bucketsTotal, fun key hkey => ?_,
          fun key hkey => (hd.returned key hkey).imp_right ?_⟩,
        hp.1, Function.update_self .., ?_⟩
      · exact Function.update_of_ne (fun heq => hkey (congrArg some heq.symm)) ..
      · by_cases heq : key = callKey
        · subst heq
          exact Function.update_self ..
        · exact (Function.update_of_ne heq ..).trans hkey
      · by_cases heq : key = callKey
        · subst heq
          exact hp.1.lt
        · exact hd.book key ((Function.update_of_ne heq ..).symm.trans hkey)
      · intro hbook
        by_cases heq : key = callKey
        · subst heq
          exact Function.update_self ..
        · exact (Function.update_of_ne heq ..).trans hbook
      · cases hbook : d.callKeyBook callKey with
        | false => exact .inl (hp.2.new hbook)
        | true => exact .inr (hp.2.old hbook)
  | booked callKey returnAddr =>
      obtain ⟨hfrom, hbook, hhome⟩ := hp
      simp only [plain] at h
      split at h
      · next hfound =>
          cases h
          refine ⟨hsame, hd, hbook, hhome.resolve_left fun hempty => ?_⟩
          simp [HashMap.getEntry, hempty] at hfound
      · next hfound =>
          cases h
          refine ⟨hsame, hd, hfrom, hbook, hhome.resolve_right ?_⟩
          rintro ⟨addr, hentry, -⟩
          simp [HashMap.getEntry, hentry] at hfound
  | absent callKey returnAddr =>
      obtain ⟨hfrom, hbook, hhome⟩ := hp
      cases h
      refine ⟨⟨rfl, rfl, fun key hkey hne => HashMap.link_home_of_ne _ _ (hindex hfrom.lt hkey hne),
        fun _ _ => rfl, fun _ => id, fun _ => id⟩,
        ⟨hd.hashfunc, hd.bucketsTotal, hd.book, hd.returned⟩, hbook,
        returnAddr, ?_, hfrom⟩
      rw [HashMap.link_home, hhome]
      rfl
  | linked callKey =>
      obtain ⟨hbook, addr, hhome, hfrom⟩ := hp
      cases h
      refine ⟨⟨rfl, rfl,
        fun key hkey hne => HashMap.countUp_home_of_ne _ (hindex hfrom.lt hkey hne),
        fun _ _ => rfl, fun _ => id, fun _ => id⟩,
        ⟨hd.hashfunc, hd.bucketsTotal, hd.book, hd.returned⟩, hbook,
        addr, ?_, hfrom⟩
      rw [HashMap.countUp_home, hhome]
      rfl
  | unlocked callKey =>
      cases h
      exact ⟨hsame, hd, hp⟩
  | counting callKey numCallKey =>
      cases h
      exact ⟨⟨rfl, rfl, fun _ _ _ => rfl, fun _ _ => rfl, fun _ => id, fun _ => id⟩,
        ⟨hd.hashfunc, hd.bucketsTotal, hd.book, hd.returned⟩, .inr hp⟩
  | returning callKey =>
      cases h
      refine ⟨⟨rfl, rfl, fun _ _ _ => rfl, fun _ _ => rfl, fun _ => id, fun _ => id⟩,
        ⟨hd.hashfunc, hd.bucketsTotal, hd.book, fun key hkey => ?_⟩, trivial⟩
      rcases List.mem_append.mp hkey with hold | hnew
      · exact hd.returned key hold
      · obtain rfl := List.mem_singleton.mp hnew
        exact hp

end CallPoint

/-! ## Every interleaving -/

/-- What the lock `k` guards. -/
def KeysAgree (k : Nat) (d : CallKeys) : Prop :=
  d.WellFormed ∧ ∀ key < numCallKeys, callKeyLock key = k → d.Agrees key

theorem callKey_protocol :
    callKeyProgram.Protocol KeysAgree fun p d => d.WellFormed ∧ p.Knows d where
  lock {p k d} h hp hk := by
    cases p with
    | missed callKey returnAddr =>
        cases h
        exact ⟨hp.1, hp.2, hk.2 callKey hp.2.lt rfl⟩
    | _ => cases h
  unlock {p k d} h hp := by
    cases p with
    | entered callKey =>
        cases h
        obtain ⟨hd, hbook, hentered⟩ := hp
        refine ⟨⟨hd, hbook⟩, hd, fun key hkey hlock => ?_⟩
        obtain ⟨addr, -, hfrom⟩ := id hentered
        rw [callKeyLock_eq hkey, callKeyLock_eq hfrom.lt] at hlock
        subst hlock
        exact ⟨fun hnew => absurd (hbook.symm.trans hnew) (by decide), fun _ => hentered⟩
    | _ => cases h
  plain _ hp h := (plain_spec hp.1 hp.2 h).2
  guarded {p p' d d' call k} _ hp h hinside hk := by
    obtain ⟨hframe, hd', -⟩ := plain_spec hp.1 hp.2 h
    refine ⟨hd', fun key hkey hlock => hframe.agrees hkey (fun hholding => hinside ?_)
      (hk.2 key hkey hlock)⟩
    rw [← hlock]
    exact congrArg (Option.map callKeyLock) hholding
  others {p p' q d d' call} _ hp h hinside hq := by
    obtain ⟨hframe, hd', -⟩ := plain_spec hp.1 hp.2 h
    refine ⟨hd', hq.2.frame hframe fun key hholding hother => ?_⟩
    exact hinside (callKeyLock key) (congrArg (Option.map callKeyLock) hholding)
      (congrArg (Option.map callKeyLock) hother)

/-- The threads before the first allocation. -/
def callKeyThreads : State Nat Nat CallKeys CallPoint where
  data := {}
  threads _ := .outside

theorem wellFormed_init : ({} : CallKeys).WellFormed where
  hashfunc := rfl
  bucketsTotal := rfl
  book _ h := by cases h
  returned _ h := by cases h

theorem agrees_init (key : Nat) : ({} : CallKeys).Agrees key := ⟨fun _ => rfl, fun h => by cases h⟩

/-- The address that `printCallSite` hands to `addr2line`, if it prints. -/
def printCallSite (convertToVMA : Nat → Nat) (d : CallKeys) (callKey : Nat) : Option Nat :=
  if callKey = 0 then none
  else
    match d.callTable.find callKey with
    | some callsite => if callsite = 0 then none else some (convertToVMA callsite)
    | none => none

section Run

variable {past more : List (Nat × KeyCall)} {s s' : State Nat Nat CallKeys CallPoint}
  {guard guard' : List (Nat × KeyCall) → State Nat Nat CallKeys CallPoint → Nat × KeyCall → Prop}
  {key : Nat}

theorem callKeys_hold (h : Run callKeyProgram.step guard callKeyThreads past s) :
    callKeyProgram.Holds KeysAgree (fun p d => d.WellFormed ∧ p.Knows d) s := by
  have hfree : callKeyProgram.Free callKeyThreads := ⟨fun _ => rfl, fun _ => rfl, fun _ => rfl⟩
  exact callKey_protocol.run hfree (fun _ => ⟨wellFormed_init, fun key _ _ => agrees_init key⟩)
    (fun _ => ⟨wellFormed_init, trivial⟩) h

theorem agrees_of_free (h : Run callKeyProgram.step guard callKeyThreads past s)
    (hkey : key < numCallKeys) (hfree : s.words (callKeyLock key) = false) : s.data.Agrees key :=
  ((callKeys_hold h).free _ hfree).2 key hkey rfl

/-- **The table and the book agree on a key whose lock is free**: a key in
the book has one entry, with the return address of a call of the run that
had this key, and a key that is not has none. The keys that calls have returned are
all in the book, but for 0. -/
theorem call_keys_agree (h : Run callKeyProgram.step guard callKeyThreads past s)
    (hkey : key < numCallKeys) (hfree : s.words (callKeyLock key) = false) :
    s.data.Agrees key ∧ (key ∈ s.data.returned → key ≠ 0 → s.data.Entered key) := by
  have hagrees := agrees_of_free h hkey hfree
  obtain ⟨hd, -⟩ := (callKeys_hold h).free _ hfree
  exact ⟨hagrees, fun hret hne => hagrees.old ((hd.returned key hret).resolve_left hne)⟩

/-- An entry that has been counted is not touched again. -/
theorem entry_kept {ti : Nat × KeyCall} {addr : Nat}
    (hs : callKeyProgram.Holds KeysAgree (fun p d => d.WellFormed ∧ p.Knows d) s)
    (hkey : key < numCallKeys)
    (hhome : s.data.callTable.home key = { list := [⟨key, addr⟩], count := 1 })
    (hstep : callKeyProgram.step s ti = some s') :
    s'.data.callTable.home key = { list := [⟨key, addr⟩], count := 1 } := by
  obtain ⟨t, call⟩ := ti
  rcases callKeyProgram.step_cases hstep with
    ⟨k, -, -, rfl⟩ | ⟨k, -, -, rfl⟩ | ⟨k, -, rfl⟩ | ⟨d, p, -, hplain, rfl⟩
  · exact hhome
  · exact hhome
  · exact hhome
  · show d.callTable.home key = _
    obtain ⟨hd, hknows⟩ := hs.threads t
    have hframe := (plain_spec hd hknows hplain).1
    change CallPoint.plain s.data (s.threads t) call = some (d, p) at hplain
    generalize s.threads t = point at hknows hplain hframe
    by_cases hholding : point.holding = some key
    · cases point with
      | locked callKey returnAddr => cases hplain; exact hhome
      | booked callKey returnAddr =>
          simp only [CallPoint.plain] at hplain
          split at hplain <;> (cases hplain; exact hhome)
      | absent callKey returnAddr =>
          obtain rfl : callKey = key := Option.some.inj hholding
          exact absurd (hknows.2.2.symm.trans hhome) (by simp)
      | linked callKey =>
          obtain rfl : callKey = key := Option.some.inj hholding
          obtain ⟨-, addr', hlinked, -⟩ := hknows
          exact absurd (hlinked.symm.trans hhome) (by simp)
      | entered callKey => cases hplain
      | outside | called | missed | unlocked | counting | returning => cases hholding
    · exact (hframe.home key hkey hholding).trans hhome

end Run

/-- Two threads, two addresses, one key that both find new. The second
thread waits for the lock, finds the entry of the first, and the two
count the key at once. -/
def callKeyRace : List (Nat × KeyCall) :=
  let first : KeyCall := ⟨0, 0, 80⟩
  let second : KeyCall := ⟨0, 16, 64⟩
  [(1, first), (2, second), (1, first), (2, second), (1, first), (1, first), (1, first), (1, first),
    (2, second), (1, first), (1, first), (2, second), (2, second), (2, second), (2, second),
    (1, first), (2, second), (1, first), (2, second), (1, first), (2, second)]

theorem call_keys_agree_race :
    ∃ s, Run callKeyProgram.step (fun _ _ _ => True) callKeyThreads callKeyRace s
      ∧ s.data.returned = [5, 5] ∧ s.data.numCallKey = 1 ∧ s.data.Entered 5 := by
  obtain ⟨s, hs⟩ := Option.isSome_iff_exists.mp
    (show (callKeyRace.foldlM callKeyProgram.step callKeyThreads).isSome by decide)
  have hdata : (callKeyRace.foldlM callKeyProgram.step callKeyThreads).map
      (fun s => (s.words 5, s.data.returned, s.data.numCallKey)) = some (false, [5, 5], 1) := by
    decide
  rw [hs] at hdata
  obtain ⟨hword, hret, hnum⟩ : s.words 5 = false ∧ s.data.returned = [5, 5]
      ∧ s.data.numCallKey = 1 := by simpa using hdata
  have hrun : Run callKeyProgram.step (fun _ _ _ => True) callKeyThreads callKeyRace s :=
    Run.ofFoldlM (fun _ _ _ _ => trivial) hs
  have hentered := (call_keys_agree hrun (by decide : 5 < numCallKeys) hword).2
  exact ⟨s, hrun, hret, hnum, hentered (by simp [hret]) (by decide)⟩

end MemPerf
