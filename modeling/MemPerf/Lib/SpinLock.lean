import Mathlib.Logic.Function.Basic
import Mathlib.Logic.Relation
import MemPerf.Lib.Run

/-!
# Threads and spin locks

Any number of threads run a program over shared data, one atomic step of
one thread at a time, in any order. A lock is a word: `lock()` exchanges
it for 1 until it gets a 0 back, `unlock()` stores a 0. A thread between
the two is inside the section of the lock; the program says where that
is, and its fields say that it locks and unlocks properly. Nothing is
said about what the steps do to the data, inside or outside.

Two rules follow from mutual exclusion (`exclusive`). A `Protocol` gives
every lock an invariant of the data that holds while the lock is free,
and every place of the program an assertion that the other threads leave
alone: then they hold in every run (`Protocol.run`). And where the data
changes in the sections of one lock only, the run is as good as one in
which the sections were executed one after the other, in the order in
which they were left (`serial`).
-/

namespace SpinLock

open StepSystem

/-- What a thread does next. -/
inductive Next (κ : Type*) where
  | lock (k : κ)
  | unlock (k : κ)
  | plain
deriving DecidableEq

/-- A program for threads with local state `l`, where they stand included.
A plain step takes an input; `none` is a step that is not possible. -/
structure Program (κ σ l ι : Type*) where
  next : l → Next κ
  /-- Behind a `lock()` that got the lock, and behind an `unlock()`. -/
  pass : l → l
  plain : σ → l → ι → Option (σ × l)
  inside : l → Option κ
  lock_outside : ∀ {a k}, next a = .lock k → inside a = none
  lock_inside : ∀ {a k}, next a = .lock k → inside (pass a) = some k
  unlock_inside : ∀ {a k}, next a = .unlock k → inside a = some k
  unlock_outside : ∀ {a k}, next a = .unlock k → inside (pass a) = none
  plain_inside : ∀ {s s' a a' i}, next a = .plain → plain s a i = some (s', a') →
    inside a' = inside a

/-- The data, the words of the locks and the threads, and for every lock
the sections left so far, each with its thread and how it left. -/
structure State (τ κ σ l : Type*) where
  data : σ
  words : κ → Bool := fun _ => false
  threads : τ → l
  left : κ → List (τ × l) := fun _ => []

variable {τ κ σ l ι : Type*}

namespace State

variable (s : State τ κ σ l)

section Threads

variable [DecidableEq τ]

def moveTo (t : τ) (a : l) : State τ κ σ l :=
  { s with threads := Function.update s.threads t a }

@[simp] theorem moveTo_self (t : τ) (a : l) : (s.moveTo t a).threads t = a :=
  Function.update_self ..

theorem moveTo_of_ne {t u : τ} (h : u ≠ t) (a : l) : (s.moveTo t a).threads u = s.threads u :=
  Function.update_of_ne h ..

end Threads

section Words

variable [DecidableEq κ]

def store (k : κ) (b : Bool) : State τ κ σ l :=
  { s with words := Function.update s.words k b }

/-- `_lock = 0`, with the section noted. -/
def leave (k : κ) (t : τ) : State τ κ σ l :=
  { s.store k false with left := Function.update s.left k (s.left k ++ [(t, s.threads t)]) }

@[simp] theorem store_self (k : κ) (b : Bool) : (s.store k b).words k = b :=
  Function.update_self ..

theorem store_of_ne {k j : κ} (h : j ≠ k) (b : Bool) : (s.store k b).words j = s.words j :=
  Function.update_of_ne h ..

@[simp] theorem leave_self (k : κ) (t : τ) : (s.leave k t).words k = false :=
  s.store_self k false

theorem leave_of_ne {k j : κ} (h : j ≠ k) (t : τ) : (s.leave k t).words j = s.words j :=
  s.store_of_ne h false

@[simp] theorem leave_left_self (k : κ) (t : τ) :
    (s.leave k t).left k = s.left k ++ [(t, s.threads t)] :=
  Function.update_self ..

theorem leave_left_of_ne {k j : κ} (h : j ≠ k) (t : τ) : (s.leave k t).left j = s.left j :=
  Function.update_of_ne h ..

end Words

end State

namespace Program

variable (P : Program κ σ l ι)

/-- Nobody is in a section and every word is 0. -/
structure Free (s : State τ κ σ l) : Prop where
  words : ∀ k, s.words k = false
  outside : ∀ t, P.inside (s.threads t) = none
  left : ∀ k, s.left k = []

/-- A word is 1 just while a thread is inside, and that is the only one. -/
structure Exclusive (s : State τ κ σ l) : Prop where
  held : ∀ k, s.words k = true ↔ ∃ t, P.inside (s.threads t) = some k
  unique : ∀ {t t' k}, P.inside (s.threads t) = some k → P.inside (s.threads t') = some k → t = t'

/-- Nobody is inside while the word is 0. -/
theorem Exclusive.not_inside {P : Program κ σ l ι} {s : State τ κ σ l} (h : P.Exclusive s) {k : κ}
    (hword : s.words k = false) (t : τ) : P.inside (s.threads t) ≠ some k := by
  intro ht
  have hheld := (h.held k).mpr ⟨t, ht⟩
  rw [hword] at hheld
  cases hheld

theorem Free.exclusive {P : Program κ σ l ι} {s : State τ κ σ l} (h : P.Free s) :
    P.Exclusive s where
  held k := by simp [h.words, h.outside]
  unique ht := by simp [h.outside] at ht

variable [DecidableEq τ] [DecidableEq κ]

/-- One step of thread `t`: an exchange, a store, or a step of its own. -/
def step (s : State τ κ σ l) (ti : τ × ι) : Option (State τ κ σ l) :=
  let (t, i) := ti
  match P.next (s.threads t) with
  | .lock k =>
      let old := s.words k
      if old then some (s.store k true)
      else some ((s.store k true).moveTo t (P.pass (s.threads t)))
  | .unlock k => some ((s.leave k t).moveTo t (P.pass (s.threads t)))
  | .plain =>
      (P.plain s.data (s.threads t) i).map fun (data, a) => { s.moveTo t a with data := data }

/-- Everything a step can be. A thread that does not get a lock changes
nothing. -/
theorem step_cases {s s' : State τ κ σ l} {t : τ} {i : ι} (h : P.step s (t, i) = some s') :
    (∃ k, P.next (s.threads t) = .lock k ∧ s.words k = true ∧ s' = s.store k true)
    ∨ (∃ k, P.next (s.threads t) = .lock k ∧ s.words k = false
      ∧ s' = (s.store k true).moveTo t (P.pass (s.threads t)))
    ∨ (∃ k, P.next (s.threads t) = .unlock k
      ∧ s' = (s.leave k t).moveTo t (P.pass (s.threads t)))
    ∨ (∃ data a, P.next (s.threads t) = .plain
      ∧ P.plain s.data (s.threads t) i = some (data, a)
      ∧ s' = { s.moveTo t a with data := data }) := by
  unfold step at h
  cases hnext : P.next (s.threads t) with
  | lock k =>
      simp only [hnext] at h
      cases hword : s.words k with
      | true =>
          rw [if_pos hword] at h
          exact .inl ⟨k, rfl, hword, (Option.some.inj h).symm⟩
      | false =>
          rw [if_neg (by simp [hword])] at h
          exact .inr (.inl ⟨k, rfl, hword, (Option.some.inj h).symm⟩)
  | unlock k =>
      simp only [hnext] at h
      exact .inr (.inr (.inl ⟨k, rfl, (Option.some.inj h).symm⟩))
  | plain =>
      simp only [hnext] at h
      obtain ⟨⟨data, a⟩, hplain, heq⟩ := Option.map_eq_some_iff.mp h
      exact .inr (.inr (.inr ⟨data, a, rfl, hplain, heq.symm⟩))

/-! ## Mutual exclusion -/

variable {P} {s s' : State τ κ σ l} {t : τ} {i : ι}

omit [DecidableEq κ] in
/-- A step within a section, or outside of all of them. -/
theorem Exclusive.within {a : l} {data : σ} (h : P.Exclusive s)
    (ha : P.inside a = P.inside (s.threads t)) :
    P.Exclusive { s.moveTo t a with data := data } := by
  have hinside : ∀ u, P.inside ((s.moveTo t a).threads u) = P.inside (s.threads u) := by
    intro u
    by_cases hu : u = t
    · subst hu
      rw [State.moveTo_self, ha]
    · rw [State.moveTo_of_ne s hu]
  exact ⟨fun k => by simp only [hinside]; exact h.held k,
    fun ht ht' => h.unique ((hinside _).symm.trans ht) ((hinside _).symm.trans ht')⟩

/-- The word was 0, so nobody was inside. -/
theorem Exclusive.enter {k : κ} (h : P.Exclusive s) (hlock : P.next (s.threads t) = .lock k)
    (hword : s.words k = false) :
    P.Exclusive ((s.store k true).moveTo t (P.pass (s.threads t))) := by
  have hnone := h.not_inside hword
  have hout := P.lock_outside hlock
  have hin := P.lock_inside hlock
  have hinside : ∀ u j, P.inside (((s.store k true).moveTo t (P.pass (s.threads t))).threads u)
      = some j ↔ (u = t ∧ j = k) ∨ P.inside (s.threads u) = some j := by
    intro u j
    by_cases hu : u = t
    · subst hu
      rw [State.moveTo_self, hin, hout]
      simp [eq_comm]
    · rw [State.moveTo_of_ne _ hu]
      simp [hu, State.store]
  refine ⟨fun j => ?_, fun {u u' j} hu hu' => ?_⟩
  · simp only [hinside]
    by_cases hj : j = k
    · subst hj
      simp [State.moveTo]
    · have hsame : ((s.store k true).moveTo t (P.pass (s.threads t))).words j = s.words j :=
        State.store_of_ne s hj true
      rw [hsame, h.held]
      simp [hj]
  · rcases (hinside u j).mp hu with ⟨rfl, rfl⟩ | hold <;>
      rcases (hinside u' j).mp hu' with ⟨rfl, hjk⟩ | hold'
    · rfl
    · exact absurd hold' (hnone u')
    · subst hjk
      exact absurd hold (hnone u)
    · exact h.unique hold hold'

/-- The thread was the one inside. -/
theorem Exclusive.exit {k : κ} (h : P.Exclusive s) (hunlock : P.next (s.threads t) = .unlock k) :
    P.Exclusive ((s.leave k t).moveTo t (P.pass (s.threads t))) := by
  have hin := P.unlock_inside hunlock
  have hout := P.unlock_outside hunlock
  have hinside : ∀ u j, P.inside (((s.leave k t).moveTo t (P.pass (s.threads t))).threads u)
      = some j ↔ u ≠ t ∧ P.inside (s.threads u) = some j := by
    intro u j
    by_cases hu : u = t
    · subst hu
      rw [State.moveTo_self, hout]
      simp
    · rw [State.moveTo_of_ne _ hu]
      simp [hu, State.store, State.leave]
  refine ⟨fun j => ?_, fun hu hu' => h.unique ((hinside _ _).mp hu).2 ((hinside _ _).mp hu').2⟩
  simp only [hinside]
  by_cases hj : j = k
  · subst hj
    simp only [State.moveTo, State.leave_self, Bool.false_eq_true, false_iff]
    rintro ⟨u, hu, hold⟩
    exact hu (h.unique hold hin)
  · have hsame :
        ((s.leave k t).moveTo t (P.pass (s.threads t))).words j = s.words j :=
      s.leave_of_ne hj t
    rw [hsame, h.held]
    refine ⟨fun ⟨u, hu⟩ => ⟨u, ?_, hu⟩, fun ⟨u, _, hu⟩ => ⟨u, hu⟩⟩
    rintro rfl
    rw [hin] at hu
    exact hj (Option.some.inj hu).symm

omit [DecidableEq τ] in
/-- A lock that could not be had leaves everything as it was. -/
theorem store_of_held {k : κ} (hword : s.words k = true) : s.store k true = s := by
  simp only [State.store, ← hword, Function.update_eq_self]

theorem Exclusive.step (h : P.Exclusive s) (hstep : P.step s (t, i) = some s') :
    P.Exclusive s' := by
  rcases P.step_cases hstep with
    ⟨k, -, hword, rfl⟩ | ⟨k, hlock, hword, rfl⟩ | ⟨k, hunlock, rfl⟩ | ⟨data, a, hplain, ha, rfl⟩
  · rw [store_of_held hword]
    exact h
  · exact h.enter hlock hword
  · exact h.exit hunlock
  · exact h.within (P.plain_inside hplain ha)

variable {guard : List (τ × ι) → State τ κ σ l → τ × ι → Prop} {init : State τ κ σ l}
  {past : List (τ × ι)}

/-- At most one thread is in a section, in every run. -/
theorem exclusive (hinit : P.Free init) (h : Run P.step guard init past s) : P.Exclusive s :=
  h.invariant P.Exclusive hinit.exclusive fun _ _ _ _ hI _ hs => hI.step hs

/-! ## Invariants of the locks -/

/-- `I k` is what the lock `k` guards, `A` what a thread knows where it
stands. A thread inside a section may break the invariant of its lock and
no other one. -/
structure Protocol (P : Program κ σ l ι) (I : κ → σ → Prop) (A : l → σ → Prop) : Prop where
  lock : ∀ {a k d}, P.next a = .lock k → A a d → I k d → A (P.pass a) d
  unlock : ∀ {a k d}, P.next a = .unlock k → A a d → A (P.pass a) d ∧ I k d
  plain : ∀ {a a' d d' i}, P.next a = .plain → A a d → P.plain d a i = some (d', a') → A a' d'
  guarded : ∀ {a a' d d' i k}, P.next a = .plain → A a d → P.plain d a i = some (d', a') →
    P.inside a ≠ some k → I k d → I k d'
  others : ∀ {a a' b d d' i}, P.next a = .plain → A a d → P.plain d a i = some (d', a') →
    (∀ k, P.inside a = some k → P.inside b ≠ some k) → A b d → A b d'

/-- Free locks have their invariants, and every thread knows what it
should. -/
structure Holds (P : Program κ σ l ι) (I : κ → σ → Prop) (A : l → σ → Prop)
    (s : State τ κ σ l) : Prop where
  exclusive : P.Exclusive s
  free : ∀ k, s.words k = false → I k s.data
  threads : ∀ t, A (s.threads t) s.data

namespace Protocol

variable {I : κ → σ → Prop} {A : l → σ → Prop}

omit [DecidableEq κ] in
/-- One thread moved, and the others know what they knew. -/
theorem moved {a : l} {r : State τ κ σ l} (h : ∀ u, u ≠ t → A (r.threads u) r.data)
    (ha : A a r.data) (u : τ) : A ((r.moveTo t a).threads u) r.data := by
  by_cases hu : u = t
  · subst hu
    rw [State.moveTo_self]
    exact ha
  · rw [State.moveTo_of_ne r hu]
    exact h u hu

theorem step (hP : Protocol P I A) (h : Holds P I A s) (hstep : P.step s (t, i) = some s') :
    Holds P I A s' := by
  have hexclusive := h.exclusive.step hstep
  rcases P.step_cases hstep with
    ⟨k, -, hword, rfl⟩ | ⟨k, hlock, hword, rfl⟩ | ⟨k, hunlock, rfl⟩ | ⟨data, a, hplain, ha, rfl⟩
  · rw [store_of_held hword]
    exact h
  · refine ⟨hexclusive, fun j hj => ?_, moved (fun u _ => h.threads u)
      (hP.lock hlock (h.threads t) (h.free k hword))⟩
    by_cases hjk : j = k
    · subst hjk
      exact h.free j hword
    · exact h.free j ((s.store_of_ne hjk true).symm.trans hj)
  · obtain ⟨hknows, hI⟩ := hP.unlock hunlock (h.threads t)
    refine ⟨hexclusive, fun j hj => ?_, moved (fun u _ => h.threads u) hknows⟩
    by_cases hjk : j = k
    · subst hjk
      exact hI
    · exact h.free j ((s.leave_of_ne hjk t).symm.trans hj)
  · -- the data changes, the words do not
    refine ⟨hexclusive, fun k hk => hP.guarded hplain (h.threads t) ha
      (h.exclusive.not_inside hk t) (h.free k hk),
      moved (r := { s with data := data }) (fun u hu => ?_) (hP.plain hplain (h.threads t) ha)⟩
    exact hP.others hplain (h.threads t) ha
      (fun k hk hk' => hu (h.exclusive.unique hk' hk)) (h.threads u)

/-- What a protocol says holds in every run. -/
theorem run (hP : Protocol P I A) (hinit : P.Free init) (hI : ∀ k, I k init.data)
    (hA : ∀ t, A (init.threads t) init.data) (h : Run P.step guard init past s) :
    Holds P I A s :=
  h.invariant (Holds P I A) ⟨hinit.exclusive, fun k _ => hI k, hA⟩
    fun _ _ _ _ hs _ hstep => hP.step hs hstep

end Protocol

/-! ## Sections one after the other -/

/-- A plain step inside the section of `k`. -/
def Within (P : Program κ σ l ι) (k : κ) (x y : σ × l) : Prop :=
  P.next x.2 = .plain ∧ P.inside x.2 = some k ∧ ∃ i, P.plain x.1 x.2 i = some y

/-- From `start`, whole sections of `k` one after the other lead to the
data. The list says who executed them and how each was left. -/
inductive Serial (P : Program κ σ l ι) (k : κ) (start : σ) : List (τ × l) → σ → Prop
  | nil : Serial P k start [] start
  | snoc {log : List (τ × l)} {base data : σ} {a b : l} {t : τ} :
      Serial P k start log base → P.next a = .lock k →
      Relation.ReflTransGen (P.Within k) (base, P.pass a) (data, b) → P.next b = .unlock k →
      Serial P k start (log ++ [(t, b)]) data

/-- The sections left so far, and one that has begun. -/
structure Serialized (P : Program κ σ l ι) (k : κ) (start : σ) (s : State τ κ σ l) : Prop where
  exclusive : P.Exclusive s
  free : s.words k = false → P.Serial k start (s.left k) s.data
  begun : ∀ t, P.inside (s.threads t) = some k → ∃ base a, P.Serial k start (s.left k) base ∧
    P.next a = .lock k ∧ Relation.ReflTransGen (P.Within k) (base, P.pass a) (s.data, s.threads t)

section Serialized

variable {k : κ} {start : σ}

theorem Serialized.enter {j : κ} (h : P.Serialized k start s)
    (hlock : P.next (s.threads t) = .lock j) (hword : s.words j = false) :
    P.Serialized k start ((s.store j true).moveTo t (P.pass (s.threads t))) := by
  have hinside := P.lock_inside hlock
  refine ⟨h.exclusive.enter hlock hword, fun hfree => ?_, fun u hu => ?_⟩
  · by_cases hjk : k = j
    · subst hjk
      exact h.free hword
    · exact h.free ((s.store_of_ne hjk true).symm.trans hfree)
  · by_cases hut : u = t
    · subst hut
      rw [State.moveTo_self] at hu ⊢
      obtain rfl : j = k := Option.some.inj (hinside.symm.trans hu)
      exact ⟨s.data, _, h.free hword, hlock, .refl⟩
    · rw [State.moveTo_of_ne _ hut] at hu ⊢
      exact h.begun u hu

theorem Serialized.exit {j : κ} (h : P.Serialized k start s)
    (hunlock : P.next (s.threads t) = .unlock j) :
    P.Serialized k start ((s.leave j t).moveTo t (P.pass (s.threads t))) := by
  have hinside := P.unlock_inside hunlock
  have hothers : ∀ u, P.inside (((s.leave j t).moveTo t (P.pass (s.threads t))).threads u)
      = some k → u ≠ t := by
    rintro u hu rfl
    rw [State.moveTo_self, P.unlock_outside hunlock] at hu
    cases hu
  have hexclusive := h.exclusive.exit hunlock
  by_cases hjk : k = j
  · subst hjk
    refine ⟨hexclusive, fun _ => ?_, fun u hu => ?_⟩
    · obtain ⟨base, a, hserial, hlock, hsteps⟩ := h.begun t hinside
      have hleft : ((s.leave k t).moveTo t (P.pass (s.threads t))).left k
          = s.left k ++ [(t, s.threads t)] := s.leave_left_self k t
      rw [hleft]
      exact .snoc hserial hlock hsteps hunlock
    · have hut := hothers u hu
      rw [State.moveTo_of_ne _ hut] at hu
      exact absurd (h.exclusive.unique hu hinside) hut
  · have hleft : ((s.leave j t).moveTo t (P.pass (s.threads t))).left k = s.left k :=
      s.leave_left_of_ne hjk t
    refine ⟨hexclusive, fun hfree => ?_, fun u hu => ?_⟩
    · rw [hleft]
      exact h.free ((s.leave_of_ne hjk t).symm.trans hfree)
    · have hut := hothers u hu
      rw [hleft]
      rw [State.moveTo_of_ne _ hut] at hu ⊢
      exact h.begun u hu

omit [DecidableEq κ] in
theorem Serialized.plain {data : σ} {a : l}
    (hquiet : ∀ {d d' : σ} {a a' : l} {i : ι}, P.next a = .plain → P.inside a ≠ some k →
      P.plain d a i = some (d', a') → d' = d)
    (h : P.Serialized k start s) (hplain : P.next (s.threads t) = .plain)
    (ha : P.plain s.data (s.threads t) i = some (data, a)) :
    P.Serialized k start { s.moveTo t a with data := data } := by
  have hinside := P.plain_inside hplain ha
  have hexclusive : P.Exclusive { s.moveTo t a with data := data } := h.exclusive.within hinside
  by_cases hin : P.inside (s.threads t) = some k
  · refine ⟨hexclusive, fun hfree => absurd hin (h.exclusive.not_inside hfree t), fun u hu => ?_⟩
    by_cases hut : u = t
    · subst hut
      obtain ⟨base, b, hserial, hlock, hsteps⟩ := h.begun u hin
      refine ⟨base, b, hserial, hlock, ?_⟩
      rw [State.moveTo_self]
      exact hsteps.tail ⟨hplain, hin, i, ha⟩
    · rw [State.moveTo_of_ne _ hut] at hu
      exact absurd (h.exclusive.unique hu hin) hut
  · obtain rfl : data = s.data := hquiet hplain hin ha
    refine ⟨hexclusive, h.free, fun u hu => ?_⟩
    by_cases hut : u = t
    · subst hut
      rw [State.moveTo_self, hinside] at hu
      exact absurd hu hin
    · rw [State.moveTo_of_ne _ hut] at hu ⊢
      exact h.begun u hu

/-- The data is that of whole sections executed one after the other, and
of the one that has begun. -/
theorem serial (hquiet : ∀ {d d' : σ} {a a' : l} {i : ι}, P.next a = .plain →
      P.inside a ≠ some k → P.plain d a i = some (d', a') → d' = d)
    (hinit : P.Free init) (h : Run P.step guard init past s) :
    P.Serialized k init.data s := by
  refine h.invariant (P.Serialized k init.data) ⟨hinit.exclusive, fun _ => ?_, fun t ht => ?_⟩
    fun _ s ti s' hs _ hstep => ?_
  · rw [hinit.left]
    exact .nil
  · rw [hinit.outside] at ht
    cases ht
  · obtain ⟨t, i⟩ := ti
    rcases P.step_cases hstep with
      ⟨j, -, hword, rfl⟩ | ⟨j, hlock, hword, rfl⟩ | ⟨j, hunlock, rfl⟩ | ⟨data, a, hplain, ha, rfl⟩
    · rw [store_of_held hword]
      exact hs
    · exact hs.enter hlock hword
    · exact hs.exit hunlock
    · exact hs.plain hquiet hplain ha

end Serialized

end Program

end SpinLock
