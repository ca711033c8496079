import MemPerf.Lib.SpinLock
import Mathlib.Data.List.Nodup

/-!
# Calls whose bodies are under one lock

Every thread makes a list of calls. A call takes the lock, executes its
assignments and gives the lock back. An assignment is not atomic: it reads
the data in one step and writes in another, and what it writes was
computed from what it read. Without the lock updates would get lost.

With it a run is as good as one in which the calls were made one after
the other, in the order in which they gave the lock back
(`calls_in_order`); every thread's calls keep their order.
-/

namespace SpinLock

open StepSystem

/-- What is written depends on what was read, and may depend on what is
there when it is written. -/
abbrev Assignment (σ : Type*) := σ → σ → σ

/-- The assignments one after the other, with nothing in between. -/
def execute {σ : Type*} (assignments : List (Assignment σ)) (d : σ) : σ :=
  assignments.foldl (fun d x => x d d) d

theorem execute_append {σ : Type*} (xs ys : List (Assignment σ)) (d : σ) :
    execute (xs ++ ys) d = execute ys (execute xs d) := List.foldl_append

/-- An array in the data. -/
structure ArrayOf (σ κ β : Type*) where
  get : σ → κ → β
  set : σ → (κ → β) → σ
  get_set : ∀ d v, get (set d v) = v
  set_set : ∀ d v w, set (set d v) w = set d w
  set_get : ∀ d, set d (get d) = d

/-- A loop that rewrites one element in each turn has rewritten those of
its indices. -/
theorem ArrayOf.execute_loop {σ κ β : Type*} [DecidableEq κ] (A : ArrayOf σ κ β)
    {body : κ → List (Assignment σ)} {f : κ → β → β}
    (hbody : ∀ k d, execute (body k) d =
      A.set d (Function.update (A.get d) k (f k (A.get d k)))) :
    ∀ {ks : List κ}, ks.Nodup → ∀ d, execute (ks.flatMap body) d =
      A.set d fun k => if k ∈ ks then f k (A.get d k) else A.get d k
  | [], _, d => (A.set_get d).symm
  | k :: ks, hnodup, d => by
      obtain ⟨hk, hnodup⟩ := List.nodup_cons.mp hnodup
      rw [List.flatMap_cons, execute_append, A.execute_loop hbody hnodup, hbody, A.set_set,
        A.get_set]
      congr 1
      funext j
      by_cases hjk : j = k
      · subst hjk
        simp [hk]
      · simp [hjk]

/-- Where a thread stands: between calls, with those it still has to make,
or inside one. `pending` is a write whose read has been done. -/
inductive Stand (α σ : Type*) where
  | outside (calls : List α)
  | inside (call : α) (calls : List α) (todo : List (Assignment σ)) (pending : Option (σ → σ))

namespace Stand

variable {α σ : Type*}

/-- The calls not finished yet. -/
def ahead : Stand α σ → List α
  | outside calls => calls
  | inside call calls _ _ => call :: calls

def next : Stand α σ → Next Unit
  | outside (_ :: _) => .lock ()
  | inside _ _ [] none => .unlock ()
  | _ => .plain

def pass (assignments : α → List (Assignment σ)) : Stand α σ → Stand α σ
  | outside (call :: calls) => inside call calls (assignments call) none
  | inside _ calls _ _ => outside calls
  | outside [] => outside []

def plain (d : σ) : Stand α σ → Unit → Option (σ × Stand α σ)
  | inside call calls todo (some write), _ => some (write d, inside call calls todo none)
  | inside call calls (x :: todo) none, _ => some (d, inside call calls todo (some (x d)))
  | inside _ _ [] none, _ | outside _, _ => none

def within : Stand α σ → Option Unit
  | outside _ => none
  | inside _ _ _ _ => some ()

theorem plain_within {d d' : σ} {p p' : Stand α σ} {i : Unit} (h : plain d p i = some (d', p')) :
    p'.within = p.within ∧ p'.ahead = p.ahead := by
  cases p with
  | outside calls => cases h
  | inside call calls todo pending =>
      cases pending with
      | some write => cases h; exact ⟨rfl, rfl⟩
      | none =>
          cases todo with
          | nil => cases h
          | cons x todo => cases h; exact ⟨rfl, rfl⟩

end Stand

open Stand

variable {α σ τ : Type*}

def sections (assignments : α → List (Assignment σ)) : Program Unit σ (Stand α σ) Unit where
  next := next
  pass := pass assignments
  plain := plain
  inside := within
  lock_outside {p _} h := by
    cases p with
    | outside => rfl
    | inside call calls todo pending => cases todo <;> cases pending <;> cases h
  lock_inside {p _} h := by
    cases p with
    | outside calls =>
        cases calls with
        | nil => cases h
        | cons => rfl
    | inside call calls todo pending => cases todo <;> cases pending <;> cases h
  unlock_inside {p _} h := by
    cases p with
    | outside calls => cases calls <;> cases h
    | inside => rfl
  unlock_outside {p _} h := by
    cases p with
    | outside calls => cases calls <;> cases h
    | inside => rfl
  plain_inside _ h := (plain_within h).1

/-- What the section will have made of the data when it is over. -/
def outcome (x : σ × Stand α σ) : σ :=
  match x.2 with
  | outside _ => x.1
  | inside _ _ todo none => execute todo x.1
  | inside _ _ todo (some write) => execute todo (write x.1)

section Within

variable {assignments : α → List (Assignment σ)} {x y : σ × Stand α σ}

/-- A step of a section changes neither its outcome nor its call. -/
theorem Within.outcome (h : (sections assignments).Within () x y) :
    SpinLock.outcome y = SpinLock.outcome x ∧ y.2.ahead = x.2.ahead := by
  obtain ⟨-, hinside, i, hplain⟩ := h
  obtain ⟨d, p⟩ := x
  obtain ⟨d', p'⟩ := y
  refine ⟨?_, (plain_within hplain).2⟩
  cases p with
  | outside calls => cases hinside
  | inside call calls todo pending =>
      cases pending with
      | some write => cases hplain; rfl
      | none =>
          cases todo with
          | nil => cases hplain
          | cons a todo => cases hplain; rfl

theorem Within.outcomes (h : Relation.ReflTransGen ((sections assignments).Within ()) x y) :
    SpinLock.outcome y = SpinLock.outcome x ∧ y.2.ahead = x.2.ahead := by
  induction h with
  | refl => exact ⟨rfl, rfl⟩
  | tail _ hstep ih =>
      obtain ⟨houtcome, hahead⟩ := Within.outcome hstep
      exact ⟨houtcome.trans ih.1, hahead.trans ih.2⟩

end Within

/-- The calls finished so far, with their threads, in the order in which
they gave the lock back. -/
def finished (s : State τ Unit σ (Stand α σ)) : List (τ × α) :=
  (s.left ()).filterMap fun x => x.2.ahead.head?.map (x.1, ·)

/-- The calls as steps of one piece. -/
def executeAll (assignments : α → List (Assignment σ)) (calls : List α) (d : σ) : σ :=
  calls.foldl (fun d call => execute (assignments call) d) d

theorem executeAll_snoc (assignments : α → List (Assignment σ)) (calls : List α) (call : α)
    (d : σ) : executeAll assignments (calls ++ [call]) d
      = execute (assignments call) (executeAll assignments calls d) := by
  rw [executeAll, List.foldl_append]
  rfl

/-- A run of sections is a run of calls of one piece. -/
theorem Program.Serial.executeAll {assignments : α → List (Assignment σ)} {start d : σ}
    {log : List (τ × Stand α σ)} (h : (sections assignments).Serial () start log d) :
    d = SpinLock.executeAll assignments
      ((log.filterMap fun x => x.2.ahead.head?.map (x.1, ·)).map Prod.snd) start := by
  induction h with
  | nil => rfl
  | @snoc log base d a b t _ hlock hsteps hunlock ih =>
      obtain ⟨houtcome, hahead⟩ := Within.outcomes hsteps
      cases a with
      | inside call calls todo pending => cases todo <;> cases pending <;> cases hlock
      | outside calls =>
          cases calls with
          | nil => cases hlock
          | cons call calls =>
              cases b with
              | outside calls' => cases calls' <;> cases hunlock
              | inside call' calls' todo pending =>
                  cases pending with
                  | some write => cases todo <;> cases hunlock
                  | none =>
                      cases todo with
                      | cons => cases hunlock
                      | nil =>
                          obtain rfl : call' = call := (List.cons.inj hahead).1
                          rw [List.filterMap_append, List.map_append]
                          show d = _
                          have hd : d = execute (assignments call') base := houtcome
                          rw [hd, ih]
                          exact (executeAll_snoc assignments _ call' start).symm

/-! ## Every interleaving -/

section Run

variable [DecidableEq τ] {assignments : α → List (Assignment σ)} {calls : τ → List α} {start : σ}
  {s s' : State τ Unit σ (Stand α σ)} {past : List (τ × Unit)}
  {guard : List (τ × Unit) → State τ Unit σ (Stand α σ) → τ × Unit → Prop}

/-- Between calls the data is that of the finished calls in their order,
and every thread has made its calls in its order. -/
structure InOrder (assignments : α → List (Assignment σ)) (calls : τ → List α) (start : σ)
    (s : State τ Unit σ (Stand α σ)) : Prop where
  free : s.words () = false →
    s.data = executeAll assignments ((finished s).map Prod.snd) start
  program : ∀ t, ((finished s).filter fun x => decide (x.1 = t)).map Prod.snd
    ++ (s.threads t).ahead = calls t

/-- A call goes from one list to the other when it gives the lock back. -/
theorem program_step
    (h : ∀ t, ((finished s).filter fun x => decide (x.1 = t)).map Prod.snd
      ++ (s.threads t).ahead = calls t)
    {ti : τ × Unit} (hstep : (sections assignments).step s ti = some s') (t : τ) :
    ((finished s').filter fun x => decide (x.1 = t)).map Prod.snd
      ++ (s'.threads t).ahead = calls t := by
  obtain ⟨u, i⟩ := ti
  -- a step that does not leave a section, to a place with the same calls ahead
  have hmove : ∀ {d : σ} {p : Stand α σ} {r : State τ Unit σ (Stand α σ)}, r.left = s.left →
      r.threads = Function.update s.threads u p → p.ahead = (s.threads u).ahead →
      ((finished r).filter fun x => decide (x.1 = t)).map Prod.snd ++ (r.threads t).ahead
        = calls t := by
    intro d p r hleft hthreads hahead
    have hfinished : finished r = finished s := by rw [finished, hleft, finished]
    rw [hfinished, hthreads, ← h t]
    by_cases htu : t = u
    · subst htu
      rw [Function.update_self, hahead]
    · rw [Function.update_of_ne htu]
  rcases (sections assignments).step_cases hstep with
    ⟨k, -, hword, rfl⟩ | ⟨k, hlock, -, rfl⟩ | ⟨k, hunlock, rfl⟩ | ⟨d, p, -, hplain, rfl⟩
  · exact h t
  · refine hmove (d := s.data) rfl rfl ?_
    change (s.threads u).next = .lock k at hlock
    show ((s.threads u).pass assignments).ahead = _
    generalize s.threads u = p at hlock ⊢
    cases p with
    | inside call calls todo pending => cases todo <;> cases pending <;> cases hlock
    | outside calls =>
        cases calls with
        | nil => cases hlock
        | cons call calls => rfl
  · change (s.threads u).next = .unlock k at hunlock
    have hu := h u
    have hfinished : finished ((s.leave k u).moveTo u ((s.threads u).pass assignments))
        = finished s ++ ((s.threads u).ahead.head?.map (u, ·)).toList := by
      show ((s.leave k u).left ()).filterMap _ = _
      rw [State.leave_left_self, List.filterMap_append, finished, List.filterMap_cons]
      cases (s.threads u).ahead.head?.map (u, ·) <;> rfl
    show ((finished ((s.leave k u).moveTo u ((s.threads u).pass assignments))).filter _).map _
      ++ _ = _
    rw [hfinished, List.filter_append, List.map_append]
    by_cases htu : t = u
    · subst htu
      show _ ++ (((s.leave k t).moveTo t ((s.threads t).pass assignments)).threads t).ahead = _
      rw [State.moveTo_self, ← hu]
      generalize s.threads t = p at hunlock ⊢
      cases p with
      | outside calls => cases calls <;> cases hunlock
      | inside call calls todo pending => simp [ahead, Stand.pass]
    · show _ ++ (((s.leave k u).moveTo u ((s.threads u).pass assignments)).threads t).ahead = _
      rw [State.moveTo_of_ne _ htu]
      have hnone : (((s.threads u).ahead.head?.map (u, ·)).toList.filter
          fun x => decide (x.1 = t)) = [] := by
        cases (s.threads u).ahead.head? with
        | none => rfl
        | some call => simp [Ne.symm htu]
      rw [hnone, List.map_nil, List.append_nil]
      exact h t
  · exact hmove (d := d) rfl rfl (plain_within hplain).2

/-- The calls of the threads in one order, in which every thread's calls
come in its own. -/
theorem calls_in_order
    (h : Run (sections assignments).step guard
      { data := start, threads := fun t => .outside (calls t) } past s) :
    InOrder assignments calls start s := by
  have hquiet : ∀ {d d' : σ} {a a' : Stand α σ} {i : Unit}, (sections assignments).next a = .plain →
      (sections assignments).inside a ≠ some () →
      (sections assignments).plain d a i = some (d', a') → d' = d := by
    intro d d' a a' i _ hinside hplain
    cases a with
    | outside => cases hplain
    | inside => exact absurd rfl hinside
  have hserial := Program.serial (k := ()) hquiet
    ⟨fun _ => rfl, fun _ => rfl, fun _ => rfl⟩ h
  refine ⟨fun hfree => (hserial.free hfree).executeAll, ?_⟩
  exact h.invariant (fun s => ∀ t, ((finished s).filter fun x => decide (x.1 = t)).map Prod.snd
    ++ (s.threads t).ahead = calls t) (fun t => rfl) fun _ _ _ _ hs _ hstep => program_step hs hstep

/-- Threads with one call each: the finished calls are those of the
threads that are through, in some order. -/
theorem InOrder.finished_perm {call : τ → α} (h : InOrder assignments (fun t => [call t]) start s)
    {threads : List τ} (hnodup : threads.Nodup)
    (hdone : ∀ t, t ∈ threads ↔ (s.threads t).ahead = []) :
    ((finished s).map Prod.snd).Perm (threads.map call) := by
  have hlength : ∀ t, ((finished s).filter fun x => decide (x.1 = t)).length
      + (s.threads t).ahead.length = 1 := by
    intro t
    have hlen := congrArg List.length (h.program t)
    rwa [List.length_append, List.length_map] at hlen
  have hcall : ∀ x ∈ finished s, x.2 = call x.1 := by
    intro x hx
    have hmem : x.2 ∈ ((finished s).filter fun y => decide (y.1 = x.1)).map Prod.snd
        ++ (s.threads x.1).ahead :=
      List.mem_append_left _ (List.mem_map_of_mem (List.mem_filter.mpr ⟨hx, by simp⟩))
    rw [h.program x.1] at hmem
    exact List.mem_singleton.mp hmem
  have hcount : ∀ t, ((finished s).map Prod.fst).count t
      = ((finished s).filter fun x => decide (x.1 = t)).length := by
    intro t
    rw [List.count, List.countP_map, List.countP_eq_length_filter]
    congr 1
  have honce : ((finished s).map Prod.fst).Nodup := by
    rw [List.nodup_iff_count_le_one]
    intro t
    have hlen := hlength t
    rw [hcount]
    omega
  have hsame : ((finished s).map Prod.fst).Perm threads := by
    refine (List.perm_ext_iff_of_nodup honce hnodup).mpr fun t => ?_
    have hlen := hlength t
    rw [hdone, ← List.count_pos_iff, hcount, ← List.length_eq_zero_iff]
    omega
  have hsnd : (finished s).map Prod.snd = ((finished s).map Prod.fst).map call := by
    rw [List.map_map]
    exact List.map_congr_left hcall
  rw [hsnd]
  exact hsame.map call

/-- A thread that finds the lock free is inside. -/
theorem Run.enters {init : State τ Unit σ (Stand α σ)}
    (h : Run (sections assignments).step (fun _ _ _ => True) init past s)
    {t : τ} {call : α} {rest : List α} (ht : s.threads t = .outside (call :: rest))
    (hfree : s.words () = false) : ∃ past' s',
    Run (sections assignments).step (fun _ _ _ => True) init past' s' ∧ s'.words () = true
      ∧ s'.threads = Function.update s.threads t (.inside call rest (assignments call) none) := by
  have hstep : (sections assignments).step s (t, ()) = some
      ((s.store () true).moveTo t (.inside call rest (assignments call) none)) := by
    simp [Program.step, sections, ht, Stand.next, Stand.pass, hfree]
  exact ⟨_, _, h.snoc trivial hstep, State.store_self s () true, rfl⟩

/-- A thread that is inside gets out, with no other thread's help. -/
theorem Run.leaves {init : State τ Unit σ (Stand α σ)}
    (h : Run (sections assignments).step (fun _ _ _ => True) init past s)
    {t : τ} {call : α} {rest : List α} {todo : List (Assignment σ)}
    (ht : s.threads t = .inside call rest todo none) : ∃ past' s',
    Run (sections assignments).step (fun _ _ _ => True) init past' s' ∧ s'.words () = false
      ∧ s'.threads = Function.update s.threads t (.outside rest) := by
  induction todo generalizing past s with
  | nil =>
      have hstep : (sections assignments).step s (t, ())
          = some ((s.leave () t).moveTo t (.outside rest)) := by
        simp [Program.step, sections, ht, Stand.next, Stand.pass]
      exact ⟨_, _, h.snoc trivial hstep, State.leave_self s () t, rfl⟩
  | cons x todo ih =>
      have hread : (sections assignments).step s (t, ())
          = some (s.moveTo t (.inside call rest todo (some (x s.data)))) := by
        simp [Program.step, sections, ht, Stand.next, Stand.plain, State.moveTo]
      have hwrite : (sections assignments).step
          (s.moveTo t (.inside call rest todo (some (x s.data)))) (t, ())
          = some { s.moveTo t (.inside call rest todo none) with data := x s.data s.data } := by
        simp [Program.step, sections, Stand.next, Stand.plain, State.moveTo]
      obtain ⟨past', s', hrun, hword, hthreads⟩ :=
        ih ((h.snoc trivial hread).snoc trivial hwrite) (State.moveTo_self ..)
      refine ⟨past', s', hrun, hword, hthreads.trans ?_⟩
      exact Function.update_idem ..

end Run

end SpinLock
