import MemPerf.Lib.Sections
import MemPerf.Lib.Word

/-!
# The counters of the threads

`totalNumOfThread` and `totalNumOfRunningThread` are shorts that every
thread increments and decrements, under `ThreadLocalStatus::lock`. Each
`++` and `--` reads the counter and then writes it.

Whenever the lock is free the counters have counted every call
(`thread_counters`), and no two threads have got the same
`runningThreadIndex`, as long as there are no more than 65536 of them.
-/

namespace MemPerf

open SpinLock StepSystem Word

/-- `totalNumOfThread`, `totalNumOfRunningThread` and every thread's
`runningThreadIndex`, a signed short. -/
structure ThreadCounters where
  totalNumOfThread : Nat := 0
  totalNumOfRunningThread : Nat := 0
  runningThreadIndex : Nat → Int := fun _ => 0

inductive CounterCall where
  | getARunningThreadIndex
  | addARunningThread
  | subARunningThread
deriving DecidableEq, Repr

/-- What a thread does with the counters under the lock. -/
def counterStatements : Nat × CounterCall → List (Assignment ThreadCounters)
  | (thread, .getARunningThreadIndex) =>
      [fun read d => { d with
        totalNumOfThread := wrap 16 (read.totalNumOfThread + 1)
        runningThreadIndex :=
          Function.update d.runningThreadIndex thread (swrap 16 read.totalNumOfThread) }]
  | (_, .addARunningThread) =>
      [fun read d => { d with
        totalNumOfRunningThread := wrap 16 (read.totalNumOfRunningThread + 1) }]
  | (_, .subARunningThread) =>
      [fun read d => { d with
        totalNumOfRunningThread := wsub 16 read.totalNumOfRunningThread 1 }]

/-- The threads with the calls each will make. -/
def counterThreads (calls : Nat → List CounterCall) :
    State Nat Unit ThreadCounters (Stand (Nat × CounterCall) ThreadCounters) where
  data := {}
  threads t := .outside ((calls t).map (t, ·))

/-- The threads that have got an index, in the order in which they did. -/
def numbered (done : List (Nat × CounterCall)) : List Nat :=
  (done.filter fun call => call.2 = .getARunningThreadIndex).map Prod.fst

def countOf (op : CounterCall) (done : List (Nat × CounterCall)) : Nat :=
  done.countP fun call => call.2 = op

/-- What the counters are after these calls. -/
structure Counted (done : List (Nat × CounterCall)) (d : ThreadCounters) : Prop where
  threads : d.totalNumOfThread = wrap 16 (numbered done).length
  running_lt : d.totalNumOfRunningThread < 2 ^ 16
  running : d.totalNumOfRunningThread + countOf .subARunningThread done
    ≡ countOf .addARunningThread done [MOD 2 ^ 16]
  index : ∀ (k t : Nat), (numbered done)[k]? = some t →
    (∀ j, k < j → (numbered done)[j]? ≠ some t) → d.runningThreadIndex t = swrap 16 k

theorem Counted.init : Counted [] {} := ⟨rfl, by decide, rfl, fun k t h => by simp [numbered] at h⟩

theorem numbered_get (done : List (Nat × CounterCall)) (thread : Nat) :
    numbered (done ++ [(thread, .getARunningThreadIndex)]) = numbered done ++ [thread] := by
  simp [numbered]

theorem numbered_of_ne {op : CounterCall} (hop : op ≠ .getARunningThreadIndex)
    (done : List (Nat × CounterCall)) (thread : Nat) :
    numbered (done ++ [(thread, op)]) = numbered done := by
  simp [numbered, hop]

theorem countOf_snoc (op op' : CounterCall) (done : List (Nat × CounterCall)) (thread : Nat) :
    countOf op (done ++ [(thread, op')]) = countOf op done + if op' = op then 1 else 0 := by
  rw [countOf, List.countP_append, List.countP_singleton]
  simp [countOf]

/-- The old value is the thread's number. -/
theorem swrap_wrap (w k : Nat) : swrap w (wrap w k) = swrap w k := by
  rw [swrap, swrap, wrap, Int.natCast_mod, Int.emod_bmod]

theorem Counted.step {done : List (Nat × CounterCall)} {d : ThreadCounters} (h : Counted done d)
    (call : Nat × CounterCall) :
    Counted (done ++ [call]) (execute (counterStatements call) d) := by
  obtain ⟨thread, op⟩ := call
  cases op with
  | getARunningThreadIndex =>
      refine ⟨?_, h.running_lt, ?_, fun k t hk hlast => ?_⟩
      · rw [numbered_get, List.length_append]
        show wrap 16 (d.totalNumOfThread + 1) = _
        rw [h.threads, wrap_add_wrap]
        rfl
      · rw [countOf_snoc, countOf_snoc]
        exact h.running
      · rw [numbered_get] at hk hlast
        show Function.update d.runningThreadIndex thread _ t = _
        rcases Nat.lt_trichotomy k (numbered done).length with hlt | rfl | hgt
        · have hne : t ≠ thread := by
            rintro rfl
            exact hlast _ hlt List.getElem?_concat_length
          rw [Function.update_of_ne hne]
          rw [List.getElem?_append_left hlt] at hk
          refine h.index k t hk fun j hj hmem => hlast j hj ?_
          rwa [List.getElem?_append_left (List.getElem?_eq_some_iff.mp hmem).1]
        · rw [List.getElem?_concat_length] at hk
          obtain rfl : thread = t := Option.some.inj hk
          rw [Function.update_self, h.threads, swrap_wrap]
        · have hout : (numbered done ++ [thread]).length ≤ k := by
            rw [List.length_append]
            exact hgt
          rw [List.getElem?_eq_none hout] at hk
          cases hk
  | addARunningThread =>
      refine ⟨?_, wrap_lt 16 _, ?_, ?_⟩
      · rw [numbered_of_ne (by decide)]
        exact h.threads
      · rw [countOf_snoc, countOf_snoc]
        calc wrap 16 (d.totalNumOfRunningThread + 1) + countOf .subARunningThread done
            ≡ d.totalNumOfRunningThread + 1 + countOf .subARunningThread done [MOD 2 ^ 16] :=
              (wrap_modEq 16 _).add_right _
          _ = d.totalNumOfRunningThread + countOf .subARunningThread done + 1 :=
              Nat.add_right_comm ..
          _ ≡ countOf .addARunningThread done + 1 [MOD 2 ^ 16] := h.running.add_right 1
      · rw [numbered_of_ne (by decide)]
        exact h.index
  | subARunningThread =>
      have hexecute : execute (counterStatements (thread, .subARunningThread)) d =
          { d with totalNumOfRunningThread := wsub 16 d.totalNumOfRunningThread 1 } := by
        simp only [execute, counterStatements, List.foldl_cons, List.foldl_nil]
      rw [hexecute]
      refine ⟨?_, wsub_lt .., ?_, ?_⟩
      · rw [numbered_of_ne (by decide)]
        exact h.threads
      · rw [countOf_snoc, countOf_snoc]
        have hsub := wsub_add_modEq 16 d.totalNumOfRunningThread 1
        have hbalance := (hsub.add_right (countOf .subARunningThread done)).trans h.running
        rwa [Nat.add_right_comm, Nat.add_assoc] at hbalance
      · rw [numbered_of_ne (by decide)]
        exact h.index

theorem Counted.executeAll (calls : List (Nat × CounterCall)) :
    Counted calls (executeAll counterStatements calls {}) := by
  induction calls using List.reverseRecOn with
  | nil => exact .init
  | append_singleton calls call ih =>
      rw [executeAll_snoc]
      exact ih.step call

/-- Numbers that are different as shorts. -/
theorem swrap_inj {k k' : Nat} (hk : k < 2 ^ 16) (hk' : k' < 2 ^ 16)
    (h : swrap 16 (k : Int) = swrap 16 (k' : Int)) : k = k' := by
  have hemod : ((k : Int) % (2 ^ 16 : Nat)) = (k' : Int) % (2 ^ 16 : Nat) := by
    rw [← Int.bmod_emod, ← Int.bmod_emod (x := k')]
    exact congrArg (· % ((2 ^ 16 : Nat) : Int)) h
  omega

/-- Threads that have called once have different indices. -/
theorem Counted.index_ne {done : List (Nat × CounterCall)} {d : ThreadCounters}
    (h : Counted done d) (honce : (numbered done).Nodup) (hfew : (numbered done).length ≤ 2 ^ 16)
    {t t' : Nat} (ht : t ∈ numbered done) (ht' : t' ∈ numbered done) (hne : t ≠ t') :
    d.runningThreadIndex t ≠ d.runningThreadIndex t' := by
  have hindex : ∀ {u}, u ∈ numbered done → ∃ k : Nat, k < 2 ^ 16 ∧ (numbered done)[k]? = some u
      ∧ d.runningThreadIndex u = swrap 16 (k : Int) := by
    intro u hu
    obtain ⟨k, hk⟩ := List.mem_iff_getElem?.mp hu
    have hlt := (List.getElem?_eq_some_iff.mp hk).1
    refine ⟨k, hlt.trans_le hfew, hk, h.index k u hk fun j hj hmem => ?_⟩
    have hjlt := (List.getElem?_eq_some_iff.mp hmem).1
    exact absurd ((List.nodup_iff_getElem?_ne_getElem?.mp honce k j hj hjlt)) (by simp [hk, hmem])
  obtain ⟨k, hlt, hk, heq⟩ := hindex ht
  obtain ⟨k', hlt', hk', heq'⟩ := hindex ht'
  rw [heq, heq']
  intro hsame
  obtain rfl := swrap_inj hlt hlt' hsame
  exact hne (Option.some.inj (hk.symm.trans hk'))

section Run

variable {calls : Nat → List CounterCall} {past : List (Nat × Unit)}
  {s : State Nat Unit ThreadCounters (Stand (Nat × CounterCall) ThreadCounters)}
  {guard : List (Nat × Unit) →
    State Nat Unit ThreadCounters (Stand (Nat × CounterCall) ThreadCounters) →
    Nat × Unit → Prop}

/-- **No call is lost**: whenever the lock is free the counters have counted
the calls that are through, and threads that ask for an index once have
got different ones. -/
theorem thread_counters
    (h : Run (sections counterStatements).step guard (counterThreads calls) past s)
    (hfree : s.words () = false) :
    Counted ((finished s).map Prod.snd) s.data
      ∧ ((∀ t, countOf .getARunningThreadIndex ((calls t).map (t, ·)) ≤ 1) →
        (numbered ((finished s).map Prod.snd)).length ≤ 2 ^ 16 →
        ∀ t t', t ≠ t' → t ∈ numbered ((finished s).map Prod.snd) →
          t' ∈ numbered ((finished s).map Prod.snd) →
          s.data.runningThreadIndex t ≠ s.data.runningThreadIndex t') := by
  have horder := calls_in_order h
  have hcounted : Counted ((finished s).map Prod.snd) s.data := by
    rw [horder.free hfree]
    exact .executeAll _
  refine ⟨hcounted, fun honce hfew t t' hne ht ht' => hcounted.index_ne ?_ hfew ht ht' hne⟩
  have hown : ∀ x ∈ finished s, x.2.1 = x.1 := by
    intro x hx
    have hmem : x.2 ∈ (calls x.1).map (x.1, ·) := by
      rw [← horder.program x.1]
      exact List.mem_append_left _ (List.mem_map_of_mem (List.mem_filter.mpr ⟨hx, by simp⟩))
    obtain ⟨op, -, hop⟩ := List.mem_map.mp hmem
    exact congrArg Prod.fst hop.symm
  rw [List.nodup_iff_count_le_one]
  intro t
  have hcount : (numbered ((finished s).map Prod.snd)).count t
      = countOf .getARunningThreadIndex
        (((finished s).filter fun x => decide (x.1 = t)).map Prod.snd) := by
    rw [numbered, List.count, List.countP_map, List.countP_filter, countOf, List.countP_map,
      List.countP_map, List.countP_filter]
    refine List.countP_congr fun x hx => ?_
    simp [hown x hx, and_comm]
  rw [hcount]
  refine le_trans ?_ (honce t)
  rw [← horder.program t, countOf, countOf, List.countP_append]
  exact Nat.le_add_right _ _

end Run

/-- The second thread waits for the first one. -/
def counterRace : List (Nat × Unit) :=
  [(1, ()), (2, ()), (1, ()), (1, ()), (2, ()), (1, ()), (2, ()), (2, ()), (2, ()), (2, ())]

theorem thread_counters_race : ∃ s,
    Run (sections counterStatements).step (fun _ _ _ => True)
      (counterThreads fun _ => [.getARunningThreadIndex]) counterRace s
      ∧ s.data.totalNumOfThread = 2
      ∧ s.data.runningThreadIndex 1 ≠ s.data.runningThreadIndex 2 := by
  obtain ⟨s, hs⟩ := Option.isSome_iff_exists.mp (show (counterRace.foldlM
    (sections counterStatements).step (counterThreads fun _ => [.getARunningThreadIndex])).isSome
    by decide)
  have hdata : (counterRace.foldlM (sections counterStatements).step
      (counterThreads fun _ => [.getARunningThreadIndex])).map (fun s => (s.words (), finished s))
      = some (false, [(1, 1, .getARunningThreadIndex), (2, 2, .getARunningThreadIndex)]) := by
    decide
  rw [hs] at hdata
  obtain ⟨hfree, hfinished⟩ : s.words () = false ∧ finished s
      = [(1, 1, .getARunningThreadIndex), (2, 2, .getARunningThreadIndex)] := by simpa using hdata
  have hrun : Run (sections counterStatements).step (fun _ _ _ => True)
      (counterThreads fun _ => [.getARunningThreadIndex]) counterRace s :=
    Run.ofFoldlM (fun _ _ _ _ => trivial) hs
  obtain ⟨hcounted, hdistinct⟩ := thread_counters hrun hfree
  rw [hfinished] at hcounted hdistinct
  exact ⟨s, hrun, hcounted.threads, hdistinct (fun t => by simp [countOf]) (by simp [numbered])
    1 2 (by decide) (by simp [numbered]) (by simp [numbered])⟩

end MemPerf
