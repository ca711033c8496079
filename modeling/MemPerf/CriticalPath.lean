import MemPerf.StageClocks
import Mathlib.Order.Interval.Finset.Nat
import Mathlib.Data.Finset.Lattice.Fold
import Mathlib.Order.Lattice.Nat

/-!
# The critical path is exact

When the program exits, `criticalCycle` is what the ledger adds up. The
invariant pairs the stage that is running with the ledger's interval the
main thread is in: the intervals before it are in `criticalCycle`, the
slots of the threads hold the times of the children that ended in it,
and no sum can wrap because the stages before it end before reading
`since`, and all time since then lies between two clock readings.
-/

namespace MemPerf

open Word StepSystem

/-! ## The loop over the slots -/

namespace Predictor

variable {p : Predictor} {n : Nat}

/-- The largest slot of a child. -/
def longestSlot (p : Predictor) (n : Nat) : Nat := (Finset.Ico 1 n).sup p.threadCycle

theorem foldl_maxThread_le {indices : List Nat}
    (hboth : ∀ i ∈ indices, p.threadReplacedCycle i = 0 → p.threadCycle i = 0) (bound : Nat) :
    ∀ acc : StageCycles, (indices.foldl p.maxThread acc).cycle ≤ bound ↔
      acc.cycle ≤ bound ∧ ∀ i ∈ indices, p.threadCycle i ≤ bound := by
  induction indices with
  | nil => simp
  | cons i indices ih =>
      intro acc
      have hround : (p.maxThread acc i).cycle = max acc.cycle (p.threadCycle i) := by
        have hi := hboth i (by simp)
        unfold maxThread
        split
        · split <;> rfl
        · next hskip =>
            have hzero : p.threadCycle i = 0 := by
              by_contra hne
              exact hskip ⟨hne, fun h0 => hne (hi h0)⟩
            simp [hzero]
      rw [List.foldl_cons, ih (fun j hj => hboth j (by simp [hj])), hround]
      simp only [List.mem_cons, forall_eq_or_imp, Nat.max_le, and_assoc]

/-- The filter of the loop skips only empty slots. -/
theorem stageCycles_cycle
    (hboth : ∀ i, 1 ≤ i → p.threadReplacedCycle i = 0 → p.threadCycle i = 0) :
    (p.stageCycles n).cycle = p.longestSlot n := by
  refine eq_of_forall_ge_iff fun bound => ?_
  rw [stageCycles, foldl_maxThread_le fun i hi => hboth i (by simp at hi; omega)]
  simp only [Nat.zero_le, true_and, longestSlot, Finset.sup_le_iff, Finset.mem_Ico,
    List.mem_range'_1]
  refine forall_congr' fun i => ?_
  constructor
  · intro h hi; exact h (by omega)
  · intro h hi; exact h (by omega)

theorem longestSlot_succ (hfresh : p.threadCycle n = 0) :
    p.longestSlot (n + 1) = p.longestSlot n := by
  refine eq_of_forall_ge_iff fun bound => ?_
  simp only [longestSlot, Finset.sup_le_iff, Finset.mem_Ico]
  constructor
  · intro h i hi
    exact h i (by omega)
  · intro h i hi
    by_cases hin : i = n
    · rw [hin, hfresh]; exact Nat.zero_le _
    · exact h i (by omega)

/-- A child's time in its own, empty slot. -/
theorem longestSlot_update {threadCycle : Nat → Nat} {index time : Nat}
    (htc : threadCycle = Function.update p.threadCycle index time)
    (hempty : p.threadCycle index = 0)
    (hlo : 1 ≤ index) (hhi : index < n) :
    (Finset.Ico 1 n).sup threadCycle = max (p.longestSlot n) time := by
  subst htc
  refine eq_of_forall_ge_iff fun bound => ?_
  simp only [longestSlot, Finset.sup_le_iff, Finset.mem_Ico, Nat.max_le]
  constructor
  · intro h
    refine ⟨fun i hi => ?_, by simpa using h index ⟨hlo, hhi⟩⟩
    by_cases hii : i = index
    · rw [hii, hempty]; exact Nat.zero_le _
    · simpa [hii] using h i hi
  · rintro ⟨h1, h2⟩ i hi
    by_cases hii : i = index
    · subst hii; simpa using h2
    · simpa [hii] using h1 i hi

end Predictor

namespace Predictor

variable {p p' : Predictor} {l : PredictorLocal} {index : Nat}

/-- `threadEnd` sets the slots of its thread and leaves the totals. -/
theorem threadEnd_slots (h : p.threadEnd index l = some p') :
    p'.toPredictorInfo = p.toPredictorInfo ∧ p'.criticalCycle = p.criticalCycle ∧
    p'.threadCycle
      = Function.update p.threadCycle index (wrap 64 (p.threadCycle index + l.outsideCycle)) ∧
    p'.threadReplacedCycle = Function.update p.threadReplacedCycle index
      (l.addReplaced p.replacedFunctionCycles (p.threadReplacedCycle index)) := by
  simp only [threadEnd] at h
  split at h
  · cases h; exact ⟨rfl, rfl, rfl, rfl⟩
  · split at h
    · cases h
    · split at h <;> cases h <;> exact ⟨rfl, rfl, rfl, rfl⟩

end Predictor

/-! ## The invariant -/

theorem Process.Action.live_pc {a : Process.Action} (h : ∀ now, a ≠ .startThread now) :
    a.pc.Live := by
  cases a with
  | startThread now => exact absurd rfl (h now)
  | _ => simp [Pc.Live, Process.Action.pc]

namespace Timed

/-- A child between its start and its end: it has run since the stage
began, and its slot is still empty. -/
structure Alive (w : Timed) (since : Nat) (n : Nat) (th : Thread) : Prop where
  stretch : Stretch since w.now (w.ledger.started (.child n)) th.predictor
  unpaused : w.ledger.unpaused (.child n) = th.predictor.outsideCycle
  index_pos : 1 ≤ th.runningThreadIndex
  index_lt : th.runningThreadIndex < w.process.totalNumOfThread
  slot : w.process.predictor.threadCycle th.runningThreadIndex = 0

/-- The children's slots and stretches. -/
structure Children (w : Timed) (since : Nat) : Prop where
  alive : ∀ (n : Nat) (th : Thread), w.process.children[n]? = some th → th.pc.Live →
    w.Alive since n th
  apart : ∀ (n m : Nat) (th th' : Thread), w.process.children[n]? = some th →
    w.process.children[m]? = some th' → th.pc.Live → th'.pc.Live →
      th.runningThreadIndex = th'.runningThreadIndex → n = m
  unstarted : ∀ n : Nat, (∀ th : Thread, w.process.children[n]? = some th → th.pc = .created) →
    w.ledger.started (.child n) = none ∧ w.ledger.unpaused (.child n) = 0
  fresh : w.process.AllThreads Thread.Unstarted
  slots : ∀ i, 1 ≤ i →
    (w.process.predictor.threadReplacedCycle i = 0 ↔ w.process.predictor.threadCycle i = 0)
  slots_fresh : ∀ i, w.process.totalNumOfThread ≤ i → w.process.predictor.threadCycle i = 0
  threads_pos : 1 ≤ w.process.totalNumOfThread

/-- The main thread's time in the interval it is in. -/
structure MainTimed (w : Timed) (since : Nat) (running : Interval) : Prop where
  stretch : Stretch since w.now (w.ledger.started .main) w.process.main.predictor
  outside : w.process.main.predictor.outsideCycle = running.mainTime
  index : w.process.main.runningThreadIndex = 0

/-- The invariant: `done` are the intervals before the one the main
thread is in, which is `running` and was entered at reading `since`. -/
structure Accounts (w : Timed) (since : Nat) (done : List Interval) (running : Interval) :
    Prop where
  sound : w.process.Sound
  since_pos : 0 < since
  now_lt : w.now < 2 ^ 64
  main : w.MainTimed since running
  children : w.Children since
  entered : w.ledger.entered = done.length
  intervals : w.ledger.intervals
    = done ++ running :: w.process.control.pending.toList.map Interval.after
  stage : running.serial = w.process.control.serialStage
  critical : w.process.predictor.criticalCycle = (done.map Interval.time).sum
  critical_le : w.process.predictor.criticalCycle ≤ since
  longest : w.process.predictor.longestSlot w.process.totalNumOfThread
    = Interval.longest running.endedTimes
  longest_le : since + Interval.longest running.endedTimes ≤ w.now

variable {w w' : Timed} {p' : Process} {since : Nat} {done : List Interval} {running : Interval}
  {t : Tid} {a : Process.Action} {e : Event}

/-- A child is as it was, also when the clock has gone on. -/
theorem Alive.kept {n : Nat} {th : Thread} (h : w.Alive since n th) (hnow : w.now ≤ w'.now)
    (hs : w'.ledger.started (.child n) = w.ledger.started (.child n))
    (hu : w'.ledger.unpaused (.child n) = w.ledger.unpaused (.child n))
    (htotal : w.process.totalNumOfThread ≤ w'.process.totalNumOfThread)
    (hslot : w'.process.predictor.threadCycle th.runningThreadIndex
      = w.process.predictor.threadCycle th.runningThreadIndex) : w'.Alive since n th where
  stretch := by rw [hs]; exact h.stretch.mono hnow
  unpaused := hu.trans h.unpaused
  index_pos := h.index_pos
  index_lt := h.index_lt.trans_le htotal
  slot := hslot.trans h.slot

/-! ## Steps that start and end nothing -/

/-- The thread has its slots as before, and has started and ended as before. -/
structure Stays (th th' : Thread) : Prop where
  index : th'.runningThreadIndex = th.runningThreadIndex
  created : th'.pc = .created ↔ th.pc = .created
  ended : th'.pc = .ended ↔ th.pc = .ended

theorem Stays.refl (th : Thread) : Stays th th := ⟨rfl, Iff.rfl, Iff.rfl⟩

theorem Stays.live {th th' : Thread} (h : Stays th th') : th'.pc.Live ↔ th.pc.Live :=
  and_congr (not_congr h.created) (not_congr h.ended)

/-- The clock sees no difference between the two either. -/
structure Alike (th th' : Thread) : Prop extends Stays th th' where
  start : th'.predictor.outsideStartCycle = th.predictor.outsideStartCycle
  outside : th'.predictor.outsideCycle = th.predictor.outsideCycle

theorem Alike.refl (th : Thread) : Alike th th := ⟨.refl th, rfl, rfl⟩

theorem Alike.trans {th th' th'' : Thread} (h : Alike th th') (h' : Alike th' th'') :
    Alike th th'' :=
  ⟨⟨h'.index.trans h.index, h'.created.trans h.created, h'.ended.trans h.ended⟩,
    h'.start.trans h.start, h'.outside.trans h.outside⟩

/-- The totals stay, every thread follows its former self, and new
children have not started. -/
structure Follows (R : Thread → Thread → Prop) (p p' : Process) : Prop where
  predictor : p'.predictor = p.predictor
  total : p'.totalNumOfThread = p.totalNumOfThread
  main : R p.main p'.main
  children : ∀ n : Nat,
    (∃ th th' : Thread, p.children[n]? = some th ∧ p'.children[n]? = some th' ∧ R th th') ∨
    p.children[n]? = none ∧ ∀ th' : Thread, p'.children[n]? = some th' → th'.pc = .created

section Follows

variable {R : Thread → Thread → Prop} {p p'' : Process}

theorem Follows.refl (hR : ∀ th, R th th) (p : Process) : Follows R p p where
  predictor := rfl
  total := rfl
  main := hR _
  children n := by
    cases h : p.children[n]? with
    | some th => exact .inl ⟨th, th, rfl, rfl, hR th⟩
    | none => exact .inr ⟨rfl, fun th' h' => by cases h'⟩

theorem Follows.setThread {th th' : Thread} (hR : ∀ th, R th th) (hth : p.thread? t = some th)
    (h : R th th') : Follows R p (p.setThread t th') where
  predictor := by simp
  total := by simp
  main := by
    cases t with
    | main => exact Option.some.inj hth ▸ h
    | child n => exact hR _
  children n := by
    cases t with
    | main => exact (Follows.refl hR p).children n
    | child k =>
        have hk : p.children[k]? = some th := hth
        by_cases hkn : k = n
        · subst hkn
          have hlen := (List.getElem?_eq_some_iff.mp hk).1
          exact .inl ⟨th, th', hk, by simp [Process.setThread, hlen], h⟩
        · have hsame : (p.setThread (.child k) th').children[n]? = p.children[n]? := by
            simp [Process.setThread, hkn]
          rw [hsame]
          exact (Follows.refl hR p).children n

theorem Follows.trans (h : Follows Alike p p') (h' : Follows Alike p' p'') :
    Follows Alike p p'' where
  predictor := h'.predictor.trans h.predictor
  total := h'.total.trans h.total
  main := h.main.trans h'.main
  children n := by
    rcases h.children n with ⟨th, th', hth, hth', ha⟩ | ⟨hnone, hnew⟩
    · rcases h'.children n with ⟨th1, th'', hth1, hth'', ha'⟩ | ⟨hnone', -⟩
      · obtain rfl : th' = th1 := Option.some.inj (hth'.symm.trans hth1)
        exact .inl ⟨th, th'', hth, hth'', ha.trans ha'⟩
      · rw [hth'] at hnone'
        cases hnone'
    · refine .inr ⟨hnone, fun th'' hth'' => ?_⟩
      rcases h'.children n with ⟨th1, th2, hth1, hth2, ha'⟩ | ⟨-, hnew'⟩
      · obtain rfl : th'' = th2 := Option.some.inj (hth''.symm.trans hth2)
        exact ha'.created.mpr (hnew th1 hth1)
      · exact hnew' th'' hth''

theorem Follows.mono {R' : Thread → Thread → Prop} (h : Follows R p p')
    (hR : ∀ th th', R th th' → R' th th') : Follows R' p p' where
  predictor := h.predictor
  total := h.total
  main := hR _ _ h.main
  children n := by
    rcases h.children n with ⟨th, th', hth, hth', ha⟩ | hnew
    · exact .inl ⟨th, th', hth, hth', hR _ _ ha⟩
    · exact .inr hnew

/-- Every live child was there before. -/
theorem Follows.back {n : Nat} {th' : Thread} (h : Follows Stays p p')
    (hth' : p'.children[n]? = some th') (hlive : th'.pc.Live) :
    ∃ th, p.children[n]? = some th ∧ th.pc.Live ∧ Stays th th' := by
  rcases h.children n with ⟨th, th1, hth, hth1, ha⟩ | ⟨-, hnew⟩
  · obtain rfl : th' = th1 := Option.some.inj (hth'.symm.trans hth1)
    exact ⟨th, hth, ha.live.mp hlive, ha⟩
  · exact absurd (hnew th' hth') hlive.1

end Follows

theorem Children.follows (hc : w.Children since) (hq : Follows Stays w.process w'.process)
    (halive : ∀ (n : Nat) (th th' : Thread), w.process.children[n]? = some th →
      w'.process.children[n]? = some th' → w.Alive since n th → th'.pc.Live → w'.Alive since n th')
    (hledger : ∀ n, (∀ th : Thread, w.process.children[n]? = some th → th.pc = .created) →
      w'.ledger.started (.child n) = w.ledger.started (.child n) ∧
      w'.ledger.unpaused (.child n) = w.ledger.unpaused (.child n))
    (hfresh : w'.process.AllThreads Thread.Unstarted) : w'.Children since := by
  refine ⟨fun n th' hth' hlive => ?_, fun n m th th' hth hth' hl hl' hidx => ?_, fun n hn => ?_,
    hfresh, ?_, ?_, ?_⟩
  · obtain ⟨th, hth, hl, -⟩ := hq.back hth' hlive
    exact halive n th th' hth hth' (hc.alive n th hth hl) hlive
  · obtain ⟨th1, hth1, hl1, ha⟩ := hq.back hth hl
    obtain ⟨th2, hth2, hl2, ha'⟩ := hq.back hth' hl'
    exact hc.apart n m th1 th2 hth1 hth2 hl1 hl2 (by rw [← ha.index, ← ha'.index, hidx])
  · have hn' : ∀ th : Thread, w.process.children[n]? = some th → th.pc = .created :=
      fun th hth => by
      rcases hq.children n with ⟨th1, th', hth1, hth', ha⟩ | ⟨hnone, -⟩
      · obtain rfl : th = th1 := Option.some.inj (hth.symm.trans hth1)
        exact ha.created.mp (hn th' hth')
      · rw [hth] at hnone
        cases hnone
    rw [(hledger n hn').1, (hledger n hn').2]
    exact hc.unstarted n hn'
  · rw [hq.predictor]; exact hc.slots
  · rw [hq.predictor, hq.total]; exact hc.slots_fresh
  · rw [hq.total]; exact hc.threads_pos

theorem Accounts.quiet (h : w.Accounts since done running) (hsound : w'.process.Sound)
    (hfresh : w'.process.AllThreads Thread.Unstarted) (hq : Follows Alike w.process w'.process)
    (hnow : w'.now = w.now) (hs : w'.ledger.started = w.ledger.started)
    (hu : w'.ledger.unpaused = w.ledger.unpaused) (hentered : w'.ledger.entered = w.ledger.entered)
    (hintervals : w'.ledger.intervals
      = done ++ running :: w'.process.control.pending.toList.map Interval.after)
    (hstage : w'.process.control.serialStage = w.process.control.serialStage) :
    w'.Accounts since done running where
  sound := hsound
  since_pos := h.since_pos
  now_lt := by rw [hnow]; exact h.now_lt
  main := {
    stretch := by rw [hs, hnow]; exact h.main.stretch.congr hq.main.start hq.main.outside
    outside := hq.main.outside.trans h.main.outside
    index := hq.main.index.trans h.main.index }
  children := by
    refine h.children.follows (hq.mono fun _ _ ha => ha.toStays) ?_ (fun n _ => ?_) hfresh
    · intro n th th' hth hth' hal hlive
      rcases hq.children n with ⟨th1, th2, hth1, hth2, ha⟩ | ⟨-, hnew⟩
      · obtain rfl : th = th1 := Option.some.inj (hth.symm.trans hth1)
        obtain rfl : th' = th2 := Option.some.inj (hth'.symm.trans hth2)
        refine ⟨?_, ?_, ?_, ?_, ?_⟩
        · rw [hs, hnow]; exact hal.stretch.congr ha.start ha.outside
        · rw [hu, ha.outside]; exact hal.unpaused
        · rw [ha.index]; exact hal.index_pos
        · rw [ha.index, hq.total]; exact hal.index_lt
        · rw [ha.index, hq.predictor]; exact hal.slot
      · exact absurd (hnew th' hth') hlive.1
    · rw [hs, hu]; exact ⟨rfl, rfl⟩
  entered := hentered.trans h.entered
  intervals := hintervals
  stage := h.stage.trans hstage.symm
  critical := by rw [hq.predictor]; exact h.critical
  critical_le := by rw [hq.predictor]; exact h.critical_le
  longest := by rw [hq.predictor, hq.total]; exact h.longest
  longest_le := by rw [hnow]; exact h.longest_le

/-- Everything but a start, an end, a stage change and the exit. -/
def IsQuiet (p : Process) (a : Process.Action) : Prop :=
  p.control.stageCall a.move = none ∧
  match a with
  | .startThread _ | .threadExit _ | .exitHandler _ => False
  | _ => True

/-- Thread `t` moves on after the counter has changed. -/
theorem Follows.count_setThread {p : Process} {th th' : Thread} (n : Nat)
    (hth : p.thread? t = some th) (h : Alike th th') :
    Follows Alike p ({ p with totalNumOfRunningThread := n }.setThread t th') := by
  have hth' : { p with totalNumOfRunningThread := n }.thread? t = some th := by
    cases t <;> exact hth
  have hcount : Follows Alike p { p with totalNumOfRunningThread := n } :=
    ⟨rfl, rfl, .refl _, (Follows.refl Alike.refl p).children⟩
  exact hcount.trans (Follows.setThread Alike.refl hth' h)

theorem quiet_step {p : Process} (h : p.step (t, a) = some p') (ha : IsQuiet p a) :
    Follows Alike p p' := by
  obtain ⟨hcall, hkind⟩ := ha
  obtain ⟨-, th, hth, hpc, hact⟩ := Process.step_cases h
  have hrunning : p.control.running = p.totalNumOfRunningThread := rfl
  -- the thread changes its place between two places of a live thread
  have hplace : ∀ pc : Pc, pc.Live → th.pc.Live → Alike th { th with pc } := fun pc hlive hlive' =>
    ⟨⟨rfl, iff_of_false hlive.1 hlive'.1, iff_of_false hlive.2 hlive'.2⟩, rfl, rfl⟩
  have hset : ∀ pc : Pc, pc.Live → th.pc.Live → Follows Alike p (p.setThread t { th with pc }) :=
    fun pc hlive hlive' => Follows.setThread Alike.refl hth (hplace pc hlive hlive')
  cases a with
  | startThread _ | threadExit _ | exitHandler _ => exact hkind.elim
  | createAdd =>
      cases hact
      exact Follows.count_setThread _ hth (hplace .createTest (by simp [Pc.Live])
        (by simp [Pc.Live, hpc, Process.Action.pc]))
  | joinSub =>
      cases hact
      exact Follows.count_setThread _ hth (hplace .joinTest (by simp [Pc.Live])
        (by simp [Pc.Live, hpc, Process.Action.pc]))
  | createTest stop start =>
      cases hact
      rcases Process.serialTest_cases p t th stop start with
        ⟨-, heq⟩ | ⟨htwo, -⟩
      · rw [heq]
        exact hset .createReal (by simp [Pc.Live]) (by simp [Pc.Live, hpc, Process.Action.pc])
      · simp [Process.Action.move, Control.stageCall, hrunning, htwo] at hcall
  | joinTest stop ended start =>
      rcases Process.parallelTest_cases hact with ⟨-, rfl⟩ | ⟨hone, -⟩
      · exact hset .running (by simp [Pc.Live]) (by simp [Pc.Live, hpc, Process.Action.pc])
      · simp [Process.Action.move, Control.stageCall, hrunning, hone] at hcall
  | createReal =>
      obtain ⟨-, rfl⟩ := Process.createReal_cases hact
      have hq := hset .running (by simp [Pc.Live]) (by simp [Pc.Live, hpc, Process.Action.pc])
      refine ⟨hq.predictor, hq.total, hq.main, fun n => ?_⟩
      rcases hq.children n with ⟨th1, th2, hth1, hth2, ha⟩ | ⟨hnone, hnew⟩
      · refine .inl ⟨th1, th2, hth1, ?_, ha⟩
        rw [List.getElem?_append_left (List.getElem?_eq_some_iff.mp hth2).1]
        exact hth2
      · refine .inr ⟨hnone, fun th' hth' => ?_⟩
        rw [List.getElem?_append] at hth'
        split at hth'
        · exact hnew th' hth'
        · obtain rfl := List.mem_singleton.mp (List.mem_of_getElem? hth')
          rfl
  | call type before after =>
      simp only [Process.act] at hact
      split at hact
      · cases hact
        refine Follows.setThread Alike.refl hth ⟨⟨rfl, Iff.rfl, Iff.rfl⟩, ?_, ?_⟩
        · simp only [PredictorLocal.countCall]
          split <;> rfl
        · simp only [PredictorLocal.countCall]
          split <;> rfl
      · cases hact
  | joinReal n =>
      obtain ⟨child, hchild, hended, -, rfl⟩ := Process.joinReal_cases hact
      have hjoined : Follows Alike p (p.setThread (.child n) { child with joined := true }) :=
        Follows.setThread Alike.refl (t := .child n) hchild ⟨⟨rfl, Iff.rfl, Iff.rfl⟩, rfl, rfl⟩
      have hth' : (p.setThread (.child n) { child with joined := true }).thread? t = some th :=
        (Process.thread_setThread_of_ne (Process.joinReal_ne hth hpc hchild hended)).trans hth
      exact hjoined.trans (Follows.setThread Alike.refl hth' (hplace .joinSub (by simp [Pc.Live])
        (by simp [Pc.Live, hpc, Process.Action.pc])))

/-! ## A signal -/

theorem getElem?_setChild {p : Process} {th : Thread} {n : Nat} (hth : p.children[n]? = some th)
    (th' : Thread) (m : Nat) : (p.setThread (.child n) th').children[m]?
      = if m = n then some th' else p.children[m]? := by
  have hlen := (List.getElem?_eq_some_iff.mp hth).1
  by_cases hm : m = n
  · subst hm; simp [Process.setThread, hlen]
  · have hm' : n ≠ m := fun heq => hm heq.symm
    simp [Process.setThread, hm, hm']

/-- `sampleHandler` books the stretch it ends. -/
theorem Accounts.sample (h : w.Accounts since done running) {th : Thread} {stop start : Nat}
    (hexit : w.process.live? t = some th)
    (hclock : ClockRuns w.now (readings (signalEvents [(stop, start)]))) :
    ∃ running', Accounts
      { process := w.process.sampleHandler t th stop start, now := start,
        ledger := w.ledger.clocks t (signalEvents [(stop, start)]) } since done running' := by
  obtain ⟨-, hth, hlive⟩ := Process.live?_cases hexit
  have hle : w.now ≤ start := hclock.le_last
  have hlt : start < 2 ^ 64 := hclock.last_lt h.now_lt
  have hsound : (w.process.sampleHandler t th stop start).Sound := h.sound.sampleHandler hth
  have hfresh : (w.process.sampleHandler t th stop start).AllThreads Thread.Unstarted :=
    Process.sampleHandler_unstarted hlive h.children.fresh
  have hcontrol : (w.process.sampleHandler t th stop start).control = w.process.control :=
    Process.sampleHandler_control hth
  have hstays : Stays th { th with predictor := th.predictor.sampleHandler stop start } :=
    ⟨rfl, Iff.rfl, Iff.rfl⟩
  have hq : Follows Stays w.process (w.process.sampleHandler t th stop start) :=
    Follows.setThread Stays.refl hth hstays
  cases t with
  | main =>
      obtain rfl : w.process.main = th := Option.some.inj hth
      obtain ⟨cycles, start', hbooked, hcycles, hstretch⟩ :=
        h.main.stretch.signals h.since_pos hclock
      rw [hbooked]
      refine ⟨running.addMain cycles, hsound, h.since_pos, hlt, ⟨?_, ?_, h.main.index⟩, ?_,
        h.entered, ?_, ?_, h.critical, h.critical_le, h.longest, h.longest_le.trans hle⟩
      · rw [Ledger.booked_started]; exact hstretch
      · exact hcycles.trans (congrArg (· + cycles) h.main.outside)
      · refine h.children.follows hq (fun n th th' hth hth' hal hlive => ?_) (fun n _ => ?_) hfresh
        · obtain rfl : th = th' := Option.some.inj (hth.symm.trans hth')
          exact hal.kept hle (Ledger.booked_started_of_ne (by simp))
            (Ledger.booked_unpaused_of_ne (by simp)) le_rfl rfl
        · exact ⟨Ledger.booked_started_of_ne (by simp), Ledger.booked_unpaused_of_ne (by simp)⟩
      · rw [hcontrol]
        exact Ledger.booked_intervals_main h.entered h.intervals
      · rw [hcontrol]; exact h.stage
  | child n =>
      have hal := h.children.alive n th hth hlive
      obtain ⟨cycles, start', hbooked, hcycles, hstretch⟩ := hal.stretch.signals h.since_pos hclock
      have hget := getElem?_setChild hth
        { th with predictor := th.predictor.sampleHandler stop start }
      rw [hbooked]
      refine ⟨running, hsound, h.since_pos, hlt, ⟨?_, h.main.outside, h.main.index⟩, ?_, h.entered,
        ?_, ?_, h.critical, h.critical_le, h.longest, h.longest_le.trans hle⟩
      · rw [Ledger.booked_started_of_ne (by simp)]
        exact h.main.stretch.mono hle
      · refine h.children.follows hq (fun m th1 th' hth1 hth' hal1 hlive' => ?_)
          (fun m hm => ?_) hfresh
        · rw [Process.sampleHandler, hget] at hth'
          by_cases hmn : m = n
          · subst hmn
            rw [if_pos rfl] at hth'
            obtain rfl := Option.some.inj hth'
            refine ⟨?_, ?_, hal.index_pos, hal.index_lt, hal.slot⟩
            · rw [Ledger.booked_started]; exact hstretch
            · rw [Ledger.booked_unpaused, hal.unpaused]
              exact hcycles.symm
          · rw [if_neg hmn] at hth'
            obtain rfl : th1 = th' := Option.some.inj (hth1.symm.trans hth')
            exact hal1.kept hle (Ledger.booked_started_of_ne (by simpa using hmn))
              (Ledger.booked_unpaused_of_ne (by simpa using hmn)) le_rfl rfl
        · -- the thread has started, so it is another one
          have hmn : m ≠ n := by
            rintro rfl
            exact hlive.1 (hm th hth)
          exact ⟨Ledger.booked_started_of_ne (by simpa using hmn),
            Ledger.booked_unpaused_of_ne (by simpa using hmn)⟩
      · rw [hcontrol]; exact h.intervals
      · rw [hcontrol]; exact h.stage

/-! ## A child starts -/

section child

variable {n : Nat} {th : Thread}

theorem Accounts.startThread {start : ClockStart} (h : w.Accounts since done running)
    (hth : w.process.children[n]? = some th) (hpc : th.pc = .created)
    (hact : w.process.startThread (.child n) th start = some p') (hsound : p'.Sound)
    (hfresh : p'.AllThreads Thread.Unstarted)
    (hclock : ClockRuns w.now (readings (.clear :: start.events)))
    (hpending : p'.control.pending = w.process.control.pending)
    (hstage : p'.control.serialStage = w.process.control.serialStage) :
    Accounts { process := p', now := start.reading,
               ledger := w.ledger.clocks (.child n) (.clear :: start.events) }
      since done running := by
  obtain ⟨-, rfl⟩ := Process.startThread_cases hact
  have hget := getElem?_setChild hth { th with
    pc := .running
    runningThreadIndex := w.process.totalNumOfThread
    predictor := th.predictor.threadInit.startClock start }
  obtain ⟨hnone, hzero⟩ := h.children.unstarted n fun th' hth' => by
    obtain rfl : th = th' := Option.some.inj (hth.symm.trans hth')
    exact hpc
  have hunread : th.predictor.outsideStartCycle = 0 :=
    h.children.fresh.of_thread (t := .child n) hth hpc
  have hsince := (Nat.le_add_right ..).trans h.longest_le
  have hinit : Stretch since w.now (w.ledger.started (.child n)) th.predictor.threadInit := by
    rw [hnone]
    exact ⟨hunread, hsince, le_rfl⟩
  obtain ⟨cycles, hbooked, hcycles, hstretch⟩ := hinit.startClock h.since_pos hclock
  have hle : w.now ≤ start.reading := by
    have := hclock.le_last
    rwa [readings_clear, ClockStart.last_reading] at this
  have hlt : start.reading < 2 ^ 64 := by
    have := hclock.last_lt h.now_lt
    rwa [readings_clear, ClockStart.last_reading] at this
  have hledger : w.ledger.clocks (.child n) (.clear :: start.events)
      = w.ledger.booked (.child n) cycles (some start.reading) := hbooked
  rw [hledger]
  refine ⟨hsound, h.since_pos, hlt, ⟨?_, h.main.outside, h.main.index⟩,
    ⟨?_, ?_, ?_, hfresh, h.children.slots, ?_, ?_⟩, h.entered, ?_, h.stage.trans hstage.symm,
    h.critical, h.critical_le, ?_, h.longest_le.trans hle⟩
  · rw [Ledger.booked_started_of_ne (by simp)]
    exact h.main.stretch.mono hle
  · intro m th' hth' hlive
    simp only [hget] at hth'
    by_cases hm : m = n
    · subst hm
      rw [if_pos rfl] at hth'
      obtain rfl := Option.some.inj hth'
      refine ⟨?_, ?_, h.children.threads_pos, Nat.lt_succ_self _,
        h.children.slots_fresh _ le_rfl⟩
      · rw [Ledger.booked_started]; exact hstretch
      · rw [Ledger.booked_unpaused, hzero]
        exact hcycles.symm
    · rw [if_neg hm] at hth'
      exact (h.children.alive m th' hth' hlive).kept hle
        (Ledger.booked_started_of_ne (by simpa using hm))
        (Ledger.booked_unpaused_of_ne (by simpa using hm)) (Nat.le_succ _) rfl
  · intro m m' th1 th2 hth1 hth2 hl1 hl2 hidx
    simp only [hget] at hth1 hth2
    -- the new index is past every live one
    have hlt : ∀ i (th' : Thread), w.process.children[i]? = some th' → th'.pc.Live →
        th'.runningThreadIndex ≠ w.process.totalNumOfThread := fun i th' hth' hl =>
      (h.children.alive i th' hth' hl).index_lt.ne
    split at hth1 <;> split at hth2
    · next h1 h2 => rw [h1, h2]
    · obtain rfl := Option.some.inj hth1
      exact absurd hidx.symm (hlt m' th2 hth2 hl2)
    · obtain rfl := Option.some.inj hth2
      exact absurd hidx (hlt m th1 hth1 hl1)
    · exact h.children.apart m m' th1 th2 hth1 hth2 hl1 hl2 hidx
  · intro m hm
    -- the thread runs now, so it is another one
    have hmn : m ≠ n := by
      rintro rfl
      have hcreated := hm _ ((hget m).trans (if_pos rfl))
      cases hcreated
    rw [Ledger.booked_started_of_ne (by simpa using hmn),
      Ledger.booked_unpaused_of_ne (by simpa using hmn)]
    exact h.children.unstarted m fun th' hth' => hm th' ((hget m).trans ((if_neg hmn).trans hth'))
  · exact fun i hi => h.children.slots_fresh i (Nat.le_of_succ_le hi)
  · exact Nat.le_add_left 1 _
  · rw [hpending]
    exact h.intervals
  · rw [← h.longest]
    exact Predictor.longestSlot_succ (h.children.slots_fresh _ le_rfl)

/-! ## A child ends -/

variable {stop : Nat}

/-- What the end of child `n` does to the process: its slots are filled. -/
structure ChildEnded (p p' : Process) (n : Nat) (th : Thread) (time : Nat) : Prop where
  main : p'.main = p.main
  total : p'.totalNumOfThread = p.totalNumOfThread
  critical : p'.predictor.criticalCycle = p.predictor.criticalCycle
  child : ∃ th' : Thread, th'.pc = .ended ∧
    ∀ m : Nat, p'.children[m]? = if m = n then some th' else p.children[m]?
  cycle : p'.predictor.threadCycle
    = Function.update p.predictor.threadCycle th.runningThreadIndex time
  replaced : ∃ cycles ≠ 0, p'.predictor.threadReplacedCycle
    = Function.update p.predictor.threadReplacedCycle th.runningThreadIndex cycles

/-- Who is alive afterwards is another child, as it was. -/
theorem ChildEnded.live {p : Process} {th' : Thread} {m time : Nat}
    (hp : ChildEnded p p' n th time) (hth' : p'.children[m]? = some th') (hl' : th'.pc.Live) :
    m ≠ n ∧ p.children[m]? = some th' := by
  obtain ⟨thEnded, hended, hget⟩ := hp.child
  rw [hget] at hth'
  split at hth'
  · obtain rfl := Option.some.inj hth'
    exact absurd hended hl'.2
  · next hm => exact ⟨hm, hth'⟩

theorem Accounts.childEnded (h : w.Accounts since done running)
    (hth : w.process.children[n]? = some th) (hlive : th.pc.Live)
    (hact : w.process.threadExit (.child n) th { reading := stop } = some p')
    (hnow : w.now ≤ stop) (hword : stop < 2 ^ 64)
    (hpredicts : w.Predicts (.child n) (.process (.threadExit { reading := stop }))) :
    ChildEnded w.process p' n th (th.predictor.outsideCyclesStop stop).outsideCycle := by
  obtain ⟨predictor, hend, heq⟩ := Process.threadExit_cases hact
  obtain ⟨-, hcritical, htc, htr⟩ := Predictor.threadEnd_slots hend
  have hpredictor : p'.predictor = predictor := by rw [heq, Process.setThread_predictor]
  have hal := h.children.alive n th hth hlive
  have hbound := (hal.stretch.stop h.since_pos hnow hword).2
  have hslot : w.process.predictor.threadReplacedCycle th.runningThreadIndex = 0 :=
    (h.children.slots _ hal.index_pos).mpr hal.slot
  -- the child's slots
  have hcycle : wrap 64 (w.process.predictor.threadCycle th.runningThreadIndex
      + (th.predictor.outsideCyclesStop stop).outsideCycle)
      = (th.predictor.outsideCyclesStop stop).outsideCycle := by
    rw [hal.slot, Nat.zero_add]
    exact wrap_of_lt (by omega)
  have hreplaced : (th.predictor.stopClock { reading := stop }).addReplaced
      w.process.predictor.replacedFunctionCycles
      (w.process.predictor.threadReplacedCycle th.runningThreadIndex) ≠ 0 := by
    rw [hslot]
    exact hpredicts th hth
  have htc' : predictor.threadCycle = Function.update w.process.predictor.threadCycle
      th.runningThreadIndex (th.predictor.outsideCyclesStop stop).outsideCycle :=
    htc.trans (congrArg (Function.update _ _) hcycle)
  exact
    { main := by rw [heq]; rfl
      total := by rw [heq, Process.setThread_totalNumOfThread]
      critical := by rw [hpredictor, hcritical]
      child := ⟨{ th with
        pc := .ended, predictor := th.predictor.stopClock { reading := stop } }, rfl, by
        rw [heq]
        exact getElem?_setChild (p := { w.process with predictor }) hth _⟩
      cycle := by rw [hpredictor, htc']
      replaced := ⟨_, hreplaced, by rw [hpredictor, htr]⟩ }

/-- The ledger after the end of child `n`. -/
theorem ends_booked (g : Ledger) (n stop : Nat) :
    (g.clocks (.child n) (ClockStop.events { reading := stop })).ends (.child n)
      = (g.booked (.child n) (stop - (g.started (.child n)).getD stop) none).ends (.child n) := by
  rw [ClockStop.events, Ledger.clocks_cons, Ledger.clock_stop]
  rfl

/-- The other children keep their slots and stretches. -/
theorem ChildEnded.children {cycles time : Nat} (hp : ChildEnded w.process p' n th time)
    (h : w.Accounts since done running) (hth : w.process.children[n]? = some th)
    (hlive : th.pc.Live) (hfresh : p'.AllThreads Thread.Unstarted) (htime : 0 < time)
    (hnow : w.now ≤ stop) :
    Children { process := p', now := stop,
               ledger := (w.ledger.booked (.child n) cycles none).ends (.child n) } since := by
  have hal := h.children.alive n th hth hlive
  refine ⟨?_, ?_, ?_, hfresh, ?_, ?_, ?_⟩
  · intro m th' hth' hl'
    obtain ⟨hm, hold⟩ := hp.live hth' hl'
    have hidx : th'.runningThreadIndex ≠ th.runningThreadIndex := fun heq =>
      hm (h.children.apart m n th' th hold hth hl' hlive heq)
    refine (h.children.alive m th' hold hl').kept hnow ?_ ?_ hp.total.ge ?_
    · rw [Ledger.ends_started, Ledger.booked_started_of_ne (by simpa using hm)]
    · rw [Ledger.ends_unpaused, Ledger.booked_unpaused_of_ne (by simpa using hm)]
    · rw [hp.cycle, Function.update_of_ne hidx]
  · intro m m' th1 th2 hth1 hth2 hl1 hl2 hidx
    exact h.children.apart m m' th1 th2 (hp.live hth1 hl1).2 (hp.live hth2 hl2).2 hl1 hl2 hidx
  · intro m hm
    obtain ⟨thEnded, hended, hget⟩ := hp.child
    have hmn : m ≠ n := by
      rintro rfl
      have hcreated := hm _ ((hget m).trans (if_pos rfl))
      rw [hended] at hcreated
      cases hcreated
    have hun := h.children.unstarted m fun th' hth' =>
      hm th' ((hget m).trans ((if_neg hmn).trans hth'))
    rw [Ledger.ends_started, Ledger.ends_unpaused,
      Ledger.booked_started_of_ne (by simpa using hmn),
      Ledger.booked_unpaused_of_ne (by simpa using hmn)]
    exact hun
  · intro i hi
    obtain ⟨cycles, hcycles, hreplaced⟩ := hp.replaced
    rw [hp.cycle, hreplaced]
    by_cases hidx : i = th.runningThreadIndex
    · subst hidx
      rw [Function.update_self, Function.update_self]
      exact iff_of_false hcycles (Nat.ne_of_gt htime)
    · rw [Function.update_of_ne hidx, Function.update_of_ne hidx]
      exact h.children.slots i hi
  · intro i hi
    rw [hp.total] at hi
    rw [hp.cycle, Function.update_of_ne (by have := hal.index_lt; omega)]
    exact h.children.slots_fresh i hi
  · rw [hp.total]; exact h.children.threads_pos

theorem Accounts.threadExit (h : w.Accounts since done running)
    (hth : w.process.children[n]? = some th) (hlive : th.pc.Live)
    (hact : w.process.threadExit (.child n) th { reading := stop } = some p') (hsound : p'.Sound)
    (hfresh : p'.AllThreads Thread.Unstarted) (hnow : w.now ≤ stop) (hword : stop < 2 ^ 64)
    (hends : w.EndsWell (.child n) (.process (.threadExit { reading := stop })))
    (hpredicts : w.Predicts (.child n) (.process (.threadExit { reading := stop })))
    (hpending : w.process.control.pending = none) (hpending' : p'.control.pending = none)
    (hstage : p'.control.serialStage = w.process.control.serialStage) :
    ∃ running', Accounts { process := p', now := stop, ledger :=
        (w.ledger.clocks (.child n) (ClockStop.events { reading := stop })).ends (.child n) }
      since done running' := by
  have hp := h.childEnded hth hlive hact hnow hword hpredicts
  have hal := h.children.alive n th hth hlive
  obtain ⟨hadd, hbound⟩ := hal.stretch.stop h.since_pos hnow hword
  -- what the child has measured is its un-paused time
  have hunpaused : (w.ledger.booked (.child n)
      (stop - (w.ledger.started (.child n)).getD stop) none).unpaused (.child n)
        = (th.predictor.outsideCyclesStop stop).outsideCycle := by
    rw [Ledger.booked_unpaused, hal.unpaused, hadd]
  have htime : 0 < (th.predictor.outsideCyclesStop stop).outsideCycle := by
    have hclocked : w.clocked (.child n, .process (.threadExit { reading := stop }))
        = w.ledger.booked (.child n) (stop - (w.ledger.started (.child n)).getD stop) none := by
      show w.ledger.clocks (.child n) (ClockStop.events { reading := stop }) = _
      rw [ClockStop.events, Ledger.clocks_cons, Ledger.clock_stop]
      rfl
    have hpos := hends
    rw [EndsWell, hclocked, hunpaused] at hpos
    exact hpos
  have hlongest : p'.predictor.longestSlot p'.totalNumOfThread = Interval.longest
      (running.endedTimes ++ [(th.predictor.outsideCyclesStop stop).outsideCycle]) := by
    rw [hp.total, Interval.longest_append, ← h.longest]
    exact Predictor.longestSlot_update hp.cycle hal.slot hal.index_pos hal.index_lt
  rw [ends_booked]
  refine ⟨{ running with endedTimes :=
      running.endedTimes ++ [(th.predictor.outsideCyclesStop stop).outsideCycle] }, hsound,
    h.since_pos, hword, ⟨?_, ?_, ?_⟩, hp.children h hth hlive hfresh htime hnow, h.entered, ?_,
    h.stage.trans hstage.symm, hp.critical.trans h.critical, ?_, hlongest, ?_⟩
  · rw [hp.main]
    rw [Ledger.ends_started, Ledger.booked_started_of_ne (by simp)]
    exact h.main.stretch.mono hnow
  · rw [hp.main]; exact h.main.outside
  · rw [hp.main]; exact h.main.index
  · have hint := h.intervals
    rw [hpending] at hint
    rw [hpending']
    simp only [Ledger.ends, hunpaused, Ledger.booked_intervals_child, hint, Option.toList_none,
      List.map_nil, List.length_append, List.length_singleton, Nat.add_sub_cancel]
    exact modify_length _ done running []
  · rw [hp.critical]; exact h.critical_le
  · have hle := h.longest_le
    change _ ≤ stop
    rw [Interval.longest_append]
    omega

end child

/-! ## The main thread ends a stage -/

/-- While the main thread is about to end a stage no child is alive. -/
theorem no_live_child {p : Process} (hp : p.Sound) (hu : p.control.unjoined = 0) {n : Nat}
    {th : Thread} (hth : p.children[n]? = some th) : th.pc = .ended := by
  have hmem : (th.pc, th.joined) ∈ p.control.children :=
    List.mem_map_of_mem (List.mem_of_getElem? hth)
  refine hp.control.joined_ended _ hmem ?_
  have hle := Tally.le_tally (fun child : Pc × Bool => if child.2 then 0 else 1) hmem
  cases hj : th.joined with
  | true => rfl
  | false =>
      rw [hj] at hle
      simp only [Bool.false_eq_true, if_false] at hle
      change 1 ≤ p.control.unjoined at hle
      omega

/-- What a stage change of the main thread does to its stage total: the
time of the interval it leaves. -/
structure StageChanged (p p' : Process) (start time : Nat) : Prop where
  children : p'.children = p.children
  total : p'.totalNumOfThread = p.totalNumOfThread
  index : p'.main.runningThreadIndex = p.main.runningThreadIndex
  start : p'.main.predictor.outsideStartCycle = start
  outside : p'.main.predictor.outsideCycle = 0
  cleaned : ∀ i, i < p.totalNumOfThread →
    p'.predictor.threadCycle i = 0 ∧ p'.predictor.threadReplacedCycle i = 0
  kept : ∀ i, 1 ≤ i → p.totalNumOfThread ≤ i →
    p'.predictor.threadCycle i = p.predictor.threadCycle i ∧
    p'.predictor.threadReplacedCycle i = p.predictor.threadReplacedCycle i
  critical : p'.predictor.criticalCycle = wrap 64 (p.predictor.criticalCycle + time)

/-- The main thread's time is booked, it enters the next interval, and
its clock starts again. -/
theorem Accounts.stageChange (h : w.Accounts since done running) {k : StageCall}
    {cycles start : Nat} {began : Option Nat} (hsound : p'.Sound)
    (hfresh : p'.AllThreads Thread.Unstarted) (hpending : w.process.control.pending = some k)
    (hpending' : p'.control.pending = none)
    (hstage : p'.control.serialStage = (k == .stopParallel))
    (hchange : StageChanged w.process p' start (running.addMain cycles).time)
    (hfit : since + (running.addMain cycles).time ≤ start) (hword : start < 2 ^ 64) :
    Accounts { process := p', now := start, ledger :=
        ((w.ledger.booked .main cycles began).clock .main .clear).clock .main (.start start) }
      start (done ++ [running.addMain cycles]) (.after k) := by
  have hunjoined : w.process.control.unjoined = 0 := by
    by_contra hne
    rw [Control.pending_of_unjoined (by omega)] at hpending
    cases hpending
  have hdead : ∀ (n : Nat) (th : Thread), p'.children[n]? = some th → th.pc = .ended := by
    intro n th hth
    rw [hchange.children] at hth
    exact no_live_child h.sound hunjoined hth
  have hsince := h.since_pos
  have hslots : ∀ i, 1 ≤ i →
      p'.predictor.threadCycle i = 0 ∧ p'.predictor.threadReplacedCycle i = 0 := by
    intro i hi
    by_cases hlt : i < w.process.totalNumOfThread
    · exact hchange.cleaned i hlt
    · have hslot := h.children.slots_fresh i (by omega)
      rw [(hchange.kept i hi (by omega)).1, (hchange.kept i hi (by omega)).2]
      exact ⟨hslot, (h.children.slots i hi).mpr hslot⟩
  have hcle := h.critical_le
  have hcritical : p'.predictor.criticalCycle
      = w.process.predictor.criticalCycle + (running.addMain cycles).time := by
    rw [hchange.critical]
    exact wrap_of_lt (by omega)
  have hintervals : (w.ledger.booked .main cycles began).intervals
      = (done ++ [running.addMain cycles]) ++ [.after k] := by
    rw [Ledger.booked_intervals_main h.entered h.intervals, hpending]
    simp
  have hempty : p'.predictor.longestSlot p'.totalNumOfThread = 0 := by
    refine Nat.le_zero.mp (Finset.sup_le fun i hi => ?_)
    exact (hslots i (Finset.mem_Ico.mp hi).1).1.le
  refine ⟨hsound, by omega, hword, ⟨?_, hchange.outside, hchange.index.trans h.main.index⟩,
    ⟨?_, ?_, ?_, hfresh, ?_, ?_, ?_⟩, ?_, ?_, hstage.symm, ?_, ?_, hempty, le_rfl⟩
  · rw [Ledger.clock_start, Ledger.booked_started]
    exact ⟨hchange.start, by simp [hchange.outside], le_rfl⟩
  · exact fun n th hth hl => absurd (hdead n th hth) hl.2
  · exact fun n m th th' hth _ hl _ _ => absurd (hdead n th hth) hl.2
  · intro n hn
    rw [hchange.children] at hn
    rw [Ledger.clock_start, Ledger.booked_started_of_ne (by simp),
      Ledger.booked_unpaused_of_ne (by simp), Ledger.clock_clear_started,
      Ledger.clock_clear_unpaused, Ledger.booked_started_of_ne (by simp),
      Ledger.booked_unpaused_of_ne (by simp)]
    exact h.children.unstarted n hn
  · exact fun i hi => iff_of_true (hslots i hi).2 (hslots i hi).1
  · intro i hi
    have hpos := h.children.threads_pos
    rw [hchange.total] at hi
    exact (hslots i (by omega)).1
  · rw [hchange.total]; exact h.children.threads_pos
  · rw [Ledger.clock_start, Ledger.booked_entered]
    show (w.ledger.booked .main cycles began).intervals.length - 1 = _
    simp [hintervals]
  · rw [hpending']
    exact hintervals
  · rw [hcritical, h.critical]; simp
  · rw [hcritical]; omega

theorem cleanStageData_slots (p : Predictor) {i n : Nat} (h : i < n) :
    (p.cleanStageData n).threadCycle i = 0 ∧ (p.cleanStageData n).threadReplacedCycle i = 0 :=
  ⟨if_pos h, if_pos h⟩

theorem cleanStageData_rest (p : Predictor) {i n : Nat} (h : n ≤ i) :
    (p.cleanStageData n).threadCycle i = p.threadCycle i ∧
      (p.cleanStageData n).threadReplacedCycle i = p.threadReplacedCycle i :=
  ⟨if_neg (by omega), if_neg (by omega)⟩

/-- The time of a serial interval that the main thread leaves. -/
theorem Accounts.serial_time (h : w.Accounts since done running) {stop : Nat}
    (hserial : running.serial = true) (hnow : w.now ≤ stop) (hword : stop < 2 ^ 64) :
    (running.addMain (stop - (w.ledger.started .main).getD stop)).time
      = (w.process.main.predictor.outsideCyclesStop stop).outsideCycle := by
  rw [(h.main.stretch.stop h.since_pos hnow hword).1, h.main.outside]
  simp [Interval.time, Interval.addMain, hserial]

theorem Accounts.serial_changed (h : w.Accounts since done running) {stop start : Nat}
    (hserial : running.serial = true) (htwo : w.process.totalNumOfRunningThread = 2)
    (hnow : w.now ≤ stop) (hword : stop < 2 ^ 64) :
    StageChanged w.process
      (w.process.serialTest .main w.process.main { reading := stop } { reading := start }) start
      (running.addMain (stop - (w.ledger.started .main).getD stop)).time := by
  rcases Process.serialTest_cases w.process .main w.process.main { reading := stop }
    { reading := start } with ⟨hne, -⟩ | ⟨-, heq⟩
  · exact absurd htwo hne
  · rw [h.serial_time hserial hnow hword, heq]
    exact ⟨rfl, rfl, rfl, rfl, rfl, fun i hi => cleanStageData_slots _ hi,
      fun i _ hi => cleanStageData_rest _ hi, rfl⟩

/-- The time of a parallel interval does not depend on the main thread. -/
theorem parallel_time (hparallel : running.serial = false) (cycles : Nat) :
    (running.addMain cycles).time = Interval.longest running.endedTimes := by
  simp [Interval.time, Interval.addMain, hparallel]

theorem Accounts.parallel_changed (h : w.Accounts since done running) {stop : ClockStop}
    {ended : List (Nat × Nat)} {start cycles : Nat} (hparallel : running.serial = false)
    (hone : w.process.totalNumOfRunningThread = 1)
    (hact : w.process.parallelTest .main w.process.main stop ended { reading := start }
      = some p') :
    StageChanged w.process p' start (running.addMain cycles).time := by
  rcases Process.parallelTest_cases hact with ⟨hne, -⟩ | ⟨-, predictor, hend, rfl⟩
  · exact absurd hone hne
  · rw [h.main.index] at hend
    obtain ⟨-, hcritical, htc, htr⟩ := Predictor.threadEnd_slots hend
    -- the main thread's own slot is not a child's
    have hslots : ∀ i, 1 ≤ i → predictor.threadCycle i = w.process.predictor.threadCycle i ∧
        predictor.threadReplacedCycle i = w.process.predictor.threadReplacedCycle i :=
      fun i hi => by
      rw [htc, htr, Function.update_of_ne (by omega), Function.update_of_ne (by omega)]
      exact ⟨rfl, rfl⟩
    have hcycle : (predictor.stageCycles w.process.totalNumOfThread).cycle
        = Interval.longest running.endedTimes := by
      rw [Predictor.stageCycles_cycle fun i hi hzero => ?_, ← h.longest]
      · refine Finset.sup_congr rfl fun i hi => ?_
        exact (hslots i (Finset.mem_Ico.mp hi).1).1
      · rw [(hslots i hi).1, ← h.children.slots i hi, ← (hslots i hi).2]
        exact hzero
    rw [parallel_time hparallel, ← hcycle]
    refine ⟨rfl, rfl, rfl, rfl, rfl, fun i hi => cleanStageData_slots _ hi,
      fun i hi hle => ?_, ?_⟩
    · have hrest := cleanStageData_rest predictor hle
      exact ⟨hrest.1.trans (hslots i hi).1, hrest.2.trans (hslots i hi).2⟩
    · rw [← hcritical]
      rfl

/-! ## The exit -/

/-- With every child joined and the main thread in its program, the last
stage is a serial one. -/
theorem Accounts.last_serial (h : w.Accounts since done running)
    (hpc : w.process.main.pc = .running)
    (hjoined : ∀ child ∈ w.process.children, child.joined = true) :
    w.process.control.pending = none ∧ running.serial = true := by
  have hmain : w.process.control.main = .running := hpc
  have hpending : w.process.control.pending = none :=
    Control.pending_of_place (by simp [hmain]) (by simp [hmain])
  have hunjoined : w.process.control.unjoined = 0 := by
    refine List.sum_eq_zero fun x hx => ?_
    obtain ⟨child, hchild, rfl⟩ := List.mem_map.mp hx
    obtain ⟨th, hth, rfl⟩ := List.mem_map.mp hchild
    simp [hjoined th hth]
  have hcount := h.sound.control.counter
  have hbusy := h.sound.control.busy_le_unjoined
  rw [hmain] at hcount
  change _ = 1 + 0 + _ + _ at hcount
  refine ⟨hpending, ?_⟩
  rw [h.stage, Control.serialStage_of_none hpending, beq_iff_eq]
  omega

theorem Accounts.exit (h : w.Accounts since done running) {stop : Nat}
    (hpc : w.process.main.pc = .running)
    (hjoined : ∀ child ∈ w.process.children, child.joined = true) (hnow : w.now ≤ stop)
    (hword : stop < 2 ^ 64) :
    (w.process.exitHandler .main w.process.main { reading := stop }).predictor.criticalCycle
      = (w.ledger.clocks .main (ClockStop.events { reading := stop } ++ [.clear])).total := by
  obtain ⟨hpending, hserial⟩ := h.last_serial hpc hjoined
  have hle := h.critical_le
  have hbound := (h.main.stretch.stop h.since_pos hnow hword).2
  have hcode :
      (w.process.exitHandler .main w.process.main { reading := stop }).predictor.criticalCycle
        = wrap 64 (w.process.predictor.criticalCycle
          + (w.process.main.predictor.outsideCyclesStop stop).outsideCycle) := rfl
  have hintervals : (w.ledger.clocks .main
      (ClockStop.events { reading := stop } ++ [.clear])).intervals
      = done ++ [running.addMain (stop - (w.ledger.started .main).getD stop)] := by
    show (w.ledger.clock .main (.stop stop)).intervals = _
    rw [Ledger.clock_stop, Ledger.booked_intervals_main h.entered h.intervals, hpending]
    rfl
  rw [hcode, wrap_of_lt (by omega), Ledger.total, hintervals, h.critical,
    ← h.serial_time hserial hnow hword]
  simp

/-! ## Steps and runs -/

/-- What holds after every step: the program runs and the invariant
holds, or it has exited and its critical path is the ledger's total. -/
def Exact (w : Timed) : Prop :=
  w.process.exited = false ∧ (∃ since done running, w.Accounts since done running) ∨
  w.process.exited = true ∧ w.process.predictor.criticalCycle = w.ledger.total

/-- A step without a clock event or a stage change. -/
theorem Accounts.quiet_step (h : w.Accounts since done running)
    (hp : w.process.step (t, a) = some p') (ha : IsQuiet w.process a) :
    Accounts { process := p', now := w.now, ledger := w.ledger.cross (w.process.crossing p') }
      since done running := by
  have hmove := h.sound.step_control hp
  obtain ⟨hstage, hpending⟩ := h.sound.control.stage_keeps hmove ha.1
  have hcross : w.process.crossing p' = Control.crossing w.process.control p'.control := rfl
  refine h.quiet (h.sound.step hp) (Process.step_unstarted hp h.children.fresh)
    (Timed.quiet_step hp ha) rfl rfl rfl rfl ?_ hstage
  rw [hpending, ← hcross, List.map_append]
  simp only [Ledger.cross, h.intervals]
  simp

/-- The main thread's test that ends a serial stage. -/
theorem Accounts.createTest_step (h : w.Accounts since done running) {stop start : Nat}
    (hp : w.process.step (t, .createTest { reading := stop } { reading := start }) = some p')
    (htwo : w.process.totalNumOfRunningThread = 2) (hclock : ClockRuns w.now [stop, start]) :
    w.process.crossing p' = none ∧ ∃ since' done' running', Accounts
      { process := p', now := start,
        ledger := w.ledger.clocks t [.stop stop, .clear, .start start] } since' done' running' := by
  obtain ⟨-, th, hth, -, hact⟩ := Process.step_cases hp
  have hmove := h.sound.step_control hp
  have hfresh := Process.step_unstarted hp h.children.fresh
  have hcall : w.process.control.stageCall
      (Process.Action.createTest { reading := stop } { reading := start }).move
        = some .stopSerial := if_pos htwo
  obtain ⟨rfl, hpending, hpending', hcross, hstage⟩ := h.sound.control.stage_changes hmove hcall
  obtain rfl : w.process.main = th := Option.some.inj hth
  obtain ⟨hle, hstop, hstart⟩ := clockRuns_cons.mp hclock
  obtain ⟨hle', hword, -⟩ := clockRuns_cons.mp hstart
  have hserial : running.serial = true := by
    rw [h.stage, Control.serialStage_of_pending hpending]; rfl
  have hbound := (h.main.stretch.stop h.since_pos hle hstop).2
  have hsound := h.sound.step hp
  cases hact
  have hfit : since + (running.addMain (stop - (w.ledger.started .main).getD stop)).time
      ≤ start := by
    rw [h.serial_time hserial hle hstop]
    exact hbound.trans hle'
  rw [Ledger.clocks_cons, Ledger.clock_stop]
  exact ⟨hcross, _, _, _, h.stageChange hsound hfresh hpending hpending' hstage
    (h.serial_changed hserial htwo hle hstop) hfit hword⟩

/-- The main thread's test that ends a parallel stage, whatever signals
come before it is ended. -/
theorem Accounts.joinTest_step (h : w.Accounts since done running) {stop : ClockStop}
    {ended : List (Nat × Nat)} {start : Nat}
    (hp : w.process.step (t, .joinTest stop ended { reading := start }) = some p')
    (hone : w.process.totalNumOfRunningThread = 1) (hnow : w.now ≤ start)
    (hword : start < 2 ^ 64) :
    w.process.crossing p' = none ∧ ∃ since' done' running', Accounts
      { process := p', now := start, ledger := w.ledger.clocks t
          (stop.events ++ signalEvents ended ++ [.clear, .start start]) }
      since' done' running' := by
  obtain ⟨-, th, hth, -, hact⟩ := Process.step_cases hp
  have hmove := h.sound.step_control hp
  have hfresh := Process.step_unstarted hp h.children.fresh
  have hcall : w.process.control.stageCall
      (Process.Action.joinTest stop ended { reading := start }).move = some .stopParallel :=
    if_pos hone
  obtain ⟨rfl, hpending, hpending', hcross, hstage⟩ := h.sound.control.stage_changes hmove hcall
  obtain rfl : w.process.main = th := Option.some.inj hth
  have hparallel : running.serial = false := by
    rw [h.stage, Control.serialStage_of_pending hpending]; rfl
  obtain ⟨cycles, began, hbooked⟩ : ∃ cycles began,
      w.ledger.clocks .main (stop.events ++ signalEvents ended)
        = w.ledger.booked .main cycles began :=
    Ledger.clocks_booked (by simp [ClockStop.events]) w.ledger
  have hfit : since + (running.addMain cycles).time ≤ start := by
    rw [parallel_time hparallel]
    exact h.longest_le.trans hnow
  rw [Ledger.clocks_append, hbooked]
  exact ⟨hcross, _, _, _, h.stageChange (h.sound.step hp) hfresh hpending hpending' hstage
    (h.parallel_changed hparallel hone hact) hfit hword⟩

/-- The invariant after a step that is no crossing. -/
theorem Accounts.exact_of_uncrossed {now : Nat} {ledger : Ledger} (hexit : p'.exited = false)
    (hcross : w.process.crossing p' = none)
    (h : Accounts { process := p', now := now, ledger := ledger } since done running) :
    Exact { process := p', now := now, ledger := ledger.cross (w.process.crossing p') } := by
  rw [hcross, Ledger.cross_none]
  exact .inl ⟨hexit, since, done, running, h⟩

/-- An action keeps the invariant, or is the exit. -/
theorem Accounts.process_exact (h : w.Accounts since done running)
    (hclock : ClockRuns w.now (readings (w.process.clockEvents a)))
    (hends : w.EndsWell t (.process a)) (htime : InTime (.process a))
    (hpredicts : w.Predicts t (.process a)) (hp : w.process.step (t, a) = some p') :
    Exact { process := p', now := (readings (w.process.clockEvents a)).getLastD w.now,
            ledger := (w.record (t, .process a)).cross (w.process.crossing p') } := by
  obtain ⟨-, th, hth, hpc, hact⟩ := Process.step_cases hp
  have hexit := Process.step_exited hp
  have hsound := h.sound.step hp
  have hfresh := Process.step_unstarted hp h.children.fresh
  have hmove := h.sound.step_control hp
  -- a step without clock events keeps the ledger but for a crossing
  have hquiet : IsQuiet w.process a → w.process.clockEvents a = [] → a.isExit = false →
      w.record (t, .process a) = w.ledger →
      Exact { process := p', now := (readings (w.process.clockEvents a)).getLastD w.now,
              ledger := (w.record (t, .process a)).cross (w.process.crossing p') } :=
    fun hq hevents hno hrecord => by
      refine .inl ⟨hexit.trans hno, since, done, running, ?_⟩
      rw [hevents, hrecord]
      exact h.quiet_step hp hq
  have hsame : w.process.clockEvents a = [] → w.clocked (t, .process a) = w.ledger := by
    intro hevents
    simp [clocked, clockEvents, hevents]
  cases a with
  | createAdd | createReal | call _ _ _ | joinReal _ | joinSub =>
      exact hquiet ⟨rfl, trivial⟩ rfl rfl rfl
  | createTest stop start =>
      by_cases htwo : w.process.totalNumOfRunningThread = 2
      · obtain ⟨stop, late⟩ := stop
        obtain ⟨early, start⟩ := start
        obtain ⟨rfl, rfl⟩ : late = [] ∧ early = [] := htime
        have hevents : w.process.clockEvents (.createTest { reading := stop } { reading := start })
            = [.stop stop, .clear, .start start] := by
          simp [Process.clockEvents, Process.fromSerialToParallel, htwo, ClockStop.events,
            ClockStart.events]
        rw [hevents] at hclock ⊢
        obtain ⟨hcross, since', done', running', hacc⟩ := h.createTest_step hp htwo hclock
        have hrecord : w.record (t, .process (.createTest { reading := stop } { reading := start }))
            = w.ledger.clocks t [.stop stop, .clear, .start start] := by
          simp only [record, clocked, clockEvents, hevents]
        rw [hrecord]
        exact hacc.exact_of_uncrossed hexit hcross
      · have hevents : w.process.clockEvents (.createTest stop start) = [] := by
          simp [Process.clockEvents, Process.fromSerialToParallel, htwo]
        exact hquiet ⟨if_neg htwo, trivial⟩ hevents rfl (hsame hevents)
  | joinTest stop ended start =>
      by_cases hone : w.process.totalNumOfRunningThread = 1
      · obtain ⟨early, start⟩ := start
        obtain rfl : early = [] := htime
        have hevents : w.process.clockEvents (.joinTest stop ended { reading := start })
            = stop.events ++ signalEvents ended ++ [.clear, .start start] := by
          simp [Process.clockEvents, Process.fromParallelToSerial, hone, ClockStart.events]
        rw [hevents] at hclock ⊢
        have hlast : (readings (stop.events ++ signalEvents ended ++
            [.clear, .start start])).getLastD w.now = start := by simp
        have hle := hclock.le_last
        have hlt := hclock.last_lt h.now_lt
        rw [hlast] at hle hlt ⊢
        obtain ⟨hcross, since', done', running', hacc⟩ := h.joinTest_step hp hone hle hlt
        have hrecord : w.record (t, .process (.joinTest stop ended { reading := start }))
            = w.ledger.clocks t (stop.events ++ signalEvents ended ++ [.clear, .start start]) := by
          simp only [record, clocked, clockEvents, hevents]
        rw [hrecord]
        exact hacc.exact_of_uncrossed hexit hcross
      · have hevents : w.process.clockEvents (.joinTest stop ended start) = [] := by
          simp [Process.clockEvents, Process.fromParallelToSerial, hone]
        exact hquiet ⟨if_neg hone, trivial⟩ hevents rfl (hsame hevents)
  | startThread start =>
      cases t with
      | main =>
          obtain rfl : w.process.main = th := Option.some.inj hth
          exact absurd hpc h.sound.control.main_started
      | child n =>
          obtain ⟨hpending, hpending', hcross, hcall⟩ := h.sound.control.child_quiet hmove
          have hacc := h.startThread hth hpc hact hsound hfresh hclock
            (hpending'.trans hpending.symm) (h.sound.control.stage_keeps hmove hcall).1
          have hlast : (readings (w.process.clockEvents (.startThread start))).getLastD w.now
              = start.reading := start.last_reading w.now
          rw [hlast]
          exact hacc.exact_of_uncrossed hexit hcross
  | threadExit stop =>
      obtain ⟨stop, late⟩ := stop
      obtain rfl : late = [] := htime
      obtain ⟨hle, hword, -⟩ := clockRuns_cons.mp hclock
      cases t with
      | main => simp [Process.act] at hact
      | child n =>
          obtain ⟨hpending, hpending', hcross, hcall⟩ := h.sound.control.child_quiet hmove
          have hlive : th.pc.Live := by simp [Pc.Live, hpc, Process.Action.pc]
          obtain ⟨running', hacc⟩ := h.threadExit hth hlive (by simpa [Process.act] using hact)
            hsound hfresh hle hword hends hpredicts hpending hpending'
            (h.sound.control.stage_keeps hmove hcall).1
          exact hacc.exact_of_uncrossed hexit hcross
  | exitHandler stop =>
      obtain ⟨stop, late⟩ := stop
      obtain rfl : late = [] := htime
      obtain ⟨hle, hword, -⟩ := clockRuns_cons.mp hclock
      obtain ⟨rfl, hjoined⟩ := hends
      obtain rfl : w.process.main = th := Option.some.inj hth
      cases hact
      have hcross : w.process.crossing
          (w.process.exitHandler .main w.process.main { reading := stop }) = none :=
        show Control.crossing w.process.control w.process.control = none from
          Control.crossing_eq_none (by omega) (by omega)
      refine .inr ⟨hexit, (h.exit hpc hjoined hle hword).trans ?_⟩
      rw [hcross, Ledger.cross_none]
      rfl

theorem Accounts.step_exact (h : w.Accounts since done running) (hpermit : w.Permitted (t, e))
    (htime : InTime e) (hpredicts : w.Predicts t e) (hstep : w.step (t, e) = some w') :
    w'.Exact := by
  obtain ⟨p', hmoves, rfl⟩ := Option.map_eq_some_iff.mp hstep
  obtain ⟨hclock, hends⟩ := hpermit
  cases e with
  | sample stop start =>
      obtain ⟨th, hlive, rfl⟩ := Option.map_eq_some_iff.mp hmoves
      obtain ⟨hexit, -, -⟩ := Process.live?_cases hlive
      obtain ⟨running', hacc⟩ := h.sample hlive hclock
      have hcross : w.process.crossing (w.process.sampleHandler t th stop start) = none := by
        simp only [Process.crossing, Process.sampleHandler,
          Process.setThread_totalNumOfRunningThread]
        split
        · omega
        · split
          · omega
          · rfl
      exact hacc.exact_of_uncrossed (by simpa [Process.sampleHandler] using hexit) hcross
  | process a => exact h.process_exact hclock hends htime hpredicts hmoves

theorem Exact.step {i : Tid × Event} (hw : w.Exact) (hpermit : w.Permitted i)
    (htime : InTime i.2) (hpredicts : w.Predicts i.1 i.2) (h : w.step i = some w') : w'.Exact := by
  rcases hw with ⟨-, since, done, running, hacc⟩ | ⟨hexited, -⟩
  · exact hacc.step_exact (t := i.1) (e := i.2) hpermit htime hpredicts h
  · -- nothing steps after the exit
    obtain ⟨p', hmoves, -⟩ := Option.map_eq_some_iff.mp h
    have hlive : w.process.exited = false := by
      obtain ⟨t, e⟩ := i
      cases e with
      | process a => exact (Process.step_cases hmoves).1
      | sample stop start =>
          obtain ⟨th, hth, -⟩ := Option.map_eq_some_iff.mp hmoves
          exact (Process.live?_cases hth).1
    rw [hexited] at hlive
    cases hlive

theorem exact_initial (info : PredictorInfo) {now : Nat} (hpos : 0 < now) (hword : now < 2 ^ 64) :
    (initial info now).Exact := by
  refine .inl ⟨rfl, now, [], { serial := true }, Process.sound_initial info now, hpos, hword,
    ⟨⟨rfl, le_rfl, le_rfl⟩, rfl, rfl⟩, ⟨?_, ?_, ?_, ⟨?_, ?_⟩, ?_, ?_, le_rfl⟩, rfl, rfl, rfl, rfl,
    Nat.zero_le _, rfl, le_rfl⟩
  · exact fun n th hth _ => by cases hth
  · exact fun n m th th' hth _ _ _ _ => by cases hth
  · exact fun n _ => ⟨rfl, rfl⟩
  · exact fun hcreated => by cases hcreated
  · exact fun _ h => (List.not_mem_nil h).elim
  · exact fun i _ => Iff.rfl
  · exact fun i _ => rfl

end Timed

namespace Timed

/-- No thread that ends has spent more in counted calls than in all. -/
def CallsFit (w : Timed) (t : Tid) : Event → Prop
  | .process (.threadExit stop) => ∀ th ∈ w.process.thread? t,
      th.predictor.totalFunctionCycles ≤ (th.predictor.stopClock stop).outsideCycle
  | .process (.joinTest stop _ _) => w.process.fromParallelToSerial →
      ∀ th ∈ w.process.thread? t,
        th.predictor.totalFunctionCycles ≤ (th.predictor.stopClock stop).outsideCycle
  | _ => True

instance (w : Timed) (t : Tid) : (e : Event) → Decidable (w.CallsFit t e)
  | .process (.threadExit _) => inferInstanceAs (Decidable (∀ th ∈ w.process.thread? t, _))
  | .process (.joinTest ..) =>
      inferInstanceAs (Decidable (_ → ∀ th ∈ w.process.thread? t, _))
  | .sample .. | .process .createAdd | .process (.createTest ..) | .process .createReal
  | .process (.startThread _) | .process (.call ..) | .process (.joinReal _)
  | .process .joinSub | .process (.exitHandler _) => isTrue trivial

end Timed

end MemPerf
