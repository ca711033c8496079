import MemPerf.ThreadSlots

/-!
# When the predictor's arithmetic is safe

`threadEnd` divides by the time of the thread that ends, and takes the
time of the counted calls off the time of the outside clock. Neither is
checked. A thread may end at the reading it started at, and a pause of
the clock inside a call, or a stage that changes inside one, leaves the
call's time in the one sum and not in the other.

Two facts make the condition exact. What the two clocks add up is what
the meters note, so `totalFunctionCycles ≤ outsideCycle` compares two
collections of cycles. And a thread that ends finds its slots empty, so
what it divides by is its own time. Where nothing disturbs a call, every
call lies in a stretch of the clock, and the first sum cannot outrun the
second.
-/

namespace MemPerf

open Word StepSystem

/-! ## The sums are what the meters note -/

theorem card_stretch (a b : Nat) : (Multiset.Ico a b).card = b - a := Nat.card_Ico a b

namespace Meter

variable {m : Meter} {now r : Nat} {l : PredictorLocal}

@[simp] theorem clocks_nil (m : Meter) : m.clocks [] = m := rfl

@[simp] theorem clocks_cons (m : Meter) (event : ClockEvent) (events : List ClockEvent) :
    m.clocks (event :: events) = (m.clock event).clocks events := rfl

@[simp] theorem clocks_append (m : Meter) (events events' : List ClockEvent) :
    m.clocks (events ++ events') = (m.clocks events).clocks events' := List.foldl_append

@[simp] theorem clock_call (m : Meter) (event : ClockEvent) : (m.clock event).call = m.call := by
  cases event <;> rfl

@[simp] theorem clocks_call (m : Meter) (events : List ClockEvent) :
    (m.clocks events).call = m.call := by
  induction events generalizing m with
  | nil => rfl
  | cons event events ih => rw [clocks_cons, ih, clock_call]

/-- A reading of the call in progress, or of now, stays behind the clock. -/
theorem getD_call_mono (hle : now ≤ r) : m.call.getD now ≤ m.call.getD r := by
  cases m.call with
  | none => exact hle
  | some before => exact le_rfl

/-- The two sums of a thread. -/
structure Measures (m : Meter) (now : Nat) (l : PredictorLocal) : Prop where
  started : m.started = l.outsideStartCycle
  outside : l.outsideCycle = m.time
  total : l.totalFunctionCycles = m.called.card
  called_le : m.called.card ≤ m.call.getD now
  call_le : m.call.getD now ≤ now

namespace Measures

theorem mono (h : m.Measures now l) (hle : now ≤ r) : m.Measures r l where
  started := h.started
  outside := h.outside
  total := h.total
  called_le := h.called_le.trans (getD_call_mono hle)
  call_le := by
    have hcall := h.call_le
    cases hm : m.call with
    | none => exact le_rfl
    | some before =>
        rw [hm] at hcall
        exact hcall.trans hle

theorem stop (h : m.Measures now l) :
    (m.clock (.stop r)).Measures now (l.outsideCyclesStop r) := by
  refine ⟨h.started, ?_, h.total, h.called_le, h.call_le⟩
  have hcode : (l.outsideCyclesStop r).outsideCycle
      = if r > m.started ∧ m.started ≠ 0 then wrap 64 (m.time + (r - m.started)) else m.time := by
    rw [h.started, ← h.outside]
    rfl
  rw [hcode, time, time, clock]
  by_cases hzero : m.started = 0
  · -- the clock was never started, and neither side counts the stretch
    simp [hzero]
  · have hcard : (m.ran + Multiset.Ico m.started r).card = m.ran.card + (r - m.started) := by
      rw [Multiset.card_add, card_stretch]
    simp only [hzero, if_false, hcard]
    split
    · exact wrap_add_wrap ..
    · next hle =>
        have hr : r - m.started = 0 := by omega
        rw [hr, Nat.add_zero]

/-- The counters and the meter cleared together. -/
theorem clear (hstart : m.started = l.outsideStartCycle) (hcall : m.call.getD now ≤ now) :
    (m.clock .clear).Measures now l.threadInit :=
  ⟨hstart, rfl, rfl, Nat.zero_le _, hcall⟩

theorem clock (h : m.Measures now l) (event : ClockEvent) :
    (m.clock event).Measures now (l.clock event) := by
  cases event with
  | start r => exact ⟨rfl, h.outside, h.total, h.called_le, h.call_le⟩
  | stop r => exact h.stop
  | clear => exact clear h.started h.call_le

/-- The meter and the thread's clock see the same events. -/
theorem clocks (h : m.Measures now l) (events : List ClockEvent) :
    (m.clocks events).Measures now (l.clocks events) := by
  induction events generalizing m l with
  | nil => exact h
  | cons event events ih => exact ih (h.clock event)

theorem stopClock (h : m.Measures now l) (stop : ClockStop) :
    (m.clocks stop.events).Measures now (l.stopClock stop) := by
  rw [← l.clocks_stopClock]
  exact h.clocks stop.events

theorem callBegin (h : m.Measures now l) (hnone : m.call = none) (hle : now ≤ r) :
    (m.callBegin r).Measures r l := by
  have hcalled := h.called_le
  rw [hnone] at hcalled
  exact ⟨h.started, h.outside, h.total, hcalled.trans hle, le_rfl⟩

theorem cyclesInRealFunction_eq {before after : Nat} (hle : before ≤ after) (hr : after < 2 ^ 64) :
    cyclesInRealFunction before after
      = if after - before ≤ abnormalValue then after - before else 0 := by
  rw [cyclesInRealFunction, wsub_of_le hle hr]
  split <;> split <;> omega

/-- What a finished call adds. -/
theorem card_callEnd (m : Meter) (replaced : Bool) (before after : Nat) :
    (m.callEnd replaced before after).called.card = m.called.card
      + if replaced ∧ after - before ≤ abnormalValue then after - before else 0 := by
  rw [Meter.callEnd, Multiset.card_add]
  split
  · rw [card_stretch]
  · rfl

theorem callEnd {before type : Nat} {replaced : Nat → Nat} (h : m.Measures now l)
    (hcall : m.call = some before) (hle : now ≤ r) (hr : r < 2 ^ 64) :
    (m.callEnd (replaced type ≠ 0) before r).Measures r
      (l.countCall replaced type (cyclesInRealFunction before r)) := by
  have hbefore := h.call_le
  have hcalled := h.called_le
  rw [hcall] at hbefore hcalled
  simp only [Option.getD_some] at hbefore hcalled
  -- the call adds its cycles to both sides, or to neither
  have hsame : (l.countCall replaced type (cyclesInRealFunction before r)).outsideCycle
        = l.outsideCycle ∧
      (l.countCall replaced type (cyclesInRealFunction before r)).outsideStartCycle
        = l.outsideStartCycle := by
    unfold PredictorLocal.countCall
    split <;> exact ⟨rfl, rfl⟩
  have hcard := card_callEnd m (replaced type ≠ 0) before r
  refine ⟨hsame.2 ▸ h.started, hsame.1 ▸ h.outside, ?_, ?_, le_rfl⟩
  · rw [hcard, PredictorLocal.countCall, cyclesInRealFunction_eq (by omega) hr]
    by_cases hrep : replaced type = 0
    · simp [hrep, h.total]
    · simp only [hrep, ne_eq, not_false_eq_true, decide_true, if_true, true_and, h.total]
      split
      · exact wrap_of_lt (by omega)
      · exact wrap_of_lt (by omega)
  · rw [hcard]
    show _ ≤ r
    split <;> omega

end Measures

/-! ## Calls that nothing disturbs -/

/-- The calls since the last start are shorter than the stretch that
began there. -/
structure Steady (m : Meter) (now : Nat) : Prop where
  started_pos : 0 < m.started
  started_le : m.started ≤ m.call.getD now
  called_le : m.called.card ≤ m.ran.card + (m.call.getD now - m.started)

theorem Steady.mono (h : m.Steady now) (hle : now ≤ r) : m.Steady r where
  started_pos := h.started_pos
  started_le := h.started_le.trans (getD_call_mono hle)
  called_le := h.called_le.trans
    (Nat.add_le_add_left (Nat.sub_le_sub_right (getD_call_mono hle) _) _)

/-- Once the clock has stopped, all calls are in its time. -/
theorem Steady.stop (h : m.Steady now) (hcall : m.call.getD now ≤ r) :
    (m.clock (.stop r)).called.card ≤ (m.clock (.stop r)).ran.card := by
  have hpos := h.started_pos
  have hle := h.called_le
  have hran : (m.clock (.stop r)).ran.card = m.ran.card + (r - m.started) := by
    rw [clock, if_neg (by omega), Multiset.card_add, card_stretch]
  rw [hran]
  show m.called.card ≤ _
  omega

/-- Later events only add to the clock's time, or clear both. -/
theorem called_le_clocks (h : m.called.card ≤ m.ran.card) (events : List ClockEvent) :
    (m.clocks events).called.card ≤ (m.clocks events).ran.card := by
  induction events generalizing m with
  | nil => exact h
  | cons event events ih =>
      refine ih ?_
      cases event with
      | start r => exact h
      | stop r =>
          rw [clock, Multiset.card_add]
          exact h.trans (Nat.le_add_right ..)
      | clear => exact le_rfl

/-- The clock starts again outside the calls. -/
theorem steady_start (h : m.called.card ≤ m.ran.card) (hnone : m.call = none) (hpos : 0 < r) :
    (m.clock (.start r)).Steady r where
  started_pos := hpos
  started_le := by rw [clock_call, hnone]; exact le_rfl
  called_le := h.trans (Nat.le_add_right ..)

theorem Steady.callBegin (h : m.Steady now) (hnone : m.call = none) (hle : now ≤ r) :
    (m.callBegin r).Steady r := by
  have hstarted := h.started_le
  have hcalled := h.called_le
  rw [hnone] at hstarted hcalled
  simp only [Option.getD_none] at hstarted hcalled
  refine ⟨h.started_pos, hstarted.trans hle, ?_⟩
  show m.called.card ≤ m.ran.card + (r - m.started)
  omega

theorem Steady.callEnd {before : Nat} (h : m.Steady now) (hcall : m.call = some before)
    (hle : before ≤ r) (replaced : Bool) : (m.callEnd replaced before r).Steady r := by
  have hstarted := h.started_le
  have hcalled := h.called_le
  rw [hcall] at hstarted hcalled
  simp only [Option.getD_some] at hstarted hcalled
  refine ⟨h.started_pos, hstarted.trans hle, ?_⟩
  rw [Measures.card_callEnd]
  show _ ≤ m.ran.card + (r - m.started)
  split <;> omega

/-! ## A safe end, told by the meter -/

/-- What is in one collection and not in the other, counted. -/
theorem covered_iff : m.Covered ↔ m.called.card ≤ m.time := by
  have hcalled := congrArg Multiset.card (Multiset.sub_add_inter m.called m.ran)
  have hran := congrArg Multiset.card (Multiset.sub_add_inter m.ran m.called)
  rw [Multiset.inter_comm m.ran m.called] at hran
  rw [Multiset.card_add] at hcalled hran
  have hdiv := Nat.div_add_mod m.ran.card (2 ^ 64)
  rw [Covered, time, wrap]
  omega

end Meter

namespace Predictor

variable {p : Predictor} {l : PredictorLocal} {index acc : Nat}

theorem threadEnd_isSome_iff : (p.threadEnd index l).isSome ↔
    (index ≠ 0 → wrap 64 (p.threadCycle index + l.outsideCycle) ≠ 0) := by
  simp only [threadEnd, addThread, Function.update_self]
  by_cases hmain : index = 0
  · simp [hmain]
  · by_cases hzero : wrap 64 (p.threadCycle index + l.outsideCycle) = 0
    · simp [hmain, hzero]
    · simp only [hmain, hzero, if_false]
      split <;> simp [hzero]

variable {m : Meter} {now : Nat}

theorem total_le_iff (h : m.Measures now l) :
    l.totalFunctionCycles ≤ l.outsideCycle ↔ m.Covered := by
  rw [h.total, h.outside, Meter.covered_iff]

/-- Past `2 ^ 64` the sum comes back by as much. -/
theorem subtracts_iff (h : m.Measures now l) (hacc : acc < 2 ^ 64)
    (hle : l.totalFunctionCycles ≤ l.outsideCycle) : l.Subtracts acc ↔ m.CarryStays acc := by
  have htime : m.time < 2 ^ 64 := wrap_lt ..
  rw [h.total, h.outside] at hle
  rw [PredictorLocal.Subtracts, Meter.CarryStays, h.total, h.outside]
  by_cases hsum : acc + m.time < 2 ^ 64
  · rw [wrap_of_lt hsum]
    exact iff_of_true (by omega) (.inl hsum)
  · have hwrap : wrap 64 (acc + m.time) = acc + m.time - 2 ^ 64 := by
      rw [wrap, Nat.mod_eq_sub_mod (by omega), Nat.mod_eq_of_lt (by omega)]
    rw [hwrap]
    omega

theorem threadEndSafe_iff (h : m.Measures now l) (hempty : p.EmptySlots index) :
    p.ThreadEndSafe index l ↔ m.EndsThread index := by
  have htime : m.time < 2 ^ 64 := wrap_lt ..
  have hdivisor : wrap 64 (p.threadCycle index + l.outsideCycle) = m.time := by
    rw [hempty.1, h.outside, Nat.zero_add, wrap_of_lt htime]
  have hzero : m.time = 0 ↔ 2 ^ 64 ∣ m.ran.card := (Nat.dvd_iff_mod_eq_zero ..).symm
  have hsome : (p.threadEnd index l).isSome ↔ (index ≠ 0 → ¬ 2 ^ 64 ∣ m.ran.card) := by
    rw [threadEnd_isSome_iff, hdivisor]
    exact forall_congr' fun _ => not_congr hzero
  rw [ThreadEndSafe, Meter.EndsThread, hsome, hempty.2, total_le_iff h]
  constructor
  · rintro ⟨hcov, -, hsome⟩
    exact ⟨hcov, hsome⟩
  · rintro ⟨hcov, hsome⟩
    refine ⟨hcov, ?_, hsome⟩
    rw [subtracts_iff h (by decide) ((total_le_iff h).mpr hcov)]
    exact .inl (by omega)

theorem stopSerialSafe_iff (h : m.Measures now l) (hfit : p.TotalsFit) :
    p.StopSerialSafe l ↔ m.EndsStage p := by
  rw [StopSerialSafe, Meter.EndsStage, ← total_le_iff h]
  refine and_congr_right fun hle => ?_
  rw [subtracts_iff h hfit.1 hle, subtracts_iff h hfit.2 hle]

end Predictor

/-! ## What undisturbed calls need -/

namespace Meter

variable {m : Meter}

theorem time_of_lt (h : m.ran.card < 2 ^ 64) : m.time = m.ran.card := wrap_of_lt h

theorem endsThread_of_fits {index : Nat} (hle : m.called.card ≤ m.ran.card)
    (hfits : m.FitsThread index) : m.EndsThread index := by
  refine ⟨?_, fun hindex => Nat.not_dvd_of_pos_of_lt (hfits.2 hindex) hfits.1⟩
  rw [covered_iff, time_of_lt hfits.1]
  exact hle

theorem endsStage_of_fits {p : Predictor} (hle : m.called.card ≤ m.ran.card)
    (hfits : m.FitsStage p) : m.EndsStage p := by
  have hran : m.ran.card < 2 ^ 64 := (Nat.le_add_left ..).trans_lt hfits.1
  rw [EndsStage, CarryStays, CarryStays, covered_iff, time_of_lt hran]
  exact ⟨hle, .inl hfits.1, .inl hfits.2⟩

end Meter

/-! ## Both over a thread's events -/

namespace Meter

variable {m : Meter} {now r : Nat} {l : PredictorLocal} {calm : Prop}

/-- The meter shows the thread's times and, in a run of undisturbed
calls, that these are covered. -/
structure Shows (calm : Prop) (m : Meter) (now : Nat) (l : PredictorLocal) : Prop where
  measures : m.Measures now l
  steady : calm → m.Steady now

theorem Shows.mono (h : Shows calm m now l) (hle : now ≤ r) : Shows calm m r l :=
  ⟨h.measures.mono hle, fun hcalm => (h.steady hcalm).mono hle⟩

/-- Events that stop the clock, where a call may not be in progress, and
end with its start. -/
theorem Shows.restart {events : List ClockEvent} {stop : Nat} (h : Shows calm m now l)
    (hcall : calm → m.call = none) (hpos : calm → 0 < now)
    (hclock : ClockRuns now (readings (.stop stop :: (events ++ [.start r])))) :
    Shows calm (m.clocks (.stop stop :: (events ++ [.start r]))) r
      (l.clocks (.stop stop :: (events ++ [.start r]))) := by
  have hle : now ≤ r := by
    have hlast := hclock.le_last
    rwa [← List.cons_append, last_start] at hlast
  have hstop : now ≤ stop := (clockRuns_cons.mp hclock).1
  refine ⟨(h.measures.clocks _).mono hle, fun hcalm => ?_⟩
  have hnone := hcall hcalm
  have hcalled := called_le_clocks
    ((h.steady hcalm).stop (r := stop) (by rw [hnone]; exact hstop)) events
  rw [clocks_cons, clocks_append]
  exact steady_start hcalled (by rw [clocks_call, clock_call, hnone])
    ((hpos hcalm).trans_le hle)

/-- A thread that starts: its counters are cleared, and its clock starts. -/
theorem shows_start {start : ClockStart} (hstart : l.outsideStartCycle = 0)
    (hpos : calm → 0 < now) (hclock : ClockRuns now (readings (.clear :: start.events))) :
    Shows calm (clocks {} (.clear :: start.events)) start.reading
      (l.clocks (.clear :: start.events)) := by
  have hle : now ≤ start.reading := by
    have hlast := hclock.le_last
    rwa [readings_clear, ClockStart.last_reading] at hlast
  have hclear : (clock {} .clear).Measures now l.threadInit :=
    Measures.clear hstart.symm le_rfl
  refine ⟨(hclear.clocks start.events).mono hle, fun hcalm => ?_⟩
  have hcalled := called_le_clocks (m := {}) le_rfl (.clear :: signalEvents start.signals)
  rw [ClockStart.events, ← List.cons_append, clocks_append]
  exact steady_start hcalled (clocks_call ..) ((hpos hcalm).trans_le hle)

/-- The events of a stage change. -/
theorem Shows.stage {stop : ClockStop} {ended : List (Nat × Nat)} {start : ClockStart}
    (h : Shows calm m now l) (hcall : calm → m.call = none) (hpos : calm → 0 < now)
    (hclock : ClockRuns now
      (readings (stop.events ++ signalEvents ended ++ .clear :: start.events))) :
    Shows calm (m.clocks (stop.events ++ signalEvents ended ++ .clear :: start.events))
      ((readings (stop.events ++ signalEvents ended ++ .clear :: start.events)).getLastD now)
      (l.clocks (stop.events ++ signalEvents ended ++ .clear :: start.events)) := by
  have hevents : stop.events ++ signalEvents ended ++ .clear :: start.events
      = .stop stop.reading :: (signalEvents stop.signals ++ signalEvents ended
        ++ .clear :: signalEvents start.signals ++ [.start start.reading]) := by
    simp [ClockStop.events, ClockStart.events]
  rw [hevents] at hclock ⊢
  have hlast : (readings (.stop stop.reading :: (signalEvents stop.signals ++ signalEvents ended
      ++ .clear :: signalEvents start.signals ++ [.start start.reading]))).getLastD now
      = start.reading := by
    rw [← List.cons_append, last_start]
  rw [hlast]
  exact h.restart hcall hpos hclock

end Meter

/-! ## Runs -/

namespace Metered

variable {w w' : Metered} {t : Tid} {e : Event} {p' : Process} {m m' : Meter} {now r : Nat}
  {l : PredictorLocal} {calm : Prop}

/-- The meters of the live threads show their times. -/
structure Exact (calm : Prop) (w : Metered) : Prop where
  slots : w.process.OwnSlots
  fit : w.process.predictor.TotalsFit
  unstarted : w.process.AllThreads Thread.Unstarted
  now_lt : w.now < 2 ^ 64
  now_pos : calm → 0 < w.now
  times : ∀ t th, w.process.thread? t = some th → th.pc.Live →
    (w.meters t).Shows calm w.now th.predictor

/-- An event of thread `t` leaves the other threads' times and meters. -/
theorem Exact.moved (hw : w.Exact calm) (hclock : w.ClockRuns e) (hslots : p'.OwnSlots)
    (hfit : p'.predictor.TotalsFit) (hunstarted : p'.AllThreads Thread.Unstarted)
    (hother : ∀ t', t ≠ t' → w.process.KeepsTimes p' t')
    (hown : ∀ th', p'.thread? t = some th' → th'.pc.Live →
      m'.Shows calm ((w.eventReadings e).getLastD w.now) th'.predictor) :
    Exact calm { process := p', now := (w.eventReadings e).getLastD w.now,
                 meters := Function.update w.meters t m' } := by
  have hle := hclock.le_last
  refine ⟨hslots, hfit, hunstarted, hclock.last_lt hw.now_lt,
    fun hcalm => (hw.now_pos hcalm).trans_le hle, fun t' th' hth' hlive' => ?_⟩
  by_cases hne : t = t'
  · subst hne
    simpa using hown th' hth' hlive'
  · obtain ⟨th, hth, hlive, -, hsame⟩ := hother t' hne th' hth' hlive'
    have hmeter : Function.update w.meters t m' t' = w.meters t' :=
      Function.update_of_ne (Ne.symm hne) ..
    show (Function.update w.meters t m' t').Shows calm _ _
    rw [hmeter, hsame]
    exact (hw.times t' th hth hlive).mono hle

theorem moves_process {a : Process.Action} (h : w.moves t (.process a) = some (p', m')) :
    (∀ type before after, a ≠ .call type before after) ∧ w.process.step (t, a) = some p' ∧
      m' = w.process.meter (w.meters t) a := by
  cases a with
  | call type before after => cases h
  | createAdd | createTest _ _ | createReal | startThread _ | threadExit _ | joinReal _ | joinSub
  | joinTest _ _ _ | exitHandler _ =>
      obtain ⟨p, hp, heq⟩ := Option.map_eq_some_iff.mp h
      obtain ⟨rfl, rfl⟩ := Prod.mk.injEq .. |>.mp heq
      exact ⟨nofun, hp, rfl⟩

/-- What an action shows of the thread that takes it. -/
theorem Exact.own_process {a : Process.Action} {th th' : Thread} (hw : w.Exact calm)
    (hclock : w.ClockRuns (.process a)) (hcalm : calm → w.Calm t (.process a))
    (hstep : w.process.step (t, a) = some p') (hth : w.process.thread? t = some th)
    (hpredictor : th'.predictor = th.predictor.clocks (w.process.clockEvents a))
    (hth' : p'.thread? t = some th') (hlive' : th'.pc.Live) (hexit : p'.exited = false) :
    (w.process.meter (w.meters t) a).Shows calm
      ((w.eventReadings (.process a)).getLastD w.now) th'.predictor := by
  obtain ⟨-, th0, hth0, hpc, hact⟩ := Process.step_cases hstep
  obtain rfl : th = th0 := Option.some.inj (hth.symm.trans hth0)
  have htimes : (∀ start, a ≠ .startThread start) →
      (w.meters t).Shows calm w.now th.predictor := fun ha =>
    hw.times t th hth (hpc ▸ Process.Action.live_pc ha)
  have hquiet : w.process.clockEvents a = [] → (∀ start, a ≠ .startThread start) →
      ((w.meters t).clocks (w.process.clockEvents a)).Shows calm
        ((w.eventReadings (.process a)).getLastD w.now) th'.predictor := fun hevents ha => by
    rw [hpredictor, eventReadings, hevents]
    exact htimes ha
  cases a with
  | createAdd | createReal | call _ _ _ | joinReal _ | joinSub => exact hquiet rfl (by simp)
  | createTest stop start =>
      by_cases htwo : w.process.fromSerialToParallel
      · have hevents : w.process.clockEvents (.createTest stop start)
            = stop.events ++ signalEvents [] ++ .clear :: start.events := by
          simp [Process.clockEvents, htwo]
        rw [ClockRuns, eventReadings, hevents] at hclock
        rw [hpredictor, eventReadings, Process.meter, hevents]
        · exact (htimes (by simp)).stage (fun h => hcalm h htwo) hw.now_pos hclock
        · simp
      · exact hquiet (by simp [Process.clockEvents, htwo]) (by simp)
  | joinTest stop ended start =>
      by_cases hone : w.process.fromParallelToSerial
      · have hevents : w.process.clockEvents (.joinTest stop ended start)
            = stop.events ++ signalEvents ended ++ .clear :: start.events := by
          simp [Process.clockEvents, hone]
        rw [ClockRuns, eventReadings, hevents] at hclock
        rw [hpredictor, eventReadings, Process.meter, hevents]
        · exact (htimes (by simp)).stage (fun h => hcalm h hone) hw.now_pos hclock
        · simp
      · exact hquiet (by simp [Process.clockEvents, hone]) (by simp)
  | startThread start =>
      have hunread : th.predictor.outsideStartCycle = 0 := hw.unstarted.of_thread hth hpc
      have hlast : (w.eventReadings (.process (.startThread start))).getLastD w.now
          = start.reading := start.last_reading w.now
      rw [hpredictor, hlast]
      exact Meter.shows_start hunread hw.now_pos hclock
  | threadExit stop =>
      -- the thread is gone
      simp only [Process.act] at hact
      split at hact
      · cases hact
      · obtain ⟨predictor, -, rfl⟩ := Process.threadExit_cases hact
        rw [Process.thread?_setThread_self hth'] at hlive'
        exact absurd rfl hlive'.2
  | exitHandler stop =>
      cases hact
      cases hexit

theorem Exact.process_step {a : Process.Action} (hw : w.Exact calm)
    (hclock : w.ClockRuns (.process a)) (hcalm : calm → w.Calm t (.process a))
    (h : w.moves t (.process a) = some (p', m')) (hexit : p'.exited = false) :
    Exact calm { process := p', now := (w.eventReadings (.process a)).getLastD w.now,
                 meters := Function.update w.meters t m' } := by
  obtain ⟨hcall, hstep, rfl⟩ := moves_process h
  obtain ⟨-, th, hth, -, -⟩ := Process.step_cases hstep
  have heffect := Process.step_effect hstep hth hcall hexit
  have hfit : p'.predictor.TotalsFit := by
    cases heffect with
    | quiet kept predictor total => exact predictor ▸ hw.fit
    | stage live own total cleared others fit => exact fit
    | start own total predictor => exact predictor ▸ hw.fit
    | ends live own total others fit => exact fit hw.fit
  refine hw.moved hclock (hw.slots.step hstep hth heffect) hfit
    (Process.step_unstarted hstep hw.unstarted)
    (fun t' hne => Process.step_keepsTimes hstep hne) fun th' hth' hlive' => ?_
  exact hw.own_process hclock hcalm hstep hth (Process.step_clocks hstep hth hcall hth') hth'
    hlive' hexit

/-- A live thread whose own times change and nothing else. -/
theorem Exact.own_step {th : Thread} {l : PredictorLocal} (hw : w.Exact calm)
    (hclock : w.ClockRuns e) (hth : w.process.thread? t = some th) (hlive : th.pc.Live)
    (htimes : m'.Shows calm ((w.eventReadings e).getLastD w.now) l) :
    Exact calm { process := w.process.setThread t { th with predictor := l },
                 now := (w.eventReadings e).getLastD w.now,
                 meters := Function.update w.meters t m' } := by
  have hother : ∀ t', t ≠ t' →
      w.process.KeepsTimes (w.process.setThread t { th with predictor := l }) t' :=
    fun t' hne => .of_eq (Process.thread_setThread_of_ne hne)
  refine hw.moved hclock ?_ (by simpa using hw.fit) ?_ hother fun th' hth' _ => ?_
  · refine hw.slots.kept (fun t' => ?_) (by simp) fun i _ hi => by simpa using hi
    by_cases hne : t = t'
    · subst hne
      intro th' hth' _
      rw [Process.thread?_setThread_self hth']
      exact ⟨th, hth, hlive, rfl⟩
    · exact (hother t' hne).thread
  · exact hw.unstarted.setThread fun hcreated => absurd hcreated hlive.1
  · rw [Process.thread?_setThread_self hth']
    exact htimes

theorem Exact.step (hw : w.Exact calm) (hclock : w.ClockRuns e) (hcalm : calm → w.Calm t e)
    (h : w.step (t, e) = some w') (hexit : w'.process.exited = false) : w'.Exact calm := by
  obtain ⟨⟨p', m'⟩, hmoves, rfl⟩ := Option.map_eq_some_iff.mp h
  cases e with
  | process a => exact hw.process_step hclock hcalm hmoves hexit
  | callBegin before =>
      simp only [moves] at hmoves
      split at hmoves
      · next hcan =>
          obtain ⟨rfl, rfl⟩ := Prod.mk.injEq .. |>.mp (Option.some.inj hmoves)
          obtain ⟨hle, -⟩ := clockRuns_cons.mp hclock
          refine hw.moved hclock hw.slots hw.fit hw.unstarted (fun _ _ => .of_eq rfl)
            fun th' hth' hlive' => ?_
          have htimes := hw.times t th' hth' hlive'
          exact ⟨htimes.measures.callBegin hcan.2 hle,
            fun h => (htimes.steady h).callBegin hcan.2 hle⟩
      · cases hmoves
  | callEnd type after =>
      simp only [moves] at hmoves
      split at hmoves
      · next th before hth hcall =>
          obtain ⟨-, hth, hlive⟩ := Process.live?_cases hth
          obtain ⟨p1, hact, heq⟩ := Option.map_eq_some_iff.mp hmoves
          obtain ⟨rfl, rfl⟩ := Prod.mk.injEq .. |>.mp heq
          obtain ⟨hle, hlt, -⟩ := clockRuns_cons.mp hclock
          have htimes := hw.times t th hth hlive
          have hbefore := htimes.measures.call_le
          rw [hcall] at hbefore
          simp only [Process.act] at hact
          split at hact
          · cases hact
            exact hw.own_step hclock hth hlive ⟨htimes.measures.callEnd hcall hle hlt,
              fun h => (htimes.steady h).callEnd hcall (hbefore.trans hle) _⟩
          · cases hact
      · cases hmoves
  | sample stop start =>
      obtain ⟨th, hth, heq⟩ := Option.map_eq_some_iff.mp hmoves
      obtain ⟨-, hth, hlive⟩ := Process.live?_cases hth
      obtain ⟨rfl, rfl⟩ := Prod.mk.injEq .. |>.mp heq
      have hrestart : ((w.meters t).clocks (.stop stop :: ([] ++ [.start start]))).Shows calm start
          (th.predictor.clocks (.stop stop :: ([] ++ [.start start]))) :=
        (hw.times t th hth hlive).restart hcalm hw.now_pos hclock
      exact hw.own_step hclock hth hlive hrestart

theorem step_live (h : w.step (t, e) = some w') : w.process.exited = false := by
  obtain ⟨⟨p', m'⟩, hmoves, rfl⟩ := Option.map_eq_some_iff.mp h
  cases e with
  | process a => exact (Process.step_cases (moves_process hmoves).2.1).1
  | callBegin before =>
      simp only [moves] at hmoves
      split at hmoves
      · next hcan =>
          obtain ⟨th, hth⟩ := Option.isSome_iff_exists.mp hcan.1
          exact (Process.live?_cases hth).1
      · cases hmoves
  | callEnd type after =>
      simp only [moves] at hmoves
      split at hmoves
      · next th before hth _ => exact (Process.live?_cases hth).1
      · cases hmoves
  | sample stop start =>
      obtain ⟨th, hth, -⟩ := Option.map_eq_some_iff.mp hmoves
      exact (Process.live?_cases hth).1

theorem exact_initial (info : PredictorInfo) {now : Nat} (hnow : now < 2 ^ 64)
    (hpos : calm → 0 < now) : (initial info now).Exact calm := by
  have hmain : ∀ t th, (initial info now).process.thread? t = some th →
      t = .main ∧ th = (Process.initial info now).main := by
    intro t th hth
    cases t with
    | main => exact ⟨rfl, (Option.some.inj hth).symm⟩
    | child n => cases hth
  refine ⟨⟨fun t th hth _ => ?_, fun t t' th th' hth hth' _ _ _ => ?_, fun t th hth _ => ⟨rfl, rfl⟩,
    fun i _ => ⟨rfl, rfl⟩⟩, ⟨Nat.two_pow_pos 64, Nat.two_pow_pos 64⟩,
    ⟨fun hcreated => (by cases hcreated), fun _ h => (List.not_mem_nil h).elim⟩, hnow, hpos,
    fun t th hth _ => ?_⟩
  · obtain ⟨-, rfl⟩ := hmain t th hth
    exact Nat.zero_lt_one
  · exact (hmain t th hth).1.trans (hmain t' th' hth').1.symm
  · obtain ⟨rfl, rfl⟩ := hmain t th hth
    have hclock : MemPerf.ClockRuns now
        (readings (.clear :: ClockStart.events { reading := now })) :=
      clockRuns_cons.mpr ⟨le_rfl, hnow, clockRuns_nil _⟩
    have hunread : ({} : PredictorLocal).outsideStartCycle = 0 := rfl
    exact Meter.shows_start hunread hpos hclock

theorem Runs.exact {info : PredictorInfo} {now : Nat} {past : List (Tid × Event)}
    (h : Runs info now past w) (hnow : now < 2 ^ 64) (hexit : w.process.exited = false) :
    w.Exact False :=
  h.invariant (fun w => w.process.exited = false → w.Exact False)
    (fun _ => exact_initial info hnow False.elim)
    (fun _ _ _ _ hw hclock hstep hexit =>
      (hw (step_live hstep)).step hclock False.elim hstep hexit) hexit

theorem CalmRuns.exact {info : PredictorInfo} {now : Nat} {past : List (Tid × Event)}
    (h : CalmRuns info now past w) (hnow : now < 2 ^ 64) (hpos : 0 < now)
    (hexit : w.process.exited = false) : w.Exact True :=
  h.invariant (fun w => w.process.exited = false → w.Exact True)
    (fun _ => exact_initial info hnow fun _ => hpos)
    (fun _ _ _ _ hw hg hstep hexit =>
      (hw (step_live hstep)).step hg.1 (fun _ => hg.2) hstep hexit) hexit

/-- What the thread may do next is safe exactly if its meter says so. -/
theorem Exact.safeAt_iff {th : Thread} {a : Process.Action} (hw : w.Exact calm)
    (hth : w.process.thread? t = some th) (hpc : th.pc = a.pc) :
    w.process.SafeAt th a ↔ w.process.MeteredAt th (w.meters t) a := by
  have hends : (∀ start, a ≠ .startThread start) → ∀ stop : ClockStop,
      (w.process.predictor.ThreadEndSafe th.runningThreadIndex (th.predictor.stopClock stop) ↔
        ((w.meters t).clocks stop.events).EndsThread th.runningThreadIndex) ∧
      (w.process.predictor.StopSerialSafe (th.predictor.stopClock stop) ↔
        ((w.meters t).clocks stop.events).EndsStage w.process.predictor) := fun ha stop => by
    have hlive : th.pc.Live := hpc ▸ Process.Action.live_pc ha
    have hstopped := (hw.times t th hth hlive).measures.stopClock stop
    exact ⟨Predictor.threadEndSafe_iff hstopped (hw.slots.empty t th hth hlive),
      Predictor.stopSerialSafe_iff hstopped hw.fit⟩
  cases a with
  | createAdd | createReal | startThread _ | call _ _ _ | joinReal _ | joinSub => exact Iff.rfl
  | threadExit stop => exact (hends (by simp) stop).1
  | exitHandler stop => exact (hends (by simp) stop).2
  | createTest stop start => exact forall_congr' fun _ => (hends (by simp) stop).2
  | joinTest stop ended start => exact forall_congr' fun _ => (hends (by simp) stop).1

/-- Undisturbed calls are covered when the clock has stopped. -/
theorem Exact.metered_of_calm {th : Thread} {a : Process.Action} (hw : w.Exact True)
    (hclock : w.ClockRuns (.process a)) (hth : w.process.thread? t = some th)
    (hpc : th.pc = a.pc) (hfits : w.process.FitsAt th (w.meters t) a) :
    w.process.MeteredAt th (w.meters t) a := by
  have hcalled : (∀ start, a ≠ .startThread start) → ∀ stop : ClockStop, w.now ≤ stop.reading →
      ((w.meters t).clocks stop.events).called.card
        ≤ ((w.meters t).clocks stop.events).ran.card := fun ha stop hle => by
    have htimes := hw.times t th hth (hpc ▸ Process.Action.live_pc ha)
    have hsteady := (htimes.steady trivial).stop (htimes.measures.call_le.trans hle)
    exact Meter.called_le_clocks hsteady _
  cases a with
  | createAdd | createReal | startThread _ | call _ _ _ | joinReal _ | joinSub => exact trivial
  | threadExit stop =>
      obtain ⟨hle, -⟩ := clockRuns_cons.mp hclock
      exact Meter.endsThread_of_fits (hcalled (by simp) stop hle) hfits
  | exitHandler stop =>
      obtain ⟨hle, -⟩ := clockRuns_cons.mp hclock
      exact Meter.endsStage_of_fits (hcalled (by simp) stop hle) hfits
  | createTest stop start =>
      intro htwo
      rw [ClockRuns, eventReadings, Process.clockEvents, if_pos htwo] at hclock
      obtain ⟨hle, -⟩ := clockRuns_cons.mp hclock
      exact Meter.endsStage_of_fits (hcalled (by simp) stop hle) (hfits htwo)
  | joinTest stop ended start =>
      intro hone
      rw [ClockRuns, eventReadings, Process.clockEvents, if_pos hone] at hclock
      obtain ⟨hle, -⟩ := clockRuns_cons.mp hclock
      exact Meter.endsThread_of_fits (hcalled (by simp) stop hle) (hfits hone)

/-- Fixed events, and what is seen of a thread after them. -/
theorem reaches {info : PredictorInfo} {now : Nat} {events : List (Tid × Event)} {β : Type}
    {see : Metered → Thread → β} {seen : β}
    (h : ((events.foldlM checked (initial info now)).map fun w =>
      (w.process.exited, decide (w.ClockRuns e), (w.process.thread? t).map (see w)))
      = some (false, true, some seen)) :
    ∃ w th, Runs info now events w ∧ w.process.exited = false ∧ w.ClockRuns e ∧
      w.process.thread? t = some th ∧ see w th = seen := by
  obtain ⟨w, hw, hvals⟩ := Option.map_eq_some_iff.mp h
  simp only [Prod.mk.injEq] at hvals
  obtain ⟨hexit, hclock, hthread⟩ := hvals
  obtain ⟨th, hth, hseen⟩ := Option.map_eq_some_iff.mp hthread
  exact ⟨w, th, Run.ofChecked hw, hexit, of_decide_eq_true hclock, hth, hseen⟩

end Metered

/-- **The predictor's arithmetic is safe exactly if the meters say so**:
after every run, for every action a thread may take next. In a run in
which no signal and no stage change falls into a tracked call the meters
say so whenever the words are wide enough and a thread that ends has run. -/
theorem predictor_arithmetic_iff {info : PredictorInfo} {now : Nat} (hnow : now < 2 ^ 64) :
    (∀ past w t th a, Metered.Runs info now past w → w.process.exited = false →
      w.process.thread? t = some th → th.pc = a.pc →
      (w.process.SafeAt th a ↔ w.process.MeteredAt th (w.meters t) a)) ∧
    (0 < now → ∀ past w t th a, Metered.CalmRuns info now past w → w.process.exited = false →
      w.process.thread? t = some th → th.pc = a.pc → w.ClockRuns (.process a) →
      w.process.FitsAt th (w.meters t) a → w.process.SafeAt th a) := by
  constructor
  · intro past w t th a hrun hexit hth hpc
    exact (Metered.Runs.exact hrun hnow hexit).safeAt_iff hth hpc
  · intro hpos past w t th a hrun hexit hth hpc hclock hfits
    have hexact := Metered.CalmRuns.exact hrun hnow hpos hexit
    exact (hexact.safeAt_iff hth hpc).mpr (hexact.metered_of_calm hclock hth hpc hfits)

/-- A child whose clock pauses for 20 cycles in a call of 100 and runs
for 90 in all may not end, but does no harm if a signal behind its last
`outsideCyclesStop` adds another 81. One that has a signal before its call
and one after it may. -/
theorem predictor_arithmetic_iff_pauses :
    ∃ info, (∃ past w th, Metered.Runs info 1000 past w ∧
        w.process.thread? (.child 0) = some th ∧ ¬ w.process.SafeAt th (.threadExit 1310) ∧
        w.process.SafeAt th (.threadExit { reading := 1310, signals := [(1321, 1322)] })) ∧
      ∃ past w th, Metered.CalmRuns info 1000 past w ∧
        w.process.thread? (.child 0) = some th ∧ w.process.SafeAt th (.threadExit 1310) := by
  let info : PredictorInfo := { replacedFunctionCycles := fun type => if type = 0 then 7 else 0 }
  let start : List (Tid × Metered.Event) :=
    [(.main, .process .createAdd), (.main, .process (.createTest 1100 1101)),
      (.main, .process .createReal), (.child 0, .process (.startThread 1200))]
  let late : ClockStop := { reading := 1310, signals := [(1321, 1322)] }
  refine ⟨info, ?_, ?_⟩
  · let events := start ++ [(.child 0, .callBegin 1210), (.child 0, .sample 1220 1240),
      (.child 0, .callEnd 0 1310)]
    have hend : ((events.foldlM Metered.checked (Metered.initial info 1000)).map fun w =>
        (w.process.exited, decide (w.ClockRuns (.process (.threadExit 1310))),
          (w.process.thread? (.child 0)).map fun th =>
            (th.pc, decide (((w.meters (.child 0)).clocks (ClockStop.events 1310)).EndsThread
                th.runningThreadIndex),
              decide (((w.meters (.child 0)).clocks late.events).EndsThread
                th.runningThreadIndex))))
        = some (false, true, some (.running, false, true)) := by
      decide +kernel
    obtain ⟨w, th, hrun, hexit, -, hth, hseen⟩ := Metered.reaches hend
    simp only [Prod.mk.injEq] at hseen
    refine ⟨events, w, th, hrun, hth, fun h => ?_, ?_⟩
    · exact of_decide_eq_false hseen.2.1
        (((predictor_arithmetic_iff (by decide)).1 events w (.child 0) th (.threadExit 1310) hrun
          hexit hth hseen.1).mp h)
    · have hends : ((w.meters (.child 0)).clocks late.events).EndsThread th.runningThreadIndex :=
        of_decide_eq_true hseen.2.2
      exact ((predictor_arithmetic_iff (by decide)).1 events w (.child 0) th (.threadExit late) hrun
        hexit hth hseen.1).mpr hends
  · let events := start ++ [(.child 0, .sample 1205 1206), (.child 0, .callBegin 1210),
      (.child 0, .callEnd 0 1230), (.child 0, .sample 1231 1240)]
    have hend : ((events.foldlM Metered.calmChecked (Metered.initial info 1000)).map fun w =>
        (w.process.exited, decide (w.ClockRuns (.process (.threadExit 1310))),
          (w.process.thread? (.child 0)).map fun th =>
            (th.pc, decide (((w.meters (.child 0)).clocks (ClockStop.events 1310)).FitsThread
              th.runningThreadIndex))))
        = some (false, true, some (.running, true)) := by
      decide +kernel
    obtain ⟨w, hw, hvals⟩ := Option.map_eq_some_iff.mp hend
    simp only [Prod.mk.injEq] at hvals
    obtain ⟨hexit, hclock, hthread⟩ := hvals
    obtain ⟨th, hth, hseen⟩ := Option.map_eq_some_iff.mp hthread
    simp only [Prod.mk.injEq] at hseen
    have hrun : Metered.CalmRuns info 1000 events w := Run.ofChecked hw
    have hfits : ((w.meters (.child 0)).clocks (ClockStop.events 1310)).FitsThread
        th.runningThreadIndex := of_decide_eq_true hseen.2
    exact ⟨events, w, th, hrun, hth,
      (predictor_arithmetic_iff (by decide)).2 (by decide) events w (.child 0) th
        (.threadExit 1310) hrun hexit hth hseen.1 (of_decide_eq_true hclock) hfits⟩

/-- Otherwise it fails. A thread that ends at the reading it started at
divides by zero; a signal at 110 that takes until 150, in a call from 100
to 160, leaves 20 cycles of the clock against 60 of the call; and a stage
that changes inside a call leaves 15 against 60, without any signal. -/
theorem predictor_arithmetic_fails :
    ¬ (∀ info now past w t th stop, now < 2 ^ 64 → Metered.Runs info now past w →
      w.process.exited = false → w.process.thread? t = some th → th.pc = .running →
      w.ClockRuns (.process (.threadExit stop)) →
      (w.process.predictor.threadEnd th.runningThreadIndex
        (th.predictor.stopClock stop)).isSome) ∧
    ¬ (∀ info now past w t th stop, now < 2 ^ 64 → Metered.Runs info now past w →
      w.process.exited = false → w.process.thread? t = some th → th.pc = .running →
      w.ClockRuns (.process (.threadExit stop)) →
      th.predictor.totalFunctionCycles ≤ (th.predictor.stopClock stop).outsideCycle) ∧
    ¬ (∀ info now past w t th stop, now < 2 ^ 64 → Metered.Runs info now past w →
      w.process.exited = false → w.process.thread? t = some th → th.pc = .running →
      w.ClockRuns (.process (.exitHandler stop)) → (∀ stop start, (t, .sample stop start) ∉ past) →
      th.predictor.totalFunctionCycles ≤ (th.predictor.stopClock stop).outsideCycle) := by
  let info : PredictorInfo := { replacedFunctionCycles := fun type => if type = 0 then 7 else 0 }
  refine ⟨fun hclaim => ?_, fun hclaim => ?_, fun hclaim => ?_⟩
  · let events : List (Tid × Metered.Event) :=
      [(.main, .process .createAdd), (.main, .process (.createTest 20 30)),
        (.main, .process .createReal), (.child 0, .process (.startThread 100))]
    have hend : ((events.foldlM Metered.checked (Metered.initial info 10)).map fun w =>
        (w.process.exited, decide (w.ClockRuns (.process (.threadExit 100))),
          (w.process.thread? (.child 0)).map fun th =>
            (th.pc, (w.process.predictor.threadEnd th.runningThreadIndex
              (th.predictor.stopClock 100)).isSome)))
        = some (false, true, some (.running, false)) := by
      decide +kernel
    obtain ⟨w, th, hrun, hexit, hclock, hth, hseen⟩ := Metered.reaches hend
    simp only [Prod.mk.injEq] at hseen
    have habs := hclaim info 10 events w (.child 0) th 100 (by decide) hrun hexit hth
      hseen.1 hclock
    rw [hseen.2] at habs
    cases habs
  · let events : List (Tid × Metered.Event) :=
      [(.main, .process .createAdd), (.main, .process (.createTest 20 30)),
        (.main, .process .createReal), (.child 0, .process (.startThread 100)),
        (.child 0, .callBegin 100), (.child 0, .sample 110 150), (.child 0, .callEnd 0 160)]
    have hend : ((events.foldlM Metered.checked (Metered.initial info 10)).map fun w =>
        (w.process.exited, decide (w.ClockRuns (.process (.threadExit 160))),
          (w.process.thread? (.child 0)).map fun th =>
            (th.pc, th.predictor.totalFunctionCycles,
              (th.predictor.stopClock 160).outsideCycle)))
        = some (false, true, some (.running, 60, 20)) := by
      decide +kernel
    obtain ⟨w, th, hrun, hexit, hclock, hth, hseen⟩ := Metered.reaches hend
    simp only [Prod.mk.injEq] at hseen
    have habs := hclaim info 10 events w (.child 0) th 160 (by decide) hrun hexit hth
      hseen.1 hclock
    rw [hseen.2.1, hseen.2.2] at habs
    exact absurd habs (by decide)
  · let events : List (Tid × Metered.Event) :=
      [(.main, .callBegin 110), (.main, .process .createAdd),
        (.main, .process (.createTest 150 160)), (.main, .process .createReal),
        (.main, .callEnd 0 170)]
    have hend : ((events.foldlM Metered.checked (Metered.initial info 100)).map fun w =>
        (w.process.exited, decide (w.ClockRuns (.process (.exitHandler 175))),
          (w.process.thread? .main).map fun th =>
            (th.pc, th.predictor.totalFunctionCycles,
              (th.predictor.stopClock 175).outsideCycle)))
        = some (false, true, some (.running, 60, 15)) := by
      decide +kernel
    obtain ⟨w, th, hrun, hexit, hclock, hth, hseen⟩ := Metered.reaches hend
    simp only [Prod.mk.injEq] at hseen
    have habs := hclaim info 100 events w .main th 175 (by decide) hrun hexit hth
      hseen.1 hclock (by simp [events])
    rw [hseen.2.1, hseen.2.2] at habs
    exact absurd habs (by decide)

end MemPerf
