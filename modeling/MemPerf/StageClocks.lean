import MemPerf.StageLedger

/-!
# The ledger books what the predictor adds up

Between two of its steps a thread's clock runs, or has never been
started. A signal then stops it, and the stretch goes to the ledger and
to `outsideCycle` alike; it cannot wrap, because all of a thread's
stretches since its stage began lie one behind the other.
-/

namespace MemPerf

open Word

/-! ## Bookings -/

theorem modify_length {α : Type*} (f : α → α) (done : List α) (x : α) (rest : List α) :
    (done ++ x :: rest).modify done.length f = done ++ f x :: rest := by
  induction done with
  | nil => rfl
  | cons y done ih => simp [ih]

theorem Interval.addMain_addMain (iv : Interval) (c c' : Nat) :
    (iv.addMain c).addMain c' = iv.addMain (c + c') := by
  simp [Interval.addMain, Nat.add_assoc]

namespace Ledger

variable {g : Ledger} {t t' : Tid} {cycles : Nat} {start : Option Nat}

/-- Cycles of thread `t`, whose stretch is then the one from `start`. -/
def booked (g : Ledger) (t : Tid) (cycles : Nat) (start : Option Nat) : Ledger :=
  (g.book t cycles).begins t start

@[simp] theorem booked_started : (g.booked t cycles start).started t = start :=
  Function.update_self ..

@[simp] theorem booked_unpaused : (g.booked t cycles start).unpaused t = g.unpaused t + cycles :=
  Function.update_self ..

@[simp] theorem booked_entered : (g.booked t cycles start).entered = g.entered := rfl

theorem booked_started_of_ne (h : t' ≠ t) :
    (g.booked t cycles start).started t' = g.started t' := Function.update_of_ne h ..

theorem booked_unpaused_of_ne (h : t' ≠ t) :
    (g.booked t cycles start).unpaused t' = g.unpaused t' := Function.update_of_ne h ..

@[simp] theorem booked_intervals_child (n : Nat) :
    (g.booked (.child n) cycles start).intervals = g.intervals := rfl

/-- The main thread's cycles go to the interval it is in. -/
theorem booked_intervals_main {done : List Interval} {running : Interval} {rest : List Interval}
    (hentered : g.entered = done.length) (h : g.intervals = done ++ running :: rest) :
    (g.booked .main cycles start).intervals = done ++ running.addMain cycles :: rest := by
  show g.intervals.modify g.entered _ = _
  rw [hentered, h]
  exact modify_length ..

theorem booked_zero (h : g.started t = start) : g.booked t 0 start = g := by
  have hmodify : g.intervals.modify g.entered (fun iv => iv.addMain 0) = g.intervals :=
    List.modify_id ..
  simp [booked, begins, book, hmodify, ← h]

theorem booked_booked (cycles' : Nat) (start' : Option Nat) :
    (g.booked t cycles start).booked t cycles' start' = g.booked t (cycles + cycles') start' := by
  have hmodify : (g.intervals.modify g.entered fun iv => iv.addMain cycles).modify g.entered
      (fun iv => iv.addMain cycles') = g.intervals.modify g.entered
        fun iv => iv.addMain (cycles + cycles') := by
    rw [List.modify_modify_eq]
    exact congrArg (g.intervals.modify g.entered) (funext fun iv => iv.addMain_addMain ..)
  by_cases hmain : t = .main
  · simp [booked, begins, book, hmain, hmodify, Nat.add_assoc]
  · simp [booked, begins, book, hmain, Nat.add_assoc]

theorem clock_start (g : Ledger) (t : Tid) (r : Nat) :
    g.clock t (.start r) = g.booked t 0 (some r) := by
  have hmodify : g.intervals.modify g.entered (fun iv => iv.addMain 0) = g.intervals :=
    List.modify_id ..
  simp [clock, booked, book, begins, hmodify]

theorem clock_stop (g : Ledger) (t : Tid) (r : Nat) :
    g.clock t (.stop r) = g.booked t (r - (g.started t).getD r) none := by
  cases h : g.started t with
  | none =>
      have hsame : g.booked t 0 none = g := booked_zero h
      simp [clock, h, hsame]
  | some r0 => simp [clock, h, booked]

@[simp] theorem clock_clear_started (g : Ledger) (t : Tid) :
    (g.clock t .clear).started = g.started := rfl

@[simp] theorem clock_clear_unpaused (g : Ledger) (t : Tid) :
    (g.clock t .clear).unpaused = g.unpaused := rfl

@[simp] theorem ends_started (g : Ledger) (t : Tid) : (g.ends t).started = g.started := rfl

@[simp] theorem ends_unpaused (g : Ledger) (t : Tid) : (g.ends t).unpaused = g.unpaused := rfl

@[simp] theorem clocks_nil (g : Ledger) (t : Tid) : g.clocks t [] = g := rfl

@[simp] theorem clocks_cons (g : Ledger) (t : Tid) (event : ClockEvent) (events : List ClockEvent) :
    g.clocks t (event :: events) = (g.clock t event).clocks t events := rfl

theorem clocks_append (g : Ledger) (t : Tid) (events events' : List ClockEvent) :
    g.clocks t (events ++ events') = (g.clocks t events).clocks t events' :=
  List.foldl_append

/-- Stops and starts book some time. -/
theorem clocks_booked {events : List ClockEvent} (h : ClockEvent.clear ∉ events) (g : Ledger) :
    ∃ cycles start, g.clocks t events = g.booked t cycles start := by
  induction events generalizing g with
  | nil => exact ⟨0, g.started t, (booked_zero rfl).symm⟩
  | cons event events ih =>
      obtain ⟨cycles, start, heq⟩ : ∃ cycles start, g.clock t event = g.booked t cycles start := by
        cases event with
        | start r => exact ⟨_, _, clock_start g t r⟩
        | stop r => exact ⟨_, _, clock_stop g t r⟩
        | clear => simp at h
      obtain ⟨cycles', start', hrest⟩ := ih (fun hmem => h (by simp [hmem])) (g.clock t event)
      exact ⟨_, _, by rw [clocks_cons, hrest, heq, booked_booked]⟩

end Ledger

theorem last_start (events : List ClockEvent) (r now : Nat) :
    (readings (events ++ [.start r])).getLastD now = r := by
  simp

theorem ClockStart.last_reading (clock : ClockStart) (now : Nat) :
    (readings clock.events).getLastD now = clock.reading := last_start ..

@[simp] theorem clear_notMem_signalEvents (signals : List (Nat × Nat)) :
    ClockEvent.clear ∉ signalEvents signals := by
  simp [signalEvents]

/-! ## A thread's stretch -/

/-- Since reading `since` a thread has added up no more than the time
before its running stretch, which began at `start`, if any did. -/
structure Stretch (since now : Nat) (start : Option Nat) (l : PredictorLocal) : Prop where
  began : l.outsideStartCycle = start.getD 0
  outside_le : since + l.outsideCycle ≤ start.getD now
  start_le : start.getD now ≤ now

namespace Stretch

variable {since now r : Nat} {start : Option Nat} {l : PredictorLocal}

theorem mono (h : Stretch since now start l) (hle : now ≤ r) : Stretch since r start l where
  began := h.began
  outside_le := by
    have hout := h.outside_le
    cases start with
    | none => exact hout.trans hle
    | some r0 => exact hout
  start_le := by
    have hstart := h.start_le
    cases start with
    | none => exact le_rfl
    | some r0 => exact hstart.trans hle

theorem congr {l' : PredictorLocal} (h : Stretch since now start l)
    (hstart : l'.outsideStartCycle = l.outsideStartCycle)
    (hout : l'.outsideCycle = l.outsideCycle) : Stretch since now start l' where
  began := hstart.trans h.began
  outside_le := by rw [hout]; exact h.outside_le
  start_le := h.start_le

/-- The stretch that a stop adds. -/
theorem stop (h : Stretch since now start l) (hsince : 0 < since) (hle : now ≤ r)
    (hr : r < 2 ^ 64) :
    (l.outsideCyclesStop r).outsideCycle = l.outsideCycle + (r - start.getD r) ∧
      since + (l.outsideCyclesStop r).outsideCycle ≤ r := by
  have hstart := h.began
  have hout := h.outside_le
  have hbound := h.start_le
  have hcode : (l.outsideCyclesStop r).outsideCycle = l.outsideCycle + (r - start.getD r) := by
    simp only [PredictorLocal.outsideCyclesStop, hstart]
    cases start with
    | none => simp
    | some r0 =>
        simp only [Option.getD_some] at hout hbound ⊢
        split
        · exact wrap_of_lt (by omega)
        · omega
  refine ⟨hcode, ?_⟩
  rw [hcode]
  cases start with
  | none =>
      simp only [Option.getD_none] at hout ⊢
      omega
  | some r0 =>
      simp only [Option.getD_some] at hout hbound ⊢
      omega

/-- A clock that starts at the reading of now. -/
theorem restart (h : since + l.outsideCycle ≤ r) :
    Stretch since r (some r) (l.outsideCycleStart r) := ⟨rfl, h, le_rfl⟩

/-- Signals book what they add. -/
theorem signals {g : Ledger} {t : Tid} {signals : List (Nat × Nat)} (hsince : 0 < since)
    (h : Stretch since now (g.started t) l) (hr : ClockRuns now (readings (signalEvents signals))) :
    ∃ cycles start, g.clocks t (signalEvents signals) = g.booked t cycles start ∧
      (l.sampleHandlers signals).outsideCycle = l.outsideCycle + cycles ∧
      Stretch since ((readings (signalEvents signals)).getLastD now) start
        (l.sampleHandlers signals) := by
  induction signals generalizing g l now with
  | nil => exact ⟨0, g.started t, (Ledger.booked_zero rfl).symm, rfl, h⟩
  | cons signal signals ih =>
      simp only [signalEvents_cons, readings_stop, readings_start, clockRuns_cons] at hr
      obtain ⟨hle, hstop, hle', hstart, hrest⟩ := hr
      obtain ⟨hadd, hbound⟩ := h.stop hsince hle hstop
      have hbooked : (g.clock t (.stop signal.1)).clock t (.start signal.2)
          = g.booked t (signal.1 - (g.started t).getD signal.1) (some signal.2) := by
        rw [Ledger.clock_stop, Ledger.clock_start, Ledger.booked_booked, Nat.add_zero]
      have hnext : Stretch since signal.2
          ((g.booked t (signal.1 - (g.started t).getD signal.1) (some signal.2)).started t)
          (l.sampleHandler signal.1 signal.2) := by
        rw [Ledger.booked_started]
        exact restart (hbound.trans hle')
      obtain ⟨cycles, start, hclocks, hcycles, hfinal⟩ := ih hnext hrest
      refine ⟨signal.1 - (g.started t).getD signal.1 + cycles, start, ?_, ?_, ?_⟩
      · rw [signalEvents_cons, Ledger.clocks_cons, Ledger.clocks_cons, hbooked, hclocks,
          Ledger.booked_booked]
      · have hsample : (l.sampleHandler signal.1 signal.2).outsideCycle
            = (l.outsideCyclesStop signal.1).outsideCycle := rfl
        show ((l.sampleHandler signal.1 signal.2).sampleHandlers signals).outsideCycle = _
        rw [hcycles, hsample, hadd, Nat.add_assoc]
      · simp only [signalEvents_cons, readings_stop, readings_start, List.getLastD_cons]
        exact hfinal

/-- The signals before the clock starts, and its start. -/
theorem startClock {g : Ledger} {t : Tid} {clock : ClockStart} (hsince : 0 < since)
    (h : Stretch since now (g.started t) l) (hr : ClockRuns now (readings clock.events)) :
    ∃ cycles, g.clocks t clock.events = g.booked t cycles (some clock.reading) ∧
      (l.startClock clock).outsideCycle = l.outsideCycle + cycles ∧
      Stretch since clock.reading (some clock.reading) (l.startClock clock) := by
  rw [ClockStart.events, readings_append, clockRuns_append] at hr
  obtain ⟨hsignals, hstart⟩ := hr
  obtain ⟨hle, -, -⟩ := clockRuns_cons.mp hstart
  obtain ⟨cycles, start, hclocks, hcycles, hlast⟩ := h.signals hsince hsignals
  have hbound := hlast.outside_le.trans (hlast.start_le.trans hle)
  refine ⟨cycles, ?_, hcycles, restart hbound⟩
  rw [ClockStart.events, Ledger.clocks_append, hclocks, Ledger.clocks_cons, Ledger.clock_start,
    Ledger.booked_booked, Nat.add_zero, Ledger.clocks_nil]

end Stretch

end MemPerf
