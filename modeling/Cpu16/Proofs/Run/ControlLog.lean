import Cpu16.Proofs.Run.Refinement

set_option relaxedAutoImplicit false
set_option autoImplicit false

/-!
# What has happened to a control

A control hides two of its three phases: seen from outside, an idle control and a cancelled one look
alike. What a control is like can be told from the log of what has been done to it. Only the part of
the log since the last run matters for the phase: the control is armed if the last arm in it has not
been followed by a stop, it is cancelled if the last arm has been followed by one, and otherwise it
is idle. The period is the one that was set last.

The logs have the most recent act first.

## Main definitions

* `Cpu16.ControlAct` — what may be done to a control, with its `Cpu16.ControlAct.effect`.
* `Cpu16.Control.after` — the control after what a log says.
* `Cpu16.sinceRun`, `Cpu16.Armed`, `Cpu16.Cancelled` — what a log tells of the phase.
* `Cpu16.lastPeriod` — the period that was set last.

## Main results

* `Cpu16.not_cancelled_run`, `Cpu16.not_cancelled_arm`, `Cpu16.cancelled_stop_iff` — a cancellation
  is used up by a run and revoked by an arm, and a stop cancels only what is armed.
* `Cpu16.Control.phase_after` — the phase of a control can be told from its log.
* `Cpu16.Control.toNanos_period_after` — so can the period.
* `Cpu16.run_silent` — what a run with the silent device answers, and what it does to its control.
-/

universe u

namespace Cpu16

/-! ## Acts -/

/-- What may be done to a control. A run is made with the silent device and without a trace, on a
machine of its own. -/
inductive ControlAct
  /-- Mark a run as pending, so that a stop is kept. -/
  | arm
  /-- Ask the pending or current run to stop. -/
  | stop
  /-- Set the clock rate; zero is unpaced. -/
  | setRate (hz : Nat)
  /-- Set the time of an instruction. -/
  | setPeriod (period : Duration)
  /-- Run a machine, for no more than `fuel` steps. -/
  | run (fuel : Nat) (m : Machine)

namespace ControlAct

/-- Whether the act is a run. -/
def isRun : ControlAct → Bool
  | run _ _ => true
  | arm | stop | setRate _ | setPeriod _ => false

/-- The period that is set, if one is. -/
def period? : ControlAct → Option Duration
  | setRate hz => some (periodOfRate hz)
  | setPeriod period => some period
  | arm | stop | run _ _ => none

/-- What the act makes of a control. A run has to end. -/
def effect : ControlAct → Control → Control
  | arm, c => c.arm
  | stop, c => c.stop
  | setRate hz, c => c.setRate hz
  | setPeriod period, c => c.setPeriod period
  | run _ _, c => c.finish

end ControlAct

/-! ## Logs -/

/-- What has been done since the last run. -/
def sinceRun (log : List ControlAct) : List ControlAct :=
  log.takeWhile fun act => !act.isRun

/-- There has been an arm, and no stop after the last arm. -/
def Armed (log : List ControlAct) : Prop :=
  ∃ later earlier, log = later ++ .arm :: earlier ∧ .arm ∉ later ∧ .stop ∉ later

/-- There has been an arm, and a stop after the last arm. -/
def Cancelled (log : List ControlAct) : Prop :=
  ∃ later earlier, log = later ++ .arm :: earlier ∧ .arm ∉ later ∧ .stop ∈ later

/-- The period that was set last; `first` if none has been set. -/
def lastPeriod (first : Duration) (log : List ControlAct) : Duration :=
  (log.findSome? ControlAct.period?).getD first

/-- An empty log arms nothing. -/
theorem not_armed_nil : ¬Armed [] := by
  rintro ⟨later, earlier, heq, -⟩
  simp at heq

/-- An empty log cancels nothing. -/
theorem not_cancelled_nil : ¬Cancelled [] := by
  rintro ⟨later, earlier, heq, -⟩
  simp at heq

/-- A log arms with one more act if the act arms, or if the log arms without it and the act is no
stop. -/
theorem armed_cons {act : ControlAct} {log : List ControlAct} :
    Armed (act :: log) ↔ act = .arm ∨ act ≠ .stop ∧ Armed log := by
  constructor
  · rintro ⟨later, earlier, heq, harm, hstop⟩
    cases later with
    | nil => exact .inl (List.cons_eq_cons.mp heq).1
    | cons act' later =>
      obtain ⟨rfl, rfl⟩ := List.cons_eq_cons.mp heq
      obtain ⟨hact, hstop⟩ := List.ne_and_not_mem_of_not_mem_cons hstop
      exact .inr ⟨hact.symm, later, earlier, rfl, List.not_mem_of_not_mem_cons harm, hstop⟩
  · rintro (rfl | ⟨hact, later, earlier, rfl, harm, hstop⟩)
    · exact ⟨[], log, rfl, List.not_mem_nil, List.not_mem_nil⟩
    · by_cases h : act = .arm
      · subst h
        exact ⟨[], _, rfl, List.not_mem_nil, List.not_mem_nil⟩
      · exact ⟨act :: later, earlier, rfl, List.not_mem_cons_of_ne_of_not_mem (Ne.symm h) harm,
          List.not_mem_cons_of_ne_of_not_mem (Ne.symm hact) hstop⟩

/-- A log cancels with one more act if the act does not arm again, and if the log cancels without it
or the act is a stop after the log has armed. -/
theorem cancelled_cons {act : ControlAct} {log : List ControlAct} :
    Cancelled (act :: log) ↔ act ≠ .arm ∧ (Cancelled log ∨ act = .stop ∧ Armed log) := by
  constructor
  · rintro ⟨later, earlier, heq, harm, hstop⟩
    cases later with
    | nil => exact absurd hstop List.not_mem_nil
    | cons act' later =>
      obtain ⟨rfl, rfl⟩ := List.cons_eq_cons.mp heq
      obtain ⟨hne, harm⟩ := List.ne_and_not_mem_of_not_mem_cons harm
      refine ⟨hne.symm, ?_⟩
      -- The stop after the last arm is the last act, or it was there before.
      by_cases h : .stop ∈ later
      · exact .inl ⟨later, earlier, rfl, harm, h⟩
      · have hact := (List.mem_cons.mp hstop).resolve_right h
        exact .inr ⟨hact.symm, later, earlier, rfl, harm, h⟩
  · rintro ⟨hact, ⟨later, earlier, rfl, harm, hstop⟩ | ⟨rfl, later, earlier, rfl, harm, hstop⟩⟩
    · exact ⟨act :: later, earlier, rfl,
        List.not_mem_cons_of_ne_of_not_mem (Ne.symm hact) harm, .tail _ hstop⟩
    · exact ⟨.stop :: later, earlier, rfl,
        List.not_mem_cons_of_ne_of_not_mem (Ne.symm hact) harm, .head _⟩

/-- An act that is no run belongs to those since the latest run. -/
theorem sinceRun_cons {act : ControlAct} (h : act.isRun = false) (log : List ControlAct) :
    sinceRun (act :: log) = act :: sinceRun log := by
  simp [sinceRun, h]

/-- To arm a control arms it, whatever has been done before. -/
theorem armed_arm (log : List ControlAct) : Armed (sinceRun (.arm :: log)) := by
  rw [sinceRun_cons rfl, armed_cons]
  exact .inl rfl

/-- **A cancellation is used up** by one run. -/
theorem not_cancelled_run (fuel : Nat) (m : Machine) (log : List ControlAct) :
    ¬Cancelled (sinceRun (.run fuel m :: log)) :=
  not_cancelled_nil

/-- **An arm revokes a cancellation.** -/
theorem not_cancelled_arm (log : List ControlAct) : ¬Cancelled (sinceRun (.arm :: log)) := by
  rw [sinceRun_cons rfl, cancelled_cons]
  exact fun h => h.1 rfl

/-- **A stop cancels only what is armed.** -/
theorem cancelled_stop_iff {log : List ControlAct} :
    Cancelled (sinceRun (.stop :: log)) ↔ Cancelled (sinceRun log) ∨ Armed (sinceRun log) := by
  rw [sinceRun_cons rfl, cancelled_cons]
  simp

/-! ## The control after a log -/

namespace Control

/-- The control after what the log says has been done to it. -/
def after (c : Control) (log : List ControlAct) : Control :=
  log.foldr ControlAct.effect c

/-- The latest act comes first in the log, and takes effect last. -/
theorem after_cons (c : Control) (act : ControlAct) (log : List ControlAct) :
    c.after (act :: log) = act.effect (c.after log) := rfl

/-- An armed control is armed, in whatever phase it was. -/
@[simp]
theorem phase_arm (c : Control) : c.arm.phase = .armed := rfl

/-- A control is idle at the end of a run. -/
@[simp]
theorem phase_finish (c : Control) : c.finish.phase = .idle := rfl

/-- A new period leaves the phase alone. -/
@[simp]
theorem phase_setPeriod (c : Control) (period : Duration) :
    (c.setPeriod period).phase = c.phase := by
  -- By `rfl` alone the periods would be compared too, and their lengths be computed for that.
  have hphase : ∀ n, ({ c with periodNanos := n } : Control).phase = c.phase := fun _ => rfl
  exact hphase _

/-- A new clock rate leaves the phase alone. -/
@[simp]
theorem phase_setRate (c : Control) (hz : Nat) : (c.setRate hz).phase = c.phase :=
  c.phase_setPeriod _

/-- A stop cancels a control that is armed, and leaves every other one alone. -/
theorem phase_stop (c : Control) :
    c.stop.phase = if c.phase = .armed then .cancelled else c.phase := by
  unfold stop
  split <;> simp [*]

/-- **The phase can be told from the log.** Of a control that was idle at first, the part of the log
since the last run tells whether it is armed now and whether it is cancelled.

**Proof sketch.** Induction on the log. A run leaves the control idle, and nothing is left of the
log; what every other act does to the phase is what it does to the log (`armed_cons`,
`cancelled_cons`). -/
theorem phase_after {c : Control} (hc : c.phase = .idle) (log : List ControlAct) :
    ((c.after log).phase = .armed ↔ Armed (sinceRun log)) ∧
      ((c.after log).phase = .cancelled ↔ Cancelled (sinceRun log)) := by
  induction log with
  | nil => simp [after, hc, sinceRun, not_armed_nil, not_cancelled_nil]
  | cons act log ih =>
    obtain ⟨harmed, hcancelled⟩ := ih
    rw [after_cons]
    cases act with
    | run fuel m =>
      have hidle : ((ControlAct.run fuel m).effect (c.after log)).phase = .idle :=
        (c.after log).phase_finish
      rw [hidle]
      exact ⟨iff_of_false (by decide) not_armed_nil,
        iff_of_false (by decide) (not_cancelled_run fuel m log)⟩
    | arm =>
      have harm : (ControlAct.arm.effect (c.after log)).phase = .armed := (c.after log).phase_arm
      rw [harm]
      exact ⟨iff_of_true rfl (armed_arm log), iff_of_false (by decide) (not_cancelled_arm log)⟩
    | stop =>
      rw [cancelled_stop_iff, sinceRun_cons rfl, armed_cons, ← harmed, ← hcancelled]
      cases h : (c.after log).phase <;> simp [ControlAct.effect, phase_stop, h]
    | setRate hz | setPeriod period =>
      rw [sinceRun_cons rfl, armed_cons, cancelled_cons, ← harmed, ← hcancelled]
      simp [ControlAct.effect]

/-- The largest number of nanoseconds that a control can hold. -/
def maxPeriodNanos : Nat := 0xFFFFFFFFFFFFFFFF

/-- A number of nanoseconds that fits into the control is the period that is read from there. -/
theorem toNanos_ofNanos_of_le {n : Nat} (h : n ≤ maxPeriodNanos) :
    (Duration.ofNanos (BitVec.ofNat 64 n).toNat).toNanos = n := by
  have hlongest : maxPeriodNanos ≤ Duration.longest.toNanos := by decide
  have hlt : n < 2 ^ 64 := Nat.lt_of_le_of_lt h (by decide)
  rw [Duration.toNanos_ofNanos, BitVec.toNat_ofNat, Nat.mod_eq_of_lt hlt,
    min_eq_left (h.trans hlongest)]

/-- The period that is set is the one that is asked for, as far as 64 bits of nanoseconds go. -/
theorem toNanos_period_setPeriod (c : Control) (period : Duration) :
    (c.setPeriod period).period.toNanos = min period.toNanos maxPeriodNanos :=
  toNanos_ofNanos_of_le (min_le_right _ _)

/-- A stop leaves the period alone. -/
theorem period_stop (c : Control) : c.stop.period = c.period := by
  unfold stop
  split <;> rfl

/-- **The period can be told from the log.** It is the one that was set last.

**Proof sketch.** Induction on the log: an act either sets the period, or leaves it alone. -/
theorem toNanos_period_after {c : Control} {first : Duration}
    (hc : c.period.toNanos = min first.toNanos maxPeriodNanos) (log : List ControlAct) :
    (c.after log).period.toNanos = min (lastPeriod first log).toNanos maxPeriodNanos := by
  induction log with
  | nil => exact hc
  | cons act log ih =>
    rw [after_cons]
    cases act with
    | setRate hz => exact toNanos_period_setPeriod _ _
    | setPeriod period => exact toNanos_period_setPeriod _ _
    | arm => exact ih
    | stop =>
      show (c.after log).stop.period.toNanos = _
      rw [period_stop]
      exact ih
    | run fuel m => exact ih

end Control

/-! ## Runs -/

/-- A run with the silent device and without a trace leaves its control idle. It makes no step if
the control was cancelled, and then does not touch the machine; otherwise it makes at least one. -/
theorem run_silent {ε : Type u} {fuel : Nat} {m : Machine} {s : Session ε}
    {r : RunResult × Machine × Session ε} (h : run Device.silent Sink.ignore fuel m s = some r) :
    r.2.2 = s.finished ∧ (s.control.phase = .cancelled → r.1.steps = 0 ∧ r.2.1 = m) ∧
      (s.control.phase ≠ .cancelled → 0 < r.1.steps) := by
  by_cases hs : s.control.phase = .cancelled
  · rw [run_of_cancelled hs] at h
    obtain rfl := Option.some.inj h
    exact ⟨rfl, fun _ => ⟨rfl, rfl⟩, fun hne => absurd hs hne⟩
  · obtain ⟨n, -, hleast, rfl⟩ := (run_eq_some_iff hs).mp h
    refine ⟨?_, fun hc => absurd hc hs, fun _ => hleast.1.1⟩
    -- Nobody has touched the control since the start of the run.
    rw [world_stepTimes_silent]
    rfl

end Cpu16
