import Cpu16.Run.Control
import Cpu16.Step.Basic

set_option relaxedAutoImplicit false
set_option autoImplicit false

/-!
# Continuous runs

A run steps until an instruction stops, a step faults, or its control is no longer running.
The control belongs to the world of the run, a `Session`, so that the device and the sink may
stop, arm or retune the run from within a step.

## Main definitions

* `Cpu16.Session` — the control of a run beside the rest of its world.
* `Cpu16.RunResult` — how many steps a run made, and how the last one ended.
* `Cpu16.run` — the run.

## Main results

* `Cpu16.run_mono` — an answer of a run does not depend on the bound of its steps.

## Implementation notes

A run need not end, so `run` takes a bound on the number of its steps and answers nothing if
the run is still going on after them.

The pacing at the end of a batch (`Cpu16.Pacing.wait`) only reads the control: it takes time,
but it changes neither the machine nor the world, and so it has no place here.
-/

universe u

namespace Cpu16

/-- The world of a run: its control, and whatever the device and the sink act on besides. -/
structure Session (ε : Type u) where
  /-- The control of the run. -/
  control : Control
  /-- The rest of the world. -/
  env : ε

/-- How a run ended. -/
structure RunResult where
  /-- Number of steps of the run. -/
  steps : Nat
  /-- The outcome of the last step; it lets execution proceed if the run was cancelled. -/
  final : Outcome
  deriving DecidableEq, Repr

namespace Machine

/-- The machine at the start of a run. -/
def enterRun (m : Machine) : Machine :=
  { m with status := .running }

/-- The machine at the end of a run: it is idle unless a step stopped or faulted. -/
def leaveRun (m : Machine) : Machine :=
  { m with status := if m.status = .running then .idle else m.status }

end Machine

section Run

variable {ε : Type u}

/-- The steps of a run, after `steps` steps of which the last one ended with `last`. It answers
nothing if the run goes on after `fuel` more steps. -/
def runLoop (dev : Device (Session ε)) (sink : Sink (Session ε)) :
    (fuel steps : Nat) → (last : Outcome) → Machine → Session ε →
      Option (RunResult × Machine × Session ε)
  | 0, steps, last, m, s =>
    if s.control.isRunning then none else some (⟨steps, last⟩, m, s)
  | fuel + 1, steps, last, m, s =>
    if s.control.isRunning then
      let (outcome, m, s) := step dev sink m s
      if outcome.endsRun then
        some (⟨steps + 1, outcome⟩, m, s)
      else
        runLoop dev sink fuel (steps + 1) outcome m s
    else
      some (⟨steps, last⟩, m, s)

/-- Runs the machine until an instruction stops, a step faults or the control is no longer
running, and leaves the control idle. A control with a pending stop lets no step happen, and
the machine is not touched. Nothing is answered if the run goes on after `fuel` steps. -/
def run (dev : Device (Session ε)) (sink : Sink (Session ε)) (fuel : Nat) (m : Machine)
    (s : Session ε) : Option (RunResult × Machine × Session ε) :=
  match s.control.start with
  | (false, control) => some (⟨0, .proceed⟩, m, { s with control := control.finish })
  | (true, control) =>
    match runLoop dev sink fuel 0 .proceed m.enterRun { s with control := control } with
    | some (result, m, s) =>
      some (result, m.leaveRun, { s with control := s.control.finish })
    | none => none

/-- A larger bound keeps the answer of the steps of a run.

**Proof sketch.** Induction on the smaller bound. If the control is not running, neither bound
is looked at. If it is, the smaller bound is not zero, so neither is the larger one; both make
the same step, and the induction hypothesis applies to the rest. -/
theorem runLoop_mono {dev : Device (Session ε)} {sink : Sink (Session ε)} {fuel fuel' : Nat}
    (h : fuel ≤ fuel') {steps : Nat} {last : Outcome} {m : Machine} {s : Session ε}
    {r : RunResult × Machine × Session ε} (hr : runLoop dev sink fuel steps last m s = some r) :
    runLoop dev sink fuel' steps last m s = some r := by
  induction fuel generalizing fuel' steps last m s with
  | zero =>
    unfold runLoop at hr
    by_cases hc : s.control.isRunning
    · simp [hc] at hr
    · unfold runLoop
      cases fuel' <;> simpa [hc] using hr
  | succ fuel ih =>
    obtain ⟨k, rfl⟩ : ∃ k, fuel' = k + 1 := ⟨fuel' - 1, by omega⟩
    unfold runLoop at hr ⊢
    by_cases hc : s.control.isRunning
    · simp only [hc, if_true] at hr ⊢
      split at hr
      · rename_i he
        simpa [he] using hr
      · rename_i he
        simpa [he] using ih (by omega) hr
    · simpa [hc] using hr

/-- **The bound does not matter.** A larger bound keeps the answer of a run. -/
theorem run_mono {dev : Device (Session ε)} {sink : Sink (Session ε)} {fuel fuel' : Nat}
    (h : fuel ≤ fuel') {m : Machine} {s : Session ε} {r : RunResult × Machine × Session ε}
    (hr : run dev sink fuel m s = some r) : run dev sink fuel' m s = some r := by
  unfold run at hr ⊢
  split at hr
  · rename_i hs
    simpa [hs] using hr
  · rename_i hs
    split at hr
    · rename_i hl
      simpa [hs, runLoop_mono h hl] using hr
    · simp at hr

end Run

end Cpu16
