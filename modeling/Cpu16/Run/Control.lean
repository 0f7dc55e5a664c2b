import Cpu16.Run.Pacing

set_option relaxedAutoImplicit false
set_option autoImplicit false

/-!
# The control of a run

A continuous run is started, stopped and paced through a control. A control is idle, armed or
cancelled. A run arms an idle control itself, and leaves the control idle when it ends. A stop
counts only when the control is armed; so whoever wants to be sure that a stop is not lost
before the run has begun arms the control first.

## Main definitions

* `Cpu16.Control` — the control, with the operations on it.
* `Cpu16.Phase` — idle, armed or cancelled.
-/

namespace Cpu16

/-- Where a control is between two runs. -/
inductive Phase
  /-- No run is on, and none is announced. -/
  | idle
  /-- A run is on, or is announced. -/
  | armed
  /-- A stop has been asked for. -/
  | cancelled
  deriving DecidableEq, Repr

/-- The control of continuous runs. -/
structure Control where
  /-- Where the control is between two runs. -/
  phase : Phase := .idle
  /-- The time of one instruction, in nanoseconds. -/
  periodNanos : BitVec 64 := 0
  deriving DecidableEq, Repr

namespace Control

/-- Announces a run, so that a stop before its start is kept. It revokes an earlier stop. -/
def arm (c : Control) : Control :=
  { c with phase := .armed }

/-- Asks the run that is on or announced to stop. An idle control is left alone. -/
def stop (c : Control) : Control :=
  if c.phase = .armed then { c with phase := .cancelled } else c

/-- Whether a run is on, or announced, and has not been asked to stop. -/
def isRunning (c : Control) : Bool :=
  c.phase = .armed

/-- Starts a run on an idle or an announced control. A control with a pending stop refuses, and
is left as it is. -/
def start (c : Control) : Bool × Control :=
  match c.phase with
  | .idle | .armed => (true, { c with phase := .armed })
  | .cancelled => (false, c)

/-- Ends a run. -/
def finish (c : Control) : Control :=
  { c with phase := .idle }

/-- Sets the time of one instruction. What does not fit into 64 bits of nanoseconds is cut to
the largest number that does. -/
def setPeriod (c : Control) (period : Duration) : Control :=
  { c with periodNanos := BitVec.ofNat 64 (min period.toNanos 0xFFFFFFFFFFFFFFFF) }

/-- Sets the clock rate; a rate of zero turns pacing off. -/
def setRate (c : Control) (hz : Nat) : Control :=
  c.setPeriod (periodOfRate hz)

/-- The time of one instruction. -/
def period (c : Control) : Duration :=
  Duration.ofNanos c.periodNanos.toNat

/-- An idle control with a period. -/
def ofPeriod (period : Duration) : Control :=
  setPeriod {} period

/-- An idle control with a clock rate. -/
def ofRate (hz : Nat) : Control :=
  ofPeriod (periodOfRate hz)

end Control

end Cpu16
