import Cpu16.Listing.Rows
import Cpu16.Run.Basic

set_option relaxedAutoImplicit false
set_option autoImplicit false

/-!
# The processor

A processor bundles a machine with its device, its control and a buffer of trace events, for an
embedder that wants one owner of all of them. If tracing is on, the processor records the
reports of its steps and runs until they are taken from it.

## Main definitions

* `Cpu16.Processor` — the bundle, made by `Processor.create` or `Processor.ofProgram`.
* `Cpu16.Processor.step`, `Cpu16.Processor.run` — execution, recorded if tracing is on.
* `Cpu16.Processor.drain` — the recorded reports.

## Implementation notes

While the processor executes, its buffer is a part of the world that only the recording sink
can reach: `Device.recording` gives the device its own part of that world.
-/

universe u

namespace Cpu16

/-- The settings of a processor. -/
structure Config where
  /-- The clock rate of runs; zero for no pacing. -/
  rate : Nat := 0
  /-- Whether reports are recorded. -/
  tracing : Bool := false
  deriving DecidableEq, Repr

/-- The time of one instruction at the clock rate of the settings. -/
def Config.period (c : Config) : Duration := periodOfRate c.rate

/-! ## Recording -/

section Recording

variable {ε : Type u}

/-- The world of a run that is recorded: the rest of the world beside a buffer of reports. -/
abbrev Recorded (ε : Type u) := Session (ε × Array Event)

namespace Session

/-- Adds a buffer of reports to the world of a run. -/
def withBuffer (s : Session ε) (buffer : Array Event) : Recorded ε :=
  ⟨s.control, (s.env, buffer)⟩

/-- The world of a run without its buffer. -/
def dropBuffer (s : Recorded ε) : Session ε := ⟨s.control, s.env.1⟩

/-- The buffer of the world of a run. -/
def buffer (s : Recorded ε) : Array Event := s.env.2

end Session

/-- The device in a world that has a buffer, of which it knows nothing. -/
def Device.recording (dev : Device (Session ε)) : Device (Recorded ε) where
  poll := fun ⟨control, (env, buffer)⟩ =>
    let (answer, s) := dev.poll ⟨control, env⟩
    (answer, s.withBuffer buffer)
  draw character position := fun ⟨control, (env, buffer)⟩ =>
    let (answer, s) := dev.draw character position ⟨control, env⟩
    (answer, s.withBuffer buffer)

/-- The sink that records every report in the buffer. -/
def Sink.record : Sink (Recorded ε) :=
  fun e ⟨control, (env, buffer)⟩ => ⟨control, (env, buffer.push e)⟩

end Recording

/-! ## The bundle -/

/-- A machine with its device, its control and a buffer of reports. -/
structure Processor (ε : Type u) where
  /-- The machine. -/
  machine : Machine
  /-- The device. -/
  device : Device (Session ε)
  /-- The settings. -/
  config : Config
  /-- The control, and the world of the device. -/
  session : Session ε
  /-- The reports that have been recorded and not been taken. -/
  trace : Array Event

namespace Processor

variable {ε : Type u}

/-- A processor without a program. -/
def create (device : Device (Session ε)) (config : Config) (env : ε) : Processor ε where
  machine := Machine.initial
  device := device
  config := config
  session := ⟨Control.ofRate config.rate, env⟩
  trace := #[]

/-- A processor with a program. -/
def ofProgram (device : Device (Session ε)) (config : Config) (env : ε) (ws : Array Word) :
    Processor ε :=
  { create device config env with machine := Machine.ofProgram ws }

/-- Changes the control of the processor. -/
def modifyControl (p : Processor ε) (f : Control → Control) : Processor ε :=
  { p with session := { p.session with control := f p.session.control } }

/-- Changes the clock rate, for a run that is on and for later ones. -/
def setRate (p : Processor ε) (hz : Nat) : Processor ε :=
  { p.modifyControl (·.setRate hz) with config := { p.config with rate := hz } }

/-- Makes one step. -/
def step (p : Processor ε) : Outcome × Processor ε :=
  let ⟨machine, device, config, session, trace⟩ := p
  if config.tracing then
    let (outcome, machine, s) :=
      Cpu16.step device.recording Sink.record machine (session.withBuffer trace)
    (outcome, ⟨machine, device, config, s.dropBuffer, s.buffer⟩)
  else
    let (outcome, machine, session) := Cpu16.step device Sink.ignore machine session
    (outcome, ⟨machine, device, config, session, trace⟩)

/-- Runs until a stop, a fault or a cancellation. Nothing is answered if the run goes on after
`fuel` steps. -/
def run (p : Processor ε) (fuel : Nat) : Option (RunResult × Processor ε) :=
  let ⟨machine, device, config, session, trace⟩ := p
  if config.tracing then
    match Cpu16.run device.recording Sink.record fuel machine (session.withBuffer trace) with
    | some (result, machine, s) =>
      some (result, ⟨machine, device, config, s.dropBuffer, s.buffer⟩)
    | none => none
  else
    match Cpu16.run device Sink.ignore fuel machine session with
    | some (result, machine, session) =>
      some (result, ⟨machine, device, config, session, trace⟩)
    | none => none

/-- Resets the machine. The recorded reports stay. -/
def reset (p : Processor ε) : Processor ε :=
  { p with machine := p.machine.reset }

/-- Takes the recorded reports out of the processor. -/
def drain (p : Processor ε) : Array Event × Processor ε :=
  (p.trace, { p with trace := #[] })

/-- The text of the word at an address of live memory. -/
def textAt (p : Processor ε) (view : View) (a : Word) : Option String :=
  p.machine.memory.textAt view a

/-- The rows around an address of live memory. -/
def window (p : Processor ε) (view : View) (center before after : Word) : Array Row :=
  p.machine.memory.window view center before after

end Processor

end Cpu16
