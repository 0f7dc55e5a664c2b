import Cpu16.Step.Execution

set_option relaxedAutoImplicit false
set_option autoImplicit false

/-!
# One step

A step fetches the word at the program counter, executes it and commits its effects.

* If nothing can be fetched, the step faults and leaves the machine as it was, except that an
  unassigned operation is passed over, so that repeated steps always get on. Such a step is not
  counted and no start of an instruction is reported.
* Otherwise the instruction is counted, whether it succeeds or not. One that faults is passed
  over with no other effect, but never past the last address.

## Main definitions

* `Cpu16.Outcome` — how a step ended.
* `Cpu16.Machine.fetch` — the instruction at the program counter.
* `Cpu16.Attempt` — what a step makes of the machine, with its reports.
* `Cpu16.step` — one step in a world `σ`, to which the device and the sink belong.

## Implementation notes

The world enters a step only through the sink and through `execute`. What happens to the
machine is a pure function of the result of `execute` (`Machine.retire`, `Attempt.conclude`).
-/

universe u

namespace Cpu16

/-- How a step ended. -/
inductive Outcome
  /-- The instruction succeeded, and execution may go on. -/
  | proceed
  /-- The instruction succeeded and asked for a stop. -/
  | stopped (reason : Stop)
  /-- The step faulted. -/
  | faulted (fault : Fault)
  deriving DecidableEq, Repr

namespace Outcome

/-- Whether a continuous run must end after a step with this outcome. -/
def endsRun : Outcome → Bool
  | proceed => false
  | stopped _ | faulted _ => true

/-- The fault that the step raised, if it did. -/
def fault? : Outcome → Option Fault
  | faulted f => some f
  | proceed | stopped _ => none

/-- The outcome of an instruction that succeeded. -/
def ofStop : Option Stop → Outcome
  | some reason => stopped reason
  | none => proceed

end Outcome

/-- What a step makes of the machine, and the reports that it owes. -/
structure Attempt where
  /-- How the step ended. -/
  outcome : Outcome
  /-- The machine after the step. -/
  machine : Machine
  /-- The reports that follow the start of the instruction, in order. -/
  events : List Event

/-- The program counter past an instruction of `size` words at `pc` that faulted. It never goes
beyond the last address. -/
def pcPast (pc : Word) (size : Nat) : Word :=
  BitVec.ofNat 16 (min (pc.toNat + size) lastAddress.toNat)

namespace Machine

/-- The instruction at the program counter. Where memory is too short for the program counter,
the program counter is to blame. -/
def fetch (m : Machine) : Except Fault Instruction := do
  Access.fetch.check m.regs.pc
  match m.memory.get? m.regs.pc with
  | some w => Instruction.decode w
  | none => throw .pcOutOfRange

/-- The machine with another program counter. -/
def setPc (m : Machine) (pc : Word) : Machine :=
  { m with regs := { m.regs with pc := pc } }

/-- The machine after one more instruction has been counted. -/
def tick (m : Machine) : Machine :=
  { m with count := m.count + 1 }

/-- The end of a step for which no instruction could be fetched. -/
def refuse (m : Machine) (f : Fault) : Attempt where
  outcome := .faulted f
  machine := if f = .unknownOpcode then m.setPc (m.regs.pc + 1) else m
  events := []

/-- The end of an instruction of `size` words, given what its execution came to. -/
def retire (m : Machine) (size : Nat) : Except Fault Effects → Attempt
  | .ok e =>
    let pc := m.regs.pc
    let events := m.writeEvents e
    let after := (m.commit e).tick
    { outcome := .ofStop e.stop
      events := events ++ [.retired pc after.count]
      machine := after }
  | .error f =>
    let pc := m.regs.pc
    let after := (m.setPc (pcPast pc size)).tick
    { outcome := .faulted f
      events := [.retired pc after.count]
      machine := after }

/-- The machine with the status that follows from an outcome at `pc`. A step that succeeds
leaves a running machine running. -/
def record (m : Machine) (pc : Word) : Outcome → Machine
  | .proceed => { m with status := if m.status = .running then .running else .idle }
  | .stopped _ => { m with status := .halted }
  | .faulted f => { m with status := .faulted f, faultPc := some pc }

end Machine

/-- The last report of a step at `pc`. -/
def Outcome.events (pc : Word) : Outcome → List Event
  | proceed => []
  | stopped reason => [.stopped reason pc]
  | faulted f => [.faulted f pc]

/-- Ends an attempt at `pc`: the outcome is recorded in the machine and reported. -/
def Attempt.conclude (a : Attempt) (pc : Word) : Attempt :=
  { a with
    machine := a.machine.record pc a.outcome
    events := a.events ++ a.outcome.events pc }

section Step

variable {σ : Type u}

/-- One attempt at an instruction, up to the record of its outcome. -/
def attempt (dev : Device σ) (sink : Sink σ) (m : Machine) (s : σ) : Attempt × σ :=
  match m.fetch with
  | .error f => (m.refuse f, s)
  | .ok i =>
    let (result, s) := execute dev i.operation m (sink (.started m.regs.pc i.word) s)
    (m.retire i.size result, s)

/-- One step. -/
def step (dev : Device σ) (sink : Sink σ) (m : Machine) (s : σ) :
    Outcome × Machine × σ :=
  let pc := m.regs.pc
  let (a, s) := attempt dev sink m s
  let a := a.conclude pc
  (a.outcome, a.machine, sink.reportAll a.events s)

end Step

end Cpu16
