import Cpu16.Isa.Register
import Cpu16.Machine.Access
import Cpu16.Machine.Image
import Cpu16.Machine.Memory

set_option relaxedAutoImplicit false
set_option autoImplicit false

/-!
# The machine

Everything that a host can see of the machine: the register file, the live memory, the baseline
image that a reset restores, the number of instructions that have been counted, and whether the
machine runs, has stopped or has faulted.

## Main definitions

* `Cpu16.Machine` — the machine, and `Machine.initial`, the machine without a program.
* `Cpu16.Machine.load`, `Cpu16.Machine.loadWords`, `Cpu16.Machine.loadImage` — loading, which
  replaces the baseline and resets.
* `Cpu16.Machine.reset` — the reset, which keeps the instruction count.
* `Cpu16.Machine.read`, `Cpu16.Machine.write` — reading and writing live memory by hand.
-/

namespace Cpu16

/-- Whether the machine runs, has stopped or has faulted. -/
inductive Status
  /-- Nothing is going on; a step or a run may start. -/
  | idle
  /-- A continuous run owns the machine. -/
  | running
  /-- The last step stopped. -/
  | halted
  /-- The last step raised a fault. -/
  | faulted (fault : Fault)
  deriving DecidableEq, Repr

/-- The fault of a machine that has faulted. -/
def Status.latchedFault : Status → Option Fault
  | faulted f => some f
  | idle | running | halted => none

/-- The machine, as a host sees it. -/
structure Machine where
  /-- The register file. -/
  regs : Registers := Registers.initial
  /-- The live memory, which holds code, data and the stack. -/
  memory : Memory := Memory.zeros spaceSize
  /-- The image that was loaded last, which a reset restores into memory. -/
  baseline : Image spaceSize := Image.zeros spaceSize
  /-- Number of instructions that have been executed, with or without success, modulo 2^64. -/
  count : BitVec 64 := 0
  /-- Whether the machine runs, has stopped or has faulted. -/
  status : Status := .idle
  /-- The program counter at the most recent fault. -/
  faultPc : Option Word := none
  deriving DecidableEq, Repr

namespace Machine

/-- The machine without a program. -/
def initial : Machine := {}

/-- Restores memory from the baseline, and the registers and the status to their initial
values. Only the instruction count goes on. -/
def reset (m : Machine) : Machine :=
  { baseline := m.baseline, count := m.count, memory := ⟨m.baseline.toArray⟩ }

/-- Makes an image the baseline, and resets. -/
def load (m : Machine) (image : Image spaceSize) : Machine :=
  reset { m with baseline := image }

/-- Loads words from address 0 on. Words beyond the address space are ignored, and memory after
the words is zero. -/
def loadWords (m : Machine) (ws : Array Word) : Machine :=
  m.load (Image.ofWords spaceSize ws)

/-- Loads a full image in its byte form. -/
def loadImage (m : Machine) (bytes : Array Byte) : Except ImageError Machine :=
  (Image.decode spaceSize bytes).map m.load

/-- After words have been loaded, memory holds them and is zero after them. -/
theorem get?_loadWords (m : Machine) (ws : Array Word) {a : Word} (h : a.toNat < spaceSize) :
    (m.loadWords ws).memory.get? a = some (ws.getD a.toNat 0) := by
  simp [loadWords, load, reset, Memory.get?, h]

/-- The machine with a program, ready to start at address 0. -/
def ofProgram (ws : Array Word) : Machine :=
  initial.loadWords ws

/-- Reads a word of live memory, as an inspection tool does. -/
def read (m : Machine) (a : Word) : Except Fault Word :=
  m.memory.read a

/-- Writes a word of live memory, as an editing tool does. The reserved last word is refused as
it is to a store. -/
def write (m : Machine) (a value : Word) : Except Fault Machine :=
  match Access.data.check a with
  | .error f => .error f
  | .ok () => (m.memory.write a value).map fun memory => { m with memory := memory }

end Machine

end Cpu16
