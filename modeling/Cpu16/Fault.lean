set_option relaxedAutoImplicit false
set_option autoImplicit false

/-!
# Faults

A step that cannot be carried out ends with a fault. A fault names its cause; hosts that
aggregate diagnostics look at its class, at its one-byte code or at its message. A division by
zero is no fault: it is recorded in the flag register and execution goes on.

## Main definitions

* `Cpu16.Fault` — the causes, with `Fault.code`, `Fault.kind` and `Fault.message`.
* `Cpu16.DeviceError` — how the character device may fail, with the fault each failure becomes.
-/

namespace Cpu16

/-- Where in the machine a fault arises. -/
inductive FaultKind
  /-- An instruction word, or one of its fields, has no meaning. -/
  | decode
  /-- The program counter left the range that can be fetched from. -/
  | fetch
  /-- The stack pointer was outside the range that a stack operation needs. -/
  | stack
  /-- A data access went to an address that it may not touch. -/
  | memory
  /-- The character device reported a failure. -/
  | device
  deriving DecidableEq, Repr

/-- Why a step could not be carried out. -/
inductive Fault
  /-- The operation code is not assigned. -/
  | unknownOpcode
  /-- A jump or a call has the unassigned condition code. -/
  | invalidCondition
  /-- A fetch or an operand read at the end of the address space, or a jump past it. -/
  | pcOutOfRange
  /-- A push, a pop, a call or a return met a stack pointer outside its legal range. -/
  | invalidStackPointer
  /-- A load or a store addressed the reserved last word or a word past it. -/
  | invalidAddress
  /-- The input device failed. -/
  | inputFailed
  /-- The output device failed, or refused the character or its position. -/
  | outputFailed
  deriving DecidableEq, Repr

namespace Fault

/-- The stable one-byte code of a fault. -/
def code : Fault → Nat
  | unknownOpcode => 1
  | invalidCondition => 2
  | pcOutOfRange => 3
  | invalidStackPointer => 4
  | invalidAddress => 5
  | inputFailed => 6
  | outputFailed => 7

/-- The fault with a given code, if there is one. -/
def ofCode? : Nat → Option Fault
  | 1 => some unknownOpcode
  | 2 => some invalidCondition
  | 3 => some pcOutOfRange
  | 4 => some invalidStackPointer
  | 5 => some invalidAddress
  | 6 => some inputFailed
  | 7 => some outputFailed
  | _ => none

/-- The class that a fault belongs to. -/
def kind : Fault → FaultKind
  | unknownOpcode | invalidCondition => .decode
  | pcOutOfRange => .fetch
  | invalidStackPointer => .stack
  | invalidAddress => .memory
  | inputFailed | outputFailed => .device

/-- The diagnostic text of a fault. -/
def message : Fault → String
  | unknownOpcode => "instruction does not exist"
  | invalidCondition => "invalid branch condition"
  | pcOutOfRange => "program counter at the end of the address space"
  | invalidStackPointer => "invalid stack pointer value"
  | invalidAddress => "invalid memory address"
  | inputFailed => "input hook failed"
  | outputFailed => "output hook failed"

/-- Every fault is found again from its code. -/
@[simp]
theorem ofCode?_code (f : Fault) : ofCode? f.code = some f := by
  cases f <;> rfl

/-- A code that names a fault is the code of that fault. -/
theorem code_of_ofCode? {n : Nat} {f : Fault} (h : ofCode? n = some f) : f.code = n := by
  unfold ofCode? at h
  split at h <;> cases h <;> rfl

end Fault

/-- How the character device may fail. -/
inductive DeviceError
  /-- The input device could not be read. -/
  | inputFailed
  /-- The output device could not be written. -/
  | outputFailed
  /-- The output device refused the character or the screen position. -/
  | rejected
  deriving DecidableEq, Repr

/-- The fault that a device failure raises; a refusal counts as a failure of the output. -/
def DeviceError.fault : DeviceError → Fault
  | inputFailed => .inputFailed
  | outputFailed | rejected => .outputFailed

end Cpu16
