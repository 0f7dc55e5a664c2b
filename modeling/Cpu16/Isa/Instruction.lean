import Cpu16.Fault
import Cpu16.Isa.Condition
import Cpu16.Isa.Opcode
import Cpu16.Isa.Register

set_option relaxedAutoImplicit false
set_option autoImplicit false

/-!
# Instructions and their fields

An instruction is an operation together with the word that its operand fields are read from.
Only the operation code is checked when a word is decoded: every pattern of the ten operand
bits decodes. A jump or a call with an unassigned condition fails when it is executed, so that
a listing can still show its word.

## Main definitions

* `Cpu16.Instruction` — an operation and its word, with one reader for each field.
* `Cpu16.Instruction.decode` — the instruction in a word, or the fault of an unassigned code.
* `Cpu16.Shift`, `Cpu16.MoveKind` — the meanings of two of the fields.
-/

namespace Cpu16

/-- How a register is shifted or rotated. -/
inductive Shift
  /-- To the left, filling with zeros. -/
  | leftZero
  /-- To the left, filling with ones. -/
  | leftOne
  /-- To the right, filling with zeros. -/
  | rightZero
  /-- To the right, filling with ones. -/
  | rightOne
  /-- Rotate to the left. -/
  | rotateLeft
  /-- Rotate to the right. -/
  | rotateRight
  deriving DecidableEq, Repr

namespace Shift

/-- The mode that a three-bit field selects; each rotation has two codes. -/
def ofField (b : BitVec 3) : Shift :=
  match b.toNat with
  | 0 => leftZero
  | 1 => leftOne
  | 2 => rightZero
  | 3 => rightOne
  | 4 | 5 => rotateLeft
  | _ => rotateRight

/-- The name of the mode in a listing. -/
def name : Shift → String
  | leftZero => "shiftl0"
  | leftOne => "shiftl1"
  | rightZero => "shiftr0"
  | rightOne => "shiftr1"
  | rotateLeft => "rotl"
  | rotateRight => "rotr"

end Shift

/-- Between which registers a move goes. -/
inductive MoveKind
  /-- From one general register to another. -/
  | betweenRegisters
  /-- From the stack pointer to a general register. -/
  | fromStackPointer
  /-- From a general register to the stack pointer. -/
  | toStackPointer
  deriving DecidableEq, Repr

/-- An operation and the instruction word that its fields are read from. -/
structure Instruction where
  /-- The operation. -/
  opcode : Opcode
  /-- The word with the operand fields. -/
  word : Word
  deriving DecidableEq, Repr

namespace Instruction

/-- The instruction in a word. The word is refused only if its operation code is unassigned. -/
def decode (w : Word) : Except Fault Instruction :=
  match Opcode.ofWord? w with
  | some o => .ok ⟨o, w⟩
  | none => .error .unknownOpcode

/-- The register selected by bits 9 to 7: the destination, or the first operand. -/
def rd (i : Instruction) : Register := Register.atBit i.word 7

/-- The register selected by bits 6 to 4: the first source, or the second operand. -/
def rs1 (i : Instruction) : Register := Register.atBit i.word 4

/-- The register selected by bits 3 to 1: the second source. -/
def rs2 (i : Instruction) : Register := Register.atBit i.word 1

/-- Number of words that the instruction takes. -/
def size (i : Instruction) : Nat := i.opcode.size

/-- Whether the instruction adds the carry flag to its result: bit 0, for the operations that
have this variant. -/
def usesCarry (i : Instruction) : Bool :=
  i.opcode.isCarryAware && i.word.getLsbD 0

/-- The condition code of a jump or a call: bits 9 to 6. -/
def conditionCode (i : Instruction) : Nat :=
  (i.word.extractLsb' 6 4).toNat

/-- Bit 6: decrement instead of increment, or the flag register instead of a general one. -/
def modeBit (i : Instruction) : Bool := i.word.getLsbD 6

/-- The mode of a shift: bits 6 to 4. -/
def shift (i : Instruction) : Shift :=
  Shift.ofField (i.word.extractLsb' 4 3)

/-- The amount of a shift: bits 3 to 0. -/
def shiftAmount (i : Instruction) : BitVec 4 := i.word.extractLsb' 0 4

/-- The kind of a move: bit 0 brings in the stack pointer, and bit 1 then makes it the
destination. -/
def moveKind (i : Instruction) : MoveKind :=
  if i.word.getLsbD 0 then
    if i.word.getLsbD 1 then .toStackPointer else .fromStackPointer
  else .betweenRegisters

/-- Bit 9: the carry flag is cleared, and not set. -/
def clearsCarry (i : Instruction) : Bool := i.word.getLsbD 9

/-- A condition code has four bits. -/
theorem conditionCode_lt (i : Instruction) : i.conditionCode < 16 :=
  (i.word.extractLsb' 6 4).isLt

/-- A word decodes to an instruction exactly if the operation of the instruction is the one
that the word names, and the word is its own. -/
theorem decode_eq_ok_iff {w : Word} {i : Instruction} :
    decode w = .ok i ↔ Opcode.ofWord? w = some i.opcode ∧ i.word = w := by
  obtain ⟨o, v⟩ := i
  unfold decode
  split <;> rename_i h <;> simp [h, eq_comm]

/-- The only fault of decoding is the unknown operation. -/
theorem decode_eq_error_iff {w : Word} {f : Fault} :
    decode w = .error f ↔ Opcode.ofWord? w = none ∧ f = .unknownOpcode := by
  unfold decode
  split <;> rename_i h <;> simp [h, eq_comm]

end Instruction

end Cpu16
