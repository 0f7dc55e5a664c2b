import Cpu16.Word

set_option relaxedAutoImplicit false
set_option autoImplicit false

/-!
# The operation codes

The six highest bits of an instruction word are its operation code. Twenty-nine of the
sixty-four codes are assigned. Five of them belong to instructions that take an operand, which
stands in the word after the instruction word.

## Main definitions

* `Cpu16.Opcode` — the assigned operations, with their codes.
* `Cpu16.Opcode.ofWord?` — the operation that an instruction word names.
* `Cpu16.Opcode.size` — how many words an instruction takes.
* `Cpu16.takesOperand` — whether a memory word, read as an instruction, has an operand.

## Main results

* `Cpu16.Opcode.ofCode?_eq_some_iff` — reading a code inverts writing it.
* `Cpu16.Opcode.ofWord?_toWord` — an instruction word with an operation put into it is read as
  that operation.
-/

namespace Cpu16

/-- The part of the processor that carries out an operation. -/
inductive FunctionalUnit
  /-- Arithmetic, logic, shifts, moves and comparison. -/
  | alu
  /-- Jumps, calls and returns. -/
  | controlFlow
  /-- The stack, loads and stores. -/
  | memory
  /-- Stopping, the carry flag, the character device and doing nothing. -/
  | special
  deriving DecidableEq, Repr

/-- The assigned operations. -/
inductive Opcode
  /-- Do nothing. -/
  | nop
  /-- Jump, on a condition. -/
  | jmp
  /-- Call, on a condition. -/
  | call
  /-- Return from a call. -/
  | rts
  /-- Push a register or the flag register. -/
  | push
  /-- Pop into a register or the flag register. -/
  | pop
  /-- Set or clear the carry flag. -/
  | carryControl
  /-- Stop after this instruction. -/
  | breakpoint
  /-- Stop on this instruction. -/
  | halt
  /-- Shift or rotate a register. -/
  | rotateShift
  /-- Bitwise conjunction. -/
  | and
  /-- Bitwise disjunction. -/
  | or
  /-- Bitwise exclusive disjunction. -/
  | xor
  /-- Bitwise complement. -/
  | not
  /-- Compare two registers. -/
  | cmp
  /-- Addition. -/
  | add
  /-- Subtraction. -/
  | sub
  /-- Multiplication. -/
  | mult
  /-- Quotient of a division. -/
  | div
  /-- Add one to a register or subtract one from it. -/
  | incDec
  /-- Remainder of a division. -/
  | mod
  /-- Load from the address in the operand word. -/
  | load
  /-- Store to the address in the operand word. -/
  | store
  /-- Draw a character. -/
  | outchar
  /-- Move between registers, or between a register and the stack pointer. -/
  | mov
  /-- Poll for a key. -/
  | inchar
  /-- Load the operand word itself. -/
  | loadn
  /-- Load from the address in a register. -/
  | loadi
  /-- Store to the address in a register. -/
  | storei
  deriving DecidableEq, Repr

/-- The operation code of an instruction word: its bits from 10 to 15. -/
def opcodeField (w : Word) : Nat :=
  (w >>> 10).toNat

/-- An operation code has six bits. -/
theorem opcodeField_lt (w : Word) : opcodeField w < 64 := by
  simp only [opcodeField, BitVec.toNat_ushiftRight, Nat.shiftRight_eq_div_pow]
  omega

namespace Opcode

/-- All assigned operations, in the order of their codes. -/
def all : List Opcode :=
  [nop, jmp, call, rts, push, pop, carryControl, breakpoint, halt, rotateShift, and, or, xor,
    not, cmp, add, sub, mult, div, incDec, mod, load, store, outchar, mov, inchar, loadn, loadi,
    storei]

/-- The code of an operation. -/
def code : Opcode → Nat
  | nop => 0b000000
  | jmp => 0b000010
  | call => 0b000011
  | rts => 0b000100
  | push => 0b000101
  | pop => 0b000110
  | carryControl => 0b001000
  | breakpoint => 0b001110
  | halt => 0b001111
  | rotateShift => 0b010000
  | and => 0b010010
  | or => 0b010011
  | xor => 0b010100
  | not => 0b010101
  | cmp => 0b010110
  | add => 0b100000
  | sub => 0b100001
  | mult => 0b100010
  | div => 0b100011
  | incDec => 0b100100
  | mod => 0b100101
  | load => 0b110000
  | store => 0b110001
  | outchar => 0b110010
  | mov => 0b110011
  | inchar => 0b110101
  | loadn => 0b111000
  | loadi => 0b111100
  | storei => 0b111101

/-- The operation with a given code, if the code is assigned. -/
def ofCode? : Nat → Option Opcode
  | 0b000000 => some nop
  | 0b000010 => some jmp
  | 0b000011 => some call
  | 0b000100 => some rts
  | 0b000101 => some push
  | 0b000110 => some pop
  | 0b001000 => some carryControl
  | 0b001110 => some breakpoint
  | 0b001111 => some halt
  | 0b010000 => some rotateShift
  | 0b010010 => some and
  | 0b010011 => some or
  | 0b010100 => some xor
  | 0b010101 => some not
  | 0b010110 => some cmp
  | 0b100000 => some add
  | 0b100001 => some sub
  | 0b100010 => some mult
  | 0b100011 => some div
  | 0b100100 => some incDec
  | 0b100101 => some mod
  | 0b110000 => some load
  | 0b110001 => some store
  | 0b110010 => some outchar
  | 0b110011 => some mov
  | 0b110101 => some inchar
  | 0b111000 => some loadn
  | 0b111100 => some loadi
  | 0b111101 => some storei
  | _ => none

/-- The operation that an instruction word names, if its code is assigned. -/
def ofWord? (w : Word) : Option Opcode :=
  ofCode? (opcodeField w)

/-- The instruction word of an operation with all operand bits clear. -/
def toWord (o : Opcode) : Word :=
  BitVec.ofNat 16 o.code <<< 10

/-- Whether the instruction is followed by an operand word: an immediate value or an address. -/
def hasOperand : Opcode → Bool
  | jmp | call | loadn | load | store => true
  | _ => false

/-- Number of words that an instruction takes. -/
def size (o : Opcode) : Nat :=
  if o.hasOperand then 2 else 1

/-- Whether bit 0 of the instruction word asks for the carry flag to be added to the result. -/
def isCarryAware : Opcode → Bool
  | add | sub | mult | div => true
  | _ => false

/-- The functional unit that carries out the operation. -/
def functionalUnit : Opcode → FunctionalUnit
  | add | sub | mult | div | mod | and | or | xor | not | incDec | cmp | rotateShift | mov => .alu
  | jmp | call | rts => .controlFlow
  | push | pop | loadn | load | store | loadi | storei => .memory
  | nop | halt | breakpoint | carryControl | inchar | outchar => .special

/-- Every operation is found again from its code. -/
@[simp]
theorem ofCode?_code (o : Opcode) : ofCode? o.code = some o := by
  cases o <;> rfl

/-- Reading a code inverts writing it. -/
theorem ofCode?_eq_some_iff {n : Nat} {o : Opcode} : ofCode? n = some o ↔ n = o.code := by
  constructor
  · intro h
    unfold ofCode? at h
    split at h <;> cases h <;> rfl
  · rintro rfl
    exact ofCode?_code o

/-- A code has six bits. -/
theorem code_lt (o : Opcode) : o.code < 64 := by
  cases o <;> decide

/-- An instruction word with an operation put into it is read as that operation. -/
theorem ofWord?_toWord (o : Opcode) : ofWord? o.toWord = some o := by
  cases o <;> rfl

/-- Every operation is in the list of all operations. -/
theorem mem_all (o : Opcode) : o ∈ all := by
  cases o <;> decide

/-- An instruction takes one word or two. -/
theorem size_eq_one_or_two (o : Opcode) : o.size = 1 ∨ o.size = 2 := by
  cases o <;> decide

end Opcode

/-- Whether a memory word, read as an instruction, is followed by an operand word. -/
def takesOperand (w : Word) : Bool :=
  (Opcode.ofWord? w).any Opcode.hasOperand

end Cpu16
