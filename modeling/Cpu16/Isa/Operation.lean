import Cpu16.Isa.Instruction

set_option relaxedAutoImplicit false
set_option autoImplicit false

/-!
# What an instruction means

An instruction word is a pattern of bits, of which each operation looks at some. An
`Operation` holds just those: which registers, which variant, which condition. Execution and
listing are both functions of the operation, so they cannot disagree about the bits that count.

## Main definitions

* `Cpu16.Operation` — the operations with their operands.
* `Cpu16.Instruction.operation` — the operation that an instruction stands for.

## Main results

* `Cpu16.Instruction.size_operation` — the operation takes as many words as its instruction.
-/

namespace Cpu16

/-- The operations on two source registers whose result goes to a third one. -/
inductive BinaryOp
  /-- The sum. -/
  | add
  /-- The difference. -/
  | sub
  /-- The product. -/
  | mult
  /-- The quotient. -/
  | div
  /-- The remainder. -/
  | mod
  /-- The bitwise conjunction. -/
  | and
  /-- The bitwise disjunction. -/
  | or
  /-- The bitwise exclusive disjunction. -/
  | xor
  deriving DecidableEq, Repr

/-- What one instruction does, with the operands that it names. -/
inductive Operation
  /-- Nothing. -/
  | nop
  /-- Stop, staying on this instruction. -/
  | halt
  /-- Stop after this instruction. -/
  | breakpoint
  /-- Set the carry flag. -/
  | setCarry
  /-- Clear the carry flag. -/
  | clearCarry
  /-- `rd` becomes `rs1 op rs2`, plus the carry flag if `addsCarry`. -/
  | binary (op : BinaryOp) (addsCarry : Bool) (rd rs1 rs2 : Register)
  /-- `rd` becomes the complement of `rs`. -/
  | complement (rd rs : Register)
  /-- Add one to `rd`. -/
  | increment (rd : Register)
  /-- Subtract one from `rd`. -/
  | decrement (rd : Register)
  /-- Shift or rotate `rd` in place. -/
  | shift (mode : Shift) (rd : Register) (amount : BitVec 4)
  /-- `rd` becomes `rs`. -/
  | move (rd rs : Register)
  /-- `rd` becomes the stack pointer. -/
  | moveFromStackPointer (rd : Register)
  /-- The stack pointer becomes `rs`. -/
  | moveToStackPointer (rs : Register)
  /-- Compare two registers as unsigned numbers. -/
  | compare (left right : Register)
  /-- Go to the operand if the condition holds. -/
  | jump (condition : Condition)
  /-- Push the address of the next instruction and go to the operand, if the condition holds. -/
  | call (condition : Condition)
  /-- A jump or a call whose condition code is not assigned. -/
  | invalidBranch (code : Nat)
  /-- Pop the program counter. -/
  | ret
  /-- Push a register. -/
  | push (rs : Register)
  /-- Push the flag register. -/
  | pushFlags
  /-- Pop into a register. -/
  | pop (rd : Register)
  /-- Pop into the flag register. -/
  | popFlags
  /-- `rd` becomes the operand. -/
  | loadImmediate (rd : Register)
  /-- `rd` becomes the memory word at the operand. -/
  | load (rd : Register)
  /-- The memory word at the operand becomes `rs`. -/
  | store (rs : Register)
  /-- `rd` becomes the memory word at the address in `ra`. -/
  | loadIndirect (rd ra : Register)
  /-- The memory word at the address in `ra` becomes `rs`. -/
  | storeIndirect (ra rs : Register)
  /-- Poll the input device into `rd`. -/
  | input (rd : Register)
  /-- Draw the character in `rc` at the position in `rp`. -/
  | output (rc rp : Register)
  deriving DecidableEq, Repr

namespace Operation

/-- Whether the operation has an operand word. -/
def hasOperand : Operation → Bool
  | jump _ | call _ | invalidBranch _ | loadImmediate _ | load _ | store _ => true
  | _ => false

/-- Number of words that the operation takes. -/
def size (op : Operation) : Nat :=
  if op.hasOperand then 2 else 1

/-- An operation takes one word or two. -/
theorem size_eq_one_or_two (op : Operation) : op.size = 1 ∨ op.size = 2 := by
  unfold size
  split <;> simp

end Operation

namespace Instruction

/-- A branch of the instruction, which fails on an unassigned condition code. -/
def branch (i : Instruction) (taken : Condition → Operation) : Operation :=
  match Condition.ofCode? i.conditionCode with
  | some c => taken c
  | none => .invalidBranch i.conditionCode

/-- A binary operation of the instruction. -/
def binary (i : Instruction) (op : BinaryOp) : Operation :=
  .binary op i.usesCarry i.rd i.rs1 i.rs2

/-- The operation that an instruction stands for. -/
def operation (i : Instruction) : Operation :=
  match i.opcode with
  | .nop => .nop
  | .jmp => i.branch .jump
  | .call => i.branch .call
  | .rts => .ret
  | .push => if i.modeBit then .pushFlags else .push i.rd
  | .pop => if i.modeBit then .popFlags else .pop i.rd
  | .carryControl => if i.clearsCarry then .clearCarry else .setCarry
  | .breakpoint => .breakpoint
  | .halt => .halt
  | .rotateShift => .shift i.shift i.rd i.shiftAmount
  | .and => i.binary .and
  | .or => i.binary .or
  | .xor => i.binary .xor
  | .not => .complement i.rd i.rs1
  | .cmp => .compare i.rd i.rs1
  | .add => i.binary .add
  | .sub => i.binary .sub
  | .mult => i.binary .mult
  | .div => i.binary .div
  | .incDec => if i.modeBit then .decrement i.rd else .increment i.rd
  | .mod => i.binary .mod
  | .load => .load i.rd
  | .store => .store i.rd
  | .outchar => .output i.rd i.rs1
  | .mov =>
    match i.moveKind with
    | .betweenRegisters => .move i.rd i.rs1
    | .fromStackPointer => .moveFromStackPointer i.rd
    | .toStackPointer => .moveToStackPointer i.rd
  | .inchar => .input i.rd
  | .loadn => .loadImmediate i.rd
  | .loadi => .loadIndirect i.rd i.rs1
  | .storei => .storeIndirect i.rd i.rs1

/-- The operation takes an operand word exactly if its instruction does. -/
theorem hasOperand_operation (i : Instruction) :
    i.operation.hasOperand = i.opcode.hasOperand := by
  obtain ⟨o, w⟩ := i
  cases o <;> simp only [operation, branch, binary] <;> (try split) <;> rfl

/-- The operation takes as many words as its instruction. -/
theorem size_operation (i : Instruction) : i.operation.size = i.size := by
  simp only [Operation.size, size, Opcode.size, hasOperand_operation]

end Instruction

end Cpu16
