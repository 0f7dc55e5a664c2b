import Cpu16.Step.Arithmetic
import Cpu16.Step.Device
import Cpu16.Step.Effects

set_option relaxedAutoImplicit false
set_option autoImplicit false

/-!
# Executing an operation

An operation first has its exchange with the device, if it asks for one, and then stages its
effects. The order of the checks decides which fault wins: the condition code, the operand
word, the data address, the stack pointer, and at last the staged program counter and stack
pointer.

## Main definitions

* `Cpu16.Operation.exchange` — what the operation asks of the device.
* `Cpu16.Operation.stage` — the effects of the operation, given the reply of the device.
* `Cpu16.execute` — both together.

## Implementation notes

`Operation.stage` knows nothing of a device. The reply of the device is a word, which only the
polling operation looks at, so all that an operation does to the machine is a function of the
machine and of that word.
-/

universe u

namespace Cpu16

namespace Registers

/-- What a binary operation stages, over `e`. A division by zero is recorded in the flags and
writes no register; a division by another number clears that record. -/
def stageBinary (regs : Registers) (op : BinaryOp) (addsCarry : Bool) (rd rs1 rs2 : Register)
    (e : Effects) : Effects :=
  match op.eval (widen (regs.get rs1)) (widen (regs.get rs2)) with
  | none => { e with flags := .divideByZero }
  | some r =>
    let result := if addsCarry && regs.hasFlag Flag.carry.mask then r + 1 else r
    let flags := FlagChange.arithmetic result
    { e with
      dest := some (rd, narrow result)
      flags := if op.isDivision then flags.clearing Flag.divideByZero.mask else flags }

/-- What an increment or a decrement of `rd` stages, over `e`: its wide result. -/
def stageCount (rd : Register) (result : BitVec 32) (e : Effects) : Effects :=
  { e with dest := some (rd, narrow result), flags := .arithmetic result }

/-- What pushing a value stages, over `e`. -/
def stagePush (regs : Registers) (value : Word) (e : Effects) : Except Fault Effects := do
  Access.push.check regs.sp
  return { e with write := some (regs.sp, value), sp := some (regs.sp - 1) }

end Registers

namespace Machine

/-- The operand word, which stands after the instruction word. -/
def operand (m : Machine) : Except Fault Word := do
  Access.fetch.check m.regs.pc
  m.memory.read (m.regs.pc + 1)

/-- The operand word as the address of a load or a store. -/
def operandAddress (m : Machine) : Except Fault Word := do
  let a ← m.operand
  Access.data.check a
  return a

end Machine

namespace Operation

/-- What the operation asks of the device. -/
def exchange (regs : Registers) : Operation → Exchange
  | input _ => .poll
  | output rc rp => .draw (regs.get rc) (regs.get rp)
  | _ => .none

/-- What the operation stages, before the last check. `reply` is the reply of the device. -/
def stage (m : Machine) (reply : Word) (op : Operation) : Except Fault Effects :=
  let regs := m.regs
  let next := Effects.fallThrough regs.pc op.size
  match op with
  | nop => .ok next
  | halt => .ok { next with nextPc := regs.pc, stop := some .halt }
  | breakpoint => .ok { next with stop := some .breakpoint }
  | setCarry => .ok { next with flags := .modify Flag.carry.mask 0 }
  | clearCarry => .ok { next with flags := .modify 0 Flag.carry.mask }
  | binary f addsCarry rd rs1 rs2 => .ok (regs.stageBinary f addsCarry rd rs1 rs2 next)
  | complement rd rs => .ok { next with dest := some (rd, ~~~regs.get rs) }
  | increment rd => .ok (Registers.stageCount rd (widen (regs.get rd) + 1) next)
  | decrement rd => .ok (Registers.stageCount rd (widen (regs.get rd) - 1) next)
  | shift mode rd amount =>
    .ok { next with dest := some (rd, mode.apply (regs.get rd) amount.toNat) }
  | move rd rs => .ok { next with dest := some (rd, regs.get rs) }
  | moveFromStackPointer rd => .ok { next with dest := some (rd, regs.sp) }
  | moveToStackPointer rs => .ok { next with sp := some (regs.get rs) }
  | compare left right =>
    .ok { next with flags := .compare (ordering (regs.get left) (regs.get right)) }
  | jump condition => do
    let target ← m.operand
    return if condition.holds regs.flagWord then { next with nextPc := target } else next
  | call condition => do
    let target ← m.operand
    if condition.holds regs.flagWord then
      regs.stagePush next.nextPc { next with nextPc := target }
    else
      return next
  | invalidBranch _ => .error .invalidCondition
  | ret => do
    Access.ret.check regs.sp
    let target ← m.memory.read (regs.sp + 1)
    return { next with nextPc := target, sp := some (regs.sp + 1) }
  | push rs => regs.stagePush (regs.get rs) next
  | pushFlags => regs.stagePush regs.flagWord next
  | pop rd => do
    Access.pop.check regs.sp
    let value ← m.memory.read (regs.sp + 1)
    return { next with dest := some (rd, value), sp := some (regs.sp + 1) }
  | popFlags => do
    Access.pop.check regs.sp
    let value ← m.memory.read (regs.sp + 1)
    return { next with flags := .assign (value &&& Flags.activeMask), sp := some (regs.sp + 1) }
  | loadImmediate rd => do
    let value ← m.operand
    return { next with dest := some (rd, value) }
  | load rd => do
    let value ← m.memory.read (← m.operandAddress)
    return { next with dest := some (rd, value) }
  | store rs => do
    let a ← m.operandAddress
    return { next with write := some (a, regs.get rs) }
  | loadIndirect rd ra => do
    Access.data.check (regs.get ra)
    let value ← m.memory.read (regs.get ra)
    return { next with dest := some (rd, value) }
  | storeIndirect ra rs => do
    Access.data.check (regs.get ra)
    return { next with write := some (regs.get ra, regs.get rs) }
  | input rd => .ok { next with dest := some (rd, reply) }
  | output _ _ => .ok next

end Operation

/-- Executes an operation: the exchange with the device, then the effects and their last check.
If the exchange fails, so does the operation. -/
def execute {σ : Type u} (dev : Device σ) (op : Operation) (m : Machine) (s : σ) :
    Except Fault Effects × σ :=
  match dev.perform (op.exchange m.regs) s with
  | (.ok reply, s) => (op.stage m reply >>= Effects.checked, s)
  | (.error f, s) => (.error f, s)

end Cpu16
