import Cpu16.Proofs.Checked.Primitives
import Cpu16.Proofs.Step.FaultTable

set_option relaxedAutoImplicit false
set_option autoImplicit false

/-!
# Execution with checked operations

This file executes instructions with partial operations. Fields are shifted out of the instruction
word, the stack pointer and the program counter are moved by sums and differences that must not
overflow, and registers and memory are arrays that must not be indexed outside. Only what is meant
to wrap around does: sums, differences and products of wide operands, a decrement, the carry added
to a result, and the address of the next instruction.

It comes to the same effects, and never to a trap. Each check of an address keeps the operations
after it in range: a stack pointer that may be pushed at is not zero, one that may be popped from
and a program counter that may be fetched from are not the last word there is.

## Main definitions

* `Cpu16.Instruction.stageChecked` — the effects of an instruction.
* `Cpu16.executeChecked` — the exchange with the device, then the effects and their last check.

## Main results

* `Cpu16.Instruction.stageChecked_eq`, `Cpu16.executeChecked_eq` — neither of them traps.
-/

universe u

namespace Cpu16

/-! ## Fields and registers -/

namespace Instruction

/-- The register that the field at bit `b` of the instruction word selects. -/
def registerChecked (i : Instruction) (b : Nat) : Except Trap Register := do
  return (← Checked.field i.word b 3).toFin

/-- The value of the register that the field at bit `b` of the instruction word selects. -/
def valueChecked (i : Instruction) (regs : Registers) (b : Nat) : Except Trap Word := do
  Checked.get regs.general (← i.registerChecked b).val

/-- Bit `b` of the instruction word. -/
def bitChecked (i : Instruction) (b : Nat) : Except Trap Bool :=
  Checked.bit i.word b

variable (i : Instruction) (regs : Registers)

/-- A register field within the word is read without a trap. -/
theorem registerChecked_eq {b : Nat} (h : b < 16) :
    i.registerChecked b = .ok (Register.atBit i.word b) := by
  rw [registerChecked, Checked.field_eq_ok _ 3 h]
  rfl

/-- So is the value of the register that the field names. -/
theorem valueChecked_eq {b : Nat} (h : b < 16) :
    i.valueChecked regs b = .ok (regs.get (Register.atBit i.word b)) := by
  rw [valueChecked, registerChecked_eq i h]
  exact Checked.get_eq_ok _ (Register.atBit i.word b).isLt

/-- The destination field of an instruction lies within the word. -/
@[simp]
theorem rd_checked : i.registerChecked 7 = .ok i.rd := i.registerChecked_eq (by decide)

/-- The value of the destination register is read without a trap. -/
@[simp]
theorem rd_value_checked : i.valueChecked regs 7 = .ok (regs.get i.rd) :=
  i.valueChecked_eq regs (by decide)

/-- The value of the first source register is read without a trap. -/
@[simp]
theorem rs1_value_checked : i.valueChecked regs 4 = .ok (regs.get i.rs1) :=
  i.valueChecked_eq regs (by decide)

/-- The value of the second source register is read without a trap. -/
@[simp]
theorem rs2_value_checked : i.valueChecked regs 1 = .ok (regs.get i.rs2) :=
  i.valueChecked_eq regs (by decide)

/-- The mode bit lies within the word. -/
@[simp]
theorem modeBit_checked : i.bitChecked 6 = .ok i.modeBit := Checked.bit_eq_ok _ (by decide)

/-- The bit that tells the two carry controls apart lies within the word. -/
@[simp]
theorem clearsCarry_checked : i.bitChecked 9 = .ok i.clearsCarry :=
  Checked.bit_eq_ok _ (by decide)

end Instruction

/-! ## Arithmetic, logic and shifts -/

/-- The change of the flags for a wide result, whose bit 15 is tested. -/
def FlagChange.arithmeticChecked (result : BitVec 32) : Except Trap FlagChange := do
  let negative ← Checked.bit result 15
  return owning arithmeticMask
    ((if result.setWidth 16 = 0 then Flag.zero.mask else 0) |||
      (if 0xFFFF < result then Flag.carry.mask else 0) |||
      (if negative then Flag.negative.mask else 0))

/-- The flags of a wide result are computed without a trap: the shift to the sign bit is shorter
than the result is wide. -/
@[simp]
theorem FlagChange.arithmeticChecked_eq (result : BitVec 32) :
    arithmeticChecked result = .ok (arithmetic result) := by
  rw [arithmeticChecked, Checked.bit_eq_ok result (by decide)]
  rfl

/-- A shift by an amount that must be less than the width; a rotation takes any amount. -/
def Shift.applyChecked (mode : Shift) (v : Word) (amount : Nat) : Except Trap Word :=
  match mode with
  | leftZero => Checked.shiftLeft v amount
  | leftOne => do return ~~~(← Checked.shiftLeft (~~~v) amount)
  | rightZero => Checked.shiftRight v amount
  | rightOne => do return ~~~(← Checked.shiftRight (~~~v) amount)
  | rotateLeft => .ok (v.rotateLeft amount)
  | rotateRight => .ok (v.rotateRight amount)

/-- A shift by less than the width of a word does not trap. -/
theorem Shift.applyChecked_eq (mode : Shift) (v : Word) {amount : Nat} (h : amount < 16) :
    mode.applyChecked v amount = .ok (mode.apply v amount) := by
  cases mode with
  | leftZero => exact Checked.shiftLeft_eq_ok v h
  | leftOne => rw [applyChecked, Checked.shiftLeft_eq_ok _ h]; rfl
  | rightZero => exact Checked.shiftRight_eq_ok v h
  | rightOne => rw [applyChecked, Checked.shiftRight_eq_ok _ h]; rfl
  | rotateLeft | rotateRight => rfl

namespace Instruction

variable (i : Instruction) (regs : Registers) (e : Effects)

/-- A wide result with the carry flag added, if the instruction asks for it. It wraps around. -/
def withCarry (i : Instruction) (regs : Registers) (r : BitVec 32) : BitVec 32 :=
  if i.usesCarry && regs.hasFlag Flag.carry.mask then r + 1 else r

/-- What a binary operation that always has a result stages, over `e`. -/
def binaryChecked (i : Instruction) (regs : Registers)
    (op : BitVec 32 → BitVec 32 → BitVec 32) (e : Effects) : Except Trap Effects := do
  let a := widen (← i.valueChecked regs 4)
  let b := widen (← i.valueChecked regs 1)
  let result := i.withCarry regs (op a b)
  return { e with
    dest := some (← i.registerChecked 7, narrow result)
    flags := ← FlagChange.arithmeticChecked result }

/-- What a division stages, over `e`. It is tried only by a divisor other than zero. -/
def divisionChecked (i : Instruction) (regs : Registers)
    (op : BitVec 32 → BitVec 32 → Except Trap (BitVec 32)) (e : Effects) :
    Except Trap Effects := do
  let a := widen (← i.valueChecked regs 4)
  let b := widen (← i.valueChecked regs 1)
  if b = 0 then
    return { e with flags := .divideByZero }
  let result := i.withCarry regs (← op a b)
  return { e with
    dest := some (← i.registerChecked 7, narrow result)
    flags := (← FlagChange.arithmeticChecked result).clearing Flag.divideByZero.mask }

/-- What an increment or a decrement stages, over `e`. The wide sum must not overflow; the wide
difference wraps around. -/
def countChecked (i : Instruction) (regs : Registers) (e : Effects) : Except Trap Effects := do
  let value := widen (← i.valueChecked regs 7)
  let result ← if ← i.bitChecked 6 then .ok (value - 1) else Checked.add value 1
  return { e with
    dest := some (← i.registerChecked 7, narrow result)
    flags := ← FlagChange.arithmeticChecked result }

/-- What a shift stages, over `e`. Its amount is the four lowest bits of the instruction word. -/
def shiftChecked (i : Instruction) (regs : Registers) (e : Effects) : Except Trap Effects := do
  let mode := Shift.ofField (← Checked.field i.word 4 3)
  let amount := (i.word &&& 0b1111).toNat
  let value ← i.valueChecked regs 7
  return { e with dest := some (← i.registerChecked 7, ← mode.applyChecked value amount) }

/-- An operation that is no division is computed on wide operands without a trap, as the function
that belongs to it is total. -/
theorem binaryChecked_eq (op : BinaryOp) {f : BitVec 32 → BitVec 32 → BitVec 32}
    (hop : op.isDivision = false) (hf : ∀ a b, op.eval a b = some (f a b)) :
    i.binaryChecked regs f e = .ok (regs.stageBinary op i.usesCarry i.rd i.rs1 i.rs2 e) := by
  simp only [binaryChecked, Registers.stageBinary, rs1_value_checked, rs2_value_checked, rd_checked,
    FlagChange.arithmeticChecked_eq, hf, hop]
  rfl

/-- A division does not trap either: its function is called with a divisor other than zero only. -/
theorem divisionChecked_eq (op : BinaryOp) {f : BitVec 32 → BitVec 32 → Except Trap (BitVec 32)}
    {g : BitVec 32 → BitVec 32 → BitVec 32} (hop : op.isDivision = true)
    (hf : ∀ a b, b ≠ 0 → f a b = .ok (g a b))
    (hg : ∀ a b, op.eval a b = if b = 0 then none else some (g a b)) :
    i.divisionChecked regs f e = .ok (regs.stageBinary op i.usesCarry i.rd i.rs1 i.rs2 e) := by
  simp only [divisionChecked, Registers.stageBinary, rs1_value_checked, rs2_value_checked,
    rd_checked, FlagChange.arithmeticChecked_eq, hg, hop]
  show (if widen (regs.get i.rs2) = 0 then _ else _) = _
  by_cases hb : widen (regs.get i.rs2) = 0
  · rw [if_pos hb, if_pos hb]
    rfl
  · rw [if_neg hb, if_neg hb, hf _ _ hb]
    rfl

/-- A wide word has room for one more. -/
theorem add_one_widen (a : Word) : Checked.add (widen a) 1 = .ok (widen a + 1) := by
  refine Checked.add_eq_ok ?_
  have ha : (widen a).toNat = a.toNat := BitVec.toNat_setWidth_of_le (by decide)
  have hlt : a.toNat < 0x10000 := a.isLt
  show (widen a).toNat + 1 < 0x100000000
  omega

/-- An increment fits into the wide result, and a decrement wraps there by design. -/
theorem countChecked_eq :
    i.countChecked regs e = .ok (if i.modeBit then
        Registers.stageCount i.rd (widen (regs.get i.rd) - 1) e
      else Registers.stageCount i.rd (widen (regs.get i.rd) + 1) e) := by
  simp only [countChecked, rd_value_checked, rd_checked, modeBit_checked, add_one_widen,
    FlagChange.arithmeticChecked_eq]
  cases i.modeBit <;> rfl

/-- A shift amount is a field of four bits, and therefore less than the width of a word. -/
theorem shiftChecked_eq :
    i.shiftChecked regs e =
      .ok { e with dest := some (i.rd, i.shift.apply (regs.get i.rd) i.shiftAmount.toNat) } := by
  have hamount : (i.word &&& 0b1111).toNat = i.shiftAmount.toNat := by
    rw [BitVec.toNat_and]
    exact Nat.and_two_pow_sub_one_eq_mod i.word.toNat 4
  have hlt : i.shiftAmount.toNat < 16 := i.shiftAmount.isLt
  simp only [shiftChecked, Checked.field_eq_ok i.word 3 (show 4 < 16 by decide), rd_value_checked,
    rd_checked, hamount]
  show (do
    let value ← i.shift.applyChecked (regs.get i.rd) i.shiftAmount.toNat
    return { e with dest := some (i.rd, value) }) = _
  rw [Shift.applyChecked_eq _ _ hlt]
  rfl

end Instruction

/-! ## Memory -/

/-- Memory with its bound as the length of an array. -/
def Memory.vector (mem : Memory) : Vector Word mem.size := mem.words.toVector

/-- The word at an address, or the fault of an address outside memory. The address is looked up only
after it has been compared with the length of memory. -/
def Memory.readChecked (mem : Memory) (a : Word) : Guarded Word :=
  if mem.contains a then
    liftM (Checked.get mem.vector a.toNat)
  else
    throw .invalidAddress

/-- The addresses in memory are those below its size. -/
theorem Memory.contains_iff {mem : Memory} {a : Word} :
    mem.contains a = true ↔ a.toNat < mem.size :=
  decide_eq_true_iff

/-- A read looks at memory only where there is a word, so it never traps. -/
theorem Memory.readChecked_eq (mem : Memory) (a : Word) :
    mem.readChecked a = untrapped (mem.read a) := by
  unfold readChecked read
  by_cases h : a.toNat < mem.size
  · have hget : mem.get? a = some mem.vector[a.toNat] := by
      simp only [get?, vector, size] at h ⊢
      simp [h]
    rw [if_pos (contains_iff.mpr h), hget, Checked.get_eq_ok _ h]
    rfl
  · rw [if_neg (mt contains_iff.mp h), get?_eq_none_iff.mpr (Nat.le_of_not_lt h)]
    rfl

/-- The operand word, which stands after the instruction word. -/
def Machine.operandChecked (m : Machine) : Guarded Word := do
  untrapped (Access.fetch.check m.regs.pc)
  m.memory.readChecked (← Checked.add m.regs.pc 1)

/-- An address below the reserved one is not the last word, so there is a word after it. -/
theorem Checked.add_one_of_allows {k : Access} {a : Word} (hk : k = .fetch ∨ k = .pop ∨ k = .ret)
    (h : k.allows a = true) : Checked.add a 1 = .ok (a + 1) := by
  refine add_one_eq_ok ?_
  rcases hk with rfl | rfl | rfl <;> simp only [Access.allows, decide_eq_true_eq] at h <;>
    exact BitVec.lt_trans h (by decide)

/-- A stack pointer that may be pushed at is not zero, so there is a word before it. -/
theorem Checked.sub_one_of_allows {a : Word} (h : Access.push.allows a = true) :
    Checked.sub a 1 = .ok (a - 1) := by
  refine sub_eq_ok ?_
  simp only [Access.allows, Bool.and_eq_true, decide_eq_true_eq] at h
  have hpos := h.1
  bv_omega

/-- The operand is fetched without a trap: the fetch check bounds the program counter, so the next
address does not overflow. -/
theorem Machine.operandChecked_eq (m : Machine) : m.operandChecked = untrapped m.operand := by
  refine untrapped_bind fun _ hpc => ?_
  rw [Checked.add_one_of_allows (.inl rfl) (Access.check_eq_ok_iff.mp hpc)]
  exact m.memory.readChecked_eq _

/-- The operand word as the address of a load or a store. -/
def Machine.operandAddressChecked (m : Machine) : Guarded Word := do
  let a ← m.operandChecked
  untrapped (Access.data.check a)
  return a

/-- The operand is checked as an address without a trap. -/
theorem Machine.operandAddressChecked_eq (m : Machine) :
    m.operandAddressChecked = untrapped m.operandAddress := by
  rw [operandAddressChecked, operandChecked_eq]
  exact untrapped_bind fun a _ => untrapped_bind fun _ _ => rfl

/-! ## Staging -/

/-- What pushing a value stages, over `e`. -/
def Registers.stagePushChecked (regs : Registers) (value : Word) (e : Effects) :
    Guarded Effects := do
  untrapped (Access.push.check regs.sp)
  return { e with write := some (regs.sp, value), sp := some (← Checked.sub regs.sp 1) }

/-- A push is staged without a trap: its check keeps the stack pointer above zero, so it can be
decremented. -/
theorem Registers.stagePushChecked_eq (regs : Registers) (value : Word) (e : Effects) :
    regs.stagePushChecked value e = untrapped (regs.stagePush value e) := by
  refine untrapped_bind fun _ hsp => ?_
  rw [Checked.sub_one_of_allows (Access.check_eq_ok_iff.mp hsp)]
  rfl

/-- The word above the stack pointer, and the stack pointer moved up to it. -/
def Machine.popChecked (m : Machine) (k : Access) : Guarded (Word × Word) := do
  untrapped (k.check m.regs.sp)
  let value ← m.memory.readChecked (← Checked.add m.regs.sp 1)
  return (value, ← Checked.add m.regs.sp 1)

/-- A pop, and whatever goes on with the popped word, does not trap: its check keeps the stack
pointer below the end of memory, so it can be incremented. -/
theorem Machine.popChecked_bind {α : Type} (m : Machine) {k : Access} (hk : k = .pop ∨ k = .ret)
    {g : Word × Word → Guarded α} {h : Word → Except Fault α}
    (hg : ∀ value, g (value, m.regs.sp + 1) = untrapped (h value)) :
    m.popChecked k >>= g = untrapped (do
      k.check m.regs.sp
      let value ← m.memory.read (m.regs.sp + 1)
      h value) := by
  rw [popChecked, bind_assoc]
  refine untrapped_bind fun _ hsp => ?_
  rw [Checked.add_one_of_allows (.inr hk) (Access.check_eq_ok_iff.mp hsp)]
  simp only [liftM_ok, pure_bind, bind_assoc, Memory.readChecked_eq]
  exact untrapped_bind fun value _ => hg value

namespace Instruction

/-- The condition of a jump or a call. -/
def conditionChecked (i : Instruction) : Guarded Condition := do
  match Condition.ofCode? (← Checked.field i.word 6 4).toNat with
  | some c => return c
  | none => throw .invalidCondition

/-- What the instruction stages, before the last check. `reply` is the reply of the device. -/
def stageChecked (i : Instruction) (m : Machine) (reply : Word) : Guarded Effects := do
  let regs := m.regs
  let next := Effects.fallThrough regs.pc i.size
  match i.opcode with
  | .nop | .outchar => return next
  | .halt => return { next with nextPc := regs.pc, stop := some .halt }
  | .breakpoint => return { next with stop := some .breakpoint }
  | .carryControl =>
    if ← i.bitChecked 9 then
      return { next with flags := .modify 0 Flag.carry.mask }
    else
      return { next with flags := .modify Flag.carry.mask 0 }
  | .add => i.binaryChecked regs (· + ·) next
  | .sub => i.binaryChecked regs (· - ·) next
  | .mult => i.binaryChecked regs (· * ·) next
  | .and => i.binaryChecked regs (· &&& ·) next
  | .or => i.binaryChecked regs (· ||| ·) next
  | .xor => i.binaryChecked regs (· ^^^ ·) next
  | .div => i.divisionChecked regs Checked.div next
  | .mod => i.divisionChecked regs Checked.mod next
  | .not =>
    return { next with dest := some (← i.registerChecked 7, ~~~(← i.valueChecked regs 4)) }
  | .incDec => i.countChecked regs next
  | .rotateShift => i.shiftChecked regs next
  | .mov =>
    match i.moveKind with
    | .betweenRegisters =>
      return { next with dest := some (← i.registerChecked 7, ← i.valueChecked regs 4) }
    | .fromStackPointer => return { next with dest := some (← i.registerChecked 7, regs.sp) }
    | .toStackPointer => return { next with sp := some (← i.valueChecked regs 7) }
  | .cmp =>
    let left ← i.valueChecked regs 7
    let right ← i.valueChecked regs 4
    return { next with flags := .compare (ordering left right) }
  | .jmp =>
    let condition ← i.conditionChecked
    let target ← m.operandChecked
    return if condition.holds regs.flagWord then { next with nextPc := target } else next
  | .call =>
    let condition ← i.conditionChecked
    let target ← m.operandChecked
    if condition.holds regs.flagWord then
      regs.stagePushChecked next.nextPc { next with nextPc := target }
    else
      return next
  | .rts =>
    let (target, sp) ← m.popChecked .ret
    return { next with nextPc := target, sp := some sp }
  | .push =>
    if ← i.bitChecked 6 then
      regs.stagePushChecked regs.flagWord next
    else
      regs.stagePushChecked (← i.valueChecked regs 7) next
  | .pop =>
    let (value, sp) ← m.popChecked .pop
    if ← i.bitChecked 6 then
      return { next with flags := .assign (value &&& Flags.activeMask), sp := some sp }
    else
      return { next with dest := some (← i.registerChecked 7, value), sp := some sp }
  | .loadn =>
    let value ← m.operandChecked
    return { next with dest := some (← i.registerChecked 7, value) }
  | .load =>
    let a ← m.operandAddressChecked
    let value ← m.memory.readChecked a
    return { next with dest := some (← i.registerChecked 7, value) }
  | .store =>
    let a ← m.operandAddressChecked
    return { next with write := some (a, ← i.valueChecked regs 7) }
  | .loadi =>
    let a ← i.valueChecked regs 4
    untrapped (Access.data.check a)
    let value ← m.memory.readChecked a
    return { next with dest := some (← i.registerChecked 7, value) }
  | .storei =>
    let a ← i.valueChecked regs 7
    untrapped (Access.data.check a)
    return { next with write := some (a, ← i.valueChecked regs 4) }
  | .inchar => return { next with dest := some (← i.registerChecked 7, reply) }

/-- A condition code is looked up without a trap. The code without a meaning is a fault. -/
theorem conditionChecked_eq (i : Instruction) :
    i.conditionChecked = untrapped (match Condition.ofCode? i.conditionCode with
      | some c => .ok c
      | none => .error .invalidCondition) := by
  rw [conditionChecked, Checked.field_eq_ok _ 4 (by decide)]
  show (match Condition.ofCode? i.conditionCode with
    | some c => pure c
    | none => throw Fault.invalidCondition) = _
  cases Condition.ofCode? i.conditionCode <;> rfl

/-- A branch goes on with its condition, or fails at its condition code. -/
theorem conditionChecked_bind (i : Instruction) {m : Machine} {reply : Word}
    {taken : Condition → Operation} {g : Condition → Guarded Effects}
    (hg : ∀ c, g c = untrapped ((taken c).stage m reply)) :
    i.conditionChecked >>= g = untrapped ((i.branch taken).stage m reply) := by
  rw [conditionChecked_eq, branch]
  cases Condition.ofCode? i.conditionCode with
  | none => rfl
  | some c => exact hg c

/-- **Staging does not trap**, whatever the instruction word and the machine: it comes to what the
operation of the instruction stages.

**Proof sketch.** By the operation code. Fields and registers never trap, and arithmetic does not on
the operands that it gets. What follows a check of an address may use that the check has passed. -/
theorem stageChecked_eq (i : Instruction) (m : Machine) (reply : Word) :
    i.stageChecked m reply = untrapped (i.operation.stage m reply) := by
  obtain ⟨o, w⟩ := i
  cases o
  case nop | outchar | halt | breakpoint => rfl
  case carryControl =>
    simp only [stageChecked, operation, clearsCarry_checked, liftM_ok, pure_bind]
    cases clearsCarry ⟨.carryControl, w⟩ <;> rfl
  -- These wrap around, so that the functions which belong to them are total.
  case add => exact liftM_eq_untrapped (binaryChecked_eq _ _ _ .add rfl fun _ _ => rfl)
  case sub => exact liftM_eq_untrapped (binaryChecked_eq _ _ _ .sub rfl fun _ _ => rfl)
  case mult => exact liftM_eq_untrapped (binaryChecked_eq _ _ _ .mult rfl fun _ _ => rfl)
  case and => exact liftM_eq_untrapped (binaryChecked_eq _ _ _ .and rfl fun _ _ => rfl)
  case or => exact liftM_eq_untrapped (binaryChecked_eq _ _ _ .or rfl fun _ _ => rfl)
  case xor => exact liftM_eq_untrapped (binaryChecked_eq _ _ _ .xor rfl fun _ _ => rfl)
  case div =>
    exact liftM_eq_untrapped
      (divisionChecked_eq _ _ _ .div rfl (fun _ _ hb => if_neg hb) fun _ _ => rfl)
  case mod =>
    exact liftM_eq_untrapped
      (divisionChecked_eq _ _ _ .mod rfl (fun _ _ hb => if_neg hb) fun _ _ => rfl)
  case not =>
    simp only [stageChecked, rd_checked, rs1_value_checked, liftM_ok, pure_bind]
    rfl
  case incDec =>
    refine (liftM_eq_untrapped (countChecked_eq _ _ _)).trans ?_
    simp only [operation]
    cases modeBit ⟨.incDec, w⟩ <;> rfl
  case rotateShift => exact liftM_eq_untrapped (shiftChecked_eq _ _ _)
  case mov =>
    simp only [stageChecked, operation, rd_checked, rd_value_checked, rs1_value_checked, liftM_ok,
      pure_bind]
    cases moveKind ⟨.mov, w⟩ <;> rfl
  case cmp =>
    simp only [stageChecked, rd_value_checked, rs1_value_checked, liftM_ok, pure_bind]
    rfl
  -- From here on a check may fail on the way, and then it fails in both alike.
  case jmp =>
    refine conditionChecked_bind _ fun c => ?_
    rw [m.operandChecked_eq]
    exact untrapped_bind fun target _ => rfl
  case call =>
    refine conditionChecked_bind _ fun c => ?_
    rw [m.operandChecked_eq]
    refine untrapped_bind fun target _ => ?_
    by_cases h : c.holds m.regs.flagWord = true
    · rw [if_pos h, if_pos h]
      exact m.regs.stagePushChecked_eq _ _
    · rw [if_neg h, if_neg h]
      rfl
  case rts => exact m.popChecked_bind (.inr rfl) fun target => rfl
  case push =>
    simp only [stageChecked, operation, modeBit_checked, rd_value_checked, liftM_ok, pure_bind]
    cases modeBit ⟨.push, w⟩
    · exact m.regs.stagePushChecked_eq _ _
    · exact m.regs.stagePushChecked_eq _ _
  case pop =>
    simp only [stageChecked, operation, modeBit_checked, rd_checked, liftM_ok, pure_bind]
    cases modeBit ⟨.pop, w⟩
    · exact m.popChecked_bind (.inl rfl) fun value => rfl
    · exact m.popChecked_bind (.inl rfl) fun value => rfl
  case loadn =>
    simp only [stageChecked, rd_checked, liftM_ok, pure_bind, m.operandChecked_eq]
    exact untrapped_bind fun value _ => rfl
  case load =>
    simp only [stageChecked, rd_checked, liftM_ok, pure_bind, m.operandAddressChecked_eq,
      Memory.readChecked_eq]
    exact untrapped_bind fun a _ => untrapped_bind fun value _ => rfl
  case store =>
    simp only [stageChecked, rd_value_checked, liftM_ok, pure_bind, m.operandAddressChecked_eq]
    exact untrapped_bind fun a _ => rfl
  case loadi =>
    simp only [stageChecked, rd_checked, rs1_value_checked, liftM_ok, pure_bind,
      Memory.readChecked_eq]
    exact untrapped_bind fun _ _ => untrapped_bind fun value _ => rfl
  case storei =>
    simp only [stageChecked, rd_value_checked, rs1_value_checked, liftM_ok, pure_bind]
    exact untrapped_bind fun _ _ => rfl
  case inchar =>
    simp only [stageChecked, rd_checked, liftM_ok, pure_bind]
    rfl

end Instruction

/-! ## Executing -/

/-- The exchange with the device that the instruction asks for. -/
def Instruction.exchangeChecked (i : Instruction) (regs : Registers) : Except Trap Exchange := do
  match i.opcode with
  | .inchar => return .poll
  | .outchar => return .draw (← i.valueChecked regs 7) (← i.valueChecked regs 4)
  | _ => return .none

/-- What an instruction asks of its device is found without a trap. -/
theorem Instruction.exchangeChecked_eq (i : Instruction) (regs : Registers) :
    i.exchangeChecked regs = .ok (i.operation.exchange regs) := by
  rw [exchange_operation]
  obtain ⟨o, w⟩ := i
  cases o
  case outchar =>
    simp only [exchangeChecked, rd_value_checked, rs1_value_checked]
    rfl
  all_goals rfl

/-- The effects of an instruction, after their last check. -/
def Instruction.effectsChecked (i : Instruction) (m : Machine) (reply : Word) :
    Guarded Effects := do
  let e ← i.stageChecked m reply
  untrapped e.checked

/-- **The effects of an instruction** are staged and checked without a trap. -/
theorem Instruction.effectsChecked_eq (i : Instruction) (m : Machine) (reply : Word) :
    i.effectsChecked m reply = untrapped (i.operation.stage m reply >>= Effects.checked) := by
  rw [effectsChecked, stageChecked_eq]
  exact untrapped_bind fun e _ => rfl

/-- Executes an instruction: the exchange with the device, then the effects and their last check.
The device itself is taken as it is. -/
def executeChecked {σ : Type u} (dev : Device σ) (i : Instruction) (m : Machine) (s : σ) :
    Except Trap (Except Fault Effects × σ) :=
  (i.exchangeChecked m.regs).bind fun x =>
    match dev.perform x s with
    | (.ok reply, s) => (i.effectsChecked m reply).run.map fun result => (result, s)
    | (.error f, s) => .ok (.error f, s)

/-- **Executing an instruction does not trap**, for every instruction, also for one whose operation
is not the one that its word names, and from every machine. -/
theorem executeChecked_eq {σ : Type u} (dev : Device σ) (i : Instruction) (m : Machine) (s : σ) :
    executeChecked dev i m s = .ok (execute dev i.operation m s) := by
  rw [executeChecked, i.exchangeChecked_eq, execute]
  simp only [Except.bind]
  rcases dev.perform (i.operation.exchange m.regs) s with ⟨f | reply, s⟩
  · rfl
  · simp only [i.effectsChecked_eq]
    rfl

end Cpu16
