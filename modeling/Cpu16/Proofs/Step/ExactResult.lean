import Cpu16.Proofs.Isa.FlagBits
import Cpu16.Proofs.Step.Staging

set_option relaxedAutoImplicit false
set_option autoImplicit false

/-!
# Exact results

Arithmetic is carried out on operands widened to 32 bits and wraps there. This is wide enough: the
exact result, an integer, can be told from the wide one. So the destination register receives the
exact result modulo 2^16, and the carry flag says whether the exact result is a word.

## Main definitions

* `Cpu16.BinaryOp.exact`, `Cpu16.Instruction.exactResult?` — the exact result of an operation on two
  words, and of an instruction.
* `Cpu16.Represents` — a wide result stands for an exact one.

## Main results

* `Cpu16.BinaryOp.represents_eval` — the wide result of an operation stands for the exact one.
* `Cpu16.Represents.narrow_eq`, `Cpu16.Represents.carry_iff` — what the destination register and the
  carry flag make of it.
* `Cpu16.Instruction.exists_represents` — what an instruction with an exact result stages.
-/

namespace Cpu16

/-! ## Wide results -/

/-- A widened word has the same value. -/
theorem toNat_widen (a : Word) : (widen a).toNat = a.toNat := by
  have := a.isLt
  simp only [widen, BitVec.toNat_setWidth]
  omega

/-- A widened word is zero exactly if the word is. -/
theorem widen_eq_zero_iff {a : Word} : widen a = 0 ↔ a = 0 := by
  rw [← BitVec.toNat_inj, ← BitVec.toNat_inj, toNat_widen]
  rfl

/-- The wide result `r` stands for the integer `z`: it is `z` modulo 2^32, and `z` is near enough to
the words for `r` to tell whether it is one. -/
structure Represents (r : BitVec 32) (z : Int) : Prop where
  /-- They agree modulo 2^32. -/
  toNat : (r.toNat : Int) = z % 0x100000000
  /-- Below zero, the integer is at most a word away. -/
  lower : -0x10000 < z
  /-- Above, it fits into the wide result. -/
  upper : z < 0x100000000

namespace Represents

variable {r : BitVec 32} {z : Int}

/-- A wide result without a wrap stands for itself. -/
theorem of_toNat (h : (r.toNat : Int) = z) : Represents r z := by
  have := r.isLt
  exact ⟨by omega, by omega, by omega⟩

/-- One more. -/
theorem succ (h : Represents r z) (hz : z + 1 < 0x100000000) : Represents (r + 1) (z + 1) := by
  have hr := h.toNat
  have hlower := h.lower
  refine ⟨?_, by omega, hz⟩
  rw [BitVec.toNat_add]
  simp
  omega

/-- One more than a word. -/
theorem widen_add_one (a : Word) : Represents (widen a + 1) (a.toNat + 1) := by
  have := a.isLt
  exact succ (of_toNat (congrArg Nat.cast (toNat_widen a))) (by omega)

/-- One less than a word. -/
theorem widen_sub_one (a : Word) : Represents (widen a - 1) (a.toNat + -1) := by
  have := a.isLt
  refine ⟨?_, by omega, by omega⟩
  rw [BitVec.toNat_sub, toNat_widen]
  simp
  omega

/-- The low half of a wide result is the exact result modulo 2^16. -/
theorem narrow_eq (h : Represents r z) : narrow r = BitVec.ofInt 16 z := by
  have hr := h.toNat
  apply BitVec.eq_of_toNat_eq
  simp only [narrow, BitVec.toNat_setWidth, BitVec.toNat_ofInt]
  omega

/-- A wide result is no word exactly if the exact one is none. -/
theorem carry_iff (h : Represents r z) : 0xFFFF < r ↔ z < 0 ∨ 0xFFFF < z := by
  have hr := h.toNat
  have hlower := h.lower
  have hupper := h.upper
  rw [BitVec.lt_def]
  simp
  omega

end Represents

namespace BinaryOp

/-- The exact result of an operation on two words, of which the second is not zero if it is a
divisor. -/
def exact (op : BinaryOp) (a b : Word) : Int :=
  match op with
  | add => (a.toNat : Int) + b.toNat
  | sub => (a.toNat : Int) - b.toNat
  | mult => (a.toNat : Int) * b.toNat
  | div => (a.toNat : Int) / b.toNat
  | mod => (a.toNat : Int) % b.toNat
  | and => (a &&& b).toNat
  | or => (a ||| b).toNat
  | xor => (a ^^^ b).toNat

/-- The largest result is the square of the largest word. -/
theorem exact_le (op : BinaryOp) (a b : Word) : op.exact a b ≤ 0xFFFE0001 := by
  have ha := a.isLt
  have hb := b.isLt
  cases op with
  | add | sub =>
    simp only [exact]
    omega
  | mult =>
    have hmul : a.toNat * b.toNat ≤ 0xFFFF * 0xFFFF := Nat.mul_le_mul (by omega) (by omega)
    show (a.toNat : Int) * b.toNat ≤ 0xFFFE0001
    rw [← Int.natCast_mul]
    omega
  | div =>
    have hdiv := Nat.div_le_self a.toNat b.toNat
    simp only [exact]
    omega
  | mod =>
    have hmod := Nat.mod_le a.toNat b.toNat
    simp only [exact]
    omega
  | and | or | xor =>
    simp only [exact]
    omega

/-- **The wide result of an operation stands for the exact one.** -/
theorem represents_eval {op : BinaryOp} {a b : Word} {r : BitVec 32}
    (h : op.eval (widen a) (widen b) = some r) : Represents r (op.exact a b) := by
  have ha := a.isLt
  have hb := b.isLt
  cases op with
  | sub =>
    obtain rfl := Option.some.inj h
    -- The only result that may be below zero, so it is not a number that is read off.
    refine ⟨?_, ?_, ?_⟩ <;> simp only [exact, BitVec.toNat_sub, toNat_widen] <;> omega
  | add =>
    obtain rfl := Option.some.inj h
    apply Represents.of_toNat
    simp only [exact, BitVec.toNat_add, toNat_widen]
    omega
  | mult =>
    obtain rfl := Option.some.inj h
    -- The product of two words fits into the wide result.
    have hmul : a.toNat * b.toNat ≤ 0xFFFF * 0xFFFF := Nat.mul_le_mul (by omega) (by omega)
    apply Represents.of_toNat
    rw [BitVec.toNat_mul, toNat_widen, toNat_widen, Nat.mod_eq_of_lt (by omega)]
    exact Int.natCast_mul _ _
  | div =>
    simp only [eval] at h
    split at h
    · exact absurd h.symm (Option.some_ne_none r)
    · obtain rfl := Option.some.inj h
      apply Represents.of_toNat
      rw [BitVec.toNat_udiv, toNat_widen, toNat_widen]
      rfl
  | mod =>
    simp only [eval] at h
    split at h
    · exact absurd h.symm (Option.some_ne_none r)
    · obtain rfl := Option.some.inj h
      apply Represents.of_toNat
      rw [BitVec.toNat_umod, toNat_widen, toNat_widen]
      rfl
  | and | or | xor =>
    obtain rfl := Option.some.inj h
    apply Represents.of_toNat
    simp only [exact, BitVec.toNat_and, BitVec.toNat_or, BitVec.toNat_xor, toNat_widen]

end BinaryOp

/-! ## Instructions with an exact result -/

namespace Opcode

/-- The operation on two registers that an operation code stands for. -/
def binaryOp? : Opcode → Option BinaryOp
  | add => some .add
  | sub => some .sub
  | mult => some .mult
  | div => some .div
  | mod => some .mod
  | and => some .and
  | or => some .or
  | xor => some .xor
  | _ => none

/-- Whether the operation is a division, which has a divisor. -/
def isDivision : Opcode → Bool
  | div | mod => true
  | _ => false

/-- An operation is a division exactly if its operation code is one. -/
theorem isDivision_of_binaryOp? {o : Opcode} {op : BinaryOp} (h : o.binaryOp? = some op) :
    op.isDivision = o.isDivision := by
  cases o <;> cases h <;> rfl

/-- An operation code without a binary operation is no division. -/
theorem isDivision_of_binaryOp?_eq_none {o : Opcode} (h : o.binaryOp? = none) :
    o.isDivision = false := by
  cases o <;> cases h <;> rfl

end Opcode

namespace Instruction

/-- What the carry flag adds to the result. -/
def carryIn (i : Instruction) (m : Machine) : Int :=
  if i.usesCarry && m.regs.flag .carry then 1 else 0

/-- The exact result of an arithmetic or logic instruction that writes one to its register. A
division by zero has none. -/
def exactResult? (i : Instruction) (m : Machine) : Option Int :=
  match i.opcode.binaryOp? with
  | some op =>
    if i.opcode.isDivision ∧ m.regs.get i.rs2 = 0 then none
    else some (op.exact (m.regs.get i.rs1) (m.regs.get i.rs2) + i.carryIn m)
  | none =>
    if i.opcode = .incDec then some ((m.regs.get i.rd).toNat + if i.modeBit then -1 else 1)
    else none

variable {i : Instruction} {m : Machine} {reply : Word}

/-- What an instruction with a binary operation means. -/
theorem operation_of_binaryOp? {op : BinaryOp} (h : i.opcode.binaryOp? = some op) :
    i.operation = i.binary op := by
  obtain ⟨o, w⟩ := i
  cases o <;> cases h <;> rfl

/-- The change of the flags for a wide result. A division moreover clears the record of a division
by zero. -/
def resultFlags (i : Instruction) (r : BitVec 32) : FlagChange :=
  if i.opcode.isDivision then (FlagChange.arithmetic r).clearing Flag.divideByZero.mask
  else .arithmetic r

/-- The effects of an operation on two registers, by whether it has a wide result. -/
theorem effects_of_binaryOp? {op : BinaryOp} (h : i.opcode.binaryOp? = some op) :
    i.operation.effects m reply =
      match op.eval (widen (m.regs.get i.rs1)) (widen (m.regs.get i.rs2)) with
      | none => { Effects.fallThrough m.regs.pc 1 with flags := .divideByZero }
      | some r =>
        let result := if i.usesCarry && m.regs.flag .carry then r + 1 else r
        { Effects.fallThrough m.regs.pc 1 with
          dest := some (i.rd, narrow result)
          flags := i.resultFlags result } := by
  rw [operation_of_binaryOp? h]
  show m.regs.stageBinary op i.usesCarry i.rd i.rs1 i.rs2 (.fallThrough m.regs.pc 1) = _
  unfold Registers.stageBinary
  rw [Opcode.isDivision_of_binaryOp? h]
  cases op.eval (widen (m.regs.get i.rs1)) (widen (m.regs.get i.rs2)) <;> rfl

/-- A division by zero stages the record of it, and nothing else. -/
theorem effects_of_divideByZero (h : i.opcode.isDivision = true) (hz : m.regs.get i.rs2 = 0) :
    i.operation.effects m reply =
      { Effects.fallThrough m.regs.pc 1 with flags := .divideByZero } := by
  obtain ⟨op, hop⟩ : ∃ op, i.opcode.binaryOp? = some op := by
    cases ho : i.opcode <;> simp [ho, Opcode.isDivision] at h <;> exact ⟨_, rfl⟩
  have hnone : op.eval (widen (m.regs.get i.rs1)) (widen (m.regs.get i.rs2)) = none :=
    BinaryOp.eval_eq_none_iff.mpr
      ⟨(Opcode.isDivision_of_binaryOp? hop).trans h, widen_eq_zero_iff.mpr hz⟩
  rw [effects_of_binaryOp? hop, hnone]

/-- The exact result of a binary operation, with the carry that comes in. -/
theorem exactResult?_of_binaryOp? {op : BinaryOp} (h : i.opcode.binaryOp? = some op) :
    i.exactResult? m =
      if i.opcode.isDivision ∧ m.regs.get i.rs2 = 0 then none
      else some (op.exact (m.regs.get i.rs1) (m.regs.get i.rs2) + i.carryIn m) := by
  unfold exactResult?
  rw [h]

/-- Without a binary operation, only a count has an exact result. -/
theorem exactResult?_of_binaryOp?_eq_none (h : i.opcode.binaryOp? = none) :
    i.exactResult? m =
      if i.opcode = .incDec then
        some (((m.regs.get i.rd).toNat : Int) + if i.modeBit then -1 else 1)
      else none := by
  unfold exactResult?
  rw [h]

/-- Only a division by zero has no exact result, and instructions that are neither arithmetic nor
logic. -/
theorem exactResult?_eq_none_iff :
    i.exactResult? m = none ↔
      (i.opcode.binaryOp? = none ∧ i.opcode ≠ .incDec) ∨
        (i.opcode.isDivision = true ∧ m.regs.get i.rs2 = 0) := by
  cases hop : i.opcode.binaryOp? with
  | some op =>
    rw [exactResult?_of_binaryOp? hop]
    simp
  | none =>
    rw [exactResult?_of_binaryOp?_eq_none hop, Opcode.isDivision_of_binaryOp?_eq_none hop]
    simp

/-- What a count means: its mode bit selects the decrement. -/
theorem operation_of_incDec (h : i.opcode = .incDec) :
    i.operation = if i.modeBit then .decrement i.rd else .increment i.rd := by
  unfold operation
  rw [h]

/-- **What an instruction with an exact result stages**: the low half of a wide result that stands
for the exact one, and the flags of the wide result. -/
theorem exists_represents (reply : Word) {z : Int} (h : i.exactResult? m = some z) :
    ∃ r, Represents r z ∧ (i.operation.effects m reply).dest = some (i.rd, narrow r) ∧
      (i.operation.effects m reply).flags = i.resultFlags r := by
  cases hop : i.opcode.binaryOp? with
  | some op =>
    rw [exactResult?_of_binaryOp? hop] at h
    split at h
    · exact absurd h.symm (Option.some_ne_none z)
    rename_i hdiv
    obtain rfl := Option.some.inj h
    rw [effects_of_binaryOp? hop]
    cases heval : op.eval (widen (m.regs.get i.rs1)) (widen (m.regs.get i.rs2)) with
    | none =>
      -- Only a division by zero has no wide result, and it has no exact one either.
      obtain ⟨hd, hz⟩ := BinaryOp.eval_eq_none_iff.mp heval
      rw [Opcode.isDivision_of_binaryOp? hop] at hd
      exact absurd ⟨hd, widen_eq_zero_iff.mp hz⟩ hdiv
    | some r =>
      have hr := BinaryOp.represents_eval heval
      have hle := op.exact_le (m.regs.get i.rs1) (m.regs.get i.rs2)
      -- The carry comes on top, for which `BinaryOp.exact_le` leaves room.
      refine ⟨_, ?_, rfl, rfl⟩
      unfold carryIn
      split
      · exact hr.succ (by omega)
      · rwa [Int.add_zero]
  | none =>
    rw [exactResult?_of_binaryOp?_eq_none hop] at h
    split at h
    · rename_i ho
      obtain rfl := Option.some.inj h
      have hflags : ∀ r, i.resultFlags r = .arithmetic r := fun r => by
        simp [resultFlags, ho, Opcode.isDivision]
      rw [operation_of_incDec ho]
      simp only [hflags]
      cases i.modeBit with
      | true => exact ⟨_, .widen_sub_one _, rfl, rfl⟩
      | false => exact ⟨_, .widen_add_one _, rfl, rfl⟩
    · exact absurd h.symm (Option.some_ne_none z)

end Instruction

end Cpu16
