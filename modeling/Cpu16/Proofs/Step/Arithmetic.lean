import Cpu16.Proofs.Step.FlagOwners

set_option relaxedAutoImplicit false
set_option autoImplicit false

/-!
# Arithmetic is exact

A step that executes an arithmetic or logic instruction never faults. It leaves the exact result, an
integer of any size, modulo 2^16 in its register, and the flags tell the rest: zero and negative are
those of the register, and carry says whether the exact result is a word, so also whether it is
negative. Only a division by zero has no result; it is recorded in its flag, and that is all it
does.

## Main definitions

* `Cpu16.Opcode.isArithmetic` — the operations with an exact result.
* `Cpu16.Computes`, `Cpu16.DividesByZero` — what an instruction with an exact result does, and one
  that divides by zero.
* `Cpu16.ExactStep` — what a step does with an arithmetic or logic instruction.

## Main results

* `Cpu16.exactStep_of_fetch` — every arithmetic or logic instruction is executed exactly.
* `Cpu16.step_computes_exactly` — moreover quotient and remainder belong together.
-/

universe u v

namespace Cpu16

/-! ## What is computed -/

/-- The arithmetic and logic operations that have a result with flags. -/
def Opcode.isArithmetic : Opcode → Bool
  | add | sub | mult | div | mod | and | or | xor | incDec => true
  | _ => false

/-- The step from `m` to `m'` has computed the integer `z` with the instruction `i`. -/
structure Computes (i : Instruction) (z : Int) (m m' : Machine) : Prop where
  /-- The register of the instruction holds the result modulo 2^16. -/
  result : ((m'.regs.get i.rd).toNat : Int) = z % 0x10000
  /-- Zero is the one of the register. -/
  zero : m'.regs.flag .zero = decide (m'.regs.get i.rd = 0)
  /-- Negative is the one of the register. -/
  negative : m'.regs.flag .negative = decide (0x8000 ≤ (m'.regs.get i.rd).toNat)
  /-- Carry says whether the result is no word. -/
  carry : m'.regs.flag .carry = decide (z < 0 ∨ 0xFFFF < z)
  /-- The flags of the last comparison are as before. -/
  comparison : ∀ g, g = .equal ∨ g = .greater ∨ g = .lesser → m'.regs.flag g = m.regs.flag g
  /-- A division clears the record of a division by zero, and all else leaves it. -/
  divideByZero : m'.regs.flag .divideByZero =
    if i.opcode.isDivision then false else m.regs.flag .divideByZero
  /-- The other general registers are as before. -/
  others : ∀ r, r ≠ i.rd → m'.regs.get r = m.regs.get r
  /-- The stack pointer is as before. -/
  sp : m'.regs.sp = m.regs.sp
  /-- Live memory is as before. -/
  memory : m'.memory = m.memory

/-- The step from `m` to `m'` has recorded a division by zero, and done nothing else. -/
structure DividesByZero (m m' : Machine) : Prop where
  /-- The record is set. -/
  recorded : m'.regs.flag .divideByZero = true
  /-- All other flags are as before. -/
  flags : ∀ g, g ≠ .divideByZero → m'.regs.flag g = m.regs.flag g
  /-- The general registers are as before. -/
  general : m'.regs.general = m.regs.general
  /-- The stack pointer is as before. -/
  sp : m'.regs.sp = m.regs.sp
  /-- Live memory is as before. -/
  memory : m'.memory = m.memory

section Step

variable {σ : Type u} (dev : Device σ) (sink : Sink σ) (m : Machine) (s : σ) (i : Instruction)

/-- What a step does with the arithmetic or logic instruction `i`. -/
structure ExactStep : Prop where
  /-- There is no fault, and execution may go on. -/
  outcome : (step dev sink m s).1 = .proceed
  /-- The program counter is at the next word. -/
  pc : (step dev sink m s).2.1.regs.pc = m.regs.pc + 1
  /-- The exact result is computed. -/
  computes : ∀ z, i.exactResult? m = some z → Computes i z m (step dev sink m s).2.1
  /-- Only a division by zero has none. -/
  undefined : i.exactResult? m = none → i.opcode.isDivision = true ∧ m.regs.get i.rs2 = 0
  /-- It is recorded. -/
  dividesByZero : i.opcode.isDivision = true → m.regs.get i.rs2 = 0 →
    DividesByZero m (step dev sink m s).2.1

end Step

/-! ## The instructions -/

namespace Opcode

variable {o : Opcode}

/-- The arithmetic operation codes are those of the binary operations and of the count. -/
theorem isArithmetic_iff : o.isArithmetic = true ↔ o.binaryOp?.isSome = true ∨ o = .incDec := by
  cases o <;> simp [isArithmetic, binaryOp?]

end Opcode

namespace Instruction

variable {i : Instruction} {m : Machine}

/-- What an arithmetic or logic instruction stages is one of a register and the flags, over effects
that go on to the next word. It has no checks that could fail. -/
theorem exists_stage_of_isArithmetic (hi : i.opcode.isArithmetic = true) (reply : Word) :
    i.operation.exchange m.regs = .none ∧ ∃ dest flags, i.operation.stage m reply =
      .ok { Effects.fallThrough m.regs.pc 1 with dest := dest, flags := flags } := by
  rcases Opcode.isArithmetic_iff.mp hi with hop | ho
  · obtain ⟨op, hop⟩ := Option.isSome_iff_exists.mp hop
    rw [operation_of_binaryOp? hop]
    refine ⟨rfl, ?_⟩
    show ∃ dest flags, Except.ok (m.regs.stageBinary op i.usesCarry i.rd i.rs1 i.rs2
      (.fallThrough m.regs.pc 1)) = _
    unfold Registers.stageBinary
    split <;> exact ⟨_, _, rfl⟩
  · rw [operation_of_incDec ho]
    split <;> exact ⟨rfl, _, _, rfl⟩

/-- An arithmetic or logic instruction moves no stack pointer, writes nothing in memory and goes on
to the next word. -/
theorem tables_of_isArithmetic (hi : i.opcode.isArithmetic = true) :
    i.spAfter m = m.regs.sp ∧ i.write? m = none ∧ i.pcAfter m = m.regs.pc + 1 := by
  obtain ⟨o, w⟩ := i
  cases o <;> first | exact Bool.noConfusion hi | exact ⟨rfl, rfl, rfl⟩

/-- Only a division by zero has no exact result. -/
theorem exactResult?_eq_none_iff_of_isArithmetic (hi : i.opcode.isArithmetic = true) :
    i.exactResult? m = none ↔ i.opcode.isDivision = true ∧ m.regs.get i.rs2 = 0 := by
  rw [exactResult?_eq_none_iff]
  refine or_iff_right ?_
  rintro ⟨hop, ho⟩
  rcases Opcode.isArithmetic_iff.mp hi with hsome | hcount
  · rw [hop] at hsome
    exact Bool.noConfusion hsome
  · exact ho hcount

end Instruction

/-! ## The step -/

namespace Executed

variable {i : Instruction} {reply : Word} {m m' : Machine} {o : Outcome}

/-- An instruction with an exact result computes it. -/
theorem computes (h : Executed i reply m o m') (hi : i.opcode.isArithmetic = true) {z : Int}
    (hz : i.exactResult? m = some z) : Computes i z m m' where
  result := by
    rw [h.get_of_exactResult? hz, BitVec.toNat_ofInt]
    omega
  zero := h.flag_of_exactResult? hz .zero
  negative := by
    have hmsb : (m'.regs.get i.rd).getLsbD 15 = decide (0x8000 ≤ (m'.regs.get i.rd).toNat) :=
      (BitVec.msb_eq_getLsbD_last _).symm.trans (BitVec.msb_eq_decide _)
    exact (h.flag_of_exactResult? hz .negative).trans hmsb
  carry := h.flag_of_exactResult? hz .carry
  comparison g hg := by
    rw [h.flag_of_exactResult? hz g]
    rcases hg with rfl | rfl | rfl <;> rfl
  divideByZero := h.flag_of_exactResult? hz .divideByZero
  others r hr := h.get_of_ne hr
  sp := h.sp.trans (Instruction.tables_of_isArithmetic hi).1
  memory := h.memory_of_write?_eq_none (Instruction.tables_of_isArithmetic hi).2.1

/-- A division by zero is recorded, and nothing else happens. -/
theorem dividesByZero (h : Executed i reply m o m') (hi : i.opcode.isArithmetic = true)
    (hd : i.opcode.isDivision = true) (hz : m.regs.get i.rs2 = 0) : DividesByZero m m' where
  recorded := h.flag_of_divideByZero hd hz .divideByZero
  flags g hg := by
    rw [h.flag_of_divideByZero hd hz g, decide_eq_false hg, Bool.false_or]
  general := by
    rw [h.regs, Instruction.effects_of_divideByZero hd hz]
    rfl
  sp := h.sp.trans (Instruction.tables_of_isArithmetic hi).1
  memory := h.memory_of_write?_eq_none (Instruction.tables_of_isArithmetic hi).2.1

end Executed

section Exact

variable {σ : Type u} {dev : Device σ} {sink : Sink σ} {m : Machine} {s : σ} {i : Instruction}

/-- An arithmetic or logic instruction that is fetched is executed, since none of its checks can
fail, and execution may go on. -/
theorem executed_of_isArithmetic (dev : Device σ) (sink : Sink σ) (s : σ) (hf : m.fetch = .ok i)
    (hi : i.opcode.isArithmetic = true) :
    (step dev sink m s).1 = .proceed ∧
      ∃ reply, Executed i reply m (step dev sink m s).1 (step dev sink m s).2.1 := by
  obtain ⟨hnone, dest, flags, hstage⟩ := i.exists_stage_of_isArithmetic hi 0
  exact executed_of_goesOn dev sink s hf hnone hstage rfl rfl rfl

/-- **Every arithmetic or logic instruction is executed exactly.** -/
theorem exactStep_of_fetch (hf : m.fetch = .ok i) (hi : i.opcode.isArithmetic = true) :
    ExactStep dev sink m s i := by
  obtain ⟨ho, reply, hx⟩ := executed_of_isArithmetic dev sink s hf hi
  exact {
    outcome := ho
    pc := hx.pc.trans (Instruction.tables_of_isArithmetic hi).2.2
    computes := fun z hz => hx.computes hi hz
    undefined := (Instruction.exactResult?_eq_none_iff_of_isArithmetic hi).mp
    dividesByZero := hx.dividesByZero hi }

/-- **Quotient and remainder belong together.** A quotient without a carry and a remainder of the
same two words make up the dividend. -/
theorem Computes.div_add_mod {j : Instruction} {m₁ m' m₁' : Machine} {a b : Word} (hb : b ≠ 0)
    (hq : Computes i (BinaryOp.div.exact a b) m m₁)
    (hr : Computes j (BinaryOp.mod.exact a b) m' m₁') :
    (m₁.regs.get i.rd).toNat * b.toNat + (m₁'.regs.get j.rd).toNat = a.toNat ∧
      (m₁'.regs.get j.rd).toNat < b.toNat := by
  have ha := a.isLt
  have hpos : 0 < b.toNat := Nat.pos_of_ne_zero fun h => hb (BitVec.eq_of_toNat_eq h)
  have hquotient : (m₁.regs.get i.rd).toNat = a.toNat / b.toNat := by
    have hle := Nat.div_le_self a.toNat b.toNat
    have hresult := hq.result
    rw [BinaryOp.exact, ← Int.natCast_ediv] at hresult
    generalize a.toNat / b.toNat = quotient at *
    omega
  have hremainder : (m₁'.regs.get j.rd).toNat = a.toNat % b.toNat := by
    have hle := Nat.mod_le a.toNat b.toNat
    have hresult := hr.result
    rw [BinaryOp.exact, ← Int.natCast_emod] at hresult
    omega
  rw [hquotient, hremainder]
  exact ⟨Nat.div_add_mod' _ _, Nat.mod_lt _ hpos⟩

/-- The exact result of a division by another number than zero, if no carry is added. -/
theorem Instruction.exactResult?_of_divisor_ne_zero {op : BinaryOp}
    (hop : i.opcode.binaryOp? = some op) (hb : m.regs.get i.rs2 ≠ 0) (hc : i.carryIn m = 0) :
    i.exactResult? m = some (op.exact (m.regs.get i.rs1) (m.regs.get i.rs2)) := by
  rw [exactResult?_of_binaryOp? hop, if_neg fun h => hb h.2, hc, Int.add_zero]

/-- **Arithmetic is exact.** From every machine whose next instruction is an arithmetic or logic
one, with any registers, of which the destination may be a source, and for every device and sink:
the step succeeds and computes the exact result, with the flags that belong to it, or records a
division by zero. If a quotient of two numbers has been computed without a carry, and their
remainder in any other step, then quotient times divisor plus remainder is the dividend, and the
remainder is less than the divisor. -/
theorem step_computes_exactly (hf : m.fetch = .ok i) (hi : i.opcode.isArithmetic = true) :
    ExactStep dev sink m s i ∧
      ∀ {τ : Type v} (dev' : Device τ) (sink' : Sink τ) (m' : Machine) (s' : τ) (j : Instruction),
        i.opcode = .div → i.carryIn m = 0 → m'.fetch = .ok j → j.opcode = .mod →
        m'.regs.get j.rs1 = m.regs.get i.rs1 → m'.regs.get j.rs2 = m.regs.get i.rs2 →
        m.regs.get i.rs2 ≠ 0 →
          ((step dev sink m s).2.1.regs.get i.rd).toNat * (m.regs.get i.rs2).toNat +
              ((step dev' sink' m' s').2.1.regs.get j.rd).toNat = (m.regs.get i.rs1).toNat ∧
            ((step dev' sink' m' s').2.1.regs.get j.rd).toNat < (m.regs.get i.rs2).toNat := by
  have hexact : ExactStep dev sink m s i := exactStep_of_fetch hf hi
  refine ⟨hexact, ?_⟩
  intro τ dev' sink' m' s' j ho hc hf' ho' ha hb hne
  have hexact' : ExactStep dev' sink' m' s' j := by
    refine exactStep_of_fetch hf' ?_
    rw [ho']
    rfl
  have hc' : j.carryIn m' = 0 := by
    simp [Instruction.carryIn, Instruction.usesCarry, ho', Opcode.isCarryAware]
  have hdiv : i.opcode.binaryOp? = some .div := by rw [ho]; rfl
  have hmod : j.opcode.binaryOp? = some .mod := by rw [ho']; rfl
  have hq := hexact.computes _ (Instruction.exactResult?_of_divisor_ne_zero hdiv hne hc)
  have hr := hexact'.computes _ (Instruction.exactResult?_of_divisor_ne_zero hmod (hb ▸ hne) hc')
  rw [ha, hb] at hr
  exact hq.div_add_mod hne hr

end Exact

/-- A machine with one instruction and three numbers in its registers. -/
def Machine.calculator (w a b : Word) (flags : Flags) : Machine :=
  { regs := { general := #v[0, a, b, 0, 0, 0, 0, 0], flags := flags }
    memory := ⟨#[w]⟩ }

/-- A difference of -1 and a carry that is added to it make zero, without a carry. Seven by two is
three, with a remainder of one. -/
theorem step_computes_exactly_differenceAndQuotient :
    Computes ⟨.sub, 0x8415⟩ 0 (.calculator 0x8415 0 1 0x04)
        (step Device.silent Sink.ignore (.calculator 0x8415 0 1 0x04) ()).2.1 ∧
      ((step Device.silent Sink.ignore (.calculator 0x8C14 7 2 0) ()).2.1.regs.get 0).toNat * 2 +
          ((step Device.silent Sink.ignore (.calculator 0x9414 7 2 0) ()).2.1.regs.get 0).toNat =
        7 := by
  constructor
  · exact (step_computes_exactly.{0, 0} rfl rfl).1.computes 0 rfl
  · exact ((step_computes_exactly.{0, 0} (m := .calculator 0x8C14 7 2 0) (i := ⟨.div, 0x8C14⟩) rfl
      rfl).2 Device.silent Sink.ignore (.calculator 0x9414 7 2 0) () ⟨.mod, 0x9414⟩ rfl rfl rfl rfl
        rfl rfl (by decide)).1

end Cpu16
