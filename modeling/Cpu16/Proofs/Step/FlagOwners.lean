import Cpu16.Proofs.Step.ExactResult
import Cpu16.Proofs.Step.Executed

set_option relaxedAutoImplicit false
set_option autoImplicit false

/-!
# Which instruction gives which flag its value

Each flag belongs to some instructions. An instruction that is executed gives the flags that it
owns their values, and leaves all others as they are. A pop into the flag register owns every flag,
arithmetic and logic the zero, negative and carry flags, a carry control the carry flag, a division
moreover the record of a division by zero, and a comparison the three flags of its outcome.

## Main definitions

* `Cpu16.Instruction.gives?` — the value that an instruction gives a flag, if it owns it.

## Main results

* `Cpu16.Executed.get_of_exactResult?` — an instruction with an exact result writes it modulo 2^16.
* `Cpu16.Executed.flag` — an executed instruction gives the flags that it owns their values, and
  leaves all others as they are.
-/

namespace Cpu16

namespace Instruction

/-- The value that the instruction gives a flag in a step from `m` to `m'`, or nothing if the flag
is left as it is. -/
def gives? (i : Instruction) (m m' : Machine) (g : Flag) : Option Bool :=
  if i.opcode = .pop ∧ i.modeBit = true then some (anySet (m.memory.word (m.regs.sp + 1)) g.mask)
  else
    match g with
    | .zero => (i.exactResult? m).map fun _ => decide (m'.regs.get i.rd = 0)
    | .negative => (i.exactResult? m).map fun _ => (m'.regs.get i.rd).getLsbD 15
    | .carry =>
      if i.opcode = .carryControl then some (!i.clearsCarry)
      else (i.exactResult? m).map fun z => decide (z < 0 ∨ 0xFFFF < z)
    | .divideByZero =>
      if i.opcode.isDivision then some (decide (m.regs.get i.rs2 = 0)) else none
    | .equal =>
      if i.opcode = .cmp then some (decide (m.regs.get i.rd = m.regs.get i.rs1)) else none
    | .greater =>
      if i.opcode = .cmp then some (decide (m.regs.get i.rs1 < m.regs.get i.rd)) else none
    | .lesser =>
      if i.opcode = .cmp then some (decide (m.regs.get i.rd < m.regs.get i.rs1)) else none

/-- The flags of a wide result, in terms of the exact one. -/
theorem flagAfter_resultFlags (i : Instruction) {r : BitVec 32} {z : Int} (h : Represents r z)
    (g : Flag) (old : Bool) :
    (i.resultFlags r).flagAfter g old =
      match g with
      | .zero => decide (narrow r = 0)
      | .negative => (narrow r).getLsbD 15
      | .carry => decide (z < 0 ∨ 0xFFFF < z)
      | .divideByZero => if i.opcode.isDivision then false else old
      | .equal | .greater | .lesser => old := by
  have harithmetic := FlagChange.flagAfter_arithmetic r g old
  have hcarry : decide (0xFFFF < r) = decide (z < 0 ∨ 0xFFFF < z) :=
    decide_eq_decide.mpr h.carry_iff
  have hnegative : r.getLsbD 15 = (narrow r).getLsbD 15 := by simp [narrow]
  have hdivision : ((FlagChange.arithmetic r).clearing Flag.divideByZero.mask).flagAfter g old =
      ((FlagChange.arithmetic r).flagAfter g old && !decide (Flag.divideByZero = g)) := by
    rw [← Flag.anySet_mask_mask]
    exact FlagChange.flagAfter_clearing _ _ _ g old
  unfold resultFlags
  split
  · rw [hdivision, harithmetic, hcarry, hnegative]
    cases g with
    | divideByZero => exact Bool.and_false _
    | zero | negative | carry | equal | greater | lesser => exact Bool.and_true _
  · rw [harithmetic, hcarry, hnegative]
    cases g <;> rfl

end Instruction

/-! ## Executed instructions -/

/-- Words compare as equal exactly if they are. -/
theorem ordering_eq_eq_iff {a b : Word} : ordering a b = .eq ↔ a = b := by
  rw [ordering, Nat.compare_eq_eq, BitVec.toNat_inj]

/-- A word compares as greater exactly if it is. -/
theorem ordering_eq_gt_iff {a b : Word} : ordering a b = .gt ↔ b < a := by
  rw [ordering, Nat.compare_eq_gt, BitVec.lt_def]

/-- A word compares as lesser exactly if it is. -/
theorem ordering_eq_lt_iff {a b : Word} : ordering a b = .lt ↔ a < b := by
  rw [ordering, Nat.compare_eq_lt, BitVec.lt_def]

namespace Executed

variable {i : Instruction} {reply : Word} {m m' : Machine} {o : Outcome}

/-- An instruction with an exact result writes it to its register, modulo 2^16. -/
theorem get_of_exactResult? (h : Executed i reply m o m') {z : Int}
    (hz : i.exactResult? m = some z) : m'.regs.get i.rd = BitVec.ofInt 16 z := by
  obtain ⟨r, hr, hdest, -⟩ := Instruction.exists_represents reply hz
  rw [h.regs, Registers.get_commit, hdest]
  exact (if_pos rfl).trans hr.narrow_eq

/-- An instruction with an exact result gives the arithmetic flags the values of the result. -/
theorem flag_of_exactResult? (h : Executed i reply m o m') {z : Int}
    (hz : i.exactResult? m = some z) (g : Flag) :
    m'.regs.flag g =
      match g with
      | .zero => decide (m'.regs.get i.rd = 0)
      | .negative => (m'.regs.get i.rd).getLsbD 15
      | .carry => decide (z < 0 ∨ 0xFFFF < z)
      | .divideByZero => if i.opcode.isDivision then false else m.regs.flag .divideByZero
      | .equal | .greater | .lesser => m.regs.flag g := by
  obtain ⟨r, hr, -, hflags⟩ := Instruction.exists_represents reply hz
  rw [h.get_of_exactResult? hz, ← hr.narrow_eq]
  have hflag : m'.regs.flag g = (i.resultFlags r).flagAfter g (m.regs.flag g) := by
    rw [h.regs, Registers.flag_commit, hflags]
  rw [hflag, i.flagAfter_resultFlags hr]
  cases g <;> rfl

/-- A division by zero gives the record of it, and nothing else. -/
theorem flag_of_divideByZero (h : Executed i reply m o m') (hd : i.opcode.isDivision = true)
    (hz : m.regs.get i.rs2 = 0) (g : Flag) :
    m'.regs.flag g = (decide (g = .divideByZero) || m.regs.flag g) := by
  rw [h.regs, Registers.flag_commit, Instruction.effects_of_divideByZero hd hz]
  show (anySet Flag.divideByZero.mask g.mask || m.regs.flag g && !anySet 0 g.mask) = _
  rw [Flag.anySet_mask_mask]
  simp [anySet, eq_comm]

/-- A carry control gives the carry flag, and nothing else. -/
theorem flag_of_carryControl (h : Executed i reply m o m') (ho : i.opcode = .carryControl)
    (g : Flag) :
    m'.regs.flag g = if g = .carry then !i.clearsCarry else m.regs.flag g := by
  have hflags : (i.operation.effects m reply).flags =
      if i.clearsCarry then .modify 0 Flag.carry.mask else .modify Flag.carry.mask 0 := by
    unfold Instruction.operation
    rw [ho]
    cases hc : i.clearsCarry <;> rfl
  rw [h.regs, Registers.flag_commit, hflags]
  cases i.clearsCarry with
  | true =>
    show (anySet 0 g.mask || m.regs.flag g && !anySet Flag.carry.mask g.mask) = _
    rw [Flag.anySet_mask_mask]
    by_cases hg : g = .carry <;> simp [anySet, hg, eq_comm]
  | false =>
    show (anySet Flag.carry.mask g.mask || m.regs.flag g && !anySet 0 g.mask) = _
    rw [Flag.anySet_mask_mask]
    by_cases hg : g = .carry <;> simp [anySet, hg, eq_comm]

/-- A comparison gives the flags of its outcome, and nothing else. -/
theorem flag_of_compare (h : Executed i reply m o m') (ho : i.opcode = .cmp) (g : Flag) :
    m'.regs.flag g =
      match g with
      | .equal => decide (m.regs.get i.rd = m.regs.get i.rs1)
      | .greater => decide (m.regs.get i.rs1 < m.regs.get i.rd)
      | .lesser => decide (m.regs.get i.rd < m.regs.get i.rs1)
      | .zero | .carry | .negative | .divideByZero => m.regs.flag g := by
  have hflags : (i.operation.effects m reply).flags =
      .compare (ordering (m.regs.get i.rd) (m.regs.get i.rs1)) := by
    unfold Instruction.operation
    rw [ho]
    rfl
  rw [h.regs, Registers.flag_commit, hflags, FlagChange.flagAfter_compare]
  cases g with
  | equal => exact decide_eq_decide.mpr ordering_eq_eq_iff
  | greater => exact decide_eq_decide.mpr ordering_eq_gt_iff
  | lesser => exact decide_eq_decide.mpr ordering_eq_lt_iff
  | zero | carry | negative | divideByZero => rfl

/-- A pop into the flag register gives every flag. -/
theorem flag_of_popFlags (h : Executed i reply m o m') (ho : i.opcode = .pop)
    (hb : i.modeBit = true) (g : Flag) :
    m'.regs.flag g = anySet (m.memory.word (m.regs.sp + 1)) g.mask := by
  rw [Registers.flag, Registers.hasFlag, h.flagWord_pop ho hb, ← Flags.toWord_ofWord,
    Registers.anySet_toWord_ofWord]

/-- Most instructions give no flag. -/
theorem flag_of_changesFlags_eq_false (h : Executed i reply m o m') (hi : i.changesFlags = false)
    (g : Flag) : m'.regs.flag g = m.regs.flag g := by
  rw [h.regs, Registers.flag_commit, (i.tabulated_effects m reply).flags hi]
  rfl

/-- **An executed instruction** gives the flags that it owns their values, and leaves all others as
they are.

**Proof sketch.** By the owners. Outside of them, no flag changes. -/
theorem flag (h : Executed i reply m o m') (g : Flag) :
    m'.regs.flag g = (i.gives? m m' g).getD (m.regs.flag g) := by
  unfold Instruction.gives?
  -- First the three that give flags without a result.
  by_cases hpop : i.opcode = .pop ∧ i.modeBit = true
  · rw [if_pos hpop]
    exact h.flag_of_popFlags hpop.1 hpop.2 g
  rw [if_neg hpop]
  by_cases hcarry : i.opcode = .carryControl
  · have hz : i.exactResult? m = none :=
      Instruction.exactResult?_eq_none_iff.mpr (.inl (by simp [hcarry, Opcode.binaryOp?]))
    rw [h.flag_of_carryControl hcarry]
    cases g <;> simp [hz, hcarry, Opcode.isDivision]
  by_cases hcompare : i.opcode = .cmp
  · have hz : i.exactResult? m = none :=
      Instruction.exactResult?_eq_none_iff.mpr (.inl (by simp [hcompare, Opcode.binaryOp?]))
    rw [h.flag_of_compare hcompare]
    cases g <;> simp [hz, hcompare, Opcode.isDivision]
  cases hz : i.exactResult? m with
  | some z =>
    have hdivisor : i.opcode.isDivision = true → m.regs.get i.rs2 ≠ 0#16 := fun hd h0 =>
      Option.some_ne_none z
        (hz.symm.trans (Instruction.exactResult?_eq_none_iff.mpr (.inr ⟨hd, h0⟩)))
    rw [h.flag_of_exactResult? hz]
    cases hd : i.opcode.isDivision with
    | true => cases g <;> simp [hcarry, hcompare, hdivisor hd]
    | false => cases g <;> simp [hcarry, hcompare]
  | none =>
    -- What has no result gives no flags, but for a division by zero.
    rcases Instruction.exactResult?_eq_none_iff.mp hz with ⟨hop, hcount⟩ | ⟨hd, h0⟩
    · have hi : i.changesFlags = false := by
        obtain ⟨o, w⟩ := i
        cases o <;> simp_all [Instruction.changesFlags, Opcode.binaryOp?]
      rw [h.flag_of_changesFlags_eq_false hi]
      cases g <;> simp [hcarry, hcompare, Opcode.isDivision_of_binaryOp?_eq_none hop]
    · rw [h.flag_of_divideByZero hd h0]
      cases g <;> simp [hcarry, hcompare, hd, h0]

end Executed

end Cpu16
