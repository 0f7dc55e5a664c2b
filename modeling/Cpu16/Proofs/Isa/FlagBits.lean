import Cpu16.Isa.Condition
import Cpu16.Step.Effects

set_option relaxedAutoImplicit false
set_option autoImplicit false

/-!
# Flags one by one

Instructions write the flag register as a word, through masks. Statements about a program are
about single flags: which of them a change sets, clears or leaves alone, and which of them a
condition looks at. This file takes the words apart.

## Main definitions

* `Cpu16.Registers.flag` — the value of one flag.
* `Cpu16.FlagChange.flagAfter` — what a change makes of the value of one flag.
* `Cpu16.Condition.test` — a condition as a test of the values of the flags.

## Main results

* `Cpu16.Registers.flag_commit` — a flag after the effects of an instruction.
* `Cpu16.FlagChange.flagAfter_arithmetic`, `Cpu16.FlagChange.flagAfter_compare`,
  `Cpu16.FlagChange.flagAfter_clearing` — the changes that instructions stage, flag by flag.
* `Cpu16.Condition.holds_flagWord` — a condition looks at the values of the flags only.
-/

namespace Cpu16

/-! ## Masks -/

/-- A word has a bit of two masks together exactly if it has a bit of one of them. -/
theorem anySet_or_mask (w a b : Word) : anySet w (a ||| b) = (anySet w a || anySet w b) := by
  have h : w &&& (a ||| b) = 0#16 ↔ w &&& a = 0#16 ∧ w &&& b = 0#16 := by
    rw [BitVec.and_or_distrib_left]
    exact BitVec.or_eq_zero_iff
  rw [Bool.eq_iff_iff]
  simp only [anySet, bne_iff_ne, Bool.or_eq_true, ne_eq, ← Classical.not_and_iff_not_or_not]
  exact not_congr h

/-- Two words together have a bit of a mask exactly if one of them has. -/
theorem anySet_or (v w mask : Word) : anySet (v ||| w) mask = (anySet v mask || anySet w mask) := by
  have hcomm : ∀ u : Word, anySet u mask = anySet mask u := fun u => by
    simp only [anySet, BitVec.and_comm]
  rw [hcomm, hcomm v, hcomm w, anySet_or_mask]

namespace Flag

/-- The number of the bit of a flag. -/
def bit : Flag → Nat
  | equal => 0
  | zero => 1
  | carry => 2
  | greater => 3
  | lesser => 4
  | negative => 5
  | divideByZero => 6

/-- Every flag is one of the seven bits that have a meaning. -/
theorem bit_lt (g : Flag) : g.bit < 7 := by
  cases g <;> decide

/-- Every flag is a bit of a word. -/
theorem bit_lt_width (g : Flag) : g.bit < 16 := by
  cases g <;> decide

/-- The mask of a flag has the bit of the flag, and no other one. -/
theorem mask_eq_twoPow (g : Flag) : g.mask = BitVec.twoPow 16 g.bit := by
  cases g <;> rfl

/-- The mask of a flag tests the bit of the flag. -/
theorem anySet_mask (w : Word) (g : Flag) : anySet w g.mask = w.getLsbD g.bit := by
  have hne : (BitVec.twoPow 16 g.bit != 0) = true := by
    cases g <;> rfl
  rw [anySet, mask_eq_twoPow, BitVec.and_twoPow]
  cases w.getLsbD g.bit with
  | true => exact hne
  | false => rfl

/-- The masks of different flags have no bit in common. -/
theorem anySet_mask_mask (f g : Flag) : anySet f.mask g.mask = decide (f = g) := by
  cases f <;> cases g <;> rfl

/-- The mask of a flag, if a condition holds, and no bit otherwise. -/
theorem anySet_ite_mask (p : Prop) [Decidable p] (f g : Flag) :
    anySet (if p then f.mask else 0) g.mask = (decide p && decide (f = g)) := by
  by_cases h : p
  · simp [h, anySet_mask_mask]
  · simp [h, anySet]

end Flag

/-! ## Changes of a flag -/

namespace FlagChange

/-- The value of a flag after a change of the flag register, from its value before. -/
def flagAfter (g : Flag) : FlagChange → Bool → Bool
  | keep, old => old
  | assign value, _ => anySet value g.mask
  | modify set clear, old => anySet set g.mask || old && !anySet clear g.mask

/-- A change of the flag register changes each flag on its own. -/
theorem anySet_apply (c : FlagChange) (flags : Word) (g : Flag) :
    anySet (c.apply flags) g.mask = c.flagAfter g (anySet flags g.mask) := by
  cases c with
  | keep | assign value => rfl
  | modify set clear => simp [apply, flagAfter, Flag.anySet_mask, g.bit_lt_width, Bool.or_comm]

/-- A change that owns some flags gives them the values of its own and keeps all others. -/
theorem flagAfter_owning {owned set : Word} {g : Flag}
    (h : anySet set g.mask = true → anySet owned g.mask = true) (old : Bool) :
    (owning owned set).flagAfter g old =
      if anySet owned g.mask then anySet set g.mask else old := by
  have hclear : anySet (owned &&& ~~~set) g.mask = (anySet owned g.mask && !anySet set g.mask) := by
    simp [Flag.anySet_mask, g.bit_lt_width]
  rw [owning, flagAfter, hclear]
  cases hs : anySet set g.mask with
  | true => simp [h hs]
  | false => cases anySet owned g.mask <;> simp

/-- **The arithmetic flags** are those of the result, and all others are kept. -/
theorem flagAfter_arithmetic (r : BitVec 32) (g : Flag) (old : Bool) :
    (arithmetic r).flagAfter g old =
      match g with
      | .zero => decide (r.setWidth 16 = (0 : Word))
      | .carry => decide (0xFFFF < r)
      | .negative => r.getLsbD 15
      | .equal | .greater | .lesser | .divideByZero => old := by
  rw [arithmetic, flagAfter_owning]
  · simp only [anySet_or, Flag.anySet_ite_mask]
    cases g <;> simp [arithmeticMask, anySet_or, Flag.anySet_mask_mask]
  · simp only [anySet_or, Flag.anySet_ite_mask]
    cases g <;> simp [arithmeticMask, anySet_or, Flag.anySet_mask_mask]

/-- **The comparison flags** record the order of the operands, and all others are kept. -/
theorem flagAfter_compare (o : Ordering) (g : Flag) (old : Bool) :
    (compare o).flagAfter g old =
      match g with
      | .equal => decide (o = .eq)
      | .greater => decide (o = .gt)
      | .lesser => decide (o = .lt)
      | .zero | .carry | .negative | .divideByZero => old := by
  rw [compare, flagAfter_owning]
  · cases o <;> cases g <;> rfl
  · cases o <;> cases g <;> decide

/-- A change that moreover clears some bits clears the flags of these bits. -/
theorem flagAfter_clearing (set clear bits : Word) (g : Flag) (old : Bool) :
    ((modify set clear).clearing bits).flagAfter g old =
      ((modify set clear).flagAfter g old && !anySet bits g.mask) := by
  simp only [clearing, flagAfter, Flag.anySet_mask, BitVec.getLsbD_and, BitVec.getLsbD_or,
    BitVec.getLsbD_not, g.bit_lt_width, decide_true, Bool.true_and]
  cases set.getLsbD g.bit <;> cases clear.getLsbD g.bit <;> cases bits.getLsbD g.bit <;>
    cases old <;> rfl

end FlagChange

namespace Registers

/-- The value of a flag. -/
def flag (regs : Registers) (g : Flag) : Bool :=
  regs.hasFlag g.mask

/-- A flag depends on the flag register only. -/
theorem flag_congr {regs regs' : Registers} (h : regs.flags = regs'.flags) (g : Flag) :
    regs.flag g = regs'.flag g := by
  rw [flag, flag, hasFlag, hasFlag, flagWord, flagWord, h]

/-- The value of a flag after a word has been written to the flag register. -/
theorem anySet_toWord_ofWord (w : Word) (g : Flag) :
    anySet (Flags.toWord (Flags.ofWord w)) g.mask = anySet w g.mask := by
  simp [Flag.anySet_mask, Flags.toWord, Flags.ofWord, g.bit_lt, g.bit_lt_width]

/-- **A flag after the effects of an instruction** depends on its value before and on the staged
change. -/
theorem flag_commit (regs : Registers) (e : Effects) (g : Flag) :
    (regs.commit e).flag g = e.flags.flagAfter g (regs.flag g) := by
  simp only [flag, hasFlag, flagWord, flags_commit, anySet_toWord_ofWord,
    FlagChange.anySet_apply]

end Registers

/-! ## Conditions -/

namespace Condition

/-- The condition as a test of the values of the flags. -/
def test (flag : Flag → Bool) : Condition → Bool
  | always => true
  | equal => flag .equal
  | notEqual => !flag .equal
  | zero => flag .zero
  | notZero => !flag .zero
  | carry | overflow => flag .carry
  | notCarry | notOverflow => !flag .carry
  | greater => flag .greater
  | lesser => flag .lesser
  | greaterOrEqual => flag .greater || flag .equal
  | lesserOrEqual => flag .lesser || flag .equal
  | negative => flag .negative
  | divideByZero => flag .divideByZero

/-- **A condition looks at the values of the flags only.** -/
theorem holds_flagWord (c : Condition) (regs : Registers) :
    c.holds regs.flagWord = c.test regs.flag := by
  cases c with
  | greaterOrEqual | lesserOrEqual => exact anySet_or_mask _ _ _
  | _ => rfl

end Condition

end Cpu16
