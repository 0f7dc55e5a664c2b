import Cpu16.Isa.Flags

set_option relaxedAutoImplicit false
set_option autoImplicit false

/-!
# Branch conditions

A jump or a call carries a four-bit condition code. Fifteen codes are assigned; each stands for
a test of the flag register.

## Main definitions

* `Cpu16.Condition` — the fifteen conditions.
* `Cpu16.Condition.holds` — the test that a condition makes of a flag word.
* `Cpu16.Condition.suffix` — what the condition adds to the name of a jump or a call.
-/

namespace Cpu16

/-- The condition under which a jump or a call is taken. -/
inductive Condition
  /-- In any case. -/
  | always
  /-- The last comparison found equal operands. -/
  | equal
  /-- The last comparison found different operands. -/
  | notEqual
  /-- The last arithmetic result was zero. -/
  | zero
  /-- The last arithmetic result was not zero. -/
  | notZero
  /-- The last arithmetic result did not fit into a word. -/
  | carry
  /-- The last arithmetic result fitted into a word. -/
  | notCarry
  /-- The last comparison found the first operand greater. -/
  | greater
  /-- The last comparison found the first operand lesser. -/
  | lesser
  /-- The last comparison found the first operand greater, or equal operands. -/
  | greaterOrEqual
  /-- The last comparison found the first operand lesser, or equal operands. -/
  | lesserOrEqual
  /-- Another name for `carry`. -/
  | overflow
  /-- Another name for `notCarry`. -/
  | notOverflow
  /-- The last arithmetic result had bit 15 set. -/
  | negative
  /-- The last division had a zero divisor. -/
  | divideByZero
  deriving DecidableEq, Repr

namespace Condition

/-- The condition codes, from 0 on. -/
def code : Condition → Nat
  | always => 0
  | equal => 1
  | notEqual => 2
  | zero => 3
  | notZero => 4
  | carry => 5
  | notCarry => 6
  | greater => 7
  | lesser => 8
  | greaterOrEqual => 9
  | lesserOrEqual => 10
  | overflow => 11
  | notOverflow => 12
  | negative => 13
  | divideByZero => 14

/-- The condition with a given code, if the code is assigned. -/
def ofCode? : Nat → Option Condition
  | 0 => some always
  | 1 => some equal
  | 2 => some notEqual
  | 3 => some zero
  | 4 => some notZero
  | 5 => some carry
  | 6 => some notCarry
  | 7 => some greater
  | 8 => some lesser
  | 9 => some greaterOrEqual
  | 10 => some lesserOrEqual
  | 11 => some overflow
  | 12 => some notOverflow
  | 13 => some negative
  | 14 => some divideByZero
  | _ => none

/-- Whether the condition holds of a flag word. -/
def holds : Condition → Word → Bool
  | always, _ => true
  | equal, flags => anySet flags Flag.equal.mask
  | notEqual, flags => !anySet flags Flag.equal.mask
  | zero, flags => anySet flags Flag.zero.mask
  | notZero, flags => !anySet flags Flag.zero.mask
  | carry, flags | overflow, flags => anySet flags Flag.carry.mask
  | notCarry, flags | notOverflow, flags => !anySet flags Flag.carry.mask
  | greater, flags => anySet flags Flag.greater.mask
  | lesser, flags => anySet flags Flag.lesser.mask
  | greaterOrEqual, flags => anySet flags (Flag.greater.mask ||| Flag.equal.mask)
  | lesserOrEqual, flags => anySet flags (Flag.lesser.mask ||| Flag.equal.mask)
  | negative, flags => anySet flags Flag.negative.mask
  | divideByZero, flags => anySet flags Flag.divideByZero.mask

/-- What the condition adds to the name of a jump or a call. -/
def suffix : Condition → String
  | always => ""
  | equal => "eq"
  | notEqual => "ne"
  | zero => "z"
  | notZero => "nz"
  | carry => "c"
  | notCarry => "nc"
  | greater => "gr"
  | lesser => "le"
  | greaterOrEqual => "eg"
  | lesserOrEqual => "el"
  | overflow => "ov"
  | notOverflow => "nov"
  | negative => "n"
  | divideByZero => "dz"

/-- Every condition is found again from its code. -/
@[simp]
theorem ofCode?_code (c : Condition) : ofCode? c.code = some c := by
  cases c <;> rfl

/-- A code that names a condition is the code of that condition. -/
theorem code_of_ofCode? {n : Nat} {c : Condition} (h : ofCode? n = some c) : c.code = n := by
  unfold ofCode? at h
  split at h <;> cases h <;> rfl

end Condition

end Cpu16
