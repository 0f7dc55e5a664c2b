import Cpu16.Isa.Operation

set_option relaxedAutoImplicit false
set_option autoImplicit false

/-!
# Arithmetic, logic and shifts

Binary operations are computed on operands widened to 32 bits, so that a result that does not
fit into 16 bits can be told from one that does: the flags see the wide result, and the
destination register its low half. Subtraction and decrement wrap at 32 bits, hence a borrow
shows as a carry.

## Main definitions

* `Cpu16.BinaryOp.eval` — the wide result, or nothing for a division by zero.
* `Cpu16.Shift.apply` — a shift or a rotation.
* `Cpu16.ordering` — the unsigned order of two words.
-/

namespace Cpu16

/-- A word as an operand of 32 bits. -/
def widen (w : Word) : BitVec 32 := w.setWidth 32

/-- The low half of a wide result. -/
def narrow (r : BitVec 32) : Word := r.setWidth 16

namespace BinaryOp

/-- Whether the operation is a division, which needs a divisor other than zero. -/
def isDivision : BinaryOp → Bool
  | div | mod => true
  | _ => false

/-- The wide result of an operation, or nothing if it divides by zero. -/
def eval : BinaryOp → BitVec 32 → BitVec 32 → Option (BitVec 32)
  | add, a, b => some (a + b)
  | sub, a, b => some (a - b)
  | mult, a, b => some (a * b)
  | div, a, b => if b = 0 then none else some (a / b)
  | mod, a, b => if b = 0 then none else some (a % b)
  | and, a, b => some (a &&& b)
  | or, a, b => some (a ||| b)
  | xor, a, b => some (a ^^^ b)

/-- An operation has no result exactly if it divides by zero. -/
theorem eval_eq_none_iff {op : BinaryOp} {a b : BitVec 32} :
    op.eval a b = none ↔ op.isDivision = true ∧ b = 0 := by
  cases op <;> simp [eval, isDivision]

end BinaryOp

/-- Shifts or rotates a word. A shift that fills with ones is the complement of a shift of the
complement that fills with zeros. -/
def Shift.apply (mode : Shift) (v : Word) (amount : Nat) : Word :=
  match mode with
  | leftZero => v <<< amount
  | leftOne => ~~~(~~~v <<< amount)
  | rightZero => v >>> amount
  | rightOne => ~~~(~~~v >>> amount)
  | rotateLeft => v.rotateLeft amount
  | rotateRight => v.rotateRight amount

/-- How two words compare as unsigned numbers. -/
def ordering (left right : Word) : Ordering :=
  compare left.toNat right.toNat

end Cpu16
