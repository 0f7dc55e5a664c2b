import Cpu16.Step.Basic
import Mathlib.Data.BitVec

set_option relaxedAutoImplicit false
set_option autoImplicit false

/-!
# Operations that may trap

Words wrap around, and reading outside an array gives nothing. A processor built from arithmetic
that does not wrap, and from arrays that refuse an index outside them, would come to a trap there:
an operation evaluated where it has no result. A trap is no fault. A fault ends a step in an orderly
way, and a trap ends the program that carries out the step.

This file has those partial operations, each with the condition under which it does not trap, and
the computations made of them, which may also fault.

## Main definitions

* `Cpu16.Trap` — the ways an operation has no result.
* `Cpu16.Checked.add`, `Cpu16.Checked.sub`, `Cpu16.Checked.div`, `Cpu16.Checked.mod`,
  `Cpu16.Checked.shiftLeft`, `Cpu16.Checked.shiftRight`, `Cpu16.Checked.get`, `Cpu16.Checked.set` —
  the partial operations.
* `Cpu16.Guarded` — a computation that may trap, and if it does not may fault.
* `Cpu16.untrapped` — a computation that never traps.

## Main results

* `Cpu16.untrapped_bind` — a composed computation does not trap if its first part does not, and the
  rest does not with whatever the first part gives.
-/

namespace Cpu16

/-- Why an operation has no result. -/
inductive Trap
  /-- A sum or a difference does not fit into its width. -/
  | overflow
  /-- A division by zero. -/
  | zeroDivisor
  /-- A shift by as many bits as there are, or by more. -/
  | shiftTooFar
  /-- An index outside its array. -/
  | outOfBounds
  deriving DecidableEq, Repr

/-! ## Partial operations -/

namespace Checked

variable {n : Nat} {α : Type}

/-- The sum, if it fits into the width. -/
def add (a b : BitVec n) : Except Trap (BitVec n) :=
  if BitVec.uaddOverflow a b then .error .overflow else .ok (a + b)

/-- The difference, if it is not negative. -/
def sub (a b : BitVec n) : Except Trap (BitVec n) :=
  if BitVec.usubOverflow a b then .error .overflow else .ok (a - b)

/-- The quotient by a divisor other than zero. -/
def div (a b : BitVec n) : Except Trap (BitVec n) :=
  if b = 0 then .error .zeroDivisor else .ok (a / b)

/-- The remainder by a divisor other than zero. -/
def mod (a b : BitVec n) : Except Trap (BitVec n) :=
  if b = 0 then .error .zeroDivisor else .ok (a % b)

/-- The shift to the left by less than the width. -/
def shiftLeft (a : BitVec n) (k : Nat) : Except Trap (BitVec n) :=
  if k < n then .ok (a <<< k) else .error .shiftTooFar

/-- The shift to the right by less than the width. -/
def shiftRight (a : BitVec n) (k : Nat) : Except Trap (BitVec n) :=
  if k < n then .ok (a >>> k) else .error .shiftTooFar

/-- The entry at an index of the array. -/
def get (xs : Vector α n) (k : Nat) : Except Trap α :=
  if h : k < n then .ok xs[k] else .error .outOfBounds

/-- The array with the entry at an index of it replaced. -/
def set (xs : Vector α n) (k : Nat) (value : α) : Except Trap (Vector α n) :=
  if h : k < n then .ok (xs.set k value h) else .error .outOfBounds

/-- A sum that fits is the wrapping one. -/
theorem add_eq_ok {a b : BitVec n} (h : a.toNat + b.toNat < 2 ^ n) : add a b = .ok (a + b) := by
  simp [add, BitVec.uaddOverflow, h]

/-- A difference with nothing to borrow is the wrapping one. -/
theorem sub_eq_ok {a b : BitVec n} (h : b ≤ a) : sub a b = .ok (a - b) := by
  simpa [sub, BitVec.usubOverflow, BitVec.le_def] using h

/-- A stack pointer of zero cannot be moved down. -/
example : sub (0 : Word) 1 = .error .overflow := by decide

/-- A shift to the left by less than the width does not trap. -/
theorem shiftLeft_eq_ok {k : Nat} (a : BitVec n) (h : k < n) : shiftLeft a k = .ok (a <<< k) :=
  if_pos h

/-- A shift to the right by less than the width does not trap. -/
theorem shiftRight_eq_ok {k : Nat} (a : BitVec n) (h : k < n) : shiftRight a k = .ok (a >>> k) :=
  if_pos h

/-- A read within the bounds does not trap. -/
theorem get_eq_ok {k : Nat} (xs : Vector α n) (h : k < n) : get xs k = .ok xs[k] :=
  dif_pos h

/-- A write within the bounds does not trap. -/
theorem set_eq_ok {k : Nat} (xs : Vector α n) (h : k < n) (value : α) :
    set xs k value = .ok (xs.set k value h) :=
  dif_pos h

/-- The sum of a word and one, for every word but the last one. -/
theorem add_one_eq_ok {a : Word} (h : a < 0xFFFF) : add a 1 = .ok (a + 1) := by
  have hlt : a.toNat < 0xFFFF := BitVec.lt_def.mp h
  refine add_eq_ok ?_
  show a.toNat + 1 < 0x10000
  omega

/-! ### Fields and bits -/

/-- The field of `len` bits of a word that starts at bit `b`, which is shifted down. -/
def field (w : Word) (b len : Nat) : Except Trap (BitVec len) := do
  return (← shiftRight w b).setWidth len

/-- Bit `b`, tested with a mask that is shifted up. -/
def bit (w : BitVec n) (b : Nat) : Except Trap Bool := do
  return w &&& (← shiftLeft 1 b) != 0

/-- A field that begins within the word is cut out without a trap. -/
theorem field_eq_ok {b : Nat} (w : Word) (len : Nat) (h : b < 16) :
    field w b len = .ok (w.extractLsb' b len) := by
  rw [field, shiftRight_eq_ok w h, ← BitVec.setWidth_ushiftRight_eq_extractLsb]
  rfl

/-- A bit of the word is tested without a trap. -/
theorem bit_eq_ok {b : Nat} (w : BitVec n) (h : b < n) : bit w b = .ok (w.getLsbD b) := by
  rw [bit, shiftLeft_eq_ok 1 h]
  have hmask : (1#n <<< b) = BitVec.twoPow n b := (BitVec.twoPow_eq n b).symm
  have hzero : BitVec.twoPow n b ≠ 0#n := by
    intro hz
    have := congrArg (·.getLsbD b) hz
    simp [h] at this
  show Except.ok (w &&& (1#n <<< b) != 0) = .ok (w.getLsbD b)
  rw [hmask, BitVec.and_twoPow]
  cases w.getLsbD b <;> simp [hzero]

end Checked

/-! ## Computations -/

/-- A computation that may trap, and if it does not trap may fault. -/
abbrev Guarded (α : Type) : Type := ExceptT Fault (Except Trap) α

section Guarded

variable {α β : Type}

/-- The computation that ends as `x` does, and never traps. -/
def untrapped (x : Except Fault α) : Guarded α := ExceptT.mk (.ok x)

/-- A step that does not trap, in a computation that may fault. -/
@[simp]
theorem liftM_ok (a : α) : (liftM (Except.ok a : Except Trap α) : Guarded α) = pure a := rfl

/-- A computation that does not trap has no fault when it is lifted. -/
theorem liftM_eq_untrapped {x : Except Trap α} {a : α} (h : x = .ok a) :
    (liftM x : Guarded α) = untrapped (.ok a) := by
  rw [h]
  rfl

/-- **Composition.** What does not trap may be followed by what does not trap with any of its
results. -/
theorem untrapped_bind {x : Except Fault α} {g : α → Guarded β} {h : α → Except Fault β}
    (hg : ∀ a, x = .ok a → g a = untrapped (h a)) : untrapped x >>= g = untrapped (x >>= h) := by
  cases x with
  | error f => rfl
  | ok a => exact hg a rfl

end Guarded

end Cpu16
