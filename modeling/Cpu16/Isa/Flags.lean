import Cpu16.Word

set_option relaxedAutoImplicit false
set_option autoImplicit false

/-!
# The flag register and its changes

The flag register has seven bits. A host may write any word to it, and the bits that have no
meaning are dropped. Instructions do not write the register directly: they stage a
`FlagChange`, which leaves it alone, replaces it, or sets and clears chosen bits.

## Main definitions

* `Cpu16.Flag` — the seven flags and their masks.
* `Cpu16.Flags` — the contents of the flag register, with its word form.
* `Cpu16.FlagChange` — a staged change, applied by `FlagChange.apply`.
* `Cpu16.FlagChange.arithmetic`, `Cpu16.FlagChange.compare` — the changes that arithmetic
  instructions and the comparison stage.
-/

namespace Cpu16

/-- One flag of the flag register. -/
inductive Flag
  /-- The last comparison found equal operands. -/
  | equal
  /-- The last arithmetic result was zero in its low 16 bits. -/
  | zero
  /-- The last arithmetic result did not fit into 16 bits; also called overflow. -/
  | carry
  /-- The last comparison found the first operand greater. -/
  | greater
  /-- The last comparison found the first operand lesser. -/
  | lesser
  /-- The last arithmetic result had bit 15 set. -/
  | negative
  /-- The last division had a zero divisor. -/
  | divideByZero
  deriving DecidableEq, Repr

namespace Flag

/-- The flags in the order of their bits, lowest first. -/
def all : List Flag :=
  [equal, zero, carry, greater, lesser, negative, divideByZero]

/-- The word whose only bit is the bit of the flag. -/
def mask : Flag → Word
  | equal => 0x01
  | zero => 0x02
  | carry => 0x04
  | greater => 0x08
  | lesser => 0x10
  | negative => 0x20
  | divideByZero => 0x40

end Flag

/-- The contents of the flag register: one bit for each of the seven flags. -/
abbrev Flags := BitVec 7

namespace Flags

/-- The mask of all the bits that have a meaning. -/
def activeMask : Word := 0x7F

/-- What the register holds after the word `w` is written to it: bits without a meaning are
dropped. -/
def ofWord (w : Word) : Flags := w.setWidth 7

/-- What reading the register gives. -/
def toWord (f : Flags) : Word := f.setWidth 16

/-- Writing a word and reading it back keeps the meaningful bits. -/
theorem toWord_ofWord (w : Word) : toWord (ofWord w) = w &&& activeMask := by
  ext i hi
  simp only [toWord, ofWord, activeMask]
  have : ∀ i < 16, (0x7F#16).getLsbD i = decide (i < 7) := by decide
  simp [← BitVec.getLsbD_eq_getElem, this i hi, hi, Bool.and_comm]

/-- The register keeps what was read from it. -/
@[simp]
theorem ofWord_toWord (f : Flags) : ofWord (toWord f) = f := by
  simp [ofWord, toWord]

end Flags

/-- The mask of the flags that arithmetic instructions own. -/
def arithmeticMask : Word :=
  Flag.zero.mask ||| Flag.carry.mask ||| Flag.negative.mask

/-- The mask of the flags that the comparison owns. -/
def comparisonMask : Word :=
  Flag.equal.mask ||| Flag.greater.mask ||| Flag.lesser.mask

/-- A staged change of the flag register. -/
inductive FlagChange
  /-- Leave the register as it is. -/
  | keep
  /-- Replace the register by a word. -/
  | assign (value : Word)
  /-- Clear the bits of `clear`, then set the bits of `set`, and keep all others. -/
  | modify (set clear : Word)
  deriving DecidableEq, Repr

namespace FlagChange

/-- The change that sets the bits of `set` and clears the other bits of `owned`. -/
def owning (owned set : Word) : FlagChange :=
  modify set (owned &&& ~~~set)

/-- The change for an arithmetic result that was computed on operands widened to 32 bits: zero
looks at the low 16 bits, carry at whether cutting the result to 16 bits loses anything,
negative at bit 15. -/
def arithmetic (result : BitVec 32) : FlagChange :=
  owning arithmeticMask
    ((if result.setWidth 16 = 0 then Flag.zero.mask else 0) |||
      (if 0xFFFF < result then Flag.carry.mask else 0) |||
      (if result.getLsbD 15 then Flag.negative.mask else 0))

/-- The flag that records the outcome of a comparison. -/
def flagOfOrdering : Ordering → Flag
  | .lt => .lesser
  | .eq => .equal
  | .gt => .greater

/-- The change for a comparison: exactly one of the three comparison flags is set. -/
def compare (ordering : Ordering) : FlagChange :=
  owning comparisonMask (flagOfOrdering ordering).mask

/-- The change for a division whose divisor is zero: the failure is recorded and nothing else
happens. -/
def divideByZero : FlagChange :=
  modify Flag.divideByZero.mask 0

/-- The same change, which moreover clears `bits`. Only a change of chosen bits can be extended
in this way; the others are returned as they are. -/
def clearing : FlagChange → Word → FlagChange
  | modify set clear, bits => modify (set &&& ~~~bits) (clear ||| bits)
  | c, _ => c

/-- The value of the flag register after the change. Where a bit is both cleared and set, it is
set. -/
def apply : FlagChange → Word → Word
  | keep, flags => flags
  | assign value, _ => value
  | modify set clear, flags => (flags &&& ~~~clear) ||| set

end FlagChange

end Cpu16
