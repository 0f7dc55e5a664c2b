import Cpu16.Listing.Text
import Cpu16.Machine.Memory

set_option relaxedAutoImplicit false
set_option autoImplicit false

/-!
# Rows of a listing

A listing shows every memory word in a row of its own: as an instruction, or as a number if it
is the operand of the instruction before it. Memory does not say which words are operands. A
word is one if the words before it that take an operand, back to the nearest one that does not,
are odd in number: each of them is then alternately an instruction and an operand.

## Main definitions

* `Cpu16.Memory.isOperand` — whether the word at an address is an operand.
* `Cpu16.Memory.textAt` — the text of the word at an address.
* `Cpu16.Memory.window` — the rows around an address.
-/

namespace Cpu16

/-- A row of a listing. -/
structure Row where
  /-- The address of the word. -/
  address : Word
  /-- The word. -/
  word : Word
  /-- Its text. -/
  text : String
  /-- Whether the word is an operand. -/
  isOperand : Bool
  deriving DecidableEq, Repr

namespace Memory

/-- The length of the run of words that take an operand and end just before address `n`, plus
`k`. -/
def operandRun (mem : Memory) : (n k : Nat) → Nat
  | 0, k => k
  | n + 1, k =>
    if mem.words[n]?.any takesOperand then mem.operandRun n (k + 1) else k

/-- Whether the word at an address is the operand of the instruction before it. An address
outside memory holds no operand. -/
def isOperand (mem : Memory) (a : Word) : Bool :=
  mem.contains a && mem.operandRun a.toNat 0 % 2 == 1

/-- Whether a view shows the word at an address as an operand. -/
def showsOperand (mem : Memory) (view : View) (a : Word) : Bool :=
  view = .decoded && mem.isOperand a

/-- The text of the word at an address, if the address is in memory. -/
def textAt (mem : Memory) (view : View) (a : Word) : Option String :=
  (mem.get? a).map fun w => wordText view (mem.showsOperand view a) w

/-- The next `n` rows from address `a` on, added to `rows`. `operand` tells whether the first of
them is an operand; from there on, a word is one if it follows a word that takes an operand and
is none itself. -/
def rowsFrom (mem : Memory) (view : View) : (n a : Nat) → (operand : Bool) → Array Row → Array Row
  | 0, _, _, rows => rows
  | n + 1, a, operand, rows =>
    match mem.words[a]? with
    | none => rows
    | some w =>
      let row : Row := ⟨BitVec.ofNat 16 a, w, wordText view operand w, operand⟩
      let next := view = .decoded && !operand && takesOperand w
      mem.rowsFrom view n (a + 1) next (rows.push row)

/-- The rows from `before` words before an address to `after` words after it, as far as memory
and the 16-bit addresses go. -/
def window (mem : Memory) (view : View) (center before after : Word) : Array Row :=
  let first := center.toNat - before.toNat
  let stop := min (center.toNat + after.toNat + 1) (min mem.size 0x10000)
  let operand := mem.showsOperand view (BitVec.ofNat 16 first)
  mem.rowsFrom view (stop - first) first operand #[]

end Memory

end Cpu16
