import Cpu16.Isa.Operation

set_option relaxedAutoImplicit false
set_option autoImplicit false

/-!
# Instructions as text

Every operation has one line of assembly: its name, and after a blank its operands with commas
between them. The line shows all that the operation depends on, and nothing else. The operand
word of an instruction is not a part of its line: a listing shows it in a row of its own, as a
number.

## Main definitions

* `Cpu16.Operation.name`, `Cpu16.Operation.operands` — the parts of a line.
* `Cpu16.Operation.text` — an operation as a line of assembly.
* `Cpu16.View` — how a listing shows memory.
* `Cpu16.wordText` — the text of a memory word.
-/

namespace Cpu16

/-! ## Operations as text -/

/-- The name of a binary operation. -/
def BinaryOp.name : BinaryOp → String
  | add => "add"
  | sub => "sub"
  | mult => "mult"
  | div => "div"
  | mod => "mod"
  | and => "and"
  | or => "or"
  | xor => "xor"

/-- The name of a jump or a call. An unconditional one has a name of its own, and any other is
named by a letter and its condition. -/
def Condition.branchName (always letter : String) (c : Condition) : String :=
  if c = .always then always else letter ++ c.suffix

/-- An operand on a line of assembly. -/
inductive Operand
  /-- A general register. -/
  | register (r : Register)
  /-- The stack pointer. -/
  | stackPointer
  /-- The flag register. -/
  | flagRegister
  /-- The amount of a shift. -/
  | amount (n : BitVec 4)
  deriving DecidableEq, Repr

/-- An operand as text. -/
def Operand.text : Operand → String
  | register r => r.name
  | stackPointer => "SP"
  | flagRegister => "FR"
  | amount n => toString n.toNat

namespace Operation

/-- The name of an operation. A branch with an unassigned condition has no name, and its line
says so instead. -/
def name : Operation → String
  | nop => "nop"
  | halt => "halt"
  | breakpoint => "breakp"
  | setCarry => "setc"
  | clearCarry => "clearc"
  | binary f addsCarry _ _ _ => f.name ++ if addsCarry then "c" else ""
  | complement _ _ => "not"
  | increment _ => "inc"
  | decrement _ => "dec"
  | shift mode _ _ => mode.name
  | move _ _ | moveFromStackPointer _ | moveToStackPointer _ => "mov"
  | compare _ _ => "cmp"
  | jump condition => condition.branchName "jmp" "j"
  | call condition => condition.branchName "call" "c"
  | invalidBranch code => s!"<invalid condition {code}>"
  | ret => "rts"
  | push _ | pushFlags => "push"
  | pop _ | popFlags => "pop"
  | loadImmediate _ => "loadn"
  | load _ => "load"
  | store _ => "store"
  | loadIndirect _ _ => "loadi"
  | storeIndirect _ _ => "storei"
  | input _ => "inchar"
  | output _ _ => "outchar"

/-- The operands of an operation, in the order of its line. -/
def operands : Operation → List Operand
  | binary _ _ rd rs1 rs2 => [.register rd, .register rs1, .register rs2]
  | complement r q | move r q | compare r q | loadIndirect r q | storeIndirect r q | output r q =>
    [.register r, .register q]
  | increment r | decrement r | push r | pop r | loadImmediate r | load r | store r | input r =>
    [.register r]
  | shift _ rd n => [.register rd, .amount n]
  | moveFromStackPointer rd => [.register rd, .stackPointer]
  | moveToStackPointer rs => [.stackPointer, .register rs]
  | pushFlags | popFlags => [.flagRegister]
  | nop | halt | breakpoint | setCarry | clearCarry | jump _ | call _ | invalidBranch _ | ret => []

/-- An operation as a line of assembly. -/
def text (op : Operation) : String :=
  match op.operands with
  | [] => op.name
  | operands => op.name ++ " " ++ String.intercalate ", " (operands.map Operand.text)

end Operation

/-- An instruction as a line of assembly. -/
def Instruction.text (i : Instruction) : String := i.operation.text

/-! ## Words as text -/

/-- How a listing shows memory. -/
inductive View
  /-- Instructions as assembly, and operands as numbers. -/
  | decoded
  /-- Every word as a number, for memory that holds data. -/
  | raw
  deriving DecidableEq, Repr

/-- A word as a number. -/
def literal (w : Word) : String := "#" ++ toString w.toNat

/-- The text of a word that is or is not an operand. -/
def wordText (view : View) (operand : Bool) (w : Word) : String :=
  if view = .raw || operand then
    literal w
  else
    match Instruction.decode w with
    | .ok i => i.text
    | .error _ => s!"<invalid opcode {opcodeField w}>"

end Cpu16
