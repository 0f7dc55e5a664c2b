import Cpu16.Isa.Flags

set_option relaxedAutoImplicit false
set_option autoImplicit false

/-!
# Registers

Eight general registers, a program counter, a stack pointer and the flag register.

## Main definitions

* `Cpu16.Register` — the number of a general register, with its name and with
  `Register.atBit`, which reads the number from an instruction word.
* `Cpu16.Registers` — the register file.
-/

namespace Cpu16

/-- The number of a general register. -/
abbrev Register := Fin 8

namespace Register

/-- The register whose three-bit number starts at bit `b` of `w`. -/
def atBit (w : Word) (b : Nat) : Register :=
  (w.extractLsb' b 3).toFin

/-- The name of a register in a listing. -/
def name (r : Register) : String :=
  "R" ++ toString r.val

end Register

/-- The stack pointer after a reset: the top of the stack, just below the reserved word. -/
def stackTop : Word := 0x7FFE

/-- The register file. -/
structure Registers where
  /-- The eight general registers. -/
  general : Vector Word 8 := Vector.replicate 8 0
  /-- The program counter. -/
  pc : Word := 0
  /-- The stack pointer; the stack grows towards lower addresses. -/
  sp : Word := stackTop
  /-- The flag register. -/
  flags : Flags := 0
  deriving DecidableEq, Repr

namespace Registers

/-- The register file after a reset. -/
def initial : Registers := {}

/-- The value of a general register. -/
def get (regs : Registers) (r : Register) : Word :=
  regs.general[r]

/-- The register file with one general register replaced. -/
def set (regs : Registers) (r : Register) (value : Word) : Registers :=
  { regs with general := regs.general.set r value }

/-- A register that is written holds the new value, and every other one its old value. -/
theorem get_set (regs : Registers) (r q : Register) (value : Word) :
    (regs.set r value).get q = if q = r then value else regs.get q := by
  simp only [get, set, Fin.getElem_fin, Vector.getElem_set, Fin.ext_iff, eq_comm]

/-- A general register is not the program counter. -/
@[simp]
theorem pc_set (regs : Registers) (r : Register) (value : Word) :
    (regs.set r value).pc = regs.pc := rfl

/-- A general register is not the stack pointer. -/
@[simp]
theorem sp_set (regs : Registers) (r : Register) (value : Word) :
    (regs.set r value).sp = regs.sp := rfl

/-- A write to a general register leaves the flags alone. -/
@[simp]
theorem flags_set (regs : Registers) (r : Register) (value : Word) :
    (regs.set r value).flags = regs.flags := rfl

/-- The flag register as a word. -/
def flagWord (regs : Registers) : Word :=
  Flags.toWord regs.flags

/-- The register file with `value` written to the flag register. -/
def setFlagWord (regs : Registers) (value : Word) : Registers :=
  { regs with flags := Flags.ofWord value }

/-- Whether the flag register has at least one of the bits of `mask`. -/
def hasFlag (regs : Registers) (mask : Word) : Bool :=
  anySet regs.flagWord mask

end Registers

end Cpu16
