set_option relaxedAutoImplicit false
set_option autoImplicit false

/-!
# Words, bytes and the address space

The machine is word-addressed: an address and the value stored at it are both 16-bit words.
Only the lower half of the 16-bit addresses exists, and the highest existing address is
reserved, so that no instruction is fetched from it and no load or store reaches it.

## Main definitions

* `Cpu16.Word`, `Cpu16.Byte` — the two widths that the machine and its images are made of.
* `Cpu16.spaceSize` — how many words the full address space holds.
* `Cpu16.lastAddress` — the reserved highest address.
* `Cpu16.anySet` — whether a word has a bit of a mask.
-/

namespace Cpu16

/-- A machine word: an address, a register value or an instruction word. -/
abbrev Word := BitVec 16

/-- A byte of a memory image, or a key code. -/
abbrev Byte := BitVec 8

/-- Number of words in the full address space, which code, data and the stack share. -/
def spaceSize : Nat := 0x8000

/-- The highest address of the full address space. It is reserved: a fetch or a data access
at this address or past it is refused. -/
def lastAddress : Word := 0x7FFF

/-- The reserved address as a number. -/
@[simp]
theorem toNat_lastAddress : lastAddress.toNat = 0x7FFF := rfl

/-- The reserved address is the last one of the full address space. -/
theorem toNat_lastAddress_add_one : lastAddress.toNat + 1 = spaceSize := rfl

/-- Whether `w` has at least one of the bits of `mask`. -/
def anySet (w mask : Word) : Bool :=
  w &&& mask != 0

/-- No bit of the empty mask is set. -/
@[simp]
theorem anySet_zero (w : Word) : anySet w 0 = false := by
  simp [anySet]

end Cpu16
