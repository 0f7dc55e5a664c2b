import Cpu16.Machine.Basic

set_option relaxedAutoImplicit false
set_option autoImplicit false

/-!
# The full address space

A memory that fills the address space has a word at every address that an access may use. There
the checks of an access are the only ones that count, and reading can be stated as a function.

## Main definitions

* `Cpu16.Memory.word` — the word at an address, as a function of every address.

## Main results

* `Cpu16.Memory.get?_eq_some_word`, `Cpu16.Memory.read_eq_ok_word` — reading inside memory.
* `Cpu16.le_lastAddress_iff`, `Cpu16.lt_lastAddress_iff` — the bounds of addresses, as numbers.
* `Cpu16.toNat_lt_of_size` — the addresses of a memory that fills the address space.
-/

namespace Cpu16

namespace Memory

/-- The word at an address. Outside memory, where nothing can be read, it is zero. -/
def word (mem : Memory) (a : Word) : Word := (mem.get? a).getD 0

/-- What is read at an address is the word there. -/
theorem word_eq_of_get? {mem : Memory} {a w : Word} (h : mem.get? a = some w) :
    mem.word a = w := by
  simp [word, h]

/-- Inside memory there is a word to read. -/
theorem get?_eq_some_word {mem : Memory} {a : Word} (h : a.toNat < mem.size) :
    mem.get? a = some (mem.word a) := by
  obtain ⟨w, hw⟩ := exists_get?_of_lt h
  rw [hw, word_eq_of_get? hw]

/-- Reading answers the word at an address exactly if the address is in memory. -/
theorem read_eq_ok_iff {mem : Memory} {a w : Word} :
    mem.read a = .ok w ↔ mem.get? a = some w := by
  unfold read
  cases mem.get? a <;> simp

/-- Inside memory, reading answers the word there. -/
theorem read_eq_ok_word {mem : Memory} {a : Word} (h : a.toNat < mem.size) :
    mem.read a = .ok (mem.word a) :=
  read_eq_ok_iff.mpr (get?_eq_some_word h)

end Memory

/-- The addresses of the address space are those up to the reserved one. -/
theorem le_lastAddress_iff {a : Word} : a ≤ lastAddress ↔ a.toNat ≤ 0x7FFF := BitVec.le_def

/-- The addresses that an instruction can be fetched from are those below the reserved one. -/
theorem lt_lastAddress_iff {a : Word} : a < lastAddress ↔ a.toNat < 0x7FFF := BitVec.lt_def

/-- A memory that fills the address space has all addresses up to the reserved one. -/
theorem toNat_lt_of_size {mem : Memory} {a : Word} (hm : mem.size = spaceSize)
    (ha : a ≤ 0x7FFF) : a.toNat < mem.size := by
  have hle := le_lastAddress_iff.mp ha
  rw [hm, spaceSize]
  omega

end Cpu16
