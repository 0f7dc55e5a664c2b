import Cpu16.Machine.Basic
import Cpu16.Step.Trace

set_option relaxedAutoImplicit false
set_option autoImplicit false

/-!
# Staged effects

An instruction does not change the machine while it executes. It stages its effects, and they
are committed together once nothing can fail any more. So an instruction that faults has no
effect at all, apart from the program counter and the instruction count, which the step
advances.

## Main definitions

* `Cpu16.Effects` — the effects of one instruction.
* `Cpu16.Effects.checked` — the last check, of the staged program counter and stack pointer.
* `Cpu16.Machine.commit` — the machine after the effects.
* `Cpu16.Machine.writeEvents` — the report of the memory write.

## Main results

* `Cpu16.Effects.checked_eq_ok_iff`, `Cpu16.Effects.checked_eq_error_iff` — what the last check
  answers.
* `Cpu16.Registers.get_commit`, `Cpu16.Memory.get?_commit` — what is read after the effects.
-/

namespace Cpu16

/-- The staged effects of one instruction. -/
structure Effects where
  /-- The program counter after the instruction. -/
  nextPc : Word
  /-- The general register to write, and its new value. -/
  dest : Option (Register × Word) := none
  /-- The new stack pointer. -/
  sp : Option Word := none
  /-- The address to write in memory, and the word to write there. -/
  write : Option (Word × Word) := none
  /-- The change of the flag register. -/
  flags : FlagChange := .keep
  /-- The stop that the instruction asks for. -/
  stop : Option Stop := none
  deriving DecidableEq, Repr

namespace Effects

/-- The effects of an instruction of `size` words at `pc` that does nothing but go on to the
next one. -/
def fallThrough (pc : Word) (size : Nat) : Effects :=
  { nextPc := pc + BitVec.ofNat 16 size }

/-- Refuses effects that would move the program counter or the stack pointer out of the address
space. -/
def checked (e : Effects) : Except Fault Effects := do
  Access.programCounter.check e.nextPc
  if let some sp := e.sp then
    Access.stackPointer.check sp
  return e

/-- The last check passes effects on unchanged, exactly if both staged registers stay in the
address space. -/
theorem checked_eq_ok_iff {e e' : Effects} :
    e.checked = .ok e' ↔ e = e' ∧ Access.programCounter.allows e.nextPc = true ∧
      ∀ sp, e.sp = some sp → Access.stackPointer.allows sp = true := by
  unfold checked
  cases hp : Access.programCounter.allows e.nextPc with
  | false => simp [Access.check, hp, bind, Except.bind]
  | true =>
    cases hs : e.sp with
    | none => simp [Access.check, hp, bind, Except.bind, pure, Except.pure]
    | some sp =>
      cases hq : Access.stackPointer.allows sp <;>
        simp [Access.check, hp, hq, bind, Except.bind, pure, Except.pure]

/-- The last check blames the program counter before the stack pointer. -/
theorem checked_eq_error_iff {e : Effects} {f : Fault} :
    e.checked = .error f ↔
      (Access.programCounter.allows e.nextPc = false ∧ f = .pcOutOfRange) ∨
        (Access.programCounter.allows e.nextPc = true ∧
          ∃ sp, e.sp = some sp ∧ Access.stackPointer.allows sp = false ∧
            f = .invalidStackPointer) := by
  unfold checked
  cases hp : Access.programCounter.allows e.nextPc with
  | false => simp [Access.check, hp, bind, Except.bind, Access.fault, @eq_comm _ f]
  | true =>
    cases hs : e.sp with
    | none => simp [Access.check, hp, bind, Except.bind, pure, Except.pure]
    | some sp =>
      cases hq : Access.stackPointer.allows sp <;>
        simp [Access.check, hp, hq, bind, Except.bind, pure, Except.pure, Access.fault,
          @eq_comm _ f]

end Effects

namespace Registers

/-- The registers after the effects of an instruction. -/
def commit (regs : Registers) (e : Effects) : Registers :=
  let written := match e.dest with
    | some (r, value) => regs.set r value
    | none => regs
  { written with
    pc := e.nextPc
    sp := e.sp.getD regs.sp
    flags := Flags.ofWord (e.flags.apply regs.flagWord) }

/-- The staged program counter is committed. -/
@[simp]
theorem pc_commit (regs : Registers) (e : Effects) : (regs.commit e).pc = e.nextPc := rfl

/-- The staged stack pointer is committed, or the old one kept. -/
@[simp]
theorem sp_commit (regs : Registers) (e : Effects) : (regs.commit e).sp = e.sp.getD regs.sp := rfl

/-- The staged change of the flags is committed, without the bits that have no meaning. -/
@[simp]
theorem flags_commit (regs : Registers) (e : Effects) :
    (regs.commit e).flags = Flags.ofWord (e.flags.apply regs.flagWord) := rfl

/-- After the effects, the staged destination holds its new value, and every other general
register its old one. -/
theorem get_commit (regs : Registers) (e : Effects) (q : Register) :
    (regs.commit e).get q =
      match e.dest with
      | some (r, value) => if q = r then value else regs.get q
      | none => regs.get q := by
  cases h : e.dest with
  | none => simp [commit, h, get]
  | some d => simpa [commit, h, get] using get_set regs d.1 q d.2

end Registers

namespace Memory

/-- The memory after the effects of an instruction. A write outside memory is dropped. -/
def commit (memory : Memory) (e : Effects) : Memory :=
  match e.write with
  | some (a, value) => memory.set a value
  | none => memory

/-- The effects of an instruction keep the size of memory. -/
@[simp]
theorem size_commit (memory : Memory) (e : Effects) : (memory.commit e).size = memory.size := by
  unfold commit
  split <;> simp

/-- After the effects, the staged address holds its new word, if it is in memory, and every
other address its old one. -/
theorem get?_commit (memory : Memory) (e : Effects) (b : Word) :
    (memory.commit e).get? b =
      match e.write with
      | some (a, value) => if b = a ∧ a.toNat < memory.size then some value else memory.get? b
      | none => memory.get? b := by
  cases h : e.write with
  | none => simp [commit, h]
  | some w => simpa [commit, h] using get?_set memory w.1 b w.2

end Memory

namespace Machine

/-- The machine after the effects of an instruction. -/
def commit (m : Machine) (e : Effects) : Machine :=
  { m with regs := m.regs.commit e, memory := m.memory.commit e }

/-- The report of the memory write, if there is one and it is not dropped. -/
def writeEvents (m : Machine) (e : Effects) : List Event :=
  match e.write with
  | some (a, value) => if m.memory.contains a then [.wrote a value] else []
  | none => []

end Machine

end Cpu16
