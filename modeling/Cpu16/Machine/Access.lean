import Cpu16.Fault
import Cpu16.Word

set_option relaxedAutoImplicit false
set_option autoImplicit false

/-!
# Which addresses are legal

Seven rules say which words may be used as an address, each for one purpose. They differ by one
or two at the end of the address space, and they are checked before anything is read or
written.

## Main definitions

* `Cpu16.Access` — the seven purposes.
* `Cpu16.Access.allows`, `Cpu16.Access.fault` — the legal words, and the fault of all others.
* `Cpu16.Access.check` — the check.

## Main results

* `Cpu16.Access.check_eq_ok_iff`, `Cpu16.Access.check_eq_error_iff` — what the check answers.
-/

namespace Cpu16

/-- What a word is about to be used for. -/
inductive Access
  /-- Fetching an instruction word, or being followed by an operand word. -/
  | fetch
  /-- Loading from memory or storing to it. -/
  | data
  /-- Being the stack pointer of a push or of a taken call, which write at it. -/
  | push
  /-- Being the stack pointer of a pop, which reads one above it. -/
  | pop
  /-- Being the stack pointer of a return, which needs a pushed word on an initialised stack. -/
  | ret
  /-- Being committed to the program counter. -/
  | programCounter
  /-- Being committed to the stack pointer. -/
  | stackPointer
  deriving DecidableEq, Repr

namespace Access

/-- Whether `a` may be used for the purpose. -/
def allows : Access → Word → Bool
  | fetch, a | data, a | pop, a => a < lastAddress
  | push, a => a ≠ 0 && a ≤ lastAddress
  | ret, a => a < lastAddress - 1
  | programCounter, a | stackPointer, a => a ≤ lastAddress

/-- The fault raised by a word that may not be used for the purpose. -/
def fault : Access → Fault
  | fetch | programCounter => .pcOutOfRange
  | data => .invalidAddress
  | push | pop | ret | stackPointer => .invalidStackPointer

/-- Refuses a word that may not be used for the purpose. -/
def check (k : Access) (a : Word) : Except Fault Unit :=
  if k.allows a then .ok () else .error k.fault

/-- The check succeeds exactly on the legal words. -/
@[simp]
theorem check_eq_ok_iff {k : Access} {a : Word} {u : Unit} :
    k.check a = .ok u ↔ k.allows a = true := by
  simp [check]

/-- The check fails exactly on the other words, and always with the same fault. -/
@[simp]
theorem check_eq_error_iff {k : Access} {a : Word} {f : Fault} :
    k.check a = .error f ↔ k.allows a = false ∧ f = k.fault := by
  cases h : k.allows a <;> simp [check, h, eq_comm]

end Access

end Cpu16
