import Cpu16.Proofs.Step.Log

set_option relaxedAutoImplicit false
set_option autoImplicit false

/-!
# A step that faults has no effect

An instruction stages its effects and fails before any of them is committed. So a step that
faults leaves registers, flags and memory alone, at whatever point the fault arises: it only
moves the program counter on, counts the instruction if there is one, and latches the fault.

## Main definitions

* `Cpu16.FaultFrame` — what a step that faults leaves alone, and what it latches.
* `Cpu16.FaultTrail` — the three ways in which it moves on, counts and reports.

## Main results

* `Cpu16.faultFrame_of_step`, `Cpu16.faultTrail_of_step` — every step that faults keeps to both.
* `Cpu16.step_faulted_atomic` — the two together: no memory write is reported either.
-/

universe u

namespace Cpu16

/-! ## What is left alone -/

/-- What a step from `m` that faults with `f` leaves alone in the machine `m'` after it, and what
it latches there. Only the program counter and the instruction count are left open. -/
structure FaultFrame (m : Machine) (f : Fault) (m' : Machine) : Prop where
  /-- The general registers are as before. -/
  general : m'.regs.general = m.regs.general
  /-- The stack pointer is as before. -/
  sp : m'.regs.sp = m.regs.sp
  /-- The flag register is as before. -/
  flags : m'.regs.flags = m.regs.flags
  /-- Live memory is as before. -/
  memory : m'.memory = m.memory
  /-- The baseline is as before. -/
  baseline : m'.baseline = m.baseline
  /-- The fault is the status of the machine. -/
  status : m'.status = .faulted f
  /-- The program counter before the step is kept as the place of the fault. -/
  faultPc : m'.faultPc = some m.regs.pc

/-- How a step from `m` that faults ends: the fault, the program counter and the instruction count
after it, and the reports. The three cases exclude one another. -/
inductive FaultTrail (m : Machine) : Fault → Word → BitVec 64 → List Event → Prop
  /-- The program counter is at the reserved address or past it, or outside live memory. Nothing
  moves on and nothing is counted. -/
  | outOfRange (h : 0x7FFF ≤ m.regs.pc ∨ m.memory.size ≤ m.regs.pc.toNat) :
      FaultTrail m .pcOutOfRange m.regs.pc m.count [.faulted .pcOutOfRange m.regs.pc]
  /-- The word at the program counter names no operation. It is passed over and not counted. -/
  | unassigned {w : Word} (hpc : m.regs.pc < 0x7FFF) (hw : m.memory.get? m.regs.pc = some w)
      (ho : Opcode.ofWord? w = none) :
      FaultTrail m .unknownOpcode (m.regs.pc + 1) m.count [.faulted .unknownOpcode m.regs.pc]
  /-- The instruction at the program counter fails. It is passed over, though not beyond the
  reserved address, and counted. -/
  | failed {w : Word} {o : Opcode} {f : Fault} {pc : Word} (hpc : m.regs.pc < 0x7FFF)
      (hw : m.memory.get? m.regs.pc = some w) (ho : Opcode.ofWord? w = some o)
      (hpast : pc.toNat = min (m.regs.pc.toNat + o.size) 0x7FFF) :
      FaultTrail m f pc (m.count + 1)
        [.started m.regs.pc w, .retired m.regs.pc (m.count + 1), .faulted f m.regs.pc]

/-! ## The two ways to a fault -/

/-- The program counter past an instruction, as a number. -/
theorem toNat_pcPast (pc : Word) (size : Nat) :
    (pcPast pc size).toNat = min (pc.toNat + size) 0x7FFF := by
  simp only [pcPast, toNat_lastAddress, BitVec.toNat_ofNat]
  omega

section Atomicity

variable {σ : Type u} {dev : Device σ} {sink : Sink σ} {m m' : Machine} {s s' : σ} {f : Fault}

/-- Where nothing is fetched, at most the program counter moves. -/
theorem FaultFrame.of_refused (m : Machine) (f : Fault) :
    FaultFrame m f ((m.refuse f).machine.record m.regs.pc (.faulted f)) := by
  unfold Machine.refuse
  by_cases h : f = .unknownOpcode
  · rw [if_pos h]
    exact ⟨rfl, rfl, rfl, rfl, rfl, rfl, rfl⟩
  · rw [if_neg h]
    exact ⟨rfl, rfl, rfl, rfl, rfl, rfl, rfl⟩

/-- An instruction that fails is passed over and counted, and nothing else happens. -/
theorem FaultFrame.of_failed (m : Machine) (f : Fault) (pc : Word) :
    FaultFrame m f ((m.setPc pc).tick.record m.regs.pc (.faulted f)) :=
  ⟨rfl, rfl, rfl, rfl, rfl, rfl, rfl⟩

/-- A step that faults leaves registers, flags and memory alone. -/
theorem faultFrame_of_step (h : step dev sink m s = (.faulted f, m', s')) :
    FaultFrame m f m' := by
  rw [machine_eq_of_step h]
  rcases step_eq_faulted h with hf | ⟨i, s₁, hf, hx⟩
  · rw [step_of_refused hf]
    exact FaultFrame.of_refused m f
  · rw [step_of_failed hf hx]
    exact FaultFrame.of_failed m f _

/-- A step that faults moves on, counts and reports in one of three ways.

**Proof sketch.** By the way of the step. If nothing is fetched, the fetch has failed at the
program counter or at the word there (`Machine.fetch_eq_error_iff`), which are the first two
cases. Otherwise there is an instruction that fails, which is the third. -/
theorem faultTrail_of_step (h : step dev sink m s = (.faulted f, m', s')) :
    FaultTrail m f m'.regs.pc m'.count (reports dev sink m s) := by
  rw [machine_eq_of_step h]
  rcases step_eq_faulted h with hf | ⟨i, s₁, hf, hx⟩
  · rw [reports_of_refused hf, step_of_refused hf]
    rcases Machine.fetch_eq_error_iff.mp hf with ⟨hpc, rfl⟩ | ⟨hpc, w, hw, ho, rfl⟩
    · exact .outOfRange (hpc.imp_right Memory.get?_eq_none_iff.mp)
    · exact .unassigned hpc hw ho
  · rw [reports_of_failed hf hx, step_of_failed hf hx]
    obtain ⟨hpc, hw, ho⟩ := Machine.fetch_eq_ok_iff.mp hf
    exact .failed hpc hw ho (toNat_pcPast _ _)

/-- None of the three ways reports a memory write. -/
theorem FaultTrail.wrote_not_mem {pc : Word} {count : BitVec 64} {events : List Event}
    (h : FaultTrail m f pc count events) (a value : Word) : Event.wrote a value ∉ events := by
  cases h <;> simp

/-- **A step that faults is atomic.** From every machine, with a memory of any length, and for
every device and sink: if a step faults, then registers, stack pointer, flags, live memory and
baseline are as before, the fault and its place are latched, no memory write is reported, and
program counter, instruction count and reports follow one of the three ways of `FaultTrail`. -/
theorem step_faulted_atomic (h : step dev sink m s = (.faulted f, m', s')) :
    FaultFrame m f m' ∧ (∀ a value, Event.wrote a value ∉ reports dev sink m s) ∧
      FaultTrail m f m'.regs.pc m'.count (reports dev sink m s) :=
  ⟨faultFrame_of_step h, (faultTrail_of_step h).wrote_not_mem, faultTrail_of_step h⟩

end Atomicity

/-- A machine whose only word is a `pop`, and whose stack pointer is at the reserved address. -/
def Machine.popPastTop : Machine :=
  { regs := { sp := 0x7FFF }, memory := ⟨#[0x1800]⟩ }

/-- The `pop` past the top of the stack is a step that faults. -/
theorem step_faulted_atomic_popPastTop :
    FaultFrame .popPastTop .invalidStackPointer
        (step Device.silent Sink.ignore .popPastTop ()).2.1 ∧
      (∀ a value, Event.wrote a value ∉ reports Device.silent Sink.ignore .popPastTop ()) ∧
      FaultTrail .popPastTop .invalidStackPointer 1 1
        [.started 0 0x1800, .retired 0 1, .faulted .invalidStackPointer 0] :=
  step_faulted_atomic rfl

end Cpu16
