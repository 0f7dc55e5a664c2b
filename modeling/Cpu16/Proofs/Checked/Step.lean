import Cpu16.Proofs.Checked.Execution
import Cpu16.Proofs.Run.Trace

set_option relaxedAutoImplicit false
set_option autoImplicit false

/-!
# No step traps

A step fetches, executes and commits. With checked operations all of it comes to the same as
without them, from every machine: the program counter and the stack pointer may have any value, and
memory may have any length.

What cannot be out of range need not be checked. The rest is checked before it is used, and what is
left over is a matter of the length of memory: a word outside it is not fetched or read but faults,
and a write outside it is dropped.

## Main definitions

* `Cpu16.Machine.commitChecked` — the machine after the effects of an instruction.
* `Cpu16.stepChecked` — one step.

## Main results

* `Cpu16.Machine.commitChecked_eq`, `Cpu16.stepChecked_eq` — neither of them traps.
* `Cpu16.pc_step_eq_or_le`, `Cpu16.sp_step_eq_or_le` — a step moves neither register out of the
  address space, even where the host has done so before.
* `Cpu16.step_never_traps` — all of it together.
-/

universe u

namespace Cpu16

/-! ## Fetching -/

/-- The instruction in a word, whose operation code is shifted down. -/
def Instruction.decodeChecked (w : Word) : Guarded Instruction := do
  match Opcode.ofCode? (← Checked.shiftRight w 10).toNat with
  | some o => return ⟨o, w⟩
  | none => throw .unknownOpcode

/-- A word is decoded without a trap. -/
theorem Instruction.decodeChecked_eq (w : Word) : decodeChecked w = untrapped (decode w) := by
  rw [decodeChecked, Checked.shiftRight_eq_ok w (by decide), decode]
  show (match Opcode.ofWord? w with
    | some o => pure (Instruction.mk o w)
    | none => throw Fault.unknownOpcode) = _
  cases Opcode.ofWord? w <;> rfl

/-- The instruction at the program counter. Where memory is too short for the program counter, the
program counter is to blame. -/
def Machine.fetchChecked (m : Machine) : Guarded Instruction := do
  untrapped (Access.fetch.check m.regs.pc)
  let w ← (m.memory.readChecked m.regs.pc).adapt fun _ => Fault.pcOutOfRange
  Instruction.decodeChecked w

/-- An instruction is fetched without a trap. -/
theorem Machine.fetchChecked_eq (m : Machine) : m.fetchChecked = untrapped m.fetch := by
  refine untrapped_bind fun _ _ => ?_
  rw [Memory.readChecked_eq, Memory.read]
  cases m.memory.get? m.regs.pc with
  | none => rfl
  | some w => exact Instruction.decodeChecked_eq w

/-! ## Committing -/

/-- The register file with one general register replaced. -/
def Registers.setChecked (regs : Registers) (r : Register) (value : Word) :
    Except Trap Registers := do
  return { regs with general := ← Checked.set regs.general r.val value }

/-- The registers after the effects of an instruction. -/
def Registers.commitChecked (regs : Registers) (e : Effects) : Except Trap Registers := do
  let written ← match e.dest with
    | some (r, value) => regs.setChecked r value
    | none => .ok regs
  return { written with
    pc := e.nextPc
    sp := e.sp.getD regs.sp
    flags := Flags.ofWord (e.flags.apply regs.flagWord) }

/-- The registers are committed without a trap. -/
theorem Registers.commitChecked_eq (regs : Registers) (e : Effects) :
    regs.commitChecked e = .ok (regs.commit e) := by
  unfold commitChecked commit
  cases e.dest with
  | none => rfl
  | some d =>
    simp only [setChecked, Checked.set_eq_ok _ d.1.isLt]
    rfl

/-- The memory after the effects of an instruction, with the report of the write. The address is
looked up only after it has been compared with the length of memory. -/
def Memory.commitChecked (mem : Memory) (e : Effects) : Except Trap (Memory × List Event) :=
  match e.write with
  | none => .ok (mem, [])
  | some (a, value) =>
    if mem.contains a then do
      return (⟨(← Checked.set mem.vector a.toNat value).toArray⟩, [.wrote a value])
    else
      .ok (mem, [])

/-- The machine after the effects of an instruction, with the report of the write. -/
def Machine.commitChecked (m : Machine) (e : Effects) : Except Trap (Machine × List Event) := do
  let (memory, events) ← m.memory.commitChecked e
  return ({ m with regs := ← m.regs.commitChecked e, memory := memory }, events)

/-- A write inside memory replaces an entry of the array. -/
theorem Memory.set_vector {mem : Memory} {a : Word} (h : a.toNat < mem.size) (value : Word) :
    ⟨(mem.vector.set a.toNat value h).toArray⟩ = mem.set a value := by
  have hlt : a.toNat < mem.words.size := h
  rw [set, Array.setIfInBounds_def, dif_pos hlt]
  rfl

/-- Memory is committed without a trap: a write outside of it is dropped before the words are
touched. -/
theorem Machine.memory_commitChecked_eq (m : Machine) (e : Effects) :
    m.memory.commitChecked e = .ok (m.memory.commit e, m.writeEvents e) := by
  unfold Memory.commitChecked Memory.commit writeEvents
  rcases e.write with _ | ⟨a, value⟩
  · rfl
  cases h : m.memory.contains a with
  | true =>
    have hlt := Memory.contains_iff.mp h
    simp only [h, Checked.set_eq_ok _ hlt, ← Memory.set_vector hlt]
    rfl
  | false =>
    simp only [h, Memory.set_of_not_contains h]
    rfl

/-- **Committing does not trap**, whatever the effects: a write outside memory is dropped. -/
theorem Machine.commitChecked_eq (m : Machine) (e : Effects) :
    m.commitChecked e = .ok (m.commit e, m.writeEvents e) := by
  rw [commitChecked, memory_commitChecked_eq, Registers.commitChecked_eq]
  rfl

/-! ## The step -/

/-- The end of an instruction of `size` words, given what its execution came to. A program counter
that passes over a failed instruction is cut off at the last address. -/
def Machine.retireChecked (m : Machine) (size : Nat) : Except Fault Effects → Except Trap Attempt
  | .ok e => do
    let (committed, events) ← m.commitChecked e
    let after := committed.tick
    return {
      outcome := .ofStop e.stop
      events := events ++ [.retired m.regs.pc after.count]
      machine := after }
  | .error f => .ok (m.retire size (.error f))

/-- The bookkeeping at the end of an instruction does not trap: the count wraps by design, and the
program counter saturates. -/
theorem Machine.retireChecked_eq (m : Machine) (size : Nat) (result : Except Fault Effects) :
    m.retireChecked size result = .ok (m.retire size result) := by
  cases result with
  | error f => rfl
  | ok e =>
    rw [retireChecked, commitChecked_eq]
    rfl

section Step

variable {σ : Type u}

/-- One attempt at an instruction, up to the record of its outcome. -/
def attemptChecked (dev : Device σ) (sink : Sink σ) (m : Machine) (s : σ) :
    Except Trap (Attempt × σ) :=
  m.fetchChecked.run.bind fun
    | .error f => .ok (m.refuse f, s)
    | .ok i =>
      (executeChecked dev i m (sink (.started m.regs.pc i.word) s)).bind fun (result, s) =>
        (m.retireChecked i.size result).map fun a => (a, s)

/-- What a step attempts, from the fetch to the commit, does not trap. -/
theorem attemptChecked_eq (dev : Device σ) (sink : Sink σ) (m : Machine) (s : σ) :
    attemptChecked dev sink m s = .ok (attempt dev sink m s) := by
  rw [attemptChecked, m.fetchChecked_eq, attempt]
  cases m.fetch with
  | error f => rfl
  | ok i =>
    show (executeChecked dev i m (sink (.started m.regs.pc i.word) s)).bind _ = _
    rw [executeChecked_eq]
    show (m.retireChecked i.size _).map _ = _
    rw [m.retireChecked_eq]
    rfl

/-- One step. -/
def stepChecked (dev : Device σ) (sink : Sink σ) (m : Machine) (s : σ) :
    Except Trap (Outcome × Machine × σ) :=
  (attemptChecked dev sink m s).map fun (a, s) =>
    let a := a.conclude m.regs.pc
    (a.outcome, a.machine, sink.reportAll a.events s)

/-- **A step does not trap.** -/
theorem stepChecked_eq (dev : Device σ) (sink : Sink σ) (m : Machine) (s : σ) :
    stepChecked dev sink m s = .ok (step dev sink m s) := by
  rw [stepChecked, attemptChecked_eq]
  rfl

/-! ## The registers after a step -/

variable {dev : Device σ} {sink : Sink σ} {m m' : Machine} {s s' : σ} {o : Outcome}

/-- A step that faults moves the program counter, if at all, within the address space. -/
theorem FaultTrail.pc_eq_or_le {f : Fault} {pc : Word} {count : BitVec 64} {events : List Event}
    (h : FaultTrail m f pc count events) : pc = m.regs.pc ∨ pc ≤ 0x7FFF := by
  cases h with
  | outOfRange hout => exact .inl rfl
  | unassigned hpc hw ho => exact .inr (by bv_omega)
  | failed hpc hw ho hpast => exact .inr (by bv_omega)

/-- A step that moves the program counter moves it into the address space. -/
theorem pc_step_eq_or_le (h : step dev sink m s = (o, m', s')) :
    m'.regs.pc = m.regs.pc ∨ m'.regs.pc ≤ 0x7FFF := by
  rcases faulted_or_executed h with ⟨f, rfl, -, htrail⟩ | ⟨i, reply, hx⟩
  · exact htrail.pc_eq_or_le
  · exact .inr hx.pc_le

/-- A step that moves the stack pointer moves it into the address space. -/
theorem sp_step_eq_or_le (h : step dev sink m s = (o, m', s')) :
    m'.regs.sp = m.regs.sp ∨ m'.regs.sp ≤ 0x7FFF := by
  rcases faulted_or_executed h with ⟨f, rfl, hframe, -⟩ | ⟨i, reply, hx⟩
  · exact .inl hframe.sp
  · obtain ⟨-, -, hchecked⟩ := Effects.checked_eq_ok_iff.mp hx.check
    rw [hx.regs, Registers.sp_commit]
    cases hs : (i.operation.effects m reply).sp with
    | none => exact .inl rfl
    | some sp => exact .inr (of_decide_eq_true (hchecked sp hs))

/-- **No step traps.** From every machine, with any program counter and stack pointer and a memory
of any length, for every device and sink: executing any instruction, committing any effects and
stepping come to the same with checked operations as without them. After the step the program
counter and the stack pointer are as before or in the address space. -/
theorem step_never_traps (dev : Device σ) (sink : Sink σ) (m : Machine) (s : σ) :
    (∀ i, executeChecked dev i m s = .ok (execute dev i.operation m s)) ∧
      (∀ e, m.commitChecked e = .ok (m.commit e, m.writeEvents e)) ∧
      stepChecked dev sink m s = .ok (step dev sink m s) ∧
      ((step dev sink m s).2.1.regs.pc = m.regs.pc ∨
        (step dev sink m s).2.1.regs.pc ≤ 0x7FFF) ∧
      ((step dev sink m s).2.1.regs.sp = m.regs.sp ∨
        (step dev sink m s).2.1.regs.sp ≤ 0x7FFF) :=
  ⟨fun i => executeChecked_eq dev i m s, m.commitChecked_eq, stepChecked_eq dev sink m s,
    pc_step_eq_or_le rfl, sp_step_eq_or_le rfl⟩

end Step

end Cpu16
