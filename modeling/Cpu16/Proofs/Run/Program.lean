import Cpu16.Proofs.Listing.Boundaries
import Cpu16.Proofs.Run.Bookkeeping
import Cpu16.Proofs.Run.Loading
import Cpu16.Proofs.Step.Arithmetic
import Cpu16.Proofs.Step.FaultTable

set_option relaxedAutoImplicit false
set_option autoImplicit false

/-!
# Steps through a program

A program that has been loaded, and has written nothing in memory since, is known word for word. So
the instruction at the program counter is known as well, and what a step makes of the machine can be
read off the tables of the instruction. This file has rules for instructions that only work on
registers. A proof about a program applies them one after another, and never looks into a step.

## Main definitions

* `Cpu16.Machine.IsAt` — where the machine is in a program.

## Main results

* `Cpu16.Machine.IsAt.fetch`, `Cpu16.Machine.IsAt.word` — the words of the program are read.
* `Cpu16.executed_of_fetch` — an instruction is executed if none of its faults applies.
* `Cpu16.Machine.IsAt.executed` — the way on from an instruction that only works on registers.
* `Cpu16.Machine.IsAt.loadn`, `Cpu16.Machine.IsAt.arithmetic`, `Cpu16.Machine.IsAt.jump`,
  `Cpu16.Machine.IsAt.halt` — the rules.
-/

universe u

namespace Cpu16

/-- The machine is at `pc` of the program `ws`, after `n` instructions that were counted. Since the
program was loaded nothing has been written in memory, and the stack pointer is at its initial
value. -/
structure Machine.IsAt (m : Machine) (ws : Array Word) (pc : Word) (n : Nat) : Prop where
  /-- The program counter is at `pc`. -/
  pc : m.regs.pc = pc
  /-- The stack pointer is at the top of the stack. -/
  sp : m.regs.sp = stackTop
  /-- Live memory is as the program was loaded. -/
  memory : m.memory = (ofProgram ws).memory
  /-- So is the baseline. -/
  baseline : m.baseline = (ofProgram ws).baseline
  /-- The instructions have been counted. -/
  count : m.count = BitVec.ofNat 64 n

/-! ## One step -/

section Step

variable {σ : Type u} {dev : Device σ} {sink : Sink σ} {m m' : Machine} {s s' : σ} {o : Outcome}
  {i : Instruction}

/-- **An instruction that is fetched is executed** if none of its faults applies. -/
theorem executed_of_fetch (hm : m.memory.size = spaceSize) (hf : m.fetch = .ok i)
    (hrows : firstFault (i.faultRows dev m (sink (.started m.regs.pc i.word) s)) = none)
    (h : step dev sink m s = (o, m', s')) : ∃ reply, Executed i reply m o m' := by
  have hfault : o.fault? = none := by
    rw [← hrows, ← fault?_step_of_fetch hm hf, h]
  have ho : ∀ f, o ≠ .faulted f := by
    rintro f rfl
    cases hfault
  obtain ⟨j, reply, hx⟩ := executed_of_step h ho
  obtain rfl : i = j := hx.eq_of_fetch hf
  exact ⟨reply, hx⟩

/-- An instruction that writes no register leaves all of them alone. -/
theorem Executed.get {reply : Word} (hx : Executed i reply m o m') (hi : i.writesRegister = false)
    (r : Register) : m'.regs.get r = m.regs.get r := by
  unfold Registers.get
  rw [hx.general hi]

/-- A step that fetches an instruction counts it. -/
theorem count_step_of_fetch (hf : m.fetch = .ok i) (h : step dev sink m s = (o, m', s')) :
    m'.count = m.count + 1 := by
  have hcount := (StepRecord.of dev sink m s).count_after
  rw [if_neg (by simp [StepRecord.isUnfetched_of_fetch_eq_ok (r := .of dev sink m s) hf])] at hcount
  rwa [machine_eq_of_step h]

end Step

/-! ## The rules -/

namespace Machine.IsAt

variable {σ : Type u} {dev : Device σ} {sink : Sink σ} {m m' : Machine} {s s' : σ} {o : Outcome}
  {i : Instruction} {ws : Array Word} {pc : Word} {n : Nat}

/-- At the start of a run the program is at its first word. -/
theorem enterRun (ws : Array Word) : (ofProgram ws).enterRun.IsAt ws 0 0 :=
  ⟨rfl, rfl, rfl, rfl, rfl⟩

/-- The program fills the address space. -/
theorem size (h : m.IsAt ws pc n) : m.memory.size = spaceSize := by
  rw [h.memory, ofProgram, memory_loadWords, Memory.size_resize]

/-- The words of the program are found at their addresses. -/
theorem word (h : m.IsAt ws pc n) {a : Word} (ha : a.toNat < spaceSize) :
    m.memory.word a = ws.getD a.toNat 0 := by
  rw [h.memory]
  exact Memory.word_eq_of_get? (get?_loadWords _ ws ha)

/-- The instruction at the program counter is fetched. -/
theorem fetch (h : m.IsAt ws pc n) (hpc : pc < lastAddress) (hw : ws.getD pc.toNat 0 = i.word)
    (ho : Opcode.ofWord? i.word = some i.opcode) : m.fetch = .ok i := by
  have hlt := lt_lastAddress_iff.mp hpc
  refine Machine.fetch_eq_ok_iff.mpr ⟨h.pc ▸ hpc, ?_, ho⟩
  rw [h.pc, h.memory, ← hw]
  exact get?_loadWords _ ws (by rw [spaceSize]; omega)

/-- **On to the next instruction.** An instruction that is executed, writes nothing in memory and
leaves the stack pointer alone takes the machine to another place in the program. -/
theorem executed {reply : Word} (h : m.IsAt ws pc n) (hx : Executed i reply m o m')
    (hstep : step dev sink m s = (o, m', s')) (hsp : i.spAfter m = m.regs.sp)
    (hw : i.write? m = none) {pc' : Word} (hpc : i.pcAfter m = pc') : m'.IsAt ws pc' (n + 1) where
  pc := hx.pc.trans hpc
  sp := hx.sp.trans (hsp.trans h.sp)
  memory := (hx.memory_of_write?_eq_none hw).trans h.memory
  baseline := hx.baseline.trans h.baseline
  count := by
    rw [count_step_of_fetch hx.fetch hstep, h.count, BitVec.ofNat_add]
    rfl

/-- An instruction that stands low enough has room for its operand word. -/
theorem pc_ne (h : m.IsAt ws pc n) (hpc : pc < 0x7FFE) : m.regs.pc ≠ 0x7FFE := by
  rw [h.pc]
  exact BitVec.ne_of_lt hpc

/-- The operand word of the instruction at the program counter is the next word of the program. -/
theorem operand (h : m.IsAt ws pc n) (hpc : pc < 0x7FFE) :
    m.memory.word (m.regs.pc + 1) = ws.getD (pc + 1).toNat 0 := by
  rw [h.pc]
  exact h.word (by rw [spaceSize]; bv_omega)

/-- **`loadn`** loads its operand word into its register. -/
theorem loadn (h : m.IsAt ws pc n) (hpc : pc < 0x7FFE) (hf : m.fetch = .ok i)
    (ho : i.opcode = .loadn) (hstep : step dev sink m s = (o, m', s')) :
    o = .proceed ∧ m'.IsAt ws (pc + 2) (n + 1) ∧ m'.regs.get i.rd = ws.getD (pc + 1).toNat 0 ∧
      ∀ r, r ≠ i.rd → m'.regs.get r = m.regs.get r := by
  have hrows : firstFault (i.faultRows dev m (sink (.started m.regs.pc i.word) s)) = none := by
    rw [Instruction.faultRows, ho]
    show firstFault [(decide (m.regs.pc = 0x7FFE), .pcOutOfRange)] = none
    rw [decide_eq_false (h.pc_ne hpc)]
    rfl
  obtain ⟨reply, hx⟩ := executed_of_fetch h.size hf hrows hstep
  have hoperation : i.operation = .loadImmediate i.rd := by rw [Instruction.operation, ho]
  have hpc' : i.pcAfter m = pc + 2 := by
    rw [Instruction.pcAfter, ho, ← h.pc, Instruction.size, ho]
    rfl
  have hnext := h.executed hx hstep (by rw [Instruction.spAfter, ho])
    (by rw [Instruction.write?, ho])
    hpc'
  refine ⟨?_, hnext, ?_, fun r hr => hx.get_of_ne hr⟩
  · rw [hx.outcome, hoperation]
    rfl
  · rw [hx.regs, hoperation, Registers.get_commit, ← h.operand hpc]
    exact if_pos rfl

/-- **A jump** goes to its operand word if its condition holds, and on to the next instruction
otherwise. -/
theorem jump {c : Condition} (h : m.IsAt ws pc n) (hpc : pc < 0x7FFE) (hf : m.fetch = .ok i)
    (ho : i.opcode = .jmp) (hc : Condition.ofCode? i.conditionCode = some c)
    (htarget : ws.getD (pc + 1).toNat 0 ≤ 0x7FFF) (hstep : step dev sink m s = (o, m', s')) :
    o = .proceed ∧
      m'.IsAt ws (if c.holds m.regs.flagWord then ws.getD (pc + 1).toNat 0 else pc + 2) (n + 1) ∧
      ∀ r, m'.regs.get r = m.regs.get r := by
  -- No row of the table holds: the condition is assigned, and both ways lead into memory.
  have hrows : firstFault (i.faultRows dev m (sink (.started m.regs.pc i.word) s)) = none := by
    have hcode : i.conditionCode ≠ 15 := by
      intro hcode
      rw [hcode] at hc
      cases hc
    have hle : ¬0x7FFF < m.memory.word (m.regs.pc + 1) := by
      rw [h.operand hpc]
      exact BitVec.not_lt.mpr htarget
    rw [Instruction.faultRows, ho]
    show firstFault ((decide (i.conditionCode = 15), .invalidCondition) ::
      if i.isTaken m then [(decide (0x7FFF < m.memory.word (m.regs.pc + 1)), .pcOutOfRange)]
      else [(decide (m.regs.pc = 0x7FFE), .pcOutOfRange)]) = none
    rw [decide_eq_false hcode, decide_eq_false hle, decide_eq_false (h.pc_ne hpc)]
    cases i.isTaken m <;> rfl
  obtain ⟨reply, hx⟩ := executed_of_fetch h.size hf hrows hstep
  have hpc' := pc_of_branch hf (.inl ho) hc hstep hx.ne_faulted
  rw [hx.pc, h.operand hpc, h.pc] at hpc'
  have hnext := h.executed hx hstep (by rw [Instruction.spAfter, ho])
    (by rw [Instruction.write?, ho])
    hpc'
  refine ⟨?_, hnext, hx.get (by rw [Instruction.writesRegister, ho])⟩
  have hoperation : i.operation = i.branch .jump := by rw [Instruction.operation, ho]
  rw [hx.outcome, hoperation, Instruction.effects_jump]
  split <;> rfl

/-- **`halt`** stops, and the program counter stays at it. -/
theorem halt (h : m.IsAt ws pc n) (hf : m.fetch = .ok i) (ho : i.opcode = .halt)
    (hstep : step dev sink m s = (o, m', s')) :
    o = .stopped .halt ∧ m'.IsAt ws pc (n + 1) ∧ ∀ r, m'.regs.get r = m.regs.get r := by
  have hrows : firstFault (i.faultRows dev m (sink (.started m.regs.pc i.word) s)) = none := by
    rw [Instruction.faultRows, ho]
    rfl
  obtain ⟨reply, hx⟩ := executed_of_fetch h.size hf hrows hstep
  have hnext := h.executed hx hstep (by rw [Instruction.spAfter, ho])
    (by rw [Instruction.write?, ho])
    (by rw [Instruction.pcAfter, ho, h.pc])
  exact ⟨(hx.stopped_of_halt ho).1, hnext, hx.get (by rw [Instruction.writesRegister, ho])⟩

/-- **Arithmetic** computes the exact result. -/
theorem arithmetic (h : m.IsAt ws pc n) (hf : m.fetch = .ok i) (hi : i.opcode.isArithmetic = true)
    {z : Int} (hz : i.exactResult? m = some z) (hstep : step dev sink m s = (o, m', s')) :
    o = .proceed ∧ m'.IsAt ws (pc + 1) (n + 1) ∧ Computes i z m m' := by
  obtain ⟨hproceed, reply, hx⟩ := executed_of_isArithmetic dev sink s hf hi
  rw [hstep] at hproceed hx
  obtain ⟨hsp, hw, hpc⟩ := Instruction.tables_of_isArithmetic hi (m := m)
  exact ⟨hproceed, h.executed hx hstep hsp hw (hpc.trans (h.pc ▸ rfl)), hx.computes hi hz⟩

end Machine.IsAt

end Cpu16
