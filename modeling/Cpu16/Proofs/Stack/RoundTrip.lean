import Cpu16.Proofs.Stack.Refinement
import Cpu16.Proofs.Step.FaultTable

set_option relaxedAutoImplicit false
set_option autoImplicit false

/-!
# The return from a call

A call pushes the address after it and goes to its operand. If a return stands there, the two of
them come to nothing but a step past the call, and to the return address left behind in memory. But
the two do not check the same things: a call may push at the reserved address, from where no return
pops, and nobody looks at the address that it pushes until the return goes there. So there are calls
that succeed and cannot be returned from, at the end of the stack and at the end of the address
space.

A push may overwrite the program, the operand of the call itself included. The target of a call is
read before the push, and what stands at the target counts after it.

## Main definitions

* `Cpu16.Called` — what a taken call makes of a machine.
* `Cpu16.Returned` — what a call and the return from it make of a machine.

## Main results

* `Cpu16.called_of_step` — a taken call that succeeds does so.
* `Cpu16.outcome_step_of_rts` — how a return ends, and `Cpu16.Called.outcome_step` after a call.
* `Cpu16.return_after_call` — when a call can be returned from, and what comes of the two then.
-/

universe u v

namespace Cpu16

/-! ## The call -/

/-- What a taken call makes of the machine `m`. -/
structure Called (m m₁ : Machine) : Prop where
  /-- It goes to its operand. -/
  pc : m₁.regs.pc = m.memory.word (m.regs.pc + 1)
  /-- The stack pointer moves down. -/
  sp : m₁.regs.sp = m.regs.sp - 1
  /-- The general registers are as before. -/
  general : m₁.regs.general = m.regs.general
  /-- The flag register is as before. -/
  flags : m₁.regs.flags = m.regs.flags
  /-- The address after the call is written at the stack pointer. -/
  memory : m₁.memory = m.memory.set m.regs.sp (m.regs.pc + 2)
  /-- The stack had room for it. -/
  pos : 0 < m.regs.sp
  /-- It was written within the address space. -/
  le : m.regs.sp ≤ lastAddress

/-- What a call and the return from it make of the machine `m`. -/
structure Returned (m m₂ : Machine) : Prop where
  /-- Execution goes on after the call. -/
  pc : m₂.regs.pc = m.regs.pc + 2
  /-- The stack pointer is as before. -/
  sp : m₂.regs.sp = m.regs.sp
  /-- The general registers are as before. -/
  general : m₂.regs.general = m.regs.general
  /-- The flag register is as before. -/
  flags : m₂.regs.flags = m.regs.flags
  /-- The return address is left behind at the stack pointer. -/
  left : m₂.memory.get? m.regs.sp = some (m.regs.pc + 2)
  /-- Every other word is as before. -/
  others : ∀ a, a ≠ m.regs.sp → m₂.memory.get? a = m.memory.get? a

section Call

variable {σ : Type u} {dev : Device σ} {sink : Sink σ} {m m' : Machine} {s s' : σ} {o : Outcome}
  {i : Instruction}

/-- **A taken call that succeeds** pushes the address after it and goes to its operand. -/
theorem called_of_step (hf : m.fetch = .ok i) (hi : i.opcode = .call) (ht : i.isTaken m = true)
    (h : step dev sink m s = (o, m', s')) (ho : ∀ f, o ≠ .faulted f) : Called m m' := by
  obtain ⟨j, reply, hx⟩ := executed_of_step h ho
  obtain rfl : i = j := hx.eq_of_fetch hf
  have hop : i.stackOp m = .push (m.regs.pc + 2) := by
    simp [Instruction.stackOp, hi, ht]
  obtain ⟨hwrite, hsp, hne, hle⟩ := hx.write_push hop
  constructor
  case pc =>
    rw [hx.pc]
    simp [Instruction.pcAfter, hi, ht]
  case sp => exact hsp
  case general => exact hx.general (by simp [Instruction.writesRegister, hi])
  case flags => exact hx.flags (by simp [Instruction.changesFlags, hi])
  case memory => exact (hx.memory_of_write? hwrite).1
  case pos => bv_omega
  case le => exact hle

end Call

namespace Called

variable {m m₁ : Machine}

/-- The word that the call has written is above the stack pointer. -/
theorem sp_add_one (h : Called m m₁) : m₁.regs.sp + 1 = m.regs.sp := by
  rw [h.sp, BitVec.sub_add_cancel]

/-- In a full memory, the return address stands at the old stack pointer. -/
theorem get?_sp (h : Called m m₁) (hm : m.memory.size = spaceSize) :
    m₁.memory.get? m.regs.sp = some (m.regs.pc + 2) := by
  rw [h.memory, Memory.get?_set]
  exact if_pos ⟨rfl, toNat_lt_of_size hm h.le⟩

/-- A call keeps the size of memory. -/
theorem size (h : Called m m₁) : m₁.memory.size = m.memory.size := by
  rw [h.memory, Memory.size_set]

end Called

/-! ## The return -/

section Return

variable {σ : Type u} {dev : Device σ} {sink : Sink σ} {m m' : Machine} {s s' : σ} {o : Outcome}
  {i : Instruction}

/-- A return that is executed lets execution proceed. -/
theorem Executed.proceed_of_rts {reply : Word} (hx : Executed i reply m o m')
    (hi : i.opcode = .rts) : o = .proceed := by
  rw [hx.outcome, Instruction.operation, hi]
  rfl

/-- **How a return ends.** It fails at a stack pointer with too little above it, or at a word that
is no address; otherwise execution proceeds. -/
theorem outcome_step_of_rts (hm : m.memory.size = spaceSize) (hf : m.fetch = .ok i)
    (hi : i.opcode = .rts) (h : step dev sink m s = (o, m', s')) :
    o = if 0x7FFE ≤ m.regs.sp then .faulted .invalidStackPointer
      else if 0x7FFF < m.memory.word (m.regs.sp + 1) then .faulted .pcOutOfRange
      else .proceed := by
  have hrows : o.fault? = firstFault [(0x7FFE ≤ m.regs.sp, .invalidStackPointer),
      (0x7FFF < m.memory.word (m.regs.sp + 1), .pcOutOfRange)] := by
    have hstep := @fault?_step_of_fetch σ dev sink m s i hm hf
    rw [h, Instruction.faultRows, hi] at hstep
    exact hstep
  have ho : o = o.fault?.elim .proceed .faulted := by
    rcases faulted_or_executed h with ⟨f, rfl, -, -⟩ | ⟨j, reply, hx⟩
    · rfl
    · obtain rfl : i = j := hx.eq_of_fetch hf
      rw [hx.proceed_of_rts hi]
      rfl
  rw [ho, hrows]
  by_cases hsp : 0x7FFE ≤ m.regs.sp
  · rw [decide_eq_true hsp, if_pos hsp]
    rfl
  by_cases hpc : 0x7FFF < m.memory.word (m.regs.sp + 1)
  · rw [decide_eq_false hsp, decide_eq_true hpc, if_neg hsp, if_pos hpc]
    rfl
  · rw [decide_eq_false hsp, decide_eq_false hpc, if_neg hsp, if_neg hpc]
    rfl

/-- How a return ends that comes right after a call: by the stack pointer and the program counter
of the call. -/
theorem Called.outcome_step {m₁ : Machine} {w : Word} (hcalled : Called m m₁)
    (hm : m.memory.size = spaceSize) (hpc : m.regs.pc < lastAddress)
    (hf : m₁.fetch = .ok ⟨.rts, w⟩) (h : step dev sink m₁ s = (o, m', s')) :
    o = if m.regs.sp = 0x7FFF then .faulted .invalidStackPointer
      else if m.regs.pc = 0x7FFE then .faulted .pcOutOfRange
      else .proceed := by
  have hword : m₁.memory.word (m₁.regs.sp + 1) = m.regs.pc + 2 := by
    rw [hcalled.sp_add_one]
    exact Memory.word_eq_of_get? (hcalled.get?_sp hm)
  have hlast := lt_lastAddress_iff.mp hpc
  have hle := le_lastAddress_iff.mp hcalled.le
  have hpos := hcalled.pos
  have hstack : 0x7FFE ≤ m.regs.sp - 1 ↔ m.regs.sp = 0x7FFF := by
    constructor <;> intro h <;> bv_omega
  have hspace : 0x7FFF < m.regs.pc + 2 ↔ m.regs.pc = 0x7FFE := by
    constructor <;> intro h <;> bv_omega
  have houtcome := outcome_step_of_rts (hcalled.size.trans hm) hf rfl h
  rw [hword, hcalled.sp] at houtcome
  simpa only [hstack, hspace] using houtcome

/-- **The return from a call** that has just been made, if it succeeds, leads back past the call. -/
theorem Called.returned {m₁ : Machine} {reply : Word} (h : Called m m₁)
    (hm : m.memory.size = spaceSize) (hx : Executed i reply m₁ o m') (hi : i.opcode = .rts) :
    Returned m m' := by
  have hmemory : m'.memory = m₁.memory :=
    hx.memory_of_write?_eq_none (by rw [Instruction.write?, hi])
  constructor
  case pc =>
    rw [hx.pc, Instruction.pcAfter, hi, h.sp_add_one]
    exact Memory.word_eq_of_get? (h.get?_sp hm)
  case sp =>
    rw [hx.sp, Instruction.spAfter, hi]
    exact h.sp_add_one
  case general =>
    rw [hx.general (by simp [Instruction.writesRegister, hi]), h.general]
  case flags =>
    rw [hx.flags (by simp [Instruction.changesFlags, hi]), h.flags]
  case left =>
    rw [hmemory]
    exact h.get?_sp hm
  case others =>
    intro a ha
    rw [hmemory, h.memory, Memory.get?_set]
    exact if_neg fun heq => ha heq.1

end Return

/-! ## Both -/

section RoundTrip

variable {σ : Type u} {τ : Type v} {dev : Device σ} {sink : Sink σ} {dev' : Device τ}
  {sink' : Sink τ} {m m₁ m₂ : Machine} {s s₁ : σ} {t t₂ : τ} {o : Outcome} {i : Instruction}

/-- **A call and the return from it.** From every machine with a memory that fills the address
space, for every device and sink: let a taken call to an address below the reserved one succeed, and
let a return stand at its target once the return address has been pushed. Then the next step, in
whatever world it is made, proceeds exactly if the stack pointer of the call was below the reserved
address, and the call had room for another instruction after it. It then leads back past the call,
and nothing but the word at the old stack pointer has changed, which is the return address. A return
from the reserved address fails at the stack pointer; else a return from a call at the end of the
address space fails at the program counter, since no address comes after that call.

**Proof sketch.** What the call has done is `called_of_step`. The return finds the old stack pointer
less one, and above it the address after the call, so how it ends is `Called.outcome_step`, and
where it leads is `Called.returned`. -/
theorem return_after_call (hm : m.memory.size = spaceSize) (hf : m.fetch = .ok i)
    (hi : i.opcode = .call) (ht : i.isTaken m = true)
    (hcall : step dev sink m s = (.proceed, m₁, s₁))
    (htarget : m.memory.word (m.regs.pc + 1) ≤ 0x7FFE)
    (hret : Opcode.ofWord? (m₁.memory.word (m.memory.word (m.regs.pc + 1))) = some .rts)
    (hstep : step dev' sink' m₁ t = (o, m₂, t₂)) :
    (o = .proceed ↔ m.regs.sp ≤ 0x7FFE ∧ m.regs.pc ≤ 0x7FFD) ∧
      (o = .proceed → Returned m m₂) ∧
      (m.regs.sp = 0x7FFF → o = .faulted .invalidStackPointer) ∧
      (m.regs.sp ≠ 0x7FFF → m.regs.pc = 0x7FFE →
        m₁.memory.get? m.regs.sp = some 0x8000 ∧ o = .faulted .pcOutOfRange) := by
  have hcalled : Called m m₁ := called_of_step hf hi ht hcall (by simp)
  have hm₁ : m₁.memory.size = spaceSize := hcalled.size.trans hm
  have hpc₁ : m₁.regs.pc < lastAddress := by
    rw [hcalled.pc, lt_lastAddress_iff]
    bv_omega
  -- The return is fetched from memory as the call has left it.
  have hf₁ : m₁.fetch = .ok ⟨.rts, m₁.memory.word m₁.regs.pc⟩ := by
    refine Machine.fetch_eq_ok_iff.mpr ⟨hpc₁, ?_, by rw [hcalled.pc]; exact hret⟩
    exact Memory.get?_eq_some_word (toNat_lt_of_size hm₁ (BitVec.le_of_lt hpc₁))
  obtain ⟨hpc, -, -⟩ := Machine.fetch_eq_ok_iff.mp hf
  have houtcome := hcalled.outcome_step hm hpc hf₁ hstep
  refine ⟨?_, ?_, ?_, ?_⟩
  · have hsp : m.regs.sp ≤ 0x7FFE ↔ m.regs.sp ≠ 0x7FFF := by
      have hle := le_lastAddress_iff.mp hcalled.le
      constructor <;> intro h <;> bv_omega
    have hpc' : m.regs.pc ≤ 0x7FFD ↔ m.regs.pc ≠ 0x7FFE := by
      have hlast := lt_lastAddress_iff.mp hpc
      constructor <;> intro h <;> bv_omega
    rw [hsp, hpc', houtcome]
    split_ifs with h₁ h₂
    · simp [h₁]
    · simp [h₂]
    · exact iff_of_true rfl ⟨h₁, h₂⟩
  · intro ho
    obtain ⟨j, reply, hx⟩ := executed_of_step hstep (by simp [ho])
    obtain rfl := Except.ok.inj (hf₁.symm.trans hx.fetch)
    exact hcalled.returned hm hx rfl
  · intro h
    rw [houtcome, if_pos h]
  · intro h h'
    refine ⟨?_, by rw [houtcome, if_neg h, if_pos h']⟩
    rw [hcalled.get?_sp hm, h']
    rfl

end RoundTrip

/-- A machine with a full memory and a call at its start whose operand is the next free word of the
stack. At the target there is a return. -/
def Machine.callOverOperand : Machine :=
  { regs := { sp := 1 }
    memory := (((Memory.zeros spaceSize).set 0 0x0C00).set 1 0x1000).set 0x1000 0x1000 }

/-- The machine after the call, which has written over its own operand. -/
def Machine.calledOverOperand : Machine :=
  (callOverOperand.commit { nextPc := 0x1000, sp := some 0, write := some (1, 2) }).tick

/-- The instruction calls, whatever the flags are. -/
theorem Machine.fetch_callOverOperand : callOverOperand.fetch = .ok ⟨.call, 0x0C00⟩ := by
  refine fetch_eq_ok_iff.mpr ⟨by decide, ?_, rfl⟩
  simp [callOverOperand, Memory.get?_set, spaceSize]

/-- Its operand is the target of the call. -/
theorem Machine.operand_callOverOperand : callOverOperand.memory.get? 1 = some 0x1000 := by
  simp [callOverOperand, Memory.get?_set, spaceSize]

/-- The call goes on, and has pushed over its own operand. -/
theorem Machine.step_callOverOperand :
    step Device.silent Sink.ignore callOverOperand () = (.proceed, calledOverOperand, ()) := by
  have hread := Memory.read_eq_ok_iff.mpr operand_callOverOperand
  have hstage : (Instruction.operation ⟨.call, 0x0C00⟩).stage callOverOperand 0 =
      .ok { nextPc := 0x1000, sp := some 0, write := some (1, 2) } :=
    bind_eq_ok_iff.mpr ⟨0x1000, bind_eq_ok_iff.mpr ⟨(), rfl, hread⟩, rfl⟩
  have hx : execute Device.silent (Instruction.operation ⟨.call, 0x0C00⟩) callOverOperand () =
      (.ok { nextPc := 0x1000, sp := some 0, write := some (1, 2) }, ()) :=
    execute_eq_ok_iff.mpr ⟨0, rfl, hstage, rfl⟩
  rw [step_of_succeeded fetch_callOverOperand hx, Sink.reportAll_ignore]
  rfl

/-- The return leads back past a call that has written over its own operand. -/
theorem return_after_call_overOperand :
    (step Device.silent Sink.ignore .calledOverOperand ()).1 = .proceed ∧
      Returned .callOverOperand
        (step Device.silent Sink.ignore .calledOverOperand ()).2.1 := by
  have hoperand : Machine.callOverOperand.memory.word 1 = 0x1000 :=
    Memory.word_eq_of_get? Machine.operand_callOverOperand
  have htarget : Machine.calledOverOperand.memory.word 0x1000 = 0x1000 :=
    Memory.word_eq_of_get? (by
      simp [Machine.calledOverOperand, Machine.commit, Machine.tick, Memory.get?_commit,
        Machine.callOverOperand, Memory.get?_set, spaceSize])
  have hle : Machine.callOverOperand.memory.word 1 ≤ 0x7FFE := by
    rw [hoperand]
    decide
  have hret : Opcode.ofWord?
      (Machine.calledOverOperand.memory.word (Machine.callOverOperand.memory.word 1)) =
        some .rts := by
    rw [hoperand, htarget]
    rfl
  have hsize : Machine.callOverOperand.memory.size = spaceSize := by
    simp [Machine.callOverOperand]
  rcases hstep : step Device.silent Sink.ignore Machine.calledOverOperand () with ⟨o, m₂, t₂⟩
  obtain ⟨hiff, hreturned, -, -⟩ := return_after_call hsize Machine.fetch_callOverOperand rfl rfl
    Machine.step_callOverOperand hle hret hstep
  have ho : o = .proceed := hiff.mpr ⟨by decide, by decide⟩
  exact ⟨ho, hreturned ho⟩

end Cpu16
