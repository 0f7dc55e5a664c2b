import Cpu16.Proofs.Step.Atomicity
import Cpu16.Proofs.Step.WriteSet

set_option relaxedAutoImplicit false
set_option autoImplicit false

/-!
# Steps that execute their instruction

A step that succeeds has executed an instruction: the effects of the instruction have passed all
checks and are committed. What such a step makes of the program counter, the stack pointer and
memory is read off the tables of the instruction. Statements about sequences of steps use these
facts, and never look into the staging of the effects again.

## Main definitions

* `Cpu16.Executed` — the step has executed an instruction with success.

## Main results

* `Cpu16.executed_of_step`, `Cpu16.faulted_or_executed` — a step that does not fault has executed
  an instruction.
* `Cpu16.Executed.pc`, `Cpu16.Executed.sp`, `Cpu16.Executed.get?` — the registers and memory after
  the step.
* `Cpu16.Executed.general`, `Cpu16.Executed.get_of_ne`, `Cpu16.Executed.flags`,
  `Cpu16.Executed.memory_of_write?_eq_none` — what instructions leave alone.
* `Cpu16.Executed.pc_le`, `Cpu16.Executed.sp_le` — they stay in the address space.
* `Cpu16.Executed.get_pop`, `Cpu16.Executed.flagWord_pop` — what a pop delivers.
* `Cpu16.pc_of_branch` — where a branch goes.
* `Cpu16.executed_of_goesOn` — an instruction without checks is executed.
* `Cpu16.executed_of_wrote` — where a reported write comes from.
-/

universe u

namespace Cpu16

/-- The step from `m` to `m'` that ends with `o` has executed the instruction `i`, to which the
device has replied `reply`. -/
structure Executed (i : Instruction) (reply : Word) (m : Machine) (o : Outcome) (m' : Machine) :
    Prop where
  /-- The instruction is the one at the program counter. -/
  fetch : m.fetch = .ok i
  /-- All checks of the instruction have passed. -/
  stage : i.operation.stage m reply = .ok (i.operation.effects m reply)
  /-- The staged registers are in the address space. -/
  check : (i.operation.effects m reply).checked = .ok (i.operation.effects m reply)
  /-- The outcome is the stop that the instruction asks for. -/
  outcome : o = .ofStop (i.operation.effects m reply).stop
  /-- The effects on the registers are committed. -/
  regs : m'.regs = m.regs.commit (i.operation.effects m reply)
  /-- The effect on memory is committed. -/
  memory : m'.memory = m.memory.commit (i.operation.effects m reply)
  /-- The baseline is as before. -/
  baseline : m'.baseline = m.baseline

/-- **A step that does not fault has executed an instruction.** -/
theorem executed_of_step {σ : Type u} {dev : Device σ} {sink : Sink σ} {m m' : Machine} {s s' : σ}
    {o : Outcome} (h : step dev sink m s = (o, m', s')) (ho : ∀ f, o ≠ .faulted f) :
    ∃ i reply, Executed i reply m o m' := by
  obtain ⟨i, e, s₁, hf, hx⟩ := step_eq_of_not_faulted h ho
  obtain ⟨reply, -, hs, hc⟩ := execute_eq_ok_iff.mp hx
  obtain rfl := Operation.eq_effects_of_stage hs
  rw [step_of_succeeded hf hx] at h
  obtain ⟨rfl, hm, -⟩ : _ ∧ _ ∧ _ := by simpa only [Prod.mk.injEq] using h
  obtain ⟨status, hr⟩ := (m.commit (i.operation.effects m reply)).tick.record_ofStop m.regs.pc
    (i.operation.effects m reply).stop
  rw [hr] at hm
  subst hm
  exact ⟨i, reply, hf, hs, hc, rfl, rfl, rfl, rfl⟩

namespace Executed

variable {i : Instruction} {reply : Word} {m m' : Machine} {o : Outcome}

/-- An instruction that is executed has not faulted. -/
theorem ne_faulted (h : Executed i reply m o m') (f : Fault) : o ≠ .faulted f := by
  rw [h.outcome]
  exact Outcome.ofStop_ne_faulted _ f

/-- The instruction that is fetched is the one that is executed. -/
theorem eq_of_fetch (h : Executed i reply m o m') {j : Instruction} (hf : m.fetch = .ok j) :
    j = i :=
  Except.ok.inj (hf.symm.trans h.fetch)

/-- The program counter after the step is the tabulated one. -/
theorem pc (h : Executed i reply m o m') : m'.regs.pc = i.pcAfter m := by
  rw [h.regs, Registers.pc_commit]
  exact (i.tabulated_effects m reply).nextPc

/-- The stack pointer after the step is the tabulated one. -/
theorem sp (h : Executed i reply m o m') : m'.regs.sp = i.spAfter m := by
  rw [h.regs, Registers.sp_commit]
  exact (i.tabulated_effects m reply).sp

/-- The general registers after the step of an instruction that writes none. -/
theorem general (h : Executed i reply m o m') (hi : i.writesRegister = false) :
    m'.regs.general = m.regs.general := by
  have hdest : (i.operation.effects m reply).dest = none := by
    rw [Option.eq_none_iff_forall_ne_some]
    rintro ⟨r, value⟩ hd
    obtain ⟨-, hwrites⟩ := (i.tabulated_effects m reply).dest r value hd
    exact Bool.noConfusion (hi.symm.trans hwrites)
  rw [h.regs, Registers.commit, hdest]

/-- An instruction writes no register but its own. -/
theorem get_of_ne (h : Executed i reply m o m') {r : Register} (hr : r ≠ i.rd) :
    m'.regs.get r = m.regs.get r := by
  by_contra hne
  rw [h.regs] at hne
  obtain ⟨value, hdest⟩ := Registers.exists_dest_of_get_ne hne
  exact hr ((i.tabulated_effects m reply).dest r value hdest).1

/-- The flag register after the step of an instruction that does not change it. -/
theorem flags (h : Executed i reply m o m') (hi : i.changesFlags = false) :
    m'.regs.flags = m.regs.flags := by
  rw [h.regs, Registers.flags_commit, (i.tabulated_effects m reply).flags hi]
  exact Flags.ofWord_toWord _

/-- After the step the program counter is in the address space. -/
theorem pc_le (h : Executed i reply m o m') : m'.regs.pc ≤ lastAddress := by
  obtain ⟨-, hpc, -⟩ := Effects.checked_eq_ok_iff.mp h.check
  rw [h.regs, Registers.pc_commit]
  simpa [Access.allows] using hpc

/-- If the stack pointer was in the address space before the step, so it is after it. -/
theorem sp_le (h : Executed i reply m o m') (hm : m.regs.sp ≤ lastAddress) :
    m'.regs.sp ≤ lastAddress := by
  obtain ⟨-, -, hsp⟩ := Effects.checked_eq_ok_iff.mp h.check
  rw [h.regs, Registers.sp_commit]
  cases hs : (i.operation.effects m reply).sp with
  | none => exact hm
  | some sp =>
    have hallows := hsp sp hs
    simpa [Access.allows] using hallows

/-- An instruction that is executed keeps the size of memory. -/
theorem size (h : Executed i reply m o m') : m'.memory.size = m.memory.size := by
  rw [h.memory, Memory.size_commit]

/-- What is read after the step. -/
theorem get? (h : Executed i reply m o m') (hm : m.memory.size = spaceSize) (a : Word) :
    m'.memory.get? a =
      match i.write? m with
      | some (b, w) => if a = b then some w else m.memory.get? a
      | none => m.memory.get? a := by
  have htab := (i.tabulated_effects m reply).write
  rw [h.memory, Memory.get?_commit, htab]
  cases hw : i.write? m with
  | none => rfl
  | some bw =>
    obtain ⟨b, w⟩ := bw
    have hb : b ≤ lastAddress := Operation.le_lastAddress_of_stage h.stage (htab.trans hw)
    have hlt : b.toNat < m.memory.size := toNat_lt_of_size hm hb
    simp [hlt]

/-- An instruction that is executed and writes in memory writes there what the tables say. -/
theorem memory_of_write? {a w : Word} (h : Executed i reply m o m')
    (hw : i.write? m = some (a, w)) : m'.memory = m.memory.set a w ∧ a ≤ lastAddress := by
  have hwrite := (i.tabulated_effects m reply).write.trans hw
  refine ⟨?_, Operation.le_lastAddress_of_stage h.stage hwrite⟩
  rw [h.memory, Memory.commit, hwrite]

/-- An instruction that is executed and writes nothing in memory leaves it alone. -/
theorem memory_of_write?_eq_none (h : Executed i reply m o m') (hw : i.write? m = none) :
    m'.memory = m.memory := by
  rw [h.memory, Memory.commit, (i.tabulated_effects m reply).write, hw]

/-- A pop into a general register delivers the word above the stack pointer there. -/
theorem get_pop (h : Executed i reply m o m') (hop : i.opcode = .pop) (hb : i.modeBit = false) :
    m'.regs.get i.rd = m.memory.word (m.regs.sp + 1) := by
  have hoperation : i.operation = .pop i.rd := by
    unfold Instruction.operation
    rw [hop]
    simp [hb]
  rw [h.regs, hoperation, Registers.get_commit]
  exact if_pos rfl

/-- A pop into the flag register delivers the meaningful bits of the word above the stack
pointer. -/
theorem flagWord_pop (h : Executed i reply m o m') (hop : i.opcode = .pop)
    (hb : i.modeBit = true) :
    m'.regs.flagWord = m.memory.word (m.regs.sp + 1) &&& Flags.activeMask := by
  have hoperation : i.operation = .popFlags := by
    unfold Instruction.operation
    rw [hop]
    simp [hb]
  rw [h.regs, hoperation, Registers.flagWord, Registers.flags_commit, Flags.toWord_ofWord]
  show (m.memory.word (m.regs.sp + 1) &&& Flags.activeMask) &&& Flags.activeMask = _
  rw [BitVec.and_assoc, BitVec.and_self]

end Executed

section Step

variable {σ : Type u} {dev : Device σ} {sink : Sink σ} {m m' : Machine} {s s' : σ} {o : Outcome}

/-- A branch that succeeds goes to its operand or on to the next instruction, by the flags. -/
theorem pc_of_branch {i : Instruction} {c : Condition} (hf : m.fetch = .ok i)
    (hi : i.opcode = .jmp ∨ i.opcode = .call) (hc : Condition.ofCode? i.conditionCode = some c)
    (h : step dev sink m s = (o, m', s')) (ho : ∀ f, o ≠ .faulted f) :
    m'.regs.pc =
      if c.holds m.regs.flagWord then m.memory.word (m.regs.pc + 1) else m.regs.pc + 2 := by
  obtain ⟨j, reply, hx⟩ := executed_of_step h ho
  obtain rfl : i = j := hx.eq_of_fetch hf
  have htaken : i.isTaken m = c.holds m.regs.flagWord := by simp [Instruction.isTaken, hc]
  rw [hx.pc, ← htaken]
  unfold Instruction.pcAfter
  rcases hi with hi | hi <;> rw [hi]

/-- An instruction that was fetched and only goes on to the next word succeeds, once the device has
replied and it has passed its own checks. -/
theorem execute_of_goesOn {i : Instruction} {reply : Word} {e : Effects} {s₁ : σ}
    (hf : m.fetch = .ok i) (hreply : dev.perform (i.operation.exchange m.regs) s = (.ok reply, s₁))
    (hstage : i.operation.stage m reply = .ok e) (hpc : e.nextPc = m.regs.pc + 1)
    (hsp : e.sp = none) : execute dev i.operation m s = (.ok e, s₁) := by
  obtain ⟨hlt, -, -⟩ := Machine.fetch_eq_ok_iff.mp hf
  have hallows : Access.programCounter.allows e.nextPc = true := by
    have hle : m.regs.pc + 1 ≤ lastAddress := by
      simp only [lastAddress] at hlt ⊢
      bv_omega
    simpa [hpc, Access.allows] using hle
  have hchecked : e.checked = .ok e := by
    refine Effects.checked_eq_ok_iff.mpr ⟨rfl, hallows, ?_⟩
    simp [hsp]
  exact execute_eq_ok_iff.mpr ⟨reply, hreply, hstage, hchecked⟩

/-- An instruction that was fetched is executed, and execution may go on, if it asks nothing of the
device and only goes on to the next word without a check that could fail. -/
theorem executed_of_goesOn {i : Instruction} {e : Effects} (dev : Device σ) (sink : Sink σ) (s : σ)
    (hf : m.fetch = .ok i) (hnone : i.operation.exchange m.regs = .none)
    (hstage : i.operation.stage m 0 = .ok e) (hpc : e.nextPc = m.regs.pc + 1) (hsp : e.sp = none)
    (hstop : e.stop = none) :
    (step dev sink m s).1 = .proceed ∧
      ∃ reply, Executed i reply m (step dev sink m s).1 (step dev sink m s).2.1 := by
  have hreply : dev.perform (i.operation.exchange m.regs) (sink (.started m.regs.pc i.word) s) =
      (.ok 0, sink (.started m.regs.pc i.word) s) := by
    rw [hnone, Device.perform_none]
  have ho : (step dev sink m s).1 = .proceed := by
    rw [step_of_succeeded hf (execute_of_goesOn hf hreply hstage hpc hsp), hstop]
    rfl
  rcases hstep : step dev sink m s with ⟨o, m', s'⟩
  obtain rfl : o = .proceed := by rwa [hstep] at ho
  obtain ⟨j, reply, hj⟩ := executed_of_step hstep fun f => Outcome.noConfusion
  obtain rfl : i = j := hj.eq_of_fetch hf
  exact ⟨rfl, reply, hj⟩

/-- **The two ways of a step.** A step faults and leaves everything but its place alone, or it has
executed an instruction. -/
theorem faulted_or_executed (h : step dev sink m s = (o, m', s')) :
    (∃ f, o = .faulted f ∧ FaultFrame m f m' ∧
        FaultTrail m f m'.regs.pc m'.count (reports dev sink m s)) ∨
      ∃ i reply, Executed i reply m o m' := by
  cases o with
  | faulted f => exact .inl ⟨f, rfl, faultFrame_of_step h, faultTrail_of_step h⟩
  | proceed | stopped reason => exact .inr (executed_of_step h (by simp))

/-- A memory write that is reported is that of an instruction that has been executed. -/
theorem executed_of_wrote (h : step dev sink m s = (o, m', s')) {a w : Word}
    (hw : .wrote a w ∈ reports dev sink m s) :
    ∃ i reply, Executed i reply m o m' ∧ i.write? m = some (a, w) := by
  have ho : ∀ f, o ≠ .faulted f := by
    rintro f rfl
    exact (faultTrail_of_step h).wrote_not_mem a w hw
  obtain ⟨i, reply, hx⟩ := executed_of_step h ho
  obtain ⟨j, e, s₁, hf, he⟩ := step_eq_of_not_faulted h ho
  obtain rfl : j = i := hx.eq_of_fetch hf
  refine ⟨j, reply, hx, ?_⟩
  obtain ⟨reply', -, hstage, -⟩ := execute_eq_ok_iff.mp he
  rw [reports_of_succeeded hf he] at hw
  -- The only report of a write is the one of the staged write.
  have hmem : .wrote a w ∈ m.writeEvents e := by
    cases hstop : e.stop <;> simpa [Outcome.ofStop, Outcome.events, hstop] using hw
  rw [Operation.eq_effects_of_stage hstage, Machine.writeEvents,
    (j.tabulated_effects m reply').write] at hmem
  rcases hwrite : j.write? m with _ | ⟨b, v⟩
  · simp [hwrite] at hmem
  · rw [hwrite] at hmem
    by_cases hc : m.memory.contains b = true
    · obtain ⟨rfl, rfl⟩ : a = b ∧ w = v := by simpa [hc] using hmem
      rfl
    · simp [hc] at hmem

/-- No step changes the length of live memory. -/
theorem size_memory_step (h : step dev sink m s = (o, m', s')) :
    m'.memory.size = m.memory.size := by
  rcases faulted_or_executed h with ⟨f, -, hframe, -⟩ | ⟨i, reply, hx⟩
  · rw [hframe.memory]
  · exact hx.size

/-- No step replaces the baseline. -/
theorem baseline_step (h : step dev sink m s = (o, m', s')) : m'.baseline = m.baseline := by
  rcases faulted_or_executed h with ⟨f, -, hframe, -⟩ | ⟨i, reply, hx⟩
  · exact hframe.baseline
  · exact hx.baseline

end Step

end Cpu16
