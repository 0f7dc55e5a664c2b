import Cpu16.Proofs.Step.Cases
import Cpu16.Proofs.Step.Staging

set_option relaxedAutoImplicit false
set_option autoImplicit false

/-!
# The write set of a step that succeeds

An instruction may change one general register, the stack pointer, the flag register, one word
of memory and the program counter. Which of them it changes, and to what, can be read off its
word and the machine before the step. This file has one table for each of them, by operation
code, and the theorem that a step which succeeds changes what the tables say and nothing else.

## Main definitions

* `Cpu16.Instruction.isTaken` — whether a jump or a call is taken.
* `Cpu16.Instruction.writesRegister`, `Cpu16.Instruction.changesFlags` — which instructions may
  write their register and the flag register.
* `Cpu16.Instruction.spAfter`, `Cpu16.Instruction.pcAfter`, `Cpu16.Instruction.write?` — the
  stack pointer, the program counter and the memory write of an instruction.
* `Cpu16.WriteSet` — the changes that an instruction may make to the machine.

## Main results

* `Cpu16.step_writeSet` — a step that succeeds changes no more than that.

## Implementation notes

The tables go by the operation code and the raw fields of the word. Execution goes by the
`Operation` that the fields select, which the tables never mention.
-/

universe u

namespace Cpu16

/-! ## The tables -/

namespace Instruction

/-- Whether a jump or a call is taken: its condition code is assigned and the condition holds. -/
def isTaken (i : Instruction) (m : Machine) : Bool :=
  (Condition.ofCode? i.conditionCode).any fun c => c.holds m.regs.flagWord

/-- Whether the instruction may write the register that bits 9 to 7 select. -/
def writesRegister (i : Instruction) : Bool :=
  match i.opcode with
  | .add | .sub | .mult | .div | .mod | .and | .or | .xor | .not | .incDec | .rotateShift
  | .loadn | .load | .loadi | .inchar => true
  | .mov => i.moveKind ≠ .toStackPointer
  | .pop => !i.modeBit
  | _ => false

/-- Whether the instruction may change the flag register. -/
def changesFlags (i : Instruction) : Bool :=
  match i.opcode with
  | .add | .sub | .mult | .div | .mod | .and | .or | .xor | .incDec | .cmp
  | .carryControl => true
  | .pop => i.modeBit
  | _ => false

/-- The stack pointer after the instruction. -/
def spAfter (i : Instruction) (m : Machine) : Word :=
  match i.opcode with
  | .push => m.regs.sp - 1
  | .call => if i.isTaken m then m.regs.sp - 1 else m.regs.sp
  | .pop | .rts => m.regs.sp + 1
  | .mov => if i.moveKind = .toStackPointer then m.regs.get i.rd else m.regs.sp
  | _ => m.regs.sp

/-- The address that the instruction writes in memory, if it writes any, and the word that it
writes there. -/
def write? (i : Instruction) (m : Machine) : Option (Word × Word) :=
  match i.opcode with
  | .push => some (m.regs.sp, if i.modeBit then m.regs.flagWord else m.regs.get i.rd)
  | .call => if i.isTaken m then some (m.regs.sp, m.regs.pc + 2) else none
  | .store => some (m.memory.word (m.regs.pc + 1), m.regs.get i.rd)
  | .storei => some (m.regs.get i.rd, m.regs.get i.rs1)
  | _ => none

/-- The program counter after the instruction. -/
def pcAfter (i : Instruction) (m : Machine) : Word :=
  match i.opcode with
  | .jmp | .call =>
    if i.isTaken m then m.memory.word (m.regs.pc + 1) else m.regs.pc + 2
  | .rts => m.memory.word (m.regs.sp + 1)
  | .halt => m.regs.pc
  | _ => m.regs.pc + BitVec.ofNat 16 i.size

end Instruction

/-- What an instruction may change: the machine `m'` after it against the machine `m` before.
Whatever is read is read before. -/
structure WriteSet (i : Instruction) (m m' : Machine) : Prop where
  /-- At most one general register changes, and only for an instruction that writes it. -/
  register : ∀ r, m'.regs.get r ≠ m.regs.get r → r = i.rd ∧ i.writesRegister = true
  /-- The stack pointer. -/
  sp : m'.regs.sp = i.spAfter m
  /-- The flag register changes only for an instruction that may change it. -/
  flags : m'.regs.flags ≠ m.regs.flags → i.changesFlags = true
  /-- The program counter. -/
  pc : m'.regs.pc = i.pcAfter m
  /-- The word that is written is found at its address. -/
  written : ∀ a w, i.write? m = some (a, w) → m'.memory.get? a = some w
  /-- Every other address holds its old word. -/
  unwritten : ∀ a, (∀ w, i.write? m ≠ some (a, w)) → m'.memory.get? a = m.memory.get? a
  /-- Live memory keeps its length. -/
  size : m'.memory.size = m.memory.size
  /-- The baseline is as before. -/
  baseline : m'.baseline = m.baseline
  /-- The instruction is counted. -/
  count : m'.count = m.count + 1
  /-- The place of the last fault is as before. -/
  faultPc : m'.faultPc = m.faultPc

/-! ## The tables say what is staged -/

/-- The staged effects `e` are those that the tables have for the instruction `i`. -/
structure Effects.Tabulated (i : Instruction) (m : Machine) (e : Effects) : Prop where
  /-- The register that is written is the selected one. -/
  dest : ∀ r value, e.dest = some (r, value) → r = i.rd ∧ i.writesRegister = true
  /-- The stack pointer. -/
  sp : e.sp.getD m.regs.sp = i.spAfter m
  /-- The flag register is kept unless the instruction may change it. -/
  flags : i.changesFlags = false → e.flags = .keep
  /-- The memory write. -/
  write : e.write = i.write? m
  /-- The program counter. -/
  nextPc : e.nextPc = i.pcAfter m

namespace Effects.Tabulated

variable {i : Instruction} {m : Machine} {e : Effects}

/-- Effects that touch neither a register nor the flags agree with the tables if the others do. -/
theorem of_untouched (hd : e.dest = none) (hf : e.flags = .keep)
    (hsp : e.sp.getD m.regs.sp = i.spAfter m) (hw : e.write = i.write? m)
    (hpc : e.nextPc = i.pcAfter m) : e.Tabulated i m := by
  refine ⟨?_, hsp, fun _ => hf, hw, hpc⟩
  intro r value h
  rw [hd] at h
  exact absurd h.symm (Option.some_ne_none _)

/-- An instruction that only goes on to the next one stages nothing else. -/
theorem fallThrough (hsp : i.spAfter m = m.regs.sp) (hw : i.write? m = none)
    (hpc : i.pcAfter m = m.regs.pc + BitVec.ofNat 16 i.size) :
    (Effects.fallThrough m.regs.pc i.size).Tabulated i m :=
  .of_untouched rfl rfl hsp.symm hw.symm hpc.symm

/-- An instruction that writes its register may write any value there. -/
theorem withDest (h : e.Tabulated i m) (hi : i.writesRegister = true) (value : Word) :
    Tabulated i m { e with dest := some (i.rd, value) } := by
  refine ⟨?_, h.sp, h.flags, h.write, h.nextPc⟩
  rintro r _ ⟨⟩
  exact ⟨rfl, hi⟩

/-- An instruction that changes the flag register may change it in any way. -/
theorem withFlags (h : e.Tabulated i m) (hi : i.changesFlags = true) (change : FlagChange) :
    Tabulated i m { e with flags := change } := by
  refine ⟨h.dest, h.sp, ?_, h.write, h.nextPc⟩
  intro hf
  exact absurd hi (by simp [hf])

/-- A binary operation stages no more than a register and the flags. -/
theorem binary {f : BinaryOp} {reply : Word} (hop : i.operation = i.binary f)
    (h : (Effects.fallThrough m.regs.pc 1).Tabulated i m) (hr : i.writesRegister = true)
    (hf : i.changesFlags = true) : (i.operation.effects m reply).Tabulated i m := by
  rw [hop]
  show (m.regs.stageBinary f i.usesCarry i.rd i.rs1 i.rs2 (.fallThrough m.regs.pc 1)).Tabulated i m
  unfold Registers.stageBinary
  split
  · exact h.withFlags hf _
  · exact (h.withDest hr _).withFlags hf _

/-- So does an increment or a decrement. -/
theorem stageCount (h : e.Tabulated i m) (hr : i.writesRegister = true)
    (hf : i.changesFlags = true) (result : BitVec 32) :
    (Registers.stageCount i.rd result e).Tabulated i m :=
  (h.withDest hr _).withFlags hf _

end Effects.Tabulated

namespace Instruction

variable (i : Instruction) (m : Machine) (reply : Word)

/-- A jump that is taken goes to its operand, and any other one goes on. -/
theorem effects_jump :
    (i.branch .jump).effects m reply =
      if i.isTaken m then
        { Effects.fallThrough m.regs.pc 2 with nextPc := m.memory.word (m.regs.pc + 1) }
      else Effects.fallThrough m.regs.pc 2 := by
  unfold branch isTaken
  cases Condition.ofCode? i.conditionCode <;> rfl

/-- A call that is taken goes to its operand and pushes the address after it, and any other one
goes on. -/
theorem effects_call :
    (i.branch .call).effects m reply =
      if i.isTaken m then
        { nextPc := m.memory.word (m.regs.pc + 1)
          sp := some (m.regs.sp - 1)
          write := some (m.regs.sp, m.regs.pc + 2) }
      else Effects.fallThrough m.regs.pc 2 := by
  unfold branch isTaken
  cases Condition.ofCode? i.conditionCode <;> rfl

/-- **The tables say what is staged.** The effects of an instruction are the tabulated ones.

**Proof sketch.** By cases on the operation code, and for the codes that stand for several
operations on the field that selects one. Each operation is staged over effects that only go on
to the next instruction. -/
theorem tabulated_effects : (i.operation.effects m reply).Tabulated i m := by
  have next := @Effects.Tabulated.fallThrough i m
  obtain ⟨o, w⟩ := i
  cases o with
  | nop | outchar => exact next rfl rfl rfl
  | not | rotateShift | inchar | loadn | load | loadi => exact (next rfl rfl rfl).withDest rfl _
  | and | or | xor | add | sub | mult | div | mod =>
    exact .binary rfl (next rfl rfl rfl) rfl rfl
  | cmp => exact (next rfl rfl rfl).withFlags rfl _
  | carryControl =>
    simp only [operation]
    split <;> exact (next rfl rfl rfl).withFlags rfl _
  | incDec =>
    simp only [operation]
    split <;> exact (next rfl rfl rfl).stageCount rfl rfl _
  | breakpoint | halt | store | storei | rts => exact .of_untouched rfl rfl rfl rfl rfl
  -- Both the tables and the effects depend on whether the branch is taken.
  | jmp =>
    show (Operation.effects m reply (branch _ .jump)).Tabulated _ m
    rw [effects_jump]
    by_cases ht : isTaken ⟨.jmp, w⟩ m
    · rw [if_pos ht]
      exact .of_untouched rfl rfl rfl rfl (if_pos ht).symm
    · rw [if_neg ht]
      exact next rfl rfl (if_neg ht)
  | call =>
    show (Operation.effects m reply (branch _ .call)).Tabulated _ m
    rw [effects_call]
    by_cases ht : isTaken ⟨.call, w⟩ m
    · rw [if_pos ht]
      exact .of_untouched rfl rfl (if_pos ht).symm (if_pos ht).symm (if_pos ht).symm
    · rw [if_neg ht]
      exact next (if_neg ht) (if_neg ht) (if_neg ht)
  -- The mode bit selects the flag register in place of a general one.
  | push =>
    simp only [operation]
    split
    · rename_i hb
      exact .of_untouched rfl rfl rfl (by simp only [write?, if_pos hb]; rfl) rfl
    · rename_i hb
      exact .of_untouched rfl rfl rfl (by simp only [write?, if_neg hb]; rfl) rfl
  | pop =>
    have h : Effects.Tabulated ⟨.pop, w⟩ m
        { Effects.fallThrough m.regs.pc 1 with sp := some (m.regs.sp + 1) } :=
      .of_untouched rfl rfl rfl rfl rfl
    simp only [operation]
    split
    · rename_i hb
      exact h.withFlags hb _
    · rename_i hb
      exact h.withDest (by simpa [writesRegister] using hb) _
  | mov =>
    simp only [operation]
    split
    · rename_i hk
      exact (next (if_neg (by simp [hk])) rfl rfl).withDest (by simp [writesRegister, hk]) _
    · rename_i hk
      exact (next (if_neg (by simp [hk])) rfl rfl).withDest (by simp [writesRegister, hk]) _
    · rename_i hk
      exact .of_untouched rfl rfl (if_pos hk).symm rfl rfl

end Instruction

/-! ## The address that is written -/

namespace Operation

/-- A push writes at a stack pointer that it has checked. -/
theorem le_lastAddress_of_stagePush {regs : Registers} {value : Word} {e e' : Effects}
    (h : regs.stagePush value e = .ok e') {a w : Word} (hw : e'.write = some (a, w)) :
    a ≤ lastAddress := by
  obtain ⟨_, hc, -⟩ := bind_eq_ok_iff.mp h
  rw [eq_of_stagePush h] at hw
  obtain ⟨rfl, -⟩ := Prod.ext_iff.mp (Option.some.inj hw)
  have hsp : regs.sp ≠ 0 ∧ regs.sp ≤ lastAddress := by
    simpa [Access.allows] using Access.check_eq_ok_iff.mp hc
  exact hsp.2

/-- **Every staged write has been checked.** Its address is in the address space.

**Proof sketch.** Only a push, a taken call and the two stores stage a write. The former check
the stack pointer, the latter the address. -/
theorem le_lastAddress_of_stage {op : Operation} {m : Machine} {reply : Word} {e : Effects}
    (h : op.stage m reply = .ok e) {a w : Word} (hw : e.write = some (a, w)) :
    a ≤ lastAddress := by
  cases op with
  | call condition =>
    obtain ⟨target, -, h⟩ := bind_eq_ok_iff.mp h
    split at h
    · exact le_lastAddress_of_stagePush h hw
    · obtain rfl := Except.ok.inj h
      exact absurd hw.symm (Option.some_ne_none _)
  | push rs => exact le_lastAddress_of_stagePush h hw
  | pushFlags => exact le_lastAddress_of_stagePush h hw
  | store rs =>
    obtain ⟨b, hb, h⟩ := bind_eq_ok_iff.mp h
    obtain ⟨b', -, hb⟩ := bind_eq_ok_iff.mp hb
    obtain ⟨_, hc, hb⟩ := bind_eq_ok_iff.mp hb
    obtain rfl := Except.ok.inj hb
    obtain rfl := Except.ok.inj h
    obtain ⟨rfl, -⟩ := Prod.ext_iff.mp (Option.some.inj hw)
    exact BitVec.le_of_lt (by simpa [Access.allows] using Access.check_eq_ok_iff.mp hc)
  | storeIndirect ra rs =>
    obtain ⟨_, hc, h⟩ := bind_eq_ok_iff.mp h
    obtain rfl := Except.ok.inj h
    obtain ⟨rfl, -⟩ := Prod.ext_iff.mp (Option.some.inj hw)
    exact BitVec.le_of_lt (by simpa [Access.allows] using Access.check_eq_ok_iff.mp hc)
  -- The others stage no write; two of them only show it in each of their branches.
  | jump condition =>
    rw [eq_effects_of_stage h] at hw
    simp only [effects] at hw
    split at hw <;> exact absurd hw.symm (Option.some_ne_none _)
  | binary f addsCarry rd rs1 rs2 =>
    rw [eq_effects_of_stage h] at hw
    simp only [effects, Registers.stageBinary] at hw
    split at hw <;> exact absurd hw.symm (Option.some_ne_none _)
  | _ =>
    rw [eq_effects_of_stage h] at hw
    exact absurd hw.symm (Option.some_ne_none _)

end Operation

/-! ## The write set -/

/-- To record that a step has succeeded changes the status only. -/
theorem Machine.record_ofStop (m : Machine) (pc : Word) (stop : Option Stop) :
    ∃ status, m.record pc (.ofStop stop) = { m with status := status } := by
  cases stop <;> exact ⟨_, rfl⟩

/-- A general register that the effects change is their destination. -/
theorem Registers.exists_dest_of_get_ne {regs : Registers} {e : Effects} {q : Register}
    (h : (regs.commit e).get q ≠ regs.get q) : ∃ value, e.dest = some (q, value) := by
  rw [get_commit] at h
  cases hd : e.dest with
  | none =>
    rw [hd] at h
    exact absurd rfl h
  | some d =>
    rw [hd] at h
    obtain rfl : q = d.1 := Decidable.of_not_not fun hq => h (if_neg hq)
    exact ⟨d.2, rfl⟩

/-- Committing tabulated effects changes what the tables say. -/
theorem WriteSet.of_tabulated {i : Instruction} {m : Machine} {e : Effects}
    (h : e.Tabulated i m) (hw : ∀ a w, e.write = some (a, w) → a.toNat < m.memory.size)
    (status : Status) : WriteSet i m { (m.commit e).tick with status := status } where
  register r hr := by
    obtain ⟨value, hd⟩ := Registers.exists_dest_of_get_ne hr
    exact h.dest r value hd
  sp := h.sp
  flags hf := by
    cases hc : i.changesFlags with
    | true => rfl
    | false =>
      refine absurd ?_ hf
      show Flags.ofWord (e.flags.apply m.regs.flagWord) = m.regs.flags
      rw [h.flags hc]
      exact Flags.ofWord_toWord _
  pc := h.nextPc
  written a w ha := by
    rw [← h.write] at ha
    show (m.memory.commit e).get? a = _
    rw [Memory.get?_commit, ha]
    exact if_pos ⟨rfl, hw a w ha⟩
  unwritten a ha := by
    rw [← h.write] at ha
    show (m.memory.commit e).get? a = _
    rw [Memory.get?_commit]
    cases hb : e.write with
    | none => rfl
    | some b =>
      refine if_neg ?_
      rintro ⟨rfl, -⟩
      exact ha b.2 hb
  size := Memory.size_commit _ _
  baseline := rfl
  count := rfl
  faultPc := rfl

section WriteSet

variable {σ : Type u} {dev : Device σ} {sink : Sink σ} {m m' : Machine} {s s' : σ} {o : Outcome}

/-- **The write set of a step that succeeds.** From every machine with a memory that fills the
address space, and for every device and sink: if a step does not fault, then the word at the
program counter is an instruction, and the step changes what that instruction may change.

**Proof sketch.** What the instruction stages are its effects (`Operation.eq_effects_of_stage`),
which are the tabulated ones (`Instruction.tabulated_effects`). Their write goes to an address
that has been checked, hence to one in memory, and so nothing is dropped when they are
committed. -/
theorem step_writeSet (hm : m.memory.size = spaceSize)
    (h : step dev sink m s = (o, m', s')) (ho : ∀ f, o ≠ .faulted f) :
    ∃ i : Instruction, i.word = m.memory.word m.regs.pc ∧
      Opcode.ofWord? i.word = some i.opcode ∧ WriteSet i m m' := by
  obtain ⟨i, e, s₁, hf, hx⟩ := step_eq_of_not_faulted h ho
  obtain ⟨-, hw, hop⟩ := Machine.fetch_eq_ok_iff.mp hf
  refine ⟨i, (Memory.word_eq_of_get? hw).symm, hop, ?_⟩
  rw [machine_eq_of_step h, step_of_succeeded hf hx]
  obtain ⟨reply, -, hs, -⟩ := execute_eq_ok_iff.mp hx
  have htab : e.Tabulated i m := by
    rw [Operation.eq_effects_of_stage hs]
    exact i.tabulated_effects m reply
  obtain ⟨status, hr⟩ := (m.commit e).tick.record_ofStop m.regs.pc e.stop
  rw [hr]
  refine .of_tabulated htab ?_ status
  intro a w ha
  exact toNat_lt_of_size hm (Operation.le_lastAddress_of_stage hs ha)

end WriteSet

/-- A machine with a full memory, where a `push` of the first register is about to be executed. -/
def Machine.pushAtStart : Machine :=
  { memory := (Memory.zeros spaceSize).set 0 0x1400 }

/-- The `push` is fetched. -/
theorem Machine.fetch_pushAtStart : pushAtStart.fetch = .ok ⟨.push, 0x1400⟩ := by
  refine fetch_eq_ok_iff.mpr ⟨by decide, ?_, rfl⟩
  show ((Memory.zeros spaceSize).set 0 0x1400).get? 0 = some 0x1400
  rw [Memory.get?_set, Memory.size_zeros]
  rfl

/-- The `push` is a step that succeeds. -/
theorem step_writeSet_pushAtStart :
    ∃ i : Instruction, i.word = Machine.pushAtStart.memory.word 0 ∧
      Opcode.ofWord? i.word = some i.opcode ∧
      WriteSet i .pushAtStart (step Device.silent Sink.ignore .pushAtStart ()).2.1 := by
  have h : step Device.silent Sink.ignore .pushAtStart () = (_, _, _) :=
    step_of_succeeded Machine.fetch_pushAtStart rfl
  rw [h]
  exact step_writeSet (by simp [Machine.pushAtStart]) h (Outcome.ofStop_ne_faulted _)

end Cpu16
