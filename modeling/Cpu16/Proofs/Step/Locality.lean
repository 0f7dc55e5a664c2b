import Cpu16.Proofs.Run.Twin

set_option relaxedAutoImplicit false
set_option autoImplicit false

/-!
# What a step reads

A step looks at the registers, at its instruction word and at no more than two other words of
memory, which the instruction names, and at each of them only if it may be read. So two machines
that agree there take the same step, if their devices give the same answers: it ends in the same
way, calls the devices in the same way, leaves the same registers and makes the same memory write.
Whatever else there is in the two machines plays no role: the rest of memory, the baseline, the
count, the status and the place of the last fault.

## Main definitions

* `Cpu16.Access.guard` — addresses that are only read if some word may be used for a purpose.
* `Cpu16.Instruction.reads`, `Cpu16.Machine.reads` — the addresses that an instruction and a step
  read.
* `Cpu16.SameReads` — two machines agree on the registers and on what the next step reads.
* `Cpu16.Memory.AfterWrite` — memory after at most one write.
* `Cpu16.SameStep` — two steps that cannot be told apart.

## Main results

* `Cpu16.Instruction.stage_congr` — what an instruction stages depends on what it reads.
* `Cpu16.step_reads_locally` — machines that agree on what the next step reads take the same step.
-/

universe u v

namespace Cpu16

/-! ## The addresses -/

/-- The addresses `l`, if `a` may be used for the purpose. -/
def Access.guard (k : Access) (a : Word) (l : List Word) : List Word :=
  if k.allows a then l else []

/-- The addresses of memory that the instruction reads, its own aside, as far as it may read
them. -/
def Instruction.reads (i : Instruction) (m : Machine) : List Word :=
  let operand := m.memory.word (m.regs.pc + 1)
  match i.opcode with
  | .jmp | .call | .loadn | .store => [m.regs.pc + 1]
  | .load => (m.regs.pc + 1) :: Access.data.guard operand [operand]
  | .pop => Access.pop.guard m.regs.sp [m.regs.sp + 1]
  | .rts => Access.ret.guard m.regs.sp [m.regs.sp + 1]
  | .loadi => Access.data.guard (m.regs.get i.rs1) [m.regs.get i.rs1]
  | _ => []

/-- The addresses of memory that the next step reads: the program counter, and what the instruction
there reads. If nothing may be fetched, there are none. -/
def Machine.reads (m : Machine) : List Word :=
  let w := m.memory.word m.regs.pc
  Access.fetch.guard m.regs.pc
    (m.regs.pc :: (Opcode.ofWord? w).elim [] fun o => Instruction.reads ⟨o, w⟩ m)

/-- Two machines agree on the registers, and on live memory wherever the next step reads. An address
outside of both memories reads as nothing in both of them. -/
structure SameReads (m m' : Machine) : Prop where
  /-- General registers, program counter, stack pointer and flag register are the same. -/
  regs : m.regs = m'.regs
  /-- The same words are read. -/
  memory : ∀ a ∈ m.reads, m.memory.get? a = m'.memory.get? a

/-! ## What is staged -/

section Congr

variable {m m' : Machine} {i : Instruction}

/-- An address is read if it is one of `l`, and `a` may be used for the purpose. -/
theorem Access.mem_guard {k : Access} {a b : Word} {l : List Word} :
    b ∈ k.guard a l ↔ k.allows a = true ∧ b ∈ l := by
  unfold guard
  cases k.allows a <;> simp

/-- What comes after a check matters only if the check succeeds. -/
theorem Access.check_bind_congr {α : Type} {k : Access} {a : Word} {x y : Unit → Except Fault α}
    (h : k.allows a = true → x () = y ()) : (k.check a >>= x) = (k.check a >>= y) := by
  unfold check
  cases ha : k.allows a with
  | false => rfl
  | true => exact h ha

/-- A read depends on the word at its address only. -/
theorem Memory.read_congr {mem mem' : Memory} {a : Word} (h : mem.get? a = mem'.get? a) :
    mem.read a = mem'.read a := by
  unfold read
  rw [h]

/-- The operand depends on the program counter and on the word after it. -/
theorem Machine.operand_congr (hregs : m.regs = m'.regs)
    (h : m.memory.get? (m.regs.pc + 1) = m'.memory.get? (m.regs.pc + 1)) :
    m.operand = m'.operand := by
  unfold operand
  rw [Memory.read_congr h, hregs]

/-- What an instruction fetches depends on the program counter and on the word there, if it may be
read. -/
theorem Machine.fetch_congr (hregs : m.regs = m'.regs) (h : Access.fetch.allows m.regs.pc = true →
    m.memory.get? m.regs.pc = m'.memory.get? m.regs.pc) : m.fetch = m'.fetch := by
  unfold fetch
  rw [← hregs]
  refine Access.check_bind_congr fun ha => ?_
  rw [h ha]

/-- **What an instruction stages depends on what it reads**, and so does the fault that it raises.

**Proof sketch.** By the operation code. Most instructions read nothing but registers. The others
read memory at the addresses of the table only. -/
theorem Instruction.stage_congr (hregs : m.regs = m'.regs)
    (h : ∀ a ∈ i.reads m, m.memory.get? a = m'.memory.get? a) (reply : Word) :
    i.operation.stage m reply = i.operation.stage m' reply := by
  obtain ⟨o, w⟩ := i
  cases o with
  | jmp | call =>
    have hoperand := Machine.operand_congr hregs (h _ (.head _))
    simp only [operation, branch]
    split <;> simp only [Operation.stage, hregs, hoperand]
  | loadn | store =>
    have hoperand := Machine.operand_congr hregs (h _ (.head _))
    simp only [operation, Operation.stage, Machine.operandAddress, hregs, hoperand]
  | load =>
    have hoperand := Machine.operand_congr hregs (h _ (.head _))
    have haddress : m.operandAddress = m'.operandAddress := by
      rw [Machine.operandAddress, Machine.operandAddress, hoperand]
    simp only [operation, Operation.stage, hregs, ← haddress]
    -- The address that is read is the operand, if there is one.
    cases ha : m.operandAddress with
    | error f => rfl
    | ok a =>
      have hallows : Access.data.allows a = true :=
        decide_eq_true (Machine.lt_lastAddress_of_operandAddress ha)
      obtain rfl := Machine.eq_word_of_operandAddress ha
      have hread := Memory.read_congr (h _ (.tail _ (Access.mem_guard.mpr ⟨hallows, .head _⟩)))
      show (m.memory.read _ >>= _) = (m'.memory.read _ >>= _)
      rw [hread]
  | pop =>
    simp only [operation]
    split
    all_goals
      simp only [Operation.stage, ← hregs]
      refine Access.check_bind_congr fun ha => ?_
      rw [Memory.read_congr (h _ (Access.mem_guard.mpr ⟨ha, .head _⟩))]
  | rts =>
    simp only [operation, Operation.stage, ← hregs]
    refine Access.check_bind_congr fun ha => ?_
    rw [Memory.read_congr (h _ (Access.mem_guard.mpr ⟨ha, .head _⟩))]
  | loadi =>
    simp only [operation, Operation.stage, ← hregs]
    refine Access.check_bind_congr fun ha => ?_
    rw [Memory.read_congr (h _ (Access.mem_guard.mpr ⟨ha, .head _⟩))]
  | carryControl | incDec | push | mov =>
    simp only [operation]
    split <;> simp only [Operation.stage, hregs]
  | nop | breakpoint | halt | rotateShift | and | or | xor | not | cmp | add | sub | mult | div
  | mod | outchar | inchar | storei =>
    simp only [operation, binary, Operation.stage, hregs]

/-- Machines that agree on what the next step reads fetch the same. -/
theorem SameReads.fetch (h : SameReads m m') : m.fetch = m'.fetch :=
  Machine.fetch_congr h.regs fun ha => h.memory _ (Access.mem_guard.mpr ⟨ha, .head _⟩)

end Congr

/-! ## Steps that cannot be told apart -/

/-- The memory `after` is the memory `before` with at most one word written: the address and the
value of `write`, if there is one. -/
structure Memory.AfterWrite (write : Option (Word × Word)) (before after : Memory) : Prop where
  /-- What is written is found at its address. -/
  written : ∀ a w, write = some (a, w) → after.get? a = some w
  /-- Every other address holds its old word. -/
  unwritten : ∀ a, (∀ w, write ≠ some (a, w)) → after.get? a = before.get? a
  /-- Memory keeps its length. -/
  size : after.size = before.size

/-- To commit effects makes their write, if its address is in memory. -/
theorem Memory.AfterWrite.commit {mem : Memory} {e : Effects}
    (h : ∀ a w, e.write = some (a, w) → a.toNat < mem.size) :
    AfterWrite e.write mem (mem.commit e) where
  written a w ha := by
    rw [get?_commit, ha]
    exact if_pos ⟨rfl, h a w ha⟩
  unwritten a ha := by
    rw [get?_commit]
    cases hw : e.write with
    | none => rfl
    | some bw =>
      refine if_neg ?_
      rintro ⟨rfl, -⟩
      exact ha bw.2 hw
  size := size_commit _ _

section Step

variable {σ : Type u} {τ : Type v}

/-- The step of the machine `m` cannot be told from the step of `m'`, by its end, its calls of the
device, the registers after it and its memory write. -/
structure SameStep (dev : Device σ) (sink : Sink σ) (m : Machine) (s : σ) (dev' : Device τ)
    (sink' : Sink τ) (m' : Machine) (s' : τ) : Prop where
  /-- The steps end in the same way. -/
  outcome : (step dev sink m s).1 = (step dev' sink' m' s').1
  /-- The calls of the devices are the same, and so are the answers. -/
  calls : stepCalls dev sink m s = stepCalls dev' sink' m' s'
  /-- General registers, program counter, stack pointer and flag register are the same. -/
  regs : (step dev sink m s).2.1.regs = (step dev' sink' m' s').2.1.regs
  /-- The same value is written at the same address of both memories, or nothing in either. -/
  write : ∃ write, Memory.AfterWrite write m.memory (step dev sink m s).2.1.memory ∧
    Memory.AfterWrite write m'.memory (step dev' sink' m' s').2.1.memory
  /-- If all of live memory was the same, it still is. -/
  memory : m.memory = m'.memory →
    (step dev sink m s).2.1.memory = (step dev' sink' m' s').2.1.memory

variable {dev : Device σ} {sink : Sink σ} {m : Machine} {s : σ} {dev' : Device τ} {sink' : Sink τ}
  {m' : Machine} {s' : τ}

/-- What an instruction that was fetched reads is read by the step. -/
theorem Machine.mem_reads {i : Instruction} {a : Word} (hf : m.fetch = .ok i) (ha : a ∈ i.reads m) :
    a ∈ m.reads := by
  obtain ⟨hlt, hw, ho⟩ := fetch_eq_ok_iff.mp hf
  have hword : m.memory.word m.regs.pc = i.word := Memory.word_eq_of_get? hw
  simp only [reads, hword, ho]
  exact Access.mem_guard.mpr ⟨decide_eq_true hlt, .tail _ ha⟩

/-- The attempts `a` of the machine `m` and `a'` of the machine `m'` end in the same way, leave the
same registers, and commit the same effects to memory. -/
structure SameAttempt (m m' : Machine) (a a' : Attempt) : Prop where
  /-- They end in the same way. -/
  outcome : a.outcome = a'.outcome
  /-- They leave the same registers. -/
  regs : a.machine.regs = a'.machine.regs
  /-- They commit the same effects, which write within the address space if at all. -/
  memory : ∃ e : Effects, (∀ b w, e.write = some (b, w) → b ≤ lastAddress) ∧
    a.machine.memory = m.memory.commit e ∧ a'.machine.memory = m'.memory.commit e

namespace SameAttempt

/-- Where neither attempt touches memory, they commit effects without a write. -/
theorem of_untouched {a a' : Attempt} (ho : a.outcome = a'.outcome)
    (hregs : a.machine.regs = a'.machine.regs) (hmem : a.machine.memory = m.memory)
    (hmem' : a'.machine.memory = m'.memory) : SameAttempt m m' a a' := by
  refine ⟨ho, hregs, { nextPc := 0 }, ?_, hmem, hmem'⟩
  intro b w hw
  cases hw

/-- Nothing is fetched by either machine. -/
theorem refuse (hregs : m.regs = m'.regs) (f : Fault) :
    SameAttempt m m' (m.refuse f) (m'.refuse f) := by
  unfold Machine.refuse
  split
  · exact of_untouched rfl (by simp only [Machine.setPc, hregs]) rfl rfl
  · exact of_untouched rfl hregs rfl rfl

/-- The execution of an instruction comes to the same in both machines. -/
theorem retire (hregs : m.regs = m'.regs) (size : Nat) {result : Except Fault Effects}
    (hwrite : ∀ e, result = .ok e → ∀ b w, e.write = some (b, w) → b ≤ lastAddress) :
    SameAttempt m m' (m.retire size result) (m'.retire size result) := by
  cases result with
  | error f =>
    have hpast : (m.setPc (pcPast m.regs.pc size)).regs =
        (m'.setPc (pcPast m'.regs.pc size)).regs := by
      simp only [Machine.setPc, hregs]
    exact of_untouched rfl hpast rfl rfl
  | ok e =>
    have hcommit : m.regs.commit e = m'.regs.commit e := by rw [hregs]
    exact ⟨rfl, hcommit, e, hwrite e rfl, rfl, rfl⟩

end SameAttempt

/-- Machines that agree on what the next step reads make the same attempt at it, and the same calls
of the device. -/
theorem sameAttempt_of_sameReads (h : SameReads m m')
    (hanswers : SameAnswers (stepCalls dev sink m s) (stepCalls dev' sink' m' s')) :
    SameAttempt m m' (attempt dev sink m s).1 (attempt dev' sink' m' s').1 ∧
      stepCalls dev sink m s = stepCalls dev' sink' m' s' := by
  have hfetch := h.fetch
  obtain ⟨hregs, hmemory⟩ := h
  rw [stepCalls_eq, stepCalls_eq] at hanswers ⊢
  cases hf : m.fetch with
  | error f =>
    have hf' : m'.fetch = .error f := hfetch.symm.trans hf
    unfold attempt
    rw [hf, hf']
    exact ⟨.refuse hregs f, rfl⟩
  | ok i =>
    have hf' : m'.fetch = .ok i := hfetch.symm.trans hf
    -- Both stage alike whatever the reply is; the replies are compared after that.
    have hstage := i.stage_congr hregs fun a ha => hmemory a (Machine.mem_reads hf ha)
    rw [hf, hf', ← hregs] at hanswers
    obtain ⟨hreply, hcalls⟩ := Device.perform_congr hanswers
    rw [fst_attempt_of_fetch hf, fst_attempt_of_fetch hf', hf', ← hregs,
      ← execute_congr hregs hstage hreply]
    refine ⟨.retire hregs i.size ?_, hcalls⟩
    intro e he b w hw
    obtain ⟨reply, -, hstaged, -⟩ := execute_eq_ok_iff.mp (Prod.ext he rfl)
    exact Operation.le_lastAddress_of_stage hstaged hw

/-- **A step reads its instruction and what the instruction names.** Take two machines with memories
that fill the address space, which agree on the registers and wherever the next step of the first
one reads, and any two devices and sinks such that the devices give the same answers. Then the two
machines take the same step. The rest of their memories, their baselines, counts, statuses and
places of the last fault may be anything.

**Proof sketch.** The machines fetch the same (`SameReads.fetch`). If it is an instruction, they
stage the same effects or raise the same fault (`Instruction.stage_congr`), and what becomes of the
registers is a function of that and of the registers before. A staged write goes to an address that
is in both memories. -/
theorem step_reads_locally (hm : m.memory.size = spaceSize) (hm' : m'.memory.size = spaceSize)
    (h : SameReads m m')
    (hanswers : SameAnswers (stepCalls dev sink m s) (stepCalls dev' sink' m' s')) :
    SameStep dev sink m s dev' sink' m' s' := by
  obtain ⟨⟨houtcome, hafter, e, hwrite, hone, htwo⟩, hcalls⟩ := sameAttempt_of_sameReads h hanswers
  -- To record the outcome changes neither registers nor memory.
  have hregs : (step dev sink m s).2.1.regs = (step dev' sink' m' s').2.1.regs :=
    (Machine.regs_record _ _ _).trans (hafter.trans (Machine.regs_record _ _ _).symm)
  have hmemory : (step dev sink m s).2.1.memory = m.memory.commit e :=
    (Machine.memory_record _ _ _).trans hone
  have hmemory' : (step dev' sink' m' s').2.1.memory = m'.memory.commit e :=
    (Machine.memory_record _ _ _).trans htwo
  refine ⟨houtcome, hcalls, hregs, ⟨e.write, ?_, ?_⟩, ?_⟩
  · rw [hmemory]
    exact .commit fun a w ha => toNat_lt_of_size hm (hwrite a w ha)
  · rw [hmemory']
    exact .commit fun a w ha => toNat_lt_of_size hm' (hwrite a w ha)
  · intro heq
    rw [hmemory, hmemory', heq]

end Step

/-- A machine with a full memory, where a `pop` into a register is about to be executed. -/
def Machine.popAtStart : Machine :=
  { memory := (Memory.zeros spaceSize).set 0 0x1800 }

/-- The same machine with another word in memory, another baseline and a fault in its past. -/
def Machine.popAfterFault : Machine :=
  { memory := popAtStart.memory.set 5 0xFFFF
    baseline := Image.ofWords spaceSize #[0x3C00]
    count := 9
    status := .faulted .invalidAddress
    faultPc := some 7 }

/-- The instruction at the start of the machine is the pop. -/
theorem Machine.get?_popAtStart : popAtStart.memory.get? 0 = some 0x1800 := by
  simp [popAtStart, Memory.get?_set, spaceSize]

/-- The `pop` reads the word above the stack pointer, which is the reserved one. -/
theorem Machine.reads_popAtStart : popAtStart.reads = [0, 0x7FFF] := by
  show 0 :: (Opcode.ofWord? (popAtStart.memory.word 0)).elim [] _ = _
  rw [Memory.word_eq_of_get? get?_popAtStart]
  rfl

/-- The two machines take the same step. -/
theorem step_reads_locally_popAtStart :
    SameStep Device.silent Sink.ignore .popAtStart () Device.silent Sink.ignore .popAfterFault
      () := by
  have hreads : SameReads .popAtStart .popAfterFault := by
    refine ⟨rfl, ?_⟩
    rw [Machine.reads_popAtStart]
    intro a ha
    obtain rfl | rfl : a = 0 ∨ a = 0x7FFF := by simpa using ha
    all_goals simp [Machine.popAfterFault, Memory.get?_set]
  have hfetch : Machine.popAtStart.fetch = .ok ⟨.pop, 0x1800⟩ :=
    Machine.fetch_eq_ok_iff.mpr ⟨by decide, Machine.get?_popAtStart, rfl⟩
  have hfetch' := hreads.fetch.symm.trans hfetch
  refine step_reads_locally (by simp [Machine.popAtStart])
    (by simp [Machine.popAfterFault, Machine.popAtStart]) hreads ?_
  rw [stepCalls_eq, stepCalls_eq, hfetch, hfetch']
  exact .refl []

end Cpu16
