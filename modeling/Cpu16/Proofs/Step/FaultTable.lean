import Cpu16.Proofs.Step.WriteSet

set_option relaxedAutoImplicit false
set_option autoImplicit false

/-!
# When a step faults

With a memory that fills the address space, whether a step faults, and with which fault, depends
on a few comparisons of the program counter, the stack pointer, the operand word and a register.
This file has the table of these comparisons, by operation code, in the order in which they are
made, and the theorem that a step faults exactly as the table says.

## Main definitions

* `Cpu16.firstFault` — the fault of the first row of a table that applies.
* `Cpu16.Instruction.faultRows`, `Cpu16.Machine.faultRows` — the table.

## Main results

* `Cpu16.step_eq_faulted_iff` — a step faults exactly as the table says.

## Implementation notes

The table is compared with the execution of an operation through `raised`, the fault that a
computation raises. There is one lemma for each way in which a computation grows; each of them
extends the table by the row of the check that is made.
-/

universe u

namespace Cpu16

/-! ## The table -/

/-- The fault of the first row whose condition holds. -/
def firstFault : List (Bool × Fault) → Option Fault
  | [] => none
  | (condition, f) :: rows => if condition then some f else firstFault rows

/-- The row of an answer of the device: a failure is a fault. -/
def answerRows {α : Type} : Except DeviceError α → List (Bool × Fault)
  | .ok _ => []
  | .error e => [(true, e.fault)]

section Table

variable {σ : Type u}

/-- The faults of an instruction that has been fetched, in the order in which they are looked
for. The device is called in the world `s`. -/
def Instruction.faultRows (dev : Device σ) (m : Machine) (s : σ) (i : Instruction) :
    List (Bool × Fault) :=
  let pc := m.regs.pc
  let sp := m.regs.sp
  let operand := m.memory.word (pc + 1)
  match i.opcode with
  | .jmp =>
    (i.conditionCode = 15, .invalidCondition) ::
      if i.isTaken m then [(0x7FFF < operand, .pcOutOfRange)]
      else [(pc = 0x7FFE, .pcOutOfRange)]
  | .call =>
    (i.conditionCode = 15, .invalidCondition) ::
      if i.isTaken m then
        [(sp = 0 || 0x7FFF < sp, .invalidStackPointer), (0x7FFF < operand, .pcOutOfRange)]
      else [(pc = 0x7FFE, .pcOutOfRange)]
  | .rts =>
    [(0x7FFE ≤ sp, .invalidStackPointer), (0x7FFF < m.memory.word (sp + 1), .pcOutOfRange)]
  | .push => [(sp = 0 || 0x7FFF < sp, .invalidStackPointer)]
  | .pop => [(0x7FFF ≤ sp, .invalidStackPointer)]
  | .load | .store => [(0x7FFF ≤ operand, .invalidAddress), (pc = 0x7FFE, .pcOutOfRange)]
  | .loadn => [(pc = 0x7FFE, .pcOutOfRange)]
  | .loadi => [(0x7FFF ≤ m.regs.get i.rs1, .invalidAddress)]
  | .storei => [(0x7FFF ≤ m.regs.get i.rd, .invalidAddress)]
  | .mov =>
    if i.moveKind = .toStackPointer then [(0x7FFF < m.regs.get i.rd, .invalidStackPointer)]
    else []
  | .inchar => answerRows (dev.poll s).1
  | .outchar => answerRows (dev.draw (m.regs.get i.rd) (m.regs.get i.rs1) s).1
  | _ => []

/-- The faults of a step, in the order in which they are looked for. -/
def Machine.faultRows (dev : Device σ) (m : Machine) (s : σ) : List (Bool × Fault) :=
  let w := m.memory.word m.regs.pc
  (0x7FFF ≤ m.regs.pc, .pcOutOfRange) ::
    match Opcode.ofWord? w with
    | none => [(true, .unknownOpcode)]
    | some o => Instruction.faultRows dev m s ⟨o, w⟩

end Table

/-! ## The fault that a computation raises -/

/-- The fault that a computation raises, if it does. -/
def raised {α : Type} : Except Fault α → Option Fault
  | .error f => some f
  | .ok _ => none

namespace Access

/-- Whether a word may not be used for a purpose, as the comparison that the table makes. -/
def refuses : Access → Word → Bool
  | fetch, a | data, a | pop, a => 0x7FFF ≤ a
  | push, a => a = 0 || 0x7FFF < a
  | ret, a => 0x7FFE ≤ a
  | programCounter, a | stackPointer, a => 0x7FFF < a

/-- What is not refused is allowed. -/
theorem allows_eq (k : Access) (a : Word) : k.allows a = !k.refuses a := by
  have hlt : ∀ b : Word, decide (a < b) = !decide (b ≤ a) := fun b => by simp [← BitVec.not_le]
  cases k with
  | fetch | data | pop | ret => exact hlt _
  | programCounter | stackPointer => simp [allows, refuses, lastAddress, ← BitVec.not_lt]
  | push => simp [allows, refuses, lastAddress, ← BitVec.not_lt]

/-- A check of what is not refused passes. -/
theorem check_eq_ok {k : Access} {a : Word} (h : k.refuses a = false) : k.check a = .ok () :=
  check_eq_ok_iff.mpr (by rw [allows_eq, h]; rfl)

end Access

/-- A computation that starts with a check has the row of the check before its other rows. These
count only where the check passes. -/
theorem raised_check_bind {α : Type} {k : Access} {a : Word} {g : Unit → Except Fault α}
    {rows : List (Bool × Fault)} (h : k.refuses a = false → raised (g ()) = firstFault rows) :
    raised (k.check a >>= g) = firstFault ((k.refuses a, k.fault) :: rows) := by
  cases hc : k.refuses a with
  | true =>
    have : k.check a = .error k.fault :=
      Access.check_eq_error_iff.mpr ⟨by rw [Access.allows_eq, hc]; rfl, rfl⟩
    rw [this]
    rfl
  | false =>
    rw [Access.check_eq_ok hc]
    exact h hc

/-- In memory, reading raises nothing. -/
theorem raised_read_bind {α : Type} {mem : Memory} {a : Word} {g : Word → Except Fault α}
    (hm : mem.size = spaceSize) (ha : a ≤ 0x7FFF) :
    raised (mem.read a >>= g) = raised (g (mem.word a)) := by
  rw [Memory.read_eq_ok_word (toNat_lt_of_size hm ha)]
  rfl

/-- The operand of an instruction that has been fetched can be read. -/
theorem raised_operand_bind {α : Type} {m : Machine} {g : Word → Except Fault α}
    (hm : m.memory.size = spaceSize) (hpc : m.regs.pc < 0x7FFF) :
    raised (m.operand >>= g) = raised (g (m.memory.word (m.regs.pc + 1))) := by
  have hr : m.memory.read (m.regs.pc + 1) = .ok (m.memory.word (m.regs.pc + 1)) :=
    Memory.read_eq_ok_word (toNat_lt_of_size hm (by bv_omega))
  have ho : m.operand = .ok (m.memory.word (m.regs.pc + 1)) := by
    unfold Machine.operand
    rw [Access.check_eq_ok (by simpa [Access.refuses] using hpc)]
    exact hr
  rw [ho]
  rfl

namespace Effects

/-- Where the stack pointer stays in the address space, the last check is one of the program
counter. -/
theorem raised_checked_pc {e : Effects} (hsp : ∀ sp, e.sp = some sp → sp ≤ 0x7FFF) :
    raised e.checked = firstFault [(0x7FFF < e.nextPc, .pcOutOfRange)] := by
  refine raised_check_bind fun _ => ?_
  cases h : e.sp with
  | none => rfl
  | some sp =>
    show raised (Access.stackPointer.check sp >>= fun _ => pure e) = none
    rw [Access.check_eq_ok (by simpa [Access.refuses] using hsp sp h)]
    rfl

/-- The last check raises nothing if both staged registers stay in the address space. -/
theorem raised_checked_eq_none {e : Effects} (hpc : e.nextPc ≤ 0x7FFF)
    (hsp : ∀ sp, e.sp = some sp → sp ≤ 0x7FFF) : raised e.checked = none := by
  rw [raised_checked_pc hsp, decide_eq_false (BitVec.not_lt.mpr hpc)]
  rfl

/-- Where the program counter stays in the address space, the last check is one of the stack
pointer. -/
theorem raised_checked_sp {e : Effects} {sp : Word} (hpc : e.nextPc ≤ 0x7FFF)
    (hsp : e.sp = some sp) :
    raised e.checked = firstFault [(0x7FFF < sp, .invalidStackPointer)] := by
  unfold checked
  rw [Access.check_eq_ok (by simpa [Access.refuses] using hpc), hsp]
  exact raised_check_bind fun _ => rfl

end Effects

/-! ## The table says which fault is raised -/

/-- A push fails at its stack pointer, or at the program counter that it was staged over. -/
theorem raised_stagePush (regs : Registers) (value : Word) (e : Effects) :
    raised (regs.stagePush value e >>= Effects.checked) =
      firstFault [(regs.sp = 0 || 0x7FFF < regs.sp, .invalidStackPointer),
        (0x7FFF < e.nextPc, .pcOutOfRange)] := by
  simp only [Registers.stagePush, bind_assoc, pure_bind]
  refine raised_check_bind fun hsp => ?_
  obtain ⟨h0, hle⟩ : regs.sp ≠ 0 ∧ regs.sp ≤ 0x7FFF := by simpa [Access.refuses] using hsp
  refine Effects.raised_checked_pc ?_
  rintro sp ⟨⟩
  bv_omega

/-- A push that goes on within the address space fails at its stack pointer only. -/
theorem raised_stagePush_of_le (regs : Registers) (value : Word) {e : Effects}
    (hpc : e.nextPc ≤ 0x7FFF) :
    raised (regs.stagePush value e >>= Effects.checked) =
      firstFault [(regs.sp = 0 || 0x7FFF < regs.sp, .invalidStackPointer)] := by
  rw [raised_stagePush, decide_eq_false (BitVec.not_lt.mpr hpc)]
  rfl

/-- So does a pop. -/
theorem raised_pop {m : Machine} {g : Word → Effects} (hm : m.memory.size = spaceSize)
    (hpc : ∀ value, (g value).nextPc ≤ 0x7FFF)
    (hg : ∀ value, (g value).sp = some (m.regs.sp + 1)) :
    raised (Access.pop.check m.regs.sp >>= fun _ =>
        m.memory.read (m.regs.sp + 1) >>= fun value => (g value).checked) =
      firstFault [(0x7FFF ≤ m.regs.sp, .invalidStackPointer)] := by
  refine raised_check_bind fun hsp => ?_
  have hlt : m.regs.sp < 0x7FFF := by simpa [Access.refuses] using hsp
  rw [raised_read_bind hm (by bv_omega)]
  refine Effects.raised_checked_eq_none (hpc _) ?_
  intro sp h
  obtain rfl : m.regs.sp + 1 = sp := Option.some.inj ((hg _).symm.trans h)
  bv_omega

namespace Instruction

variable {σ : Type u} {dev : Device σ} {m : Machine} {s : σ} {i : Instruction}

/-- An instruction of one word that leaves the stack pointer alone passes the last check. -/
theorem raised_next {e : Effects} (hpc : m.regs.pc < 0x7FFF)
    (h : e.nextPc = m.regs.pc + 1) (hsp : e.sp = none) : raised e.checked = none := by
  refine Effects.raised_checked_eq_none ?_ (by simp [hsp])
  rw [h]
  bv_omega

/-- An instruction of two words that goes on to the next one fails the last check at the end of
the address space. -/
theorem raised_next_operand {e : Effects} (hpc : m.regs.pc < 0x7FFF)
    (h : e.nextPc = m.regs.pc + 2) (hsp : e.sp = none) :
    raised e.checked = firstFault [(m.regs.pc = 0x7FFE, .pcOutOfRange)] := by
  rw [Effects.raised_checked_pc (by simp [hsp]), h]
  have : 0x7FFF < m.regs.pc + 2 ↔ m.regs.pc = 0x7FFE := by
    constructor <;> intro h <;> bv_omega
  rw [decide_eq_decide.mpr this]

/-- A jump or a call fails on the only condition code that is not assigned. Its other faults
depend on whether it is taken. -/
theorem raised_branch {taken : Condition → Operation} {yes no : List (Bool × Fault)}
    (h : ∀ c, raised ((taken c).stage m 0 >>= Effects.checked) =
      firstFault (if c.holds m.regs.flagWord then yes else no)) :
    raised ((i.branch taken).stage m 0 >>= Effects.checked) =
      firstFault ((i.conditionCode = 15, .invalidCondition) ::
        if i.isTaken m then yes else no) := by
  have hcode : ∀ n < 16, Condition.ofCode? n = none ↔ n = 15 := by decide
  have hi := hcode i.conditionCode i.conditionCode_lt
  unfold branch isTaken
  cases hc : Condition.ofCode? i.conditionCode with
  | none =>
    rw [decide_eq_true (hi.mp hc)]
    rfl
  | some c =>
    rw [decide_eq_false fun h15 => absurd (hi.mpr h15) (by simp [hc])]
    exact h c

/-- **The table says which fault is raised.** An instruction that asks nothing of the device
raises the fault of its rows.

**Proof sketch.** By cases on the operation code. The checks of the operation give the rows one
after another (`raised_check_bind`); between them, what is read is in memory. The last check
gives the last row, or none where the checks before it leave it no work. -/
theorem raised_stage (hm : m.memory.size = spaceSize) (hpc : m.regs.pc < 0x7FFF)
    (hx : i.operation.exchange m.regs = .none) :
    raised (i.operation.stage m 0 >>= Effects.checked) = firstFault (i.faultRows dev m s) := by
  obtain ⟨o, w⟩ := i
  cases o with
  -- Operations without a check of their own: only the last check is left, and it passes, since
  -- an instruction that can be fetched ends within the address space.
  | nop | breakpoint | cmp | not | rotateShift => exact raised_next hpc rfl rfl
  | carryControl | incDec =>
    simp only [operation]
    split <;> exact raised_next hpc rfl rfl
  | and | or | xor | add | sub | mult | div | mod =>
    simp only [operation, binary, Operation.stage, Registers.stageBinary]
    split <;> exact raised_next hpc rfl rfl
  | halt =>
    exact Effects.raised_checked_eq_none (BitVec.le_of_lt hpc) (by simp [Effects.fallThrough])
  | inchar | outchar => exact absurd hx (by simp [operation, Operation.exchange])
  | mov =>
    simp only [operation, faultRows]
    split
    · rename_i hk
      rw [if_neg (by simp [hk])]
      exact raised_next hpc rfl rfl
    · rename_i hk
      rw [if_neg (by simp [hk])]
      exact raised_next hpc rfl rfl
    · rename_i hk
      rw [if_pos hk]
      exact Effects.raised_checked_sp (by show m.regs.pc + 1 ≤ _; bv_omega) rfl
  -- A branch that is not taken goes on past its operand, which is where the end of the address
  -- space matters; one that is taken is only checked at its target.
  | jmp =>
    refine raised_branch fun c => ?_
    simp only [Operation.stage, bind_assoc, pure_bind]
    rw [raised_operand_bind hm hpc]
    split
    · exact Effects.raised_checked_pc (by simp [Effects.fallThrough])
    · exact raised_next_operand hpc rfl rfl
  | call =>
    refine raised_branch fun c => ?_
    simp only [Operation.stage, bind_assoc]
    rw [raised_operand_bind hm hpc]
    split
    · exact raised_stagePush _ _ _
    · exact raised_next_operand hpc rfl rfl
  | rts =>
    simp only [operation, Operation.stage, bind_assoc, pure_bind]
    refine raised_check_bind fun hsp => ?_
    have hlt : m.regs.sp < 0x7FFE := by simpa [Access.refuses] using hsp
    rw [raised_read_bind hm (by bv_omega)]
    refine Effects.raised_checked_pc ?_
    rintro sp ⟨⟩
    bv_omega
  | push =>
    have hnext : m.regs.pc + 1 ≤ 0x7FFF := by bv_omega
    simp only [operation]
    split <;> exact raised_stagePush_of_le _ _ hnext
  | pop =>
    have hnext : m.regs.pc + 1 ≤ 0x7FFF := by bv_omega
    simp only [operation]
    split
    · simp only [Operation.stage, bind_assoc, pure_bind]
      exact raised_pop hm (fun _ => hnext) fun _ => rfl
    · simp only [Operation.stage, bind_assoc, pure_bind]
      exact raised_pop hm (fun _ => hnext) fun _ => rfl
  -- The address of a load or a store is checked before the end of the instruction is.
  | loadn =>
    simp only [operation, Operation.stage, bind_assoc, pure_bind]
    rw [raised_operand_bind hm hpc]
    exact raised_next_operand hpc rfl rfl
  | load =>
    simp only [operation, Operation.stage, Machine.operandAddress, bind_assoc, pure_bind]
    rw [raised_operand_bind hm hpc]
    refine raised_check_bind fun ha => ?_
    rw [raised_read_bind hm (BitVec.le_of_lt (by simpa [Access.refuses] using ha))]
    exact raised_next_operand hpc rfl rfl
  | store =>
    simp only [operation, Operation.stage, Machine.operandAddress, bind_assoc, pure_bind]
    rw [raised_operand_bind hm hpc]
    exact raised_check_bind fun ha => raised_next_operand hpc rfl rfl
  | loadi =>
    simp only [operation, Operation.stage, bind_assoc, pure_bind]
    refine raised_check_bind fun ha => ?_
    rw [raised_read_bind hm (BitVec.le_of_lt (by simpa [Access.refuses] using ha))]
    exact raised_next hpc rfl rfl
  | storei =>
    simp only [operation, Operation.stage, bind_assoc, pure_bind]
    exact raised_check_bind fun ha => raised_next hpc rfl rfl

/-- Only two instructions ask something of the device. -/
theorem exchange_operation (i : Instruction) (regs : Registers) :
    i.operation.exchange regs =
      match i.opcode with
      | .inchar => .poll
      | .outchar => .draw (regs.get i.rd) (regs.get i.rs1)
      | _ => .none := by
  obtain ⟨o, w⟩ := i
  cases o <;> simp only [operation, branch, binary] <;> (try split) <;> rfl

/-- The execution of an instruction that has been fetched raises the fault of its rows. -/
theorem raised_execute (hm : m.memory.size = spaceSize) (hpc : m.regs.pc < 0x7FFF) :
    raised (execute dev i.operation m s).1 = firstFault (i.faultRows dev m s) := by
  have hex := i.exchange_operation m.regs
  by_cases hx : i.operation.exchange m.regs = .none
  · have hexec : execute dev i.operation m s = (i.operation.stage m 0 >>= Effects.checked, s) := by
      unfold execute
      rw [hx]
      rfl
    rw [hexec]
    exact raised_stage hm hpc hx
  -- What the device answers is all that can fail in the two instructions that ask it.
  · unfold execute
    obtain ⟨o, w⟩ := i
    cases o with
    | inchar =>
      rw [hex]
      simp only [Device.perform, faultRows]
      rcases dev.poll s with ⟨_ | key, s₁⟩
      · rfl
      · exact raised_next hpc rfl rfl
    | outchar =>
      rw [hex]
      simp only [Device.perform, faultRows]
      rcases dev.draw _ _ s with ⟨_ | _, s₁⟩
      · rfl
      · exact raised_next hpc rfl rfl
    | _ => exact absurd hex hx

end Instruction

/-! ## The faults of a step -/

section Step

variable {σ : Type u} {dev : Device σ} {sink : Sink σ} {m : Machine} {s : σ}

/-- Where the program counter cannot be fetched from, this is the first row that applies. -/
theorem Machine.firstFault_of_outOfRange (h : 0x7FFF ≤ m.regs.pc) :
    firstFault (m.faultRows dev s) = some .pcOutOfRange := by
  unfold faultRows firstFault
  rw [decide_eq_true h]
  rfl

/-- Where it can, the rows are those of the instruction word. -/
theorem Machine.firstFault_of_lt {w : Word} (h : m.regs.pc < 0x7FFF)
    (hw : m.memory.get? m.regs.pc = some w) :
    firstFault (m.faultRows dev s) = firstFault (match Opcode.ofWord? w with
      | none => [(true, .unknownOpcode)]
      | some o => Instruction.faultRows dev m s ⟨o, w⟩) := by
  rw [faultRows, Memory.word_eq_of_get? hw, firstFault, decide_eq_false (BitVec.not_le.mpr h)]
  rfl

/-- The fault of a step is the first one in the rows of the machine.

**Proof sketch.** By the way of the step. A fetch fails at the program counter or at the word
there, and memory is no shorter than the program counter allows; these are the first two kinds of
rows. What an instruction that has been fetched raises is `Instruction.raised_execute`. -/
theorem fault?_step (hm : m.memory.size = spaceSize) :
    (step dev sink m s).1.fault? =
      firstFault (m.faultRows dev (sink (.started m.regs.pc (m.memory.word m.regs.pc)) s)) := by
  cases hf : m.fetch with
  | error f =>
    rw [step_of_refused hf]
    rcases Machine.fetch_eq_error_iff.mp hf with ⟨hpc | hpc, rfl⟩ | ⟨hpc, w, hw, ho, rfl⟩
    · exact (Machine.firstFault_of_outOfRange hpc).symm
    · have hle := Memory.get?_eq_none_iff.mp hpc
      rw [hm, spaceSize] at hle
      exact (Machine.firstFault_of_outOfRange (by bv_omega)).symm
    · rw [Machine.firstFault_of_lt hpc hw, ho]
      rfl
  | ok i =>
    obtain ⟨hpc, hw, ho⟩ := Machine.fetch_eq_ok_iff.mp hf
    rw [Machine.firstFault_of_lt hpc hw, Memory.word_eq_of_get? hw, ho]
    show _ = firstFault (i.faultRows dev m _)
    rw [← Instruction.raised_execute hm hpc]
    rcases hx : execute dev i.operation m (sink (.started m.regs.pc i.word) s) with ⟨f | e, s₁⟩
    · rw [step_of_failed hf hx]
      rfl
    · rw [step_of_succeeded hf hx]
      cases e.stop <;> rfl

/-- The fault of a step that fetches an instruction is the first one in the rows of the
instruction. -/
theorem fault?_step_of_fetch {i : Instruction} (hm : m.memory.size = spaceSize)
    (hf : m.fetch = .ok i) :
    (step dev sink m s).1.fault? =
      firstFault (i.faultRows dev m (sink (.started m.regs.pc i.word) s)) := by
  obtain ⟨hpc, hw, ho⟩ := Machine.fetch_eq_ok_iff.mp hf
  rw [fault?_step hm, Machine.firstFault_of_lt hpc hw, Memory.word_eq_of_get? hw, ho]

/-- **When a step faults.** From every machine with a memory that fills the address space, and for
every device and sink, a step faults exactly if a row of the table applies, and with the fault of
the first such row. The device is asked after the start of the instruction has been reported. -/
theorem step_eq_faulted_iff (hm : m.memory.size = spaceSize) (f : Fault) :
    (step dev sink m s).1 = .faulted f ↔
      firstFault (m.faultRows dev (sink (.started m.regs.pc (m.memory.word m.regs.pc)) s)) =
        some f := by
  rw [← fault?_step hm]
  cases (step dev sink m s).1 <;> simp [Outcome.fault?]

end Step

/-- A machine at the last address that an instruction is fetched from, with a `load` there whose
operand is the reserved address. -/
def Machine.loadAtEnd : Machine :=
  { regs := { pc := 0x7FFE }
    memory := ((Memory.zeros spaceSize).set 0x7FFE 0xC000).set 0x7FFF 0x7FFF }

/-- The `load` fails twice, at its address and at the end of the address space. The address is
looked at first. -/
theorem step_eq_faulted_iff_loadAtEnd :
    (step Device.silent Sink.ignore .loadAtEnd ()).1 = .faulted .invalidAddress := by
  refine (step_eq_faulted_iff (by simp [Machine.loadAtEnd]) _).mpr ?_
  have hw : Machine.loadAtEnd.memory.get? 0x7FFE = some 0xC000 := by
    simp [Machine.loadAtEnd, Memory.get?_set, spaceSize]
  have ho : Machine.loadAtEnd.memory.word 0x7FFF = 0x7FFF :=
    Memory.word_eq_of_get? (by simp [Machine.loadAtEnd, Memory.get?_set, spaceSize])
  rw [Machine.firstFault_of_lt (by decide) hw]
  show firstFault [(decide (0x7FFF ≤ Machine.loadAtEnd.memory.word 0x7FFF), _), _] = _
  rw [ho]
  rfl

end Cpu16
