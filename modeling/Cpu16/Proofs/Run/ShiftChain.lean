import Cpu16.Proofs.Run.CarryChain
import Cpu16.Proofs.Step.ShiftBits

set_option relaxedAutoImplicit false
set_option autoImplicit false

/-!
# Shifts and rotations of a register

A program shifts and rotates a register with one instruction after another. In between it may do
what touches no data, such as to jump back for the next round, so there may be any number of them.
The register then holds what the law of shifts says for the whole list, and nothing else has changed
at any time: no other register, no flag, no word of memory.

## Main definitions

* `Cpu16.Instruction.KeepsData` — the instruction touches nothing but the program counter.
* `Cpu16.ShiftChain` — some steps have shifted or rotated a register, one instruction after another.
* `Cpu16.OnlyRegister` — nothing but one register differs between two machines.

## Main results

* `Cpu16.executed_of_rotateShift` — a shift or a rotation that is fetched is executed.
* `Cpu16.shiftLaw_of_shiftChain` — what a register holds after a list of shifts and rotations.
-/

universe u

namespace Cpu16

/-! ## What does not change -/

/-- The machines `m` and `m'` have the same data, but for the general register `r`. -/
structure OnlyRegister (r : Register) (m m' : Machine) : Prop where
  /-- The other general registers are the same. -/
  others : ∀ q, q ≠ r → m'.regs.get q = m.regs.get q
  /-- So is the stack pointer. -/
  sp : m'.regs.sp = m.regs.sp
  /-- So is the flag register. -/
  flags : m'.regs.flags = m.regs.flags
  /-- So is live memory. -/
  memory : m'.memory = m.memory
  /-- So is the baseline. -/
  baseline : m'.baseline = m.baseline

namespace OnlyRegister

variable {r : Register} {m₁ m₂ m₃ : Machine}

/-- Nothing has changed at first. -/
theorem refl (r : Register) (m : Machine) : OnlyRegister r m m :=
  ⟨fun _ _ => rfl, rfl, rfl, rfl, rfl⟩

/-- Two changes of the same register are one. -/
theorem trans (h : OnlyRegister r m₁ m₂) (h' : OnlyRegister r m₂ m₃) : OnlyRegister r m₁ m₃ where
  others q hq := (h'.others q hq).trans (h.others q hq)
  sp := h'.sp.trans h.sp
  flags := h'.flags.trans h.flags
  memory := h'.memory.trans h.memory
  baseline := h'.baseline.trans h.baseline

end OnlyRegister

/-- The instruction touches nothing but the program counter: it writes no general register, leaves
the stack pointer and the flags alone, and writes nothing in memory. -/
structure Instruction.KeepsData (i : Instruction) (m : Machine) : Prop where
  /-- No general register is written. -/
  register : i.writesRegister = false
  /-- The stack pointer stays. -/
  sp : i.spAfter m = m.regs.sp
  /-- So do the flags. -/
  flags : i.changesFlags = false
  /-- Nothing is written to memory. -/
  write : i.write? m = none

/-- A step that executes no instruction that touches data leaves all data alone. -/
theorem StepRecord.keepsData {t : StepRecord.{u}}
    (h : ∀ i, t.executed? = some i → i.KeepsData t.before) (r : Register) :
    t.after.regs.get r = t.before.regs.get r ∧ OnlyRegister r t.before t.after := by
  have hdata : t.after.regs.general = t.before.regs.general ∧ t.after.regs.sp = t.before.regs.sp ∧
      t.after.regs.flags = t.before.regs.flags ∧ t.after.memory = t.before.memory ∧
      t.after.baseline = t.before.baseline := by
    rcases t.faulted_or_executed with ⟨f, -, -, hframe⟩ | ⟨i, reply, hsome, hx⟩
    · exact ⟨hframe.general, hframe.sp, hframe.flags, hframe.memory, hframe.baseline⟩
    · have hi := h i hsome
      exact ⟨hx.general hi.register, hx.sp.trans hi.sp, hx.flags hi.flags,
        hx.memory_of_write?_eq_none hi.write, hx.baseline⟩
  obtain ⟨hgeneral, hsp, hflags, hmemory, hbaseline⟩ := hdata
  have hget : ∀ q, t.after.regs.get q = t.before.regs.get q := by
    intro q
    rw [Registers.get, Registers.get, hgeneral]
  exact ⟨hget r, fun q _ => hget q, hsp, hflags, hmemory, hbaseline⟩

/-! ## One shift -/

section Step

variable {σ : Type u} (dev : Device σ) (sink : Sink σ) {m : Machine} (s : σ) {i : Instruction}

/-- What a rotate or shift instruction means. -/
theorem Instruction.operation_of_rotateShift (ho : i.opcode = .rotateShift) :
    i.operation = .shift i.shift i.rd i.shiftAmount := by
  rw [operation, ho]

/-- **A shift or a rotation that is fetched is executed**, and touches no data but its register. -/
theorem executed_of_rotateShift (hf : m.fetch = .ok i) (ho : i.opcode = .rotateShift) :
    (step dev sink m s).1 = .proceed ∧
      (step dev sink m s).2.1.regs.get i.rd =
        i.shift.apply (m.regs.get i.rd) i.shiftAmount.toNat ∧
      OnlyRegister i.rd m (step dev sink m s).2.1 := by
  have hoperation := Instruction.operation_of_rotateShift ho
  have hnone : i.operation.exchange m.regs = .none := by rw [hoperation]; rfl
  have hstage : i.operation.stage m 0 = .ok (i.operation.effects m 0) := by rw [hoperation]; rfl
  obtain ⟨hproceed, reply, hx⟩ := executed_of_goesOn dev sink s hf hnone hstage
    (by rw [hoperation]; rfl) (by rw [hoperation]; rfl) (by rw [hoperation]; rfl)
  refine ⟨hproceed, ?_, fun q hq => hx.get_of_ne hq, ?_, ?_, ?_, hx.baseline⟩
  · rw [hx.regs, hoperation, Registers.get_commit]
    exact if_pos rfl
  · exact hx.sp.trans (by rw [Instruction.spAfter, ho])
  · exact hx.flags (by rw [Instruction.changesFlags, ho])
  · exact hx.memory_of_write?_eq_none (by rw [Instruction.write?, ho])

end Step

/-! ## One after another -/

section Chain

variable {σ : Type u} (dev : Device σ) (sink : Sink σ) (m : Machine) (s : σ)

/-- In `n` steps the instructions of a list have been fetched in order, all of which shift or rotate
the register `r`, and nothing else has been executed that touches data. -/
inductive ShiftChain (r : Register) : Nat → List Instruction → Prop
  /-- No step has been made. -/
  | start : ShiftChain r 0 []
  /-- One more shift or rotation. -/
  | next {n : Nat} {is : List Instruction} {i : Instruction} (chain : ShiftChain r n is)
    (hf : (machineAfter dev sink n m s).fetch = .ok i) (ho : i.opcode = .rotateShift)
    (hr : i.rd = r) : ShiftChain r (n + 1) (is ++ [i])
  /-- Something else that touches no data. -/
  | between {n : Nat} {is : List Instruction} (chain : ShiftChain r n is)
    (hi : ∀ i, (recordAt dev sink m s n).executed? = some i →
      i.KeepsData (machineAfter dev sink n m s)) : ShiftChain r (n + 1) is

variable {dev sink m s} {r : Register} {n : Nat} {is : List Instruction}

/-- What has not changed at any time so far, and does not change in the next step, does not change
at any time up to it. -/
theorem onlyRegister_le_succ (h : ∀ k ≤ n, OnlyRegister r m (machineAfter dev sink k m s))
    (hstep : OnlyRegister r (machineAfter dev sink n m s) (machineAfter dev sink (n + 1) m s)) :
    ∀ k ≤ n + 1, OnlyRegister r m (machineAfter dev sink k m s) := by
  intro k hk
  rcases Nat.lt_or_eq_of_le hk with hlt | rfl
  · exact h k (Nat.le_of_lt_succ hlt)
  · exact (h n (Nat.le_refl n)).trans hstep

/-- A list of shifts and rotations makes of the register what its instructions make of a word, and
at no time does anything else change.

**Proof sketch.** Induction on the chain: a shift does its part (`executed_of_rotateShift`), and
what comes in between leaves the register alone as well (`StepRecord.keepsData`). -/
theorem get_of_shiftChain (h : ShiftChain dev sink m s r n is) :
    (machineAfter dev sink n m s).regs.get r = shiftAll is (m.regs.get r) ∧
      ∀ k ≤ n, OnlyRegister r m (machineAfter dev sink k m s) := by
  induction h with
  | start =>
    refine ⟨rfl, fun k hk => ?_⟩
    obtain rfl := Nat.le_zero.mp hk
    exact .refl r m
  | @next n is i _ hf ho hr ih =>
    obtain ⟨hget, honly⟩ := ih
    subst hr
    obtain ⟨-, hstep, hstepOnly⟩ :=
      executed_of_rotateShift dev sink (stepTimes dev sink n m s).2.2 hf ho
    refine ⟨?_, onlyRegister_le_succ honly hstepOnly⟩
    rw [shiftAll_concat, ← hget]
    exact hstep
  | @between n is _ hi ih =>
    obtain ⟨hget, honly⟩ := ih
    obtain ⟨hstep, hstepOnly⟩ := StepRecord.keepsData hi r
    exact ⟨hstep.trans hget, onlyRegister_le_succ honly hstepOnly⟩

/-- **Shifts and rotations of a register add up.** After some steps that have shifted and rotated a
register, with any number of instructions and whatever the program has done in between that touches
no data, the register holds what the law of shifts says for their list. Every one of them has let
execution proceed. No other register, neither the stack pointer nor a flag, and no word of memory
has changed at any time. -/
theorem shiftLaw_of_shiftChain (h : ShiftChain dev sink m s r n is) :
    ShiftLaw is (m.regs.get r) ((machineAfter dev sink n m s).regs.get r) ∧
      (∀ k < n, ∀ i, (machineAfter dev sink k m s).fetch = .ok i → i.opcode = .rotateShift →
        outcomeAfter dev sink (k + 1) m s = .proceed) ∧
      ∀ k ≤ n, OnlyRegister r m (machineAfter dev sink k m s) := by
  obtain ⟨hget, honly⟩ := get_of_shiftChain h
  refine ⟨?_, fun k _ i hf ho => (executed_of_rotateShift dev sink _ hf ho).1, honly⟩
  rw [hget]
  exact shiftLaw_shiftAll is (m.regs.get r)

end Chain

/-- A machine that goes round a loop of `shiftl1 R3, 9` and a jump back. -/
def Machine.shifter : Machine :=
  { memory := ⟨#[0x4199, 0x0800, 0]⟩ }

/-- Two rounds shift by 18 places, after which the register holds nothing but ones. -/
theorem shiftLaw_of_shiftChain_twoRounds :
    ShiftChain Device.silent Sink.ignore .shifter () 3 3
        [⟨.rotateShift, 0x4199⟩, ⟨.rotateShift, 0x4199⟩] ∧
      (machineAfter Device.silent Sink.ignore 3 .shifter ()).regs.get 3 = 0xFFFF := by
  have hround : ShiftChain Device.silent Sink.ignore .shifter () 3 1 [⟨.rotateShift, 0x4199⟩] :=
    .next .start rfl rfl rfl
  have hback : ShiftChain Device.silent Sink.ignore .shifter () 3 2 [⟨.rotateShift, 0x4199⟩] := by
    refine hround.between fun i hi => ?_
    obtain rfl : ⟨.jmp, 0x0800⟩ = i := Option.some.inj hi
    exact ⟨rfl, rfl, rfl, rfl⟩
  have hchain : ShiftChain Device.silent Sink.ignore .shifter () 3 3
      [⟨.rotateShift, 0x4199⟩, ⟨.rotateShift, 0x4199⟩] := hback.next rfl rfl rfl
  exact ⟨hchain, (shiftLaw_of_shiftChain hchain).1.filled true (.inl (by decide)) (by decide)⟩

end Cpu16
