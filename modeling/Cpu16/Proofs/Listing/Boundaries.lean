import Mathlib.Order.Bounds.Basic
import Cpu16.Proofs.Listing.Operands
import Cpu16.Proofs.Run.Steps
import Cpu16.Proofs.Step.Executed

set_option relaxedAutoImplicit false
set_option autoImplicit false

/-!
# Execution keeps to the instructions of the listing

A listing and the machine decide independently where instructions begin: the listing by counting
words backwards, the machine by adding the size of each instruction to the program counter. A step
that succeeds, one that fails and one that finds no instruction add it in different places. This
file proves that all of them go on to the next word that the listing shows as an instruction, so
that a run is only led astray by a jump.

## Main definitions

* `Cpu16.Memory.IsNext` — the next word of a listing that is no operand.
* `Cpu16.Machine.Transfers` — a step completes a jump, a call or a return.
* `Cpu16.KeepsClasses`, `Cpu16.LandsOnInstructions` — what is asked of a run.

## Main results

* `Cpu16.Memory.isNext_pcPast` — past an instruction there is the next one of the listing.
* `Cpu16.isNext_or_stopped` — a step goes there, whatever its outcome, unless it completes a
  transfer or stops on a `halt`.
* `Cpu16.isOperand_pc_machineAfter` — so a run stays on words that are no operands.
* `Cpu16.execution_follows_listing` — a step goes on to the next instruction of the listing, and a
  run never fetches an operand.
-/

universe u

namespace Cpu16

/-! ## The next instruction of a listing -/

/-- Number of words of the instruction in a word. A word without a meaning counts as one. -/
def wordSize (w : Word) : Nat :=
  if takesOperand w then 2 else 1

/-- The size of an instruction is the one of its word. -/
theorem Instruction.size_eq_wordSize {i : Instruction} (h : Opcode.ofWord? i.word = some i.opcode) :
    i.size = wordSize i.word := by
  simp [size, Opcode.size, wordSize, takesOperand, h]

/-- A word without a meaning takes no operand. -/
theorem wordSize_of_unassigned {w : Word} (h : Opcode.ofWord? w = none) : wordSize w = 1 := by
  simp [wordSize, takesOperand, h]

/-- An address is the one past an instruction exactly if it is that as a number. -/
theorem eq_pcPast_iff {a pc : Word} {size : Nat} :
    a = pcPast pc size ↔ a.toNat = min (pc.toNat + size) 0x7FFF := by
  rw [← BitVec.toNat_inj, toNat_pcPast]

namespace Memory

variable {mem mem' : Memory}

/-- The address `b` is the next one after `a` that holds no operand, or the reserved address if
there is none up to it. -/
def IsNext (mem : Memory) (a b : Word) : Prop :=
  IsLeast {c | a < c ∧ c ≤ lastAddress ∧ mem.isOperand c = false} b ∨
    {c | a < c ∧ c ≤ lastAddress ∧ mem.isOperand c = false} = ∅ ∧ b = lastAddress

/-- In a full memory, the word after an address is an operand exactly if the word at the address
takes one and is none itself. -/
theorem isOperand_add_one (hm : mem.size = spaceSize) {a : Word} (ha : a < lastAddress) :
    mem.isOperand (a + 1) = true ↔
      takesOperand (mem.word a) = true ∧ mem.isOperand a = false := by
  have hlt := lt_lastAddress_iff.mp ha
  have hsize : a.toNat + 1 < mem.size := by
    rw [hm, spaceSize]
    omega
  exact isOperand_add_one_of_get? (get?_eq_some_word (by omega)) (by bv_omega) hsize

/-- If the word after an address is no operand, it is the next one. -/
theorem isNext_add_one {a : Word} (ha : a < lastAddress) (h : mem.isOperand (a + 1) = false) :
    mem.IsNext a (a + 1) := by
  rw [lt_lastAddress_iff] at ha
  refine .inl ⟨⟨?_, ?_, h⟩, ?_⟩
  · bv_omega
  · rw [le_lastAddress_iff]
    bv_omega
  · rintro c ⟨hac, -, -⟩
    bv_omega

/-- If the word after an address is an operand and the one after that is not, the latter is the
next one. -/
theorem isNext_add_two {a : Word} (ha : a + 1 < lastAddress) (hlt : a < lastAddress)
    (h₁ : mem.isOperand (a + 1) = true) (h₂ : mem.isOperand (a + 1 + 1) = false) :
    mem.IsNext a (a + 1 + 1) := by
  rw [lt_lastAddress_iff] at ha hlt
  refine .inl ⟨⟨?_, ?_, h₂⟩, ?_⟩
  · bv_omega
  · rw [le_lastAddress_iff]
    bv_omega
  · rintro c ⟨hac, -, hc⟩
    have hne : c ≠ a + 1 := by
      rintro rfl
      rw [h₁] at hc
      exact Bool.noConfusion hc
    bv_omega

/-- If the word after an address is an operand and at the reserved address, there is no next
one. -/
theorem isNext_lastAddress {a : Word} (ha : a + 1 = lastAddress)
    (h : mem.isOperand (a + 1) = true) : mem.IsNext a lastAddress := by
  refine .inr ⟨?_, rfl⟩
  rw [Set.eq_empty_iff_forall_notMem]
  rintro c ⟨hac, hc, hnone⟩
  obtain rfl : c = a + 1 := by
    simp only [lastAddress] at ha hc
    bv_omega
  rw [h] at hnone
  exact Bool.noConfusion hnone

/-- **Past an instruction there is the next one.** From a word that is no operand, the size of its
instruction leads to the next word of the listing that is no operand, or to the reserved address
if there is none up to it.

**Proof sketch.** After a word that takes no operand, the next word is none. After a word that
takes one, the next word is its operand and the word after that is no operand; but the operand may
be at the reserved address, and then there is no further word. -/
theorem isNext_pcPast (hm : mem.size = spaceSize) {a : Word} (ha : a < lastAddress)
    (hop : mem.isOperand a = false) : mem.IsNext a (pcPast a (wordSize (mem.word a))) := by
  have hlt := lt_lastAddress_iff.mp ha
  have hsucc := isOperand_add_one hm ha
  unfold wordSize
  cases ht : takesOperand (mem.word a) with
  | false =>
    have hpast : a + 1 = pcPast a 1 := eq_pcPast_iff.mpr (by bv_omega)
    have hnone : mem.isOperand (a + 1) = false := by
      rw [← Bool.not_eq_true, hsucc, ht]
      simp
    rw [if_neg Bool.false_ne_true, ← hpast]
    exact isNext_add_one ha hnone
  | true =>
    have hoperand : mem.isOperand (a + 1) = true := hsucc.mpr ⟨ht, hop⟩
    rw [if_pos rfl]
    -- At the reserved address the operand ends the listing.
    by_cases hend : a + 1 = lastAddress
    · have hpast : lastAddress = pcPast a 2 := by
        rw [eq_pcPast_iff, ← hend]
        simp only [lastAddress] at hend
        bv_omega
      rw [← hpast]
      exact isNext_lastAddress hend hoperand
    · have hlast : a + 1 < lastAddress := by
        rw [lt_lastAddress_iff]
        simp only [lastAddress] at hend
        bv_omega
      have hlast' := lt_lastAddress_iff.mp hlast
      have hpast : a + 1 + 1 = pcPast a 2 := eq_pcPast_iff.mpr (by bv_omega)
      have hnone : mem.isOperand (a + 1 + 1) = false := by
        rw [← Bool.not_eq_true, isOperand_add_one hm hlast, hoperand]
        simp
      rw [← hpast]
      exact isNext_add_two hlast ha hoperand hnone

/-- Which words are operands depends only on the length of memory and on which words take one. -/
theorem isOperand_congr (hsize : mem.size = mem'.size)
    (h : ∀ a, takesOperand (mem.word a) = takesOperand (mem'.word a)) (a : Word) :
    mem.isOperand a = mem'.isOperand a := by
  have hrun : ∀ n ≤ a.toNat, mem.operandRun n 0 = mem'.operandRun n 0 := by
    intro n
    induction n with
    | zero => exact fun _ => rfl
    | succ n ih =>
      intro hn
      -- Only addresses of 16 bits are looked at, and at these the words are of one class.
      have hclass : mem.words[n]?.any takesOperand = mem'.words[n]?.any takesOperand := by
        have hword : (BitVec.ofNat 16 n).toNat = n := by bv_omega
        by_cases hin : n < mem.size
        · have hget : mem.get? (BitVec.ofNat 16 n) = some _ := get?_eq_some_word (by omega)
          have hget' : mem'.get? (BitVec.ofNat 16 n) = some _ := get?_eq_some_word (by omega)
          rw [get?, hword] at hget hget'
          rw [hget, hget']
          exact h _
        · have hout : mem.words[n]? = none := Array.getElem?_eq_none (by
            simpa [size] using hin)
          have hout' : mem'.words[n]? = none := Array.getElem?_eq_none (by
            rw [hsize] at hin
            simpa [size] using hin)
          rw [hout, hout']
      rw [operandRun_succ, operandRun_succ, hclass, ih (by omega)]
  rw [Bool.eq_iff_iff, isOperand_iff, isOperand_iff, hsize, hrun a.toNat (Nat.le_refl _)]

end Memory

/-! ## Where a step goes on -/

/-- Whether the instruction goes on to another place: a jump or a call that is taken, or a
return. -/
def Instruction.transfers (i : Instruction) (m : Machine) : Bool :=
  match i.opcode with
  | .jmp | .call => i.isTaken m
  | .rts => true
  | _ => false

/-- An instruction that goes on to no other place, and does not stop where it is, goes on past
itself. -/
theorem Instruction.pcAfter_of_not_transfers {i : Instruction} {m : Machine}
    (ht : i.transfers m = false) (hh : i.opcode ≠ .halt) :
    i.pcAfter m = m.regs.pc + BitVec.ofNat 16 i.size := by
  obtain ⟨o, w⟩ := i
  cases o with
  | jmp | call => exact if_neg (by simpa [transfers] using ht)
  | rts => exact absurd ht (by simp [transfers])
  | halt => exact absurd rfl hh
  | _ => rfl

/-- A step from `m` that ends with `o` completes a jump or a call that is taken, or a return. -/
def Machine.Transfers (m : Machine) (o : Outcome) : Prop :=
  (∀ f, o ≠ .faulted f) ∧ ∃ i, m.fetch = .ok i ∧ i.transfers m = true

section Step

variable {σ : Type u} {dev : Device σ} {sink : Sink σ} {m m' : Machine} {s s' : σ} {o : Outcome}

/-- A step that faults goes on past its instruction. -/
theorem FaultTrail.pc_eq_pcPast {f : Fault} {pc : Word} {count : BitVec 64} {events : List Event}
    (h : FaultTrail m f pc count events) (hm : m.memory.size = spaceSize)
    (hpc : m.regs.pc < lastAddress) :
    pc = pcPast m.regs.pc (wordSize (m.memory.word m.regs.pc)) := by
  have hlt := lt_lastAddress_iff.mp hpc
  cases h with
  | outOfRange hout =>
    rw [hm, spaceSize] at hout
    bv_omega
  | unassigned hpc hw ho =>
    rw [Memory.word_eq_of_get? hw, wordSize_of_unassigned ho, eq_pcPast_iff]
    bv_omega
  | @failed w op _ _ hpc hw ho hpast =>
    have hsize : op.size = wordSize w := @Instruction.size_eq_wordSize ⟨op, w⟩ ho
    rw [Memory.word_eq_of_get? hw, eq_pcPast_iff, hpast, hsize]

/-- An instruction that is executed, and neither transfers nor is a `halt`, goes on past itself. -/
theorem Executed.pc_eq_pcPast {i : Instruction} {reply : Word} (hx : Executed i reply m o m')
    (ht : i.transfers m = false) (hh : i.opcode ≠ .halt) :
    m'.regs.pc = pcPast m.regs.pc (wordSize (m.memory.word m.regs.pc)) := by
  obtain ⟨hpc, hw, hop⟩ := Machine.fetch_eq_ok_iff.mp hx.fetch
  have hpc' : m'.regs.pc = m.regs.pc + BitVec.ofNat 16 (wordSize i.word) := by
    rw [hx.pc, Instruction.pcAfter_of_not_transfers ht hh, Instruction.size_eq_wordSize hop]
  have hle := hx.pc_le
  have htwo : wordSize i.word ≤ 2 := by
    unfold wordSize
    split <;> omega
  rw [Memory.word_eq_of_get? hw]
  rw [hpc'] at hle ⊢
  generalize wordSize i.word = size at hle htwo
  rw [le_lastAddress_iff] at hle
  have hlt := lt_lastAddress_iff.mp hpc
  rw [eq_pcPast_iff]
  bv_omega

/-- A `halt` that is executed stops where it is. -/
theorem Executed.stopped_of_halt {i : Instruction} {reply : Word} (hx : Executed i reply m o m')
    (hh : i.opcode = .halt) : o = .stopped .halt ∧ m'.regs.pc = m.regs.pc := by
  constructor
  · rw [hx.outcome]
    unfold Instruction.operation
    rw [hh]
    rfl
  · rw [hx.pc]
    unfold Instruction.pcAfter
    rw [hh]

/-- **A step goes on to the next instruction.** From an instruction that is no operand, a step that
completes no transfer goes on to the next one of the listing, or stops on a `halt`.

**Proof sketch.** A step that faults goes on past its instruction, and so does one that executes
it. Past an instruction there is the next one (`Memory.isNext_pcPast`). -/
theorem isNext_or_stopped (hm : m.memory.size = spaceSize) (hpc : m.regs.pc < lastAddress)
    (hop : m.memory.isOperand m.regs.pc = false) (h : step dev sink m s = (o, m', s'))
    (ht : ¬m.Transfers o) :
    m.memory.IsNext m.regs.pc m'.regs.pc ∨ o = .stopped .halt ∧ m'.regs.pc = m.regs.pc := by
  have hnext := Memory.isNext_pcPast hm hpc hop
  rcases faulted_or_executed h with ⟨f, -, -, htrail⟩ | ⟨i, reply, hx⟩
  · rw [htrail.pc_eq_pcPast hm hpc]
    exact .inl hnext
  by_cases hh : i.opcode = .halt
  · exact .inr (hx.stopped_of_halt hh)
  · have htr : i.transfers m = false := by
      rw [← Bool.not_eq_true]
      intro hi
      exact ht ⟨hx.ne_faulted, i, hx.fetch, hi⟩
    rw [hx.pc_eq_pcPast htr hh]
    exact .inl hnext

/-- Where nothing can be fetched, the program counter stays where it is. -/
theorem pc_step_of_lastAddress_le (hpc : lastAddress ≤ m.regs.pc)
    (h : step dev sink m s = (o, m', s')) : m'.regs.pc = m.regs.pc := by
  have hf : m.fetch = .error .pcOutOfRange :=
    Machine.fetch_eq_error_iff.mpr (.inl ⟨.inl hpc, rfl⟩)
  rw [machine_eq_of_step h, step_of_refused hf]
  rfl

/-- A step that keeps the classes of the words leads from a word that is no operand to another
one, as far as words can be fetched, unless it transfers to an operand. -/
theorem isOperand_pc_step (hm : m.memory.size = spaceSize)
    (hop : m.regs.pc < lastAddress → m.memory.isOperand m.regs.pc = false)
    (h : step dev sink m s = (o, m', s'))
    (hclass : ∀ a, takesOperand (m'.memory.word a) = takesOperand (m.memory.word a))
    (hland : m.Transfers o → m'.memory.isOperand m'.regs.pc = false)
    (hpc' : m'.regs.pc < lastAddress) : m'.memory.isOperand m'.regs.pc = false := by
  by_cases ht : m.Transfers o
  · exact hland ht
  rw [Memory.isOperand_congr (size_memory_step h) hclass]
  by_cases hpc : m.regs.pc < lastAddress
  · rcases isNext_or_stopped hm hpc (hop hpc) h ht with (hleast | ⟨-, hlast⟩) | ⟨-, hstay⟩
    · exact hleast.1.2.2
    · rw [hlast] at hpc'
      exact absurd hpc' (BitVec.lt_irrefl _)
    · rw [hstay]
      exact hop hpc
  · rw [pc_step_of_lastAddress_le (BitVec.not_lt.mp hpc) h] at hpc'
    exact absurd hpc' hpc

end Step

/-! ## Runs -/

section Run

variable {σ : Type u} (dev : Device σ) (sink : Sink σ)

/-- None of `n` steps changes whether a word of memory takes an operand. -/
def KeepsClasses (n : Nat) (m : Machine) (s : σ) : Prop :=
  ∀ k < n, ∀ a, takesOperand ((machineAfter dev sink (k + 1) m s).memory.word a) =
    takesOperand ((machineAfter dev sink k m s).memory.word a)

/-- Every transfer that one of `n` steps completes lands on a word that is no operand. -/
def LandsOnInstructions (n : Nat) (m : Machine) (s : σ) : Prop :=
  ∀ k < n, (machineAfter dev sink k m s).Transfers (outcomeAfter dev sink (k + 1) m s) →
    (machineAfter dev sink (k + 1) m s).memory.isOperand
      (machineAfter dev sink (k + 1) m s).regs.pc = false

variable {dev sink} {m : Machine} {s : σ} {n : Nat}

/-- **A run never fetches an operand.** A run that starts at a word that is no operand, keeps the
classes of the words and only transfers to words that are no operands always stands at a word that
is no operand, as far as words can be fetched.

**Proof sketch.** Induction on the number of steps; one step is `isOperand_pc_step`. -/
theorem isOperand_pc_machineAfter (hm : m.memory.size = spaceSize)
    (hop : m.memory.isOperand m.regs.pc = false) (hclass : KeepsClasses dev sink n m s)
    (hland : LandsOnInstructions dev sink n m s) {k : Nat} (hk : k ≤ n)
    (hpc : (machineAfter dev sink k m s).regs.pc < lastAddress) :
    (machineAfter dev sink k m s).memory.isOperand (machineAfter dev sink k m s).regs.pc =
      false := by
  induction k with
  | zero => exact hop
  | succ k ih =>
    have hsize : (machineAfter dev sink k m s).memory.size = spaceSize := by
      rw [size_memory_machineAfter, hm]
    exact isOperand_pc_step hsize (ih (by omega)) (step_machineAfter dev sink k m s)
      (hclass k (by omega)) (hland k (by omega)) hpc

/-- **Execution follows the listing.** From every machine with a memory that fills the address
space and a program counter at a word that is no operand, for every device and sink: a step that
completes neither a jump, a call or a return that is taken nor a `halt` goes on to the next word
that is no operand in the memory before the step, or to the reserved address if there is none. A
run that keeps the classes of the words, and only transfers to words that are no operands, fetches
no operand. -/
theorem execution_follows_listing (hm : m.memory.size = spaceSize)
    (hop : m.memory.isOperand m.regs.pc = false) :
    (m.regs.pc ≤ 0x7FFE → ∀ o m' s', step dev sink m s = (o, m', s') → o ≠ .stopped .halt →
        ¬m.Transfers o → m.memory.IsNext m.regs.pc m'.regs.pc) ∧
      ∀ n, KeepsClasses dev sink n m s → LandsOnInstructions dev sink n m s → ∀ k ≤ n,
        (machineAfter dev sink k m s).regs.pc ≤ 0x7FFE →
          (machineAfter dev sink k m s).memory.isOperand (machineAfter dev sink k m s).regs.pc =
            false := by
  have hlt : ∀ a : Word, a ≤ 0x7FFE → a < lastAddress := by
    intro a ha
    rw [lt_lastAddress_iff]
    bv_omega
  constructor
  · intro hpc o m' s' h hh ht
    rcases isNext_or_stopped hm (hlt _ hpc) hop h ht with hnext | ⟨hstop, -⟩
    · exact hnext
    · exact absurd hstop hh
  · intro n hclass hland k hk hpc
    exact isOperand_pc_machineAfter hm hop hclass hland hk (hlt _ hpc)

end Run

/-- A machine with a full memory that starts with two jumps of an unassigned condition. The second
one is the operand of the first. -/
def Machine.badBranch : Machine :=
  { memory := ((Memory.zeros spaceSize).set 0 0x0BC0).set 1 0x0BC0 }

/-- The first jump fails. -/
theorem Machine.step_badBranch :
    step Device.silent Sink.ignore badBranch () =
      (.faulted .invalidCondition,
        (badBranch.setPc 2).tick.record 0 (.faulted .invalidCondition), ()) := by
  have hf : badBranch.fetch = .ok ⟨.jmp, 0x0BC0⟩ := by
    refine fetch_eq_ok_iff.mpr ⟨by decide, ?_, rfl⟩
    simp [badBranch, Memory.get?_set, spaceSize, Registers.initial]
  exact step_of_failed hf rfl

/-- The jump that fails is passed over together with its operand, although that is a jump too. -/
theorem execution_follows_listing_badBranch :
    Machine.badBranch.memory.IsNext 0 2 ∧
      ∀ k ≤ 1, (machineAfter Device.silent Sink.ignore k .badBranch ()).memory.isOperand
        (machineAfter Device.silent Sink.ignore k .badBranch ()).regs.pc = false := by
  have hm : Machine.badBranch.memory.size = spaceSize := by
    simp [Machine.badBranch]
  have hop : Machine.badBranch.memory.isOperand Machine.badBranch.regs.pc = false := by
    simp [Memory.isOperand, Memory.operandRun, Machine.badBranch, Registers.initial]
  have hnot : ¬Machine.badBranch.Transfers (.faulted .invalidCondition) := fun ht => ht.1 _ rfl
  have hafter : stepTimes Device.silent Sink.ignore 1 Machine.badBranch () = _ :=
    Machine.step_badBranch
  have hclass : KeepsClasses Device.silent Sink.ignore 1 Machine.badBranch () := by
    intro k hk a
    obtain rfl : k = 0 := by omega
    rw [machineAfter, hafter]
    rfl
  have hland : LandsOnInstructions Device.silent Sink.ignore 1 Machine.badBranch () := by
    intro k hk ht
    obtain rfl : k = 0 := by omega
    rw [outcomeAfter, hafter] at ht
    exact absurd ht hnot
  refine ⟨?_, ?_⟩
  · exact (execution_follows_listing hm hop).1 (by decide) _ _ _ Machine.step_badBranch (by simp)
      hnot
  · intro k hk
    refine (execution_follows_listing hm hop).2 1 hclass hland k hk ?_
    obtain rfl | rfl : k = 0 ∨ k = 1 := by omega
    · show (0 : Word) ≤ 0x7FFE
      decide
    · rw [machineAfter, hafter]
      decide

end Cpu16
