import Cpu16.Listing.Rows

set_option relaxedAutoImplicit false
set_option autoImplicit false

/-!
# Which words are operands

Whether a word of memory is an instruction or the operand of one depends on all the words before
it: memory is read from address 0 on, one instruction after another, and a word is an operand if
no instruction starts there. A listing decides this without reading memory from the start. It
looks back at the run of words that take an operand and end just before the word, and counts
them. This file proves that both ways agree, for a memory of any length.

## Main definitions

* `Cpu16.operandCodes` — the operation codes of the instructions with an operand word.
* `Cpu16.Memory.Swept` — the addresses that are visited when memory is read from the start.

## Main results

* `Cpu16.Memory.odd_operandRun_succ` — the run before a word is odd exactly if the word before it
  takes an operand and the run before that one is even.
* `Cpu16.Memory.swept_iff` — memory is read from the start through the words with an even run.
* `Cpu16.Memory.isOperand_iff_swept_and_recursion` — the operands of a listing are the words that
  are passed over, and they follow the recursion that a reader would write down.
-/

namespace Cpu16

/-! ## Words with an operand -/

/-- The codes of the operations that are followed by an operand word: jumps, calls, the direct
load and store, and the load of a number. -/
def operandCodes : List Nat :=
  [0b000010, 0b000011, 0b110000, 0b110001, 0b111000]

/-- The words that take an operand are those with one of five operation codes. -/
theorem takesOperand_iff {w : Word} : takesOperand w = true ↔ opcodeField w ∈ operandCodes := by
  have hcode : ∀ n < 64, (Opcode.ofCode? n).any Opcode.hasOperand = true ↔ n ∈ operandCodes := by
    decide
  exact hcode _ (opcodeField_lt w)

/-- A word takes an operand exactly if it decodes to an instruction of two words. -/
theorem takesOperand_iff_decode {w : Word} :
    takesOperand w = true ↔ ∃ i, Instruction.decode w = .ok i ∧ i.size = 2 := by
  have hsize : ∀ o : Opcode, o.hasOperand = true ↔ o.size = 2 := by
    intro o
    cases o <;> decide
  unfold takesOperand Instruction.decode
  cases Opcode.ofWord? w with
  | none => simp
  | some o => simp [Instruction.size, hsize]

/-! ## The run before a word -/

namespace Memory

variable {mem : Memory}

/-- What has been counted of a run is added to the rest of it. -/
theorem operandRun_eq_add (mem : Memory) (n k : Nat) :
    mem.operandRun n k = mem.operandRun n 0 + k := by
  induction n generalizing k with
  | zero => simp [operandRun]
  | succ n ih =>
    unfold operandRun
    split
    · rw [ih (k + 1), ih (0 + 1)]
      omega
    · omega

/-- A word that takes an operand makes the run before it longer by one, and any other word ends
it. -/
theorem operandRun_succ (mem : Memory) (n : Nat) :
    mem.operandRun (n + 1) 0 =
      if mem.words[n]?.any takesOperand then mem.operandRun n 0 + 1 else 0 := by
  rw [operandRun]
  split
  · exact operandRun_eq_add mem n 1
  · rfl

/-- **The parity of a run.** The run before a word is odd exactly if the word before it takes an
operand and has an even run before it. -/
theorem odd_operandRun_succ {n : Nat} :
    mem.operandRun (n + 1) 0 % 2 = 1 ↔
      mem.words[n]?.any takesOperand = true ∧ mem.operandRun n 0 % 2 = 0 := by
  rw [operandRun_succ]
  split
  · rename_i ht
    simp only [ht, true_and]
    omega
  · rename_i ht
    simp [ht]

/-- A word in memory is an operand exactly if the run before it is odd. -/
theorem isOperand_iff {a : Word} :
    mem.isOperand a = true ↔ a.toNat < mem.size ∧ mem.operandRun a.toNat 0 % 2 = 1 := by
  simp [isOperand, contains]

/-- A word in memory is an operand exactly if the word before it takes one and is none itself. -/
theorem isOperand_add_one_of_get? {a w : Word} (hw : mem.get? a = some w)
    (hsucc : (a + 1).toNat = a.toNat + 1) (hlt : a.toNat + 1 < mem.size) :
    mem.isOperand (a + 1) = true ↔ takesOperand w = true ∧ mem.isOperand a = false := by
  have hword : mem.words[a.toNat]? = some w := hw
  have hnone : mem.isOperand a = false ↔ mem.operandRun a.toNat 0 % 2 = 0 := by
    rw [← Bool.not_eq_true, isOperand_iff]
    omega
  rw [isOperand_iff, hsucc, odd_operandRun_succ, hword, hnone]
  simp [hlt]

/-! ## Reading memory from the start -/

/-- The addresses that are visited when memory is read from the start, one instruction after
another. A word without a meaning is passed over as an instruction of one word. -/
inductive Swept (mem : Memory) : Nat → Prop
  /-- The first instruction is at address 0. -/
  | start : mem.Swept 0
  /-- After a word that takes an operand, the next instruction is two words on. -/
  | overTwo {n : Nat} {w : Word} (hn : mem.Swept n) (hw : mem.words[n]? = some w)
      (hc : opcodeField w ∈ operandCodes) : mem.Swept (n + 2)
  /-- After any other word it is one word on. -/
  | overOne {n : Nat} {w : Word} (hn : mem.Swept n) (hw : mem.words[n]? = some w)
      (hc : opcodeField w ∉ operandCodes) : mem.Swept (n + 1)

/-- The run before an address that is visited is even. -/
theorem Swept.even_operandRun {n : Nat} (h : mem.Swept n) : mem.operandRun n 0 % 2 = 0 := by
  induction h with
  | start => rfl
  | @overTwo n w hn hw hc ih =>
    -- The operand has an odd run before it, so the run before the word after it cannot be odd.
    have hodd : mem.operandRun (n + 1) 0 % 2 = 1 :=
      odd_operandRun_succ.mpr ⟨by simpa [hw] using takesOperand_iff.mpr hc, ih⟩
    have hnot : mem.operandRun (n + 2) 0 % 2 ≠ 1 := by
      intro h
      have heven := (odd_operandRun_succ.mp h).2
      omega
    omega
  | @overOne n w hn hw hc ih =>
    have ht : takesOperand w = false := by
      simpa using mt takesOperand_iff.mp hc
    rw [operandRun_succ, hw]
    simp [ht]

/-- **The two ways agree.** Up to the end of memory, an address is visited exactly if the run
before it is even.

**Proof sketch.** An address that is visited has an even run by induction on the visits. For the
converse, strong induction on the address. The word before an address with an even run does not
take an operand, or it has an odd run before it. If its own run is even, it is visited, and one
word further on is the address. If its run is odd, it is the operand of the word before it, which
has an even run and so is visited, and two words further on is the address. -/
theorem swept_iff {n : Nat} (hn : n ≤ mem.size) :
    mem.Swept n ↔ mem.operandRun n 0 % 2 = 0 := by
  refine ⟨Swept.even_operandRun, ?_⟩
  induction n using Nat.strongRecOn with
  | ind n ih =>
    intro heven
    rcases n with _ | n
    · exact .start
    have hsize : n < mem.words.size := hn
    have hw : mem.words[n]? = some mem.words[n] := Array.getElem?_eq_getElem hsize
    by_cases hrun : mem.operandRun n 0 % 2 = 0
    · have hnot : ¬takesOperand mem.words[n] = true := by
        intro ht
        have hodd := odd_operandRun_succ.mpr ⟨by simpa [hw] using ht, hrun⟩
        omega
      exact .overOne (ih n (by omega) (by omega) hrun) hw (mt takesOperand_iff.mpr hnot)
    · -- An odd run is not empty, so there is a word before the operand.
      rcases n with _ | p
      · exact absurd rfl hrun
      obtain ⟨ht, hp⟩ := odd_operandRun_succ.mp (by omega : mem.operandRun (p + 1) 0 % 2 = 1)
      obtain ⟨w, hwp, ht⟩ := (Option.any_eq_true _ _).mp ht
      exact .overTwo (ih p (by omega) (by omega) hp) hwp (takesOperand_iff.mp ht)

/-! ## The operands of a listing -/

/-- A word in memory is an operand exactly if it is passed over when memory is read from the
start. -/
theorem isOperand_iff_not_swept {a : Word} :
    mem.isOperand a = true ↔ a.toNat < mem.size ∧ ¬mem.Swept a.toNat := by
  rw [isOperand_iff]
  refine and_congr_right ?_
  intro ha
  rw [swept_iff (Nat.le_of_lt ha)]
  omega

/-- Whether the word before an address is an instruction of two words, so that its operand belongs
at the address. Nothing is said about a word at the address itself. -/
def FollowsTwoWord (mem : Memory) (a : Word) : Prop :=
  1 ≤ a.toNat ∧
    (∃ w i, mem.get? (a - 1) = some w ∧ Instruction.decode w = .ok i ∧ i.size = 2) ∧
    mem.isOperand (a - 1) = false

/-- The word before an address is an instruction of two words exactly if the run before the
address is odd. -/
theorem followsTwoWord_iff {a : Word} (ha : a.toNat ≤ mem.size) :
    mem.FollowsTwoWord a ↔ mem.operandRun a.toNat 0 % 2 = 1 := by
  unfold FollowsTwoWord
  obtain hzero | ⟨n, hn⟩ : a.toNat = 0 ∨ ∃ n, a.toNat = n + 1 := by
    rcases a.toNat with _ | n
    · exact .inl rfl
    · exact .inr ⟨n, rfl⟩
  · simp [hzero, operandRun]
  have hpred : (a - 1).toNat = n := by
    bv_omega
  have hone : 1 ≤ n + 1 := Nat.succ_le_succ (Nat.zero_le n)
  have hlt : n < mem.size := by
    omega
  have htwo : (∃ w i, mem.get? (a - 1) = some w ∧ Instruction.decode w = .ok i ∧ i.size = 2) ↔
      mem.words[n]?.any takesOperand = true := by
    rw [get?, hpred]
    simp [Option.any_eq_true, takesOperand_iff_decode]
  have hnone : mem.isOperand (a - 1) = false ↔ mem.operandRun n 0 % 2 = 0 := by
    rw [← Bool.not_eq_true, isOperand_iff, hpred]
    omega
  rw [hn, odd_operandRun_succ, htwo, hnone]
  simp only [hone, true_and]

/-- **The operands of a listing.** In a memory of any length, the word at an address is an operand
exactly if the address is in memory and is passed over when memory is read from the start. It is
the same to say that the address is in memory and that the word before it is an instruction of two
words, hence no operand itself. -/
theorem isOperand_iff_swept_and_recursion (mem : Memory) (a : Word) :
    (mem.isOperand a = true ↔ a.toNat < mem.size ∧ ¬mem.Swept a.toNat) ∧
      (mem.isOperand a = true ↔ a.toNat < mem.size ∧ mem.FollowsTwoWord a) := by
  refine ⟨isOperand_iff_not_swept, ?_⟩
  rw [isOperand_iff]
  refine and_congr_right ?_
  intro ha
  exact (followsTwoWord_iff (Nat.le_of_lt ha)).symm

/-- A memory that ends with a jump and has no room for its operand. -/
def loneJump : Memory := ⟨#[0x0800]⟩

/-- The word before the end of memory may be an instruction of two words. The address after it is
no operand all the same, since it is outside memory. -/
theorem not_isOperand_of_followsTwoWord_loneJump :
    ¬(loneJump.isOperand 1 = true ↔ loneJump.FollowsTwoWord 1) := by
  have hfollows : loneJump.FollowsTwoWord 1 :=
    ⟨by decide, ⟨0x0800, ⟨.jmp, 0x0800⟩, rfl, rfl, rfl⟩, by decide⟩
  have hnot : loneJump.isOperand 1 = false := by
    decide
  intro h
  rw [h.mpr hfollows] at hnot
  exact Bool.noConfusion hnot

end Memory

end Cpu16
