import Mathlib.Data.Nat.Digits.Lemmas
import Mathlib.Tactic.LinearCombination
import Cpu16.Proofs.Run.FlagHistory
import Cpu16.Proofs.Step.Arithmetic

set_option relaxedAutoImplicit false
set_option autoImplicit false

/-!
# Numbers of several words

A program that works on numbers larger than a word goes limb by limb, from the least significant
one, and the carry flag takes what is left over from each limb to the next one. In between it may do
whatever leaves the flags alone, such as to load the next two limbs and to save the last result.
This file says which runs do so, and that sums come out exactly.

## Main definitions

* `Cpu16.Limb` — two words and what has been computed of them; `Cpu16.Limb.value` is the number that
  some limbs make up.
* `Cpu16.recordAt` — the record of one of a number of steps.
* `Cpu16.CarryChain` — some steps have computed some limbs, one after another.

## Main results

* `Cpu16.StepRecord.value_add` — one limb of a sum, with the carry before it and after it.
* `Cpu16.value_result_of_carryChain` — a sum of any number of limbs is exact.
-/

universe u

namespace Cpu16

/-! ## Limbs -/

/-- Two words, and the word that has been computed of them. -/
structure Limb : Type where
  /-- The first operand. -/
  left : Word
  /-- The second operand. -/
  right : Word
  /-- The word that is the result. -/
  result : Word
  deriving DecidableEq, Repr

namespace Limb

/-- The number that some limbs make up, the least significant first, if `f` is the number for
one. -/
def value (f : Limb → Nat) (limbs : List Limb) : Nat :=
  Nat.ofDigits 0x10000 (limbs.map f)

variable (f : Limb → Nat)

/-- One more limb. -/
theorem value_concat (limbs : List Limb) (l : Limb) :
    value f (limbs ++ [l]) = value f limbs + 0x10000 ^ limbs.length * f l := by
  simp [value, Nat.ofDigits_append]

end Limb

/-! ## One step -/

/-- The carry that an instruction takes in, as a number. -/
theorem Instruction.carryIn_eq_toNat (i : Instruction) (m : Machine) :
    i.carryIn m = ((i.usesCarry && m.regs.flag .carry).toNat : Int) := by
  unfold carryIn
  cases i.usesCarry && m.regs.flag .carry <;> rfl

namespace StepRecord

variable {r : StepRecord.{u}} {i : Instruction}

/-- A step that executes no instruction that may change the flags leaves every flag as it is. -/
theorem flag_of_changesFlags (h : ∀ i, r.executed? = some i → i.changesFlags = false) (g : Flag) :
    r.after.regs.flag g = r.before.regs.flag g := by
  rcases r.faulted_or_executed with ⟨f, -, -, hframe⟩ | ⟨i, reply, hsome, hx⟩
  · exact Registers.flag_congr hframe.flags g
  · exact hx.flag_of_changesFlags_eq_false (h i hsome) g

/-- The limb that the step has computed with the instruction `i`. -/
def limb (r : StepRecord.{u}) (i : Instruction) : Limb where
  left := r.before.regs.get i.rs1
  right := r.before.regs.get i.rs2
  result := r.after.regs.get i.rd

/-- A step with an operation on two registers that is no division leaves the exact result modulo the
radix in its limb, and the carry says whether the exact result is a word. The exact result is that
of the two words of the limb, with the carry before it if the instruction takes it. -/
theorem result_and_carry {op : BinaryOp} (h : r.executed? = some i)
    (hop : i.opcode.binaryOp? = some op) (hdiv : i.opcode.isDivision = false) {z : Int}
    (hz : op.exact (r.limb i).left (r.limb i).right +
      (i.usesCarry && r.before.regs.flag .carry).toNat = z) :
    ((r.limb i).result.toNat : Int) = z % 0x10000 ∧
      r.after.regs.flag .carry = decide (z < 0 ∨ 0xFFFF < z) := by
  obtain ⟨reply, hx⟩ := exists_executed h
  have hresult : i.exactResult? r.before = some z := by
    rw [Instruction.exactResult?_of_binaryOp? hop, if_neg (by simp [hdiv]),
      Instruction.carryIn_eq_toNat]
    exact congrArg some hz
  have hc := hx.computes (Opcode.isArithmetic_iff.mpr (.inl (by simp [hop]))) hresult
  exact ⟨hc.result, hc.carry⟩

/-- **One limb of a sum.** The result with the carry after it is the sum of the two words and the
carry that is taken in. -/
theorem value_add (h : r.executed? = some i) (ho : i.opcode = .add) :
    (r.limb i).result.toNat + (r.after.regs.flag .carry).toNat * 0x10000 =
      (r.limb i).left.toNat + (r.limb i).right.toNat +
        (i.usesCarry && r.before.regs.flag .carry).toNat := by
  have hop : i.opcode.binaryOp? = some .add := by rw [ho]; rfl
  obtain ⟨hresult, hcarry⟩ := result_and_carry h hop (by rw [ho]; rfl) rfl
  rw [BinaryOp.exact] at hresult hcarry
  have hle := Bool.toNat_le (i.usesCarry && r.before.regs.flag .carry)
  have hleft := (r.limb i).left.isLt
  have hright := (r.limb i).right.isLt
  generalize (i.usesCarry && r.before.regs.flag .carry).toNat = c at *
  rw [hcarry]
  rcases Decidable.em ((r.limb i).left.toNat + (r.limb i).right.toNat + c ≤ 0xFFFF) with hw | hw
  · rw [decide_eq_false (by omega)]
    simp only [Bool.toNat_false]
    omega
  · rw [decide_eq_true (by omega)]
    simp only [Bool.toNat_true]
    omega

end StepRecord

/-! ## Limb by limb -/

section Chain

variable {σ : Type u} (dev : Device σ) (sink : Sink σ) (m : Machine) (s : σ)

/-- The record of the step that follows `n` steps. -/
def recordAt (n : Nat) : StepRecord.{u} :=
  .of dev sink (machineAfter dev sink n m s) (stepTimes dev sink n m s).2.2

/-- The last of `n` steps have computed the limbs, the least significant first, with the operation
`o` in a chain: the first limb with the plain operation, or after the carry has been cleared; each
other one with the variant of the operation that takes the carry; and nothing in between has
executed an instruction that changes flags. -/
inductive CarryChain (o : Opcode) : Nat → List Limb → Prop
  /-- The carry is cleared, and no limb is computed yet. -/
  | clear {n : Nat} {i : Instruction} (hi : (recordAt dev sink m s n).executed? = some i)
    (ho : i.opcode = .carryControl) (hc : i.clearsCarry = true) : CarryChain o (n + 1) []
  /-- The first limb, without a carry. -/
  | first {n : Nat} {i : Instruction} (hi : (recordAt dev sink m s n).executed? = some i)
    (ho : i.opcode = o) (hc : i.usesCarry = false) :
    CarryChain o (n + 1) [(recordAt dev sink m s n).limb i]
  /-- One more limb, with the carry. -/
  | next {n : Nat} {limbs : List Limb} {i : Instruction} (chain : CarryChain o n limbs)
    (hi : (recordAt dev sink m s n).executed? = some i) (ho : i.opcode = o)
    (hc : i.usesCarry = true) : CarryChain o (n + 1) (limbs ++ [(recordAt dev sink m s n).limb i])
  /-- Something else that leaves the flags alone. -/
  | between {n : Nat} {limbs : List Limb} (chain : CarryChain o n limbs)
    (hi : ∀ i, (recordAt dev sink m s n).executed? = some i → i.changesFlags = false) :
    CarryChain o (n + 1) limbs

variable {dev sink m s}

/-- **Sums of several words are exact.** After some steps that have added limb by limb, the results
and the last carry make up the sum of the operands, for any number of limbs and whatever the program
has done in between, as long as it has left the flags alone. Here `m` may be any machine, also one
that has entered a continuous run.

**Proof sketch.** Induction on the chain. Each limb hands on its carry exactly
(`StepRecord.value_add`), and the carry survives what comes in between. -/
theorem value_result_of_carryChain {n : Nat} {limbs : List Limb}
    (h : CarryChain dev sink m s .add n limbs) :
    Limb.value (fun l => l.result.toNat) limbs +
        ((machineAfter dev sink n m s).regs.flag .carry).toNat * 0x10000 ^ limbs.length =
      Limb.value (fun l => l.left.toNat + l.right.toNat) limbs := by
  induction h with
  -- No limb yet: both sides are zero, since the carry has been cleared.
  | @clear n i hi ho hc =>
    obtain ⟨reply, hx⟩ := StepRecord.exists_executed hi
    have hcarry : (machineAfter dev sink (n + 1) m s).regs.flag .carry = !i.clearsCarry :=
      (hx.flag_of_carryControl ho .carry).trans (if_pos rfl)
    rw [hcarry, hc]
    rfl
  | @first n i hi ho hc =>
    have hlimb := StepRecord.value_add hi ho
    rw [hc, Bool.false_and] at hlimb
    simp only [Limb.value, List.map_singleton, Nat.ofDigits_singleton, List.length_singleton,
      pow_one]
    exact hlimb
  | @next n limbs i _ hi ho hc ih =>
    have hlimb := StepRecord.value_add hi ho
    rw [hc, Bool.true_and] at hlimb
    rw [Limb.value_concat, Limb.value_concat, List.length_append, List.length_singleton, pow_succ,
      ← ih]
    have hout : (recordAt dev sink m s n).after = machineAfter dev sink (n + 1) m s := rfl
    have hin : (recordAt dev sink m s n).before = machineAfter dev sink n m s := rfl
    rw [hout, hin] at hlimb
    -- The carry of the new limb counts 2^16 times as much as the one that it has taken in.
    linear_combination 0x10000 ^ limbs.length * hlimb
  | @between n limbs _ hi ih =>
    rw [← ih]
    exact congrArg (fun c : Bool => _ + c.toNat * _) (StepRecord.flag_of_changesFlags hi .carry)

end Chain

/-- A machine that adds two words, saves the sum, and adds two more words with the carry. -/
def Machine.adder : Machine :=
  { regs := { general := #v[0xFFFF, 1, 0, 0xFFFF, 0, 0, 0, 0] }
    memory := ⟨#[0x8102, 0xCFA0, 0x82B9]⟩ }

/-- The adder adds 1 to 2^32 - 1: both limbs of the result are zero, and the carry is set. -/
theorem value_result_of_carryChain_twoLimbs :
    CarryChain Device.silent Sink.ignore .adder () .add 3 [⟨0xFFFF, 1, 0⟩, ⟨0xFFFF, 0, 0⟩] ∧
      Limb.value (fun l => l.result.toNat) [⟨0xFFFF, 1, 0⟩, ⟨0xFFFF, 0, 0⟩] +
          ((machineAfter Device.silent Sink.ignore 3 .adder ()).regs.flag .carry).toNat *
            0x10000 ^ 2 =
        Limb.value (fun l => l.left.toNat + l.right.toNat) [⟨0xFFFF, 1, 0⟩, ⟨0xFFFF, 0, 0⟩] := by
  have hfirst : CarryChain Device.silent Sink.ignore .adder () .add 1 [⟨0xFFFF, 1, 0⟩] :=
    .first (i := ⟨.add, 0x8102⟩) rfl rfl rfl
  have hsaved : CarryChain Device.silent Sink.ignore .adder () .add 2 [⟨0xFFFF, 1, 0⟩] := by
    refine hfirst.between fun i hi => ?_
    obtain rfl : ⟨.mov, 0xCFA0⟩ = i := Option.some.inj hi
    rfl
  have hchain : CarryChain Device.silent Sink.ignore .adder () .add 3
      [⟨0xFFFF, 1, 0⟩, ⟨0xFFFF, 0, 0⟩] := hsaved.next (i := ⟨.add, 0x82B9⟩) rfl rfl rfl
  exact ⟨hchain, value_result_of_carryChain hchain⟩

end Cpu16
