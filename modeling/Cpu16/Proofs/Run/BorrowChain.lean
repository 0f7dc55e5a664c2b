import Mathlib.Data.Int.ModEq
import Mathlib.Tactic.Ring
import Cpu16.Proofs.Run.CarryChain

set_option relaxedAutoImplicit false
set_option autoImplicit false

/-!
# Differences of several words

A subtraction that borrows sets the carry flag, since its exact result is no word. The variant of
the subtraction that takes the carry adds it, where a borrow would have to be subtracted. So a
difference of several words comes out right, modulo the words that there are, as long as no limb but
the last one borrows; and once one has borrowed, the next limb is two too large, and nothing after
it can make up for that.

## Main definitions

* `Cpu16.Limb.difference` — the difference of the two numbers that some limbs make up.
* `Cpu16.Limb.borrows` — the exact result for the limb is negative.

## Main results

* `Cpu16.StepRecord.value_sub` — one limb of a difference, with the carry before it and after it.
* `Cpu16.CarryChain.value_result_sub` — by how much the results of a chain are off.
* `Cpu16.CarryChain.first_borrows` — the first limb with a lesser first operand borrows.
* `Cpu16.CarryChain.not_modEq_of_isLess`, `Cpu16.CarryChain.result_modEq_add_two` — what this does
  to the results.
* `Cpu16.value_result_modEq_iff_of_carryChain` — which differences come out right.
-/

universe u

namespace Cpu16

/-! ## Limbs that borrow -/

namespace Limb

/-- The difference of the two numbers that some limbs make up, the least significant first. -/
def difference (limbs : List Limb) : Int :=
  (value (fun l => l.left.toNat) limbs : Int) - value (fun l => l.right.toNat) limbs

/-- Whether the first operand is less than the second one. -/
def isLess (l : Limb) : Bool :=
  l.left < l.right

/-- A limb borrows exactly if its left operand is less than its right one. -/
theorem isLess_iff {l : Limb} : l.isLess = true ↔ l.left < l.right :=
  decide_eq_true_iff

/-- Whether the exact result for the limb is negative. A first operand that is less by one, with a
carry that makes up for it, has the result zero. -/
def borrows (l : Limb) : Bool :=
  l.isLess && l.result != 0

/-- The highest limb counts with its place value. -/
theorem difference_concat (limbs : List Limb) (l : Limb) :
    difference (limbs ++ [l]) =
      difference limbs + 0x10000 ^ limbs.length * ((l.left.toNat : Int) - l.right.toNat) := by
  unfold difference
  rw [value_concat, value_concat]
  push_cast
  ring

/-- The number that some limbs make up, at one of them. -/
theorem value_append_cons (f : Limb → Nat) (before : List Limb) (l : Limb) (after : List Limb) :
    value f (before ++ l :: after) =
      value f before + 0x10000 ^ before.length * (f l + 0x10000 * value f after) := by
  simp [value, Nat.ofDigits_append, Nat.ofDigits_cons]

/-- The number that some limbs make up, from one of them to the next. -/
theorem value_append_cons_cons (f : Limb → Nat) (before : List Limb) (l l' : Limb)
    (after : List Limb) :
    value f (before ++ l :: l' :: after) = value f (before ++ [l]) +
      0x10000 ^ (before.length + 1) * (f l' + 0x10000 * value f after) := by
  rw [List.append_cons, value_append_cons, List.length_append, List.length_singleton]

/-- Limbs without a lesser first operand do not borrow. -/
theorem value_borrows_eq_zero {limbs : List Limb} (h : ∀ l ∈ limbs, l.isLess = false) :
    value (fun l => l.borrows.toNat) limbs = 0 := by
  induction limbs with
  | nil => rfl
  | cons l limbs ih =>
    have hl : l.borrows.toNat = 0 := by
      rw [borrows, h l List.mem_cons_self, Bool.false_and]
      rfl
    have hrest := ih fun x hx => h x (List.mem_cons_of_mem _ hx)
    simp only [value, List.map_cons, Nat.ofDigits_cons] at hrest ⊢
    rw [hl, hrest]

/-- The results of some limbs make up a number of as many words. -/
theorem value_result_lt (limbs : List Limb) :
    value (fun l => l.result.toNat) limbs < 0x10000 ^ limbs.length := by
  have hlt := Nat.ofDigits_lt_base_pow_length (b := 0x10000)
    (l := limbs.map fun l => l.result.toNat) (by decide)
    (List.forall_mem_map.mpr fun l _ => l.result.isLt)
  rwa [List.length_map] at hlt

/-- If a limb before the last one has a lesser first operand, there is a first such limb, and a limb
after it. -/
theorem exists_first_isLess {limbs : List Limb} {l₀ : Limb} (h : l₀ ∈ limbs.dropLast)
    (hl₀ : l₀.isLess = true) :
    ∃ before l l' after, limbs = before ++ l :: l' :: after ∧ (∀ x ∈ before, x.isLess = false) ∧
      l.isLess = true := by
  obtain ⟨l, hl⟩ := Option.isSome_iff_exists.mp (List.find?_isSome.mpr ⟨l₀, h, hl₀⟩)
  obtain ⟨hless, before, rest, hinit, hbefore⟩ := List.find?_eq_some_iff_append.mp hl
  have hne : limbs ≠ [] := by
    rintro rfl
    exact List.not_mem_nil h
  obtain ⟨l', after, hafter⟩ : ∃ l' after, rest ++ [limbs.getLast hne] = l' :: after := by
    cases rest with
    | nil => exact ⟨_, [], rfl⟩
    | cons x rest => exact ⟨x, _, rfl⟩
  refine ⟨before, l, l', after, ?_, fun x hx => ?_, hless⟩
  · rw [← List.dropLast_concat_getLast hne, hinit, List.append_assoc, List.cons_append, hafter]
  · simpa using hbefore x hx

end Limb

/-! ## One limb -/

namespace StepRecord

variable {r : StepRecord.{u}} {i : Instruction}

/-- **One limb of a difference.** The result with the carry after it is the difference of the two
words with the carry that is taken in, and twice the radix more if the limb borrows: once since the
result is modulo the radix, and once since the borrow counts as a carry.

**Proof sketch.** By where the exact result is: below zero the limb borrows, among the words there
is no carry, and the only other result is the radix itself, which is carried rightly. -/
theorem value_sub (h : r.executed? = some i) (ho : i.opcode = .sub) :
    ((r.limb i).result.toNat : Int) + (r.after.regs.flag .carry).toNat * 0x10000 =
      (r.limb i).left.toNat - (r.limb i).right.toNat +
        (i.usesCarry && r.before.regs.flag .carry).toNat +
          2 * 0x10000 * (r.limb i).borrows.toNat := by
  have hop : i.opcode.binaryOp? = some .sub := by rw [ho]; rfl
  obtain ⟨hresult, hcarry⟩ := result_and_carry h hop (by rw [ho]; rfl) rfl
  rw [BinaryOp.exact] at hresult hcarry
  have hle := Bool.toNat_le (i.usesCarry && r.before.regs.flag .carry)
  have hleft := (r.limb i).left.isLt
  have hright := (r.limb i).right.isLt
  have hborrows : (r.limb i).borrows = true ↔
      (r.limb i).left.toNat < (r.limb i).right.toNat ∧ (r.limb i).result.toNat ≠ 0 := by
    rw [Limb.borrows, Limb.isLess, Bool.and_eq_true_iff, decide_eq_true_iff, BitVec.lt_def,
      bne_iff_ne, ne_eq, ← BitVec.toNat_inj]
    rfl
  generalize (i.usesCarry && r.before.regs.flag .carry).toNat = c at *
  rw [hcarry]
  rcases lt_or_ge ((r.limb i).left.toNat + c) (r.limb i).right.toNat with hneg | hnonneg
  -- Below zero: the result is one radix too much, and the carry after it counts one more.
  · rw [decide_eq_true (by omega), hborrows.mpr (by omega)]
    simp only [Bool.toNat_true]
    omega
  · rw [Bool.eq_false_iff.mpr (mt hborrows.mp (by omega))]
    -- Otherwise the result is exact; its carry is set only where it is the radix itself.
    rcases Decidable.em ((r.limb i).left.toNat + c - (r.limb i).right.toNat ≤ 0xFFFF) with hw | hw
    · rw [decide_eq_false (by omega)]
      simp only [Bool.toNat_false]
      omega
    · rw [decide_eq_true (by omega)]
      simp only [Bool.toNat_true, Bool.toNat_false]
      omega

/-- If no carry is taken in, a limb with a lesser first operand borrows, and any other one leaves no
carry. -/
theorem borrows_or_no_carry (h : r.executed? = some i) (ho : i.opcode = .sub)
    (hc : (i.usesCarry && r.before.regs.flag .carry) = false) :
    ((r.limb i).isLess = false → r.after.regs.flag .carry = false) ∧
      ((r.limb i).isLess = true → (r.limb i).borrows = true) := by
  have hvalue := value_sub h ho
  rw [hc, Bool.toNat_false] at hvalue
  have hleft := (r.limb i).left.isLt
  have hless : (r.limb i).isLess = true ↔ (r.limb i).left.toNat < (r.limb i).right.toNat := by
    rw [Limb.isLess, decide_eq_true_iff, BitVec.lt_def]
  constructor
  · intro hl
    have hb : (r.limb i).borrows = false := by rw [Limb.borrows, hl, Bool.false_and]
    have hle := mt hless.mpr (Bool.eq_false_iff.mp hl)
    rw [hb, Bool.toNat_false] at hvalue
    by_contra hout
    rw [Bool.eq_true_of_not_eq_false hout, Bool.toNat_true] at hvalue
    omega
  · intro hl
    by_contra hb
    rw [Bool.eq_false_of_not_eq_true hb, Bool.toNat_false] at hvalue
    have hlt := hless.mp hl
    omega

/-- The same, with the limb as the last one of a chain in which there is no lesser first operand
before it. -/
theorem first_borrows (h : r.executed? = some i) (ho : i.opcode = .sub)
    (hc : (i.usesCarry && r.before.regs.flag .carry) = false) :
    ([r.limb i].find? Limb.isLess = none → r.after.regs.flag .carry = false) ∧
      ∀ l, [r.limb i].find? Limb.isLess = some l → l.borrows = true := by
  obtain ⟨hcarry, hborrows⟩ := borrows_or_no_carry h ho hc
  constructor
  · intro hnone
    exact hcarry (by simpa using hnone)
  · intro l hl
    obtain rfl := List.mem_singleton.mp (List.mem_of_find?_eq_some hl)
    exact hborrows (List.find?_some hl)

/-- A step that clears the carry leaves none. -/
theorem flag_carry_of_clear (h : r.executed? = some i) (ho : i.opcode = .carryControl)
    (hc : i.clearsCarry = true) : r.after.regs.flag .carry = false := by
  obtain ⟨reply, hx⟩ := exists_executed h
  rw [hx.flag_of_carryControl ho, if_pos rfl, hc]
  rfl

end StepRecord

/-! ## Limb by limb -/

section Chain

variable {σ : Type u} {dev : Device σ} {sink : Sink σ} {m : Machine} {s : σ} {n : Nat}
  {limbs : List Limb}

/-- The record of a step begins where the steps before it have led. -/
theorem before_recordAt :
    (recordAt dev sink m s n).before = machineAfter dev sink n m s := rfl

/-- The record of a step ends where the steps with it lead. -/
theorem after_recordAt :
    (recordAt dev sink m s n).after = machineAfter dev sink (n + 1) m s := rfl

namespace CarryChain

/-- **By how much the results are off.** The results of a chain of subtractions and its last carry
make up the difference of the operands, and twice the radix of every limb that has borrowed.

**Proof sketch.** Induction on the chain, as for sums; each limb is `StepRecord.value_sub`. -/
theorem value_result_sub (h : CarryChain dev sink m s .sub n limbs) :
    (Limb.value (fun l => l.result.toNat) limbs : Int) +
        ((machineAfter dev sink n m s).regs.flag .carry).toNat * 0x10000 ^ limbs.length =
      Limb.difference limbs + 2 * 0x10000 * Limb.value (fun l => l.borrows.toNat) limbs := by
  induction h with
  | @clear n i hi ho hc =>
    have hcarry := StepRecord.flag_carry_of_clear hi ho hc
    rw [after_recordAt] at hcarry
    rw [hcarry]
    simp [Limb.value, Limb.difference]
  | @first n i hi ho hc =>
    have hlimb := StepRecord.value_sub hi ho
    rw [hc, Bool.false_and, Bool.toNat_false, after_recordAt] at hlimb
    simp only [Limb.difference, Limb.value, List.map_singleton, Nat.ofDigits_singleton,
      List.length_singleton, pow_one]
    linear_combination hlimb
  | @next n limbs i _ hi ho hc ih =>
    have hlimb := StepRecord.value_sub hi ho
    rw [hc, Bool.true_and] at hlimb
    rw [Limb.value_concat, Limb.value_concat, Limb.difference_concat, List.length_append,
      List.length_singleton, pow_succ]
    rw [after_recordAt, before_recordAt] at hlimb
    push_cast
    linear_combination ih + 0x10000 ^ limbs.length * hlimb
  | @between n limbs _ hi ih =>
    rw [← ih]
    exact congrArg (fun c : Bool => _ + (c.toNat : Int) * _)
      (StepRecord.flag_of_changesFlags hi .carry)

/-- **The first limb with a lesser first operand borrows.** As long as there is none, there is no
carry that could make up for it. -/
theorem first_borrows (h : CarryChain dev sink m s .sub n limbs) :
    (limbs.find? Limb.isLess = none →
        (machineAfter dev sink n m s).regs.flag .carry = false) ∧
      ∀ l, limbs.find? Limb.isLess = some l → l.borrows = true := by
  induction h with
  | @clear n i hi ho hc =>
    have hcarry := StepRecord.flag_carry_of_clear hi ho hc
    exact ⟨fun _ => hcarry, fun l hl => absurd hl.symm (Option.some_ne_none l)⟩
  | @first n i hi ho hc =>
    exact StepRecord.first_borrows hi ho (by rw [hc]; rfl)
  | @next n limbs i _ hi ho hc ih =>
    obtain ⟨hclean, hfirst⟩ := ih
    rw [List.find?_append]
    cases hold : limbs.find? Limb.isLess with
    | some l₀ =>
      rw [Option.some_or]
      exact ⟨fun hnone => absurd hnone (Option.some_ne_none l₀),
        fun l hl => hfirst l (hold.trans hl)⟩
    | none =>
      rw [Option.none_or]
      have hin : (recordAt dev sink m s n).before.regs.flag .carry = false := hclean hold
      exact StepRecord.first_borrows hi ho (by rw [hin, Bool.and_false])
  | @between n limbs _ hi ih =>
    have hcarry := StepRecord.flag_of_changesFlags hi .carry
    exact ⟨fun hnone => hcarry.trans (ih.1 hnone), ih.2⟩

/-- If only the last limb may borrow, the results are the difference, modulo the words that there
are. -/
theorem modEq_of_dropLast (h : CarryChain dev sink m s .sub n limbs)
    (hle : ∀ l ∈ limbs.dropLast, l.isLess = false) :
    (Limb.value (fun l => l.result.toNat) limbs : Int) ≡ Limb.difference limbs
      [ZMOD 0x10000 ^ limbs.length] := by
  have hvalue := h.value_result_sub
  rcases List.eq_nil_or_concat limbs with rfl | ⟨init, last, rfl⟩
  · rfl
  rw [List.concat_eq_append] at *
  have hinit : Limb.value (fun l => l.borrows.toNat) init = 0 :=
    Limb.value_borrows_eq_zero fun l hl => hle l (by rwa [List.dropLast_concat])
  rw [Limb.value_concat (fun l => l.borrows.toNat), hinit] at hvalue
  rw [List.length_append, List.length_singleton, pow_succ] at hvalue ⊢
  generalize ((machineAfter dev sink n m s).regs.flag .carry).toNat = c at hvalue
  -- Two words for the borrow of the last limb, less the carry that it has left.
  refine Int.modEq_iff_dvd.mpr ⟨c - 2 * last.borrows.toNat, ?_⟩
  push_cast at hvalue
  linear_combination -hvalue

/-- **Behind the first borrow.** If the first limb with a lesser first operand is not the last one,
the results are two too much at the next limb, and off by some multiple of the radix after it.

**Proof sketch.** The limb borrows (`first_borrows`), and none before it does, so what the results
are off by is twice the next radix, and a multiple of the radix after it. -/
theorem exists_difference_eq {before after : List Limb} {l l' : Limb}
    (h : CarryChain dev sink m s .sub n (before ++ l :: l' :: after))
    (hbefore : ∀ x ∈ before, x.isLess = false) (hl : l.isLess = true) :
    ∃ z : Int, Limb.difference (before ++ l :: l' :: after) =
      Limb.value (fun l => l.result.toNat) (before ++ l :: l' :: after) +
        0x10000 ^ (before.length + 1) * (0x10000 * z - 2) := by
  have hvalue := h.value_result_sub
  have hborrows : l.borrows = true := by
    refine h.first_borrows.2 l
      (List.find?_eq_some_iff_append.mpr ⟨hl, before, l' :: after, rfl, ?_⟩)
    intro x hx
    rw [hbefore x hx, Bool.not_false]
  -- The limbs before it owe nothing, so the debt begins at the limb after it.
  have hnone := Limb.value_borrows_eq_zero hbefore
  have hlength : (before ++ l :: l' :: after).length = before.length + 1 + (after.length + 1) := by
    simp only [List.length_append, List.length_cons]
    omega
  rw [Limb.value_append_cons (fun l => l.borrows.toNat), hnone, hborrows, Bool.toNat_true,
    hlength] at hvalue
  generalize ((machineAfter dev sink n m s).regs.flag .carry).toNat = c at hvalue
  refine ⟨c * 0x10000 ^ after.length - 2 * Limb.value (fun l => l.borrows.toNat) (l' :: after), ?_⟩
  push_cast at hvalue
  linear_combination -hvalue

/-- If the first limb with a lesser first operand is not the last one, the results are not the
difference, modulo the words that there are: twice a radix is no multiple of the next one. -/
theorem not_modEq_of_isLess {before after : List Limb} {l l' : Limb}
    (h : CarryChain dev sink m s .sub n (before ++ l :: l' :: after))
    (hbefore : ∀ x ∈ before, x.isLess = false) (hl : l.isLess = true) :
    ¬(Limb.value (fun l => l.result.toNat) (before ++ l :: l' :: after) : Int) ≡
      Limb.difference (before ++ l :: l' :: after)
        [ZMOD 0x10000 ^ (before ++ l :: l' :: after).length] := by
  intro hmod
  obtain ⟨z, hz⟩ := h.exists_difference_eq hbefore hl
  have hdvd := Int.modEq_iff_dvd.mp hmod
  rw [hz, add_sub_cancel_left] at hdvd
  have hpow : (0x10000 : Int) ^ (before.length + 1) * 0x10000 ∣
      0x10000 ^ (before ++ l :: l' :: after).length := by
    rw [← pow_succ]
    refine pow_dvd_pow _ ?_
    simp only [List.length_append, List.length_cons]
    omega
  have htwo := (mul_dvd_mul_iff_left (by positivity)).mp (hpow.trans hdvd)
  omega

/-- The result after the first limb with a lesser first operand is two more than the word of the
difference there, modulo the radix. -/
theorem result_modEq_add_two {before after : List Limb} {l l' : Limb}
    (h : CarryChain dev sink m s .sub n (before ++ l :: l' :: after))
    (hbefore : ∀ x ∈ before, x.isLess = false) (hl : l.isLess = true) :
    (l'.result.toNat : Int) ≡
      Limb.difference (before ++ l :: l' :: after) / 0x10000 ^ (before.length + 1) + 2
        [ZMOD 0x10000] := by
  obtain ⟨z, hz⟩ := h.exists_difference_eq hbefore hl
  have hlt := Limb.value_result_lt (before ++ [l])
  rw [List.length_append, List.length_singleton] at hlt
  rw [Limb.value_append_cons_cons] at hz
  have hdifference : Limb.difference (before ++ l :: l' :: after) =
      Limb.value (fun l => l.result.toNat) (before ++ [l]) + 0x10000 ^ (before.length + 1) *
        (l'.result.toNat - 2 +
          0x10000 * (z + Limb.value (fun l => l.result.toNat) after)) := by
    push_cast at hz
    linear_combination hz
  rw [hdifference, Int.add_mul_ediv_left _ _ (by positivity),
    Int.ediv_eq_zero_of_lt (Int.natCast_nonneg _) (by exact_mod_cast hlt)]
  exact Int.modEq_iff_dvd.mpr ⟨z + Limb.value (fun l => l.result.toNat) after, by ring⟩

end CarryChain

/-- **The range of validity of differences of several words.** After some steps that have subtracted
limb by limb, the results make up the difference of the operands, modulo the words that there are,
if and only if no limb but the last one has a first operand that is less than the second one. Behind
the first limb that has one, the next result is two more than the word of the difference there. The
program may do anything in between that leaves the flags alone.

**Proof sketch.** The results are off by twice the radix of each limb that has borrowed
(`CarryChain.value_result_sub`). A borrow of the last limb is beyond the words that there are. If
there is one before, then the first limb with a lesser first operand borrows
(`CarryChain.first_borrows`), the limbs before it do not, and twice its radix is no multiple of the
next radix, whatever the later limbs add. -/
theorem value_result_modEq_iff_of_carryChain (h : CarryChain dev sink m s .sub n limbs) :
    ((Limb.value (fun l => l.result.toNat) limbs : Int) ≡ Limb.difference limbs
        [ZMOD 0x10000 ^ limbs.length] ↔ ∀ l ∈ limbs.dropLast, ¬l.left < l.right) ∧
      ∀ before l l' after, limbs = before ++ l :: l' :: after →
        (∀ x ∈ before, ¬x.left < x.right) → l.left < l.right →
          (l'.result.toNat : Int) ≡ Limb.difference limbs / 0x10000 ^ (before.length + 1) + 2
            [ZMOD 0x10000] := by
  simp only [← Limb.isLess_iff, Bool.not_eq_true]
  refine ⟨⟨fun hmod => ?_, h.modEq_of_dropLast⟩, ?_⟩
  · by_contra hnot
    push Not at hnot
    obtain ⟨l₀, hmem, hl₀⟩ := hnot
    obtain ⟨before, l, l', after, rfl, hbefore, hl⟩ :=
      Limb.exists_first_isLess hmem (Bool.eq_true_of_not_eq_false hl₀)
    exact h.not_modEq_of_isLess hbefore hl hmod
  · rintro before l l' after rfl hbefore hl
    exact h.result_modEq_add_two hbefore hl

end Chain

/-- A machine that subtracts two words, saves the difference, and subtracts two more words with the
carry. -/
def Machine.subtractor : Machine :=
  { regs := { general := #v[0, 1, 0, 5, 2, 0, 0, 0] }
    memory := ⟨#[0x8502, 0xCFA0, 0x86B9]⟩ }

/-- The subtractor subtracts 0x20001 from 0x50000. The first limb borrows, and the second one has
the result 4 in place of 2. -/
theorem value_result_modEq_iff_of_carryChain_borrow :
    CarryChain Device.silent Sink.ignore .subtractor () .sub 3 [⟨0, 1, 0xFFFF⟩, ⟨5, 2, 4⟩] ∧
      ¬(Limb.value (fun l => l.result.toNat) [⟨0, 1, 0xFFFF⟩, ⟨5, 2, 4⟩] : Int) ≡
        Limb.difference [⟨0, 1, 0xFFFF⟩, ⟨5, 2, 4⟩] [ZMOD 0x10000 ^ 2] ∧
      (4 : Int) ≡ Limb.difference [⟨0, 1, 0xFFFF⟩, ⟨5, 2, 4⟩] / 0x10000 ^ 1 + 2 [ZMOD 0x10000] := by
  have hfirst : CarryChain Device.silent Sink.ignore .subtractor () .sub 1 [⟨0, 1, 0xFFFF⟩] :=
    .first (i := ⟨.sub, 0x8502⟩) rfl rfl rfl
  have hsaved : CarryChain Device.silent Sink.ignore .subtractor () .sub 2 [⟨0, 1, 0xFFFF⟩] := by
    refine hfirst.between fun i hi => ?_
    obtain rfl : ⟨.mov, 0xCFA0⟩ = i := Option.some.inj hi
    rfl
  have hchain : CarryChain Device.silent Sink.ignore .subtractor () .sub 3
      [⟨0, 1, 0xFFFF⟩, ⟨5, 2, 4⟩] := hsaved.next (i := ⟨.sub, 0x86B9⟩) rfl rfl rfl
  have hresult := value_result_modEq_iff_of_carryChain hchain
  refine ⟨hchain, fun hmod => ?_, ?_⟩
  · exact hresult.1.mp hmod ⟨0, 1, 0xFFFF⟩ (by decide) (by decide)
  · exact hresult.2 [] ⟨0, 1, 0xFFFF⟩ ⟨5, 2, 4⟩ [] rfl (by simp) (by decide)

end Cpu16
