import Mathlib.Algebra.GroupWithZero.Nat
import Mathlib.Data.List.Induction
import Cpu16.Step.Arithmetic

set_option relaxedAutoImplicit false
set_option autoImplicit false

/-!
# Shifts and rotations add up

A rotation moves every bit of a word to another place, and a shift moves the bits that stay in the
word and fills the others in. So what several of them do to a word, one after another, depends on
the sum of their amounts only, as long as they are all rotations, or all shifts in one direction
that fill with the same bit. The sum of the amounts of rotations counts modulo the 16 places of a
word; the sum of the amounts of shifts may be any number, and from 16 on nothing is left of the
word.

## Main definitions

* `Cpu16.turned` — a word turned by any number of places, in either direction.
* `Cpu16.Shift.left`, `Cpu16.Shift.right` — the shifts, by the bit that they fill with.
* `Cpu16.totalAmount`, `Cpu16.netTurn` — what the amounts of a list of instructions add up to.
* `Cpu16.shiftAll` — what the instructions make of a word.
* `Cpu16.ShiftLaw` — the law that one word is another one, shifted or rotated by the sum of the
  amounts.

## Main results

* `Cpu16.turned_turned` — turns add up.
* `Cpu16.Shift.getLsbD_apply_left`, `Cpu16.Shift.getLsbD_apply_right` — where the bits of a shifted
  word come from.
* `Cpu16.shiftLaw_shiftAll` — the law holds for lists of any length.
-/

namespace Cpu16

/-! ## Rotations -/

/-- The word turned by `k` places to the left, or by `-k` places to the right. After 16 places it is
as before. -/
def turned (v : Word) (k : Int) : Word :=
  v.rotateLeft (k % 16).toNat

/-- Each bit of a turned word comes from `k` places below, counted around the word. -/
theorem getLsbD_turned (v : Word) (k : Int) {j : Nat} (hj : j < 16) :
    (turned v k).getLsbD j = v.getLsbD ((j - k) % 16).toNat := by
  have hamount : (k % 16).toNat % 16 = (k % 16).toNat := by omega
  rw [turned, BitVec.getLsbD_rotateLeft, hamount]
  by_cases h : j < (k % 16).toNat
  · rw [decide_eq_true h, cond_true]
    congr 1
    omega
  · rw [decide_eq_false h, cond_false, decide_eq_true hj, Bool.true_and]
    congr 1
    omega

/-- A turn by no place changes nothing. -/
theorem turned_zero (v : Word) : turned v 0 = v := by
  apply BitVec.eq_of_getLsbD_eq
  intro j hj
  rw [getLsbD_turned _ _ hj]
  congr 1
  omega

/-- **Turns add up.** -/
theorem turned_turned (v : Word) (k l : Int) : turned (turned v k) l = turned v (k + l) := by
  apply BitVec.eq_of_getLsbD_eq
  intro j hj
  have hplace : ((j - l) % 16).toNat < 16 := by omega
  rw [getLsbD_turned _ _ hj, getLsbD_turned _ _ hplace, getLsbD_turned _ _ hj]
  congr 1
  omega

/-- A rotation to the left is a turn by its amount. -/
theorem rotateLeft_eq_turned (v : Word) (n : Nat) : v.rotateLeft n = turned v n := by
  have hamount : ((n : Int) % 16).toNat = n % 16 := by omega
  rw [turned, hamount, BitVec.rotateLeft_mod_eq_rotateLeft]

/-- A rotation to the right is a turn the other way. -/
theorem rotateRight_eq_turned (v : Word) (n : Nat) : v.rotateRight n = turned v (-n) := by
  apply BitVec.eq_of_getLsbD_eq
  intro j hj
  rw [getLsbD_turned _ _ hj, BitVec.getLsbD_rotateRight]
  by_cases h : j < 16 - n % 16
  · rw [decide_eq_true h, cond_true]
    congr 1
    omega
  · rw [decide_eq_false h, cond_false, decide_eq_true hj, Bool.true_and]
    congr 1
    omega

namespace Shift

/-- The places to the left that a rotation turns a word by. -/
def places : Shift → Nat → Int
  | rotateLeft, n => n
  | rotateRight, n => -n
  | leftZero, _ | leftOne, _ | rightZero, _ | rightOne, _ => 0

/-- A rotation is a turn. -/
theorem apply_of_rotation {mode : Shift} (h : mode = .rotateLeft ∨ mode = .rotateRight) (v : Word)
    (n : Nat) : mode.apply v n = turned v (mode.places n) := by
  rcases h with rfl | rfl
  · exact rotateLeft_eq_turned v n
  · exact rotateRight_eq_turned v n

/-! ## Shifts -/

/-- The shift to the left that fills with a given bit. -/
def left : Bool → Shift
  | false => leftZero
  | true => leftOne

/-- The shift to the right that fills with a given bit. -/
def right : Bool → Shift
  | false => rightZero
  | true => rightOne

/-- After a shift to the left, each bit comes from `n` places below, or is filled in. -/
theorem getLsbD_apply_left (fill : Bool) (v : Word) (n : Nat) {j : Nat} (hj : j < 16) :
    ((left fill).apply v n).getLsbD j = if n ≤ j then v.getLsbD (j - n) else fill := by
  by_cases h : n ≤ j
  · have hbelow : j - n < 16 := by omega
    cases fill <;> simp [left, apply, hj, hbelow, h, Nat.not_lt.mpr h]
  · cases fill <;> simp [left, apply, hj, h, Nat.lt_of_not_le h]

/-- After a shift to the right, each bit comes from `n` places above, or is filled in. -/
theorem getLsbD_apply_right (fill : Bool) (v : Word) (n : Nat) {j : Nat} (hj : j < 16) :
    ((right fill).apply v n).getLsbD j = if j + n < 16 then v.getLsbD (j + n) else fill := by
  by_cases h : j + n < 16
  · cases fill <;> simp [right, apply, hj, Nat.add_comm n j, h]
  · cases fill <;>
      simp [right, apply, hj, Nat.add_comm n j, h, BitVec.getLsbD_of_ge, Nat.le_of_not_lt h]

end Shift

/-! ## Lists of shifts and rotations -/

/-- The sum of the amounts of a list of instructions. -/
def totalAmount (is : List Instruction) : Nat :=
  (is.map fun i => i.shiftAmount.toNat).sum

/-- The amounts of the rotations to the left in a list, less those of the rotations to the right. -/
def netTurn (is : List Instruction) : Int :=
  (totalAmount (is.filter (·.shift = .rotateLeft)) : Int) -
    totalAmount (is.filter (·.shift = .rotateRight))

/-- What a list of shifts and rotations makes of a word, one after another. -/
def shiftAll (is : List Instruction) (v : Word) : Word :=
  is.foldl (fun w i => i.shift.apply w i.shiftAmount.toNat) v

/-- The word `w` is what the shifts and rotations of a list make of the word `v`, by the sum of
their amounts. -/
structure ShiftLaw (is : List Instruction) (v w : Word) : Prop where
  /-- Rotations turn the word by what is left of the amounts to the left after those to the
  right. -/
  rotated : (∀ i ∈ is, i.shift = .rotateLeft ∨ i.shift = .rotateRight) →
    w = v.rotateLeft (netTurn is % 16).toNat
  /-- After shifts to the left, each bit comes from as many places below as the amounts add up to,
  where there is such a bit, and is the one that is filled in where there is not. -/
  shiftedLeft : ∀ fill, (∀ i ∈ is, i.shift = .left fill) → ∀ j < 16,
    w.getLsbD j = if totalAmount is ≤ j then v.getLsbD (j - totalAmount is) else fill
  /-- After shifts to the right, each bit comes from as many places above. -/
  shiftedRight : ∀ fill, (∀ i ∈ is, i.shift = .right fill) → ∀ j < 16,
    w.getLsbD j = if j + totalAmount is < 16 then v.getLsbD (j + totalAmount is) else fill
  /-- From a sum of 16 on, there are only bits that have been filled in. -/
  filled : ∀ fill, (∀ i ∈ is, i.shift = .left fill) ∨ (∀ i ∈ is, i.shift = .right fill) →
    16 ≤ totalAmount is → w = BitVec.fill 16 fill

section Lists

variable {is : List Instruction} {i : Instruction} {v : Word}

/-- The amount of one more instruction is added. -/
theorem totalAmount_concat (is : List Instruction) (i : Instruction) :
    totalAmount (is ++ [i]) = totalAmount is + i.shiftAmount.toNat := by
  simp [totalAmount]

/-- One more instruction. -/
theorem shiftAll_concat (is : List Instruction) (i : Instruction) (v : Word) :
    shiftAll (is ++ [i]) v = i.shift.apply (shiftAll is v) i.shiftAmount.toNat := by
  simp [shiftAll]

/-- One more rotation adds its places to the turn of the others. -/
theorem netTurn_concat (is : List Instruction)
    (h : i.shift = .rotateLeft ∨ i.shift = .rotateRight) :
    netTurn (is ++ [i]) = netTurn is + i.shift.places i.shiftAmount.toNat := by
  unfold netTurn
  rcases h with h | h
  · have hleft : (is ++ [i]).filter (·.shift = .rotateLeft) =
        is.filter (·.shift = .rotateLeft) ++ [i] := by simp [h]
    have hright : (is ++ [i]).filter (·.shift = .rotateRight) =
        is.filter (·.shift = .rotateRight) := by simp [h]
    rw [hleft, hright, totalAmount_concat, h, Shift.places]
    omega
  · have hleft : (is ++ [i]).filter (·.shift = .rotateLeft) =
        is.filter (·.shift = .rotateLeft) := by simp [h]
    have hright : (is ++ [i]).filter (·.shift = .rotateRight) =
        is.filter (·.shift = .rotateRight) ++ [i] := by simp [h]
    rw [hleft, hright, totalAmount_concat, h, Shift.places]
    omega

/-- A list of rotations turns the word. -/
theorem shiftAll_of_rotations (h : ∀ i ∈ is, i.shift = .rotateLeft ∨ i.shift = .rotateRight) :
    shiftAll is v = turned v (netTurn is) := by
  induction is using List.reverseRecOn with
  | nil => exact (turned_zero v).symm
  | append_singleton is i ih =>
    simp only [List.forall_mem_append, List.forall_mem_singleton] at h
    obtain ⟨his, hi⟩ := h
    rw [shiftAll_concat, Shift.apply_of_rotation hi, ih his, turned_turned, netTurn_concat is hi]

/-- A list of shifts to the left, bit by bit. -/
theorem getLsbD_shiftAll_left {fill : Bool} (h : ∀ i ∈ is, i.shift = .left fill) {j : Nat}
    (hj : j < 16) :
    (shiftAll is v).getLsbD j =
      if totalAmount is ≤ j then v.getLsbD (j - totalAmount is) else fill := by
  induction is using List.reverseRecOn generalizing j with
  | nil => rfl
  | append_singleton is i ih =>
    simp only [List.forall_mem_append, List.forall_mem_singleton] at h
    obtain ⟨his, hi⟩ := h
    rw [shiftAll_concat, totalAmount_concat, hi, Shift.getLsbD_apply_left fill _ _ hj]
    by_cases hamount : i.shiftAmount.toNat ≤ j
    · rw [if_pos hamount, ih his (by omega), Nat.sub_sub, Nat.add_comm i.shiftAmount.toNat]
      exact if_congr (by omega) rfl rfl
    · rw [if_neg hamount, if_neg (by omega)]

/-- A list of shifts to the right, bit by bit. -/
theorem getLsbD_shiftAll_right {fill : Bool} (h : ∀ i ∈ is, i.shift = .right fill) {j : Nat}
    (hj : j < 16) :
    (shiftAll is v).getLsbD j =
      if j + totalAmount is < 16 then v.getLsbD (j + totalAmount is) else fill := by
  induction is using List.reverseRecOn generalizing j with
  | nil => exact (if_pos hj).symm
  | append_singleton is i ih =>
    simp only [List.forall_mem_append, List.forall_mem_singleton] at h
    obtain ⟨his, hi⟩ := h
    rw [shiftAll_concat, totalAmount_concat, hi, Shift.getLsbD_apply_right fill _ _ hj]
    by_cases hamount : j + i.shiftAmount.toNat < 16
    · rw [if_pos hamount, ih his hamount, Nat.add_assoc, Nat.add_comm i.shiftAmount.toNat]
    · rw [if_neg hamount, if_neg (by omega)]

/-- **Shifts and rotations add up**, for lists of any length and sums of any size. -/
theorem shiftLaw_shiftAll (is : List Instruction) (v : Word) : ShiftLaw is v (shiftAll is v) where
  rotated h := shiftAll_of_rotations h
  shiftedLeft fill h j hj := getLsbD_shiftAll_left h hj
  shiftedRight fill h j hj := getLsbD_shiftAll_right h hj
  filled fill h htotal := by
    apply BitVec.eq_of_getLsbD_eq
    intro j hj
    rw [BitVec.getLsbD_fill, decide_eq_true hj, Bool.and_true]
    rcases h with h | h
    · rw [getLsbD_shiftAll_left h hj, if_neg (by omega)]
    · rw [getLsbD_shiftAll_right h hj, if_neg (by omega)]

end Lists

end Cpu16
