import Mathlib.Logic.Function.Iterate
import Cpu16.Isa.Flags

set_option relaxedAutoImplicit false
set_option autoImplicit false

/-!
# How changes of the flag register compose

A change of chosen bits has a word of bits to set and a word of bits to clear. The two may overlap,
and a bit in both of them is set. A clearing that is added to the change later has to win all the
same: its bits are clear in the end, even those that the change sets. It does so because it edits
both words, and this is why clearings add up, in any order.

The changes of arithmetic and of the comparison leave nothing to such priorities. Each of them owns
three bits, and every bit that it owns is either set or cleared. So the later of two changes that
own the same bits makes the earlier one forgotten, and two changes that own different bits do not
disturb each other.

## Main definitions

* `Cpu16.unionOf` — the bits of some words together.
* `Cpu16.FlagChange.Owns` — every bit of a mask is either set or cleared by the change, and no other
  one is.
* `Cpu16.FlagChange.ClearingLaw` — what some clearings make of a change.
* `Cpu16.FlagChange.OwnershipLaw` — what a change does to the bits that it owns, and to all others.

## Main results

* `Cpu16.FlagChange.foldl_clearing` — some clearings are one clearing of all their bits.
* `Cpu16.FlagChange.Owns.getLsbD_apply` — a change by the bits that it owns.
* `Cpu16.FlagChange.Owns.apply_apply`, `Cpu16.FlagChange.Owns.apply_comm` — two changes that own the
  same bits, or different ones.
* `Cpu16.FlagChange.changes_compose` — clearings, arithmetic and the comparison together.

## Implementation notes

A change is staged on words of 16 bits, of which the flag register keeps seven. So the laws are
about all the bits of a word, and not about the flags one by one, as in
`Cpu16.Registers.flag_commit`: they hold of the bits without a meaning as well.
-/

namespace Cpu16

/-- The bits of some words together. -/
def unionOf (words : List Word) : Word :=
  words.foldr (· ||| ·) 0

namespace FlagChange

/-! ## Clearings -/

/-- To clear no bit changes nothing. -/
theorem clearing_zero (c : FlagChange) : c.clearing 0 = c := by
  cases c with
  | keep | assign value => rfl
  | modify set clear =>
    show modify (set &&& ~~~0#16) (clear ||| 0#16) = modify set clear
    rw [BitVec.not_zero, BitVec.and_allOnes, BitVec.or_zero]

/-- Two clearings are one clearing of the bits of both. -/
theorem clearing_clearing (c : FlagChange) (a b : Word) :
    (c.clearing a).clearing b = c.clearing (a ||| b) := by
  cases c with
  | keep | assign value => rfl
  | modify set clear =>
    simp only [clearing]
    rw [BitVec.not_or, BitVec.and_assoc, BitVec.or_assoc]

/-- **A clearing wins over the bits that the change sets**, whether or not the change clears them as
well. -/
theorem apply_clearing (set clear bits flags : Word) :
    ((modify set clear).clearing bits).apply flags =
      (modify set clear).apply flags &&& ~~~bits := by
  calc (flags &&& ~~~(clear ||| bits)) ||| (set &&& ~~~bits)
      = ((flags &&& ~~~clear) &&& ~~~bits) ||| (set &&& ~~~bits) := by
        rw [BitVec.not_or, BitVec.and_assoc]
    _ = ((flags &&& ~~~clear) ||| set) &&& ~~~bits := BitVec.and_or_distrib_right.symm

/-- **Some clearings are one clearing** of all their bits. -/
theorem foldl_clearing (c : FlagChange) (bits : List Word) :
    bits.foldl clearing c = c.clearing (unionOf bits) := by
  induction bits generalizing c with
  | nil => exact c.clearing_zero.symm
  | cons b bits ih => exact (ih (c.clearing b)).trans (c.clearing_clearing b (unionOf bits))

/-- The order of some clearings does not matter. -/
theorem foldl_clearing_perm {bits bits' : List Word} (h : bits.Perm bits') (c : FlagChange) :
    bits.foldl clearing c = bits'.foldl clearing c := by
  refine h.foldl_eq' (fun a _ b _ c => ?_) c
  rw [clearing_clearing, clearing_clearing, BitVec.or_comm]

/-- What some clearings, one after another, make of a change. -/
structure ClearingLaw (bits : List Word) : Prop where
  /-- A change of chosen bits happens first, and then all the bits are cleared. -/
  apply_modify : ∀ set clear flags, (bits.foldl clearing (modify set clear)).apply flags =
    (modify set clear).apply flags &&& ~~~unionOf bits
  /-- The other changes stay what they are. -/
  foldl_keep : bits.foldl clearing keep = keep
  /-- An assignment keeps its value. -/
  foldl_assign : ∀ value, bits.foldl clearing (assign value) = assign value

/-- **The law of clearings** holds for any number of them. -/
theorem clearingLaw (bits : List Word) : ClearingLaw bits where
  apply_modify set clear flags := by
    rw [foldl_clearing, apply_clearing]
  foldl_keep := foldl_clearing keep bits
  foldl_assign value := foldl_clearing (assign value) bits

/-! ## Changes that own bits -/

/-- The change owns the bits of a mask: it sets some of them, clears all the others, and names no
bit twice and no bit outside of the mask. -/
def Owns (c : FlagChange) (owned : Word) : Prop :=
  ∃ set clear, c = modify set clear ∧ set &&& clear = 0 ∧ set ||| clear = owned

/-- To set some bits of a mask and clear its other bits is to own the mask. -/
theorem owns_owning {owned set : Word} (h : set &&& owned = set) :
    (owning owned set).Owns owned := by
  refine ⟨set, owned &&& ~~~set, rfl, ?_, ?_⟩
  · rw [← BitVec.and_assoc, h, BitVec.and_not_self]
  · calc set ||| (owned &&& ~~~set)
        = (owned &&& set) ||| (owned &&& ~~~set) := by rw [BitVec.and_comm owned set, h]
      _ = owned &&& (set ||| ~~~set) := BitVec.and_or_distrib_left.symm
      _ = owned := by rw [BitVec.or_not_self, BitVec.and_allOnes]

/-- The change of an arithmetic result owns the arithmetic flags. -/
theorem owns_arithmetic (r : BitVec 32) :
    (arithmetic r).Owns (unionOf [Flag.zero.mask, Flag.carry.mask, Flag.negative.mask]) := by
  have hmask : arithmeticMask = unionOf [Flag.zero.mask, Flag.carry.mask, Flag.negative.mask] := rfl
  rw [← hmask, arithmetic]
  apply owns_owning
  -- Each of the three flags belongs to the mask, so it does not matter which of them are set.
  split <;> split <;> split <;> rfl

/-- The change of a comparison owns the comparison flags. -/
theorem owns_compare (o : Ordering) :
    (compare o).Owns (unionOf [Flag.equal.mask, Flag.greater.mask, Flag.lesser.mask]) := by
  have hmask : comparisonMask = unionOf [Flag.equal.mask, Flag.greater.mask, Flag.lesser.mask] :=
    rfl
  rw [← hmask, compare]
  apply owns_owning
  cases o <;> rfl

namespace Owns

variable {c d : FlagChange} {owned owned' : Word}

/-- **A change by the bits that it owns.** Each of them gets a value that depends on the change
only, and every other bit keeps its own. -/
theorem getLsbD_apply (h : c.Owns owned) :
    ∃ value : Word, ∀ (flags : Word) (i : Nat), i < 16 → (c.apply flags).getLsbD i =
      if owned.getLsbD i then value.getLsbD i else flags.getLsbD i := by
  obtain ⟨set, clear, rfl, -, rfl⟩ := h
  refine ⟨set, fun flags i hi => ?_⟩
  simp only [apply, BitVec.getLsbD_or, BitVec.getLsbD_and, BitVec.getLsbD_not, hi, decide_true,
    Bool.true_and]
  cases set.getLsbD i with
  | true => simp
  | false => cases clear.getLsbD i <;> simp

/-- The bits that a change owns do not depend on what they were. -/
theorem apply_and_owned (h : c.Owns owned) (flags flags' : Word) :
    c.apply flags &&& owned = c.apply flags' &&& owned := by
  obtain ⟨value, hbit⟩ := h.getLsbD_apply
  apply BitVec.eq_of_getLsbD_eq
  intro i hi
  rw [BitVec.getLsbD_and, BitVec.getLsbD_and, hbit flags i hi, hbit flags' i hi]
  cases owned.getLsbD i <;> simp

/-- The bits that a change does not own stay as they were. -/
theorem apply_and_not_owned (h : c.Owns owned) (flags : Word) :
    c.apply flags &&& ~~~owned = flags &&& ~~~owned := by
  obtain ⟨value, hbit⟩ := h.getLsbD_apply
  apply BitVec.eq_of_getLsbD_eq
  intro i hi
  rw [BitVec.getLsbD_and, BitVec.getLsbD_and, BitVec.getLsbD_not, hbit flags i hi]
  cases owned.getLsbD i <;> simp

/-- **The later of two changes that own the same bits wins**, as if the earlier one had not
happened. -/
theorem apply_apply (hc : c.Owns owned) (hd : d.Owns owned) (flags : Word) :
    c.apply (d.apply flags) = c.apply flags := by
  obtain ⟨value, hbit⟩ := hc.getLsbD_apply
  obtain ⟨value', hbit'⟩ := hd.getLsbD_apply
  apply BitVec.eq_of_getLsbD_eq
  intro i hi
  rw [hbit _ i hi, hbit _ i hi, hbit' _ i hi]
  cases owned.getLsbD i <;> simp

/-- **Changes that own different bits commute.** -/
theorem apply_comm (hc : c.Owns owned) (hd : d.Owns owned') (h : owned &&& owned' = 0)
    (flags : Word) : c.apply (d.apply flags) = d.apply (c.apply flags) := by
  obtain ⟨value, hbit⟩ := hc.getLsbD_apply
  obtain ⟨value', hbit'⟩ := hd.getLsbD_apply
  apply BitVec.eq_of_getLsbD_eq
  intro i hi
  rw [hbit _ i hi, hbit' _ i hi, hbit' _ i hi, hbit _ i hi]
  -- Only a bit that both changes own could tell which of them came last.
  have hone : (owned.getLsbD i && owned'.getLsbD i) = false := by
    rw [← BitVec.getLsbD_and, h]
    exact BitVec.getLsbD_zero
  cases ho : owned.getLsbD i with
  | false => simp
  | true =>
    have ho' : owned'.getLsbD i = false := by simpa [ho] using hone
    simp [ho']

/-- A change that is applied any number of times has the effect of the first time. -/
theorem iterate_apply (h : c.Owns owned) (n : Nat) (flags : Word) :
    c.apply^[n + 1] flags = c.apply flags := by
  rw [Function.iterate_succ_apply]
  exact Function.iterate_fixed (h.apply_apply h flags) n

end Owns

/-- What a change does to the bits that it owns, and to all others. -/
structure OwnershipLaw (c : FlagChange) (owned : Word) : Prop where
  /-- The bits that the change sets and those that it clears are disjoint, and together they are the
  bits that it owns. -/
  owns : c.Owns owned
  /-- What becomes of the bits that the change owns does not depend on what they were. -/
  fixes : ∀ flags flags', c.apply flags &&& owned = c.apply flags' &&& owned
  /-- All other bits stay as they were. -/
  keeps : ∀ flags, c.apply flags &&& ~~~owned = flags &&& ~~~owned
  /-- To apply the change again, any number of times, changes nothing more. -/
  again : ∀ n flags, c.apply^[n + 1] flags = c.apply flags

/-- **The law of ownership** follows from what the two words of the change are. -/
theorem Owns.ownershipLaw {c : FlagChange} {owned : Word} (h : c.Owns owned) :
    OwnershipLaw c owned where
  owns := h
  fixes := h.apply_and_owned
  keeps := h.apply_and_not_owned
  again := h.iterate_apply

/-- **The algebra of flag changes.** Some clearings that are added to a change of chosen bits are
the same in any order, and as good as to apply the change first and to clear all their bits then;
the other changes they leave alone. The change of an arithmetic result owns the zero, carry and
negative flags and the change of a comparison the equal, greater and lesser flags: they set some of
these and clear the others, whatever the flags were, keep all other bits, and have no further effect
when they are applied again. In which order the two changes are applied does not matter. -/
theorem changes_compose {bits bits' : List Word} (hperm : bits.Perm bits') (r : BitVec 32)
    (o : Ordering) :
    ClearingLaw bits ∧ (∀ c, bits.foldl clearing c = bits'.foldl clearing c) ∧
      OwnershipLaw (arithmetic r) (unionOf [Flag.zero.mask, Flag.carry.mask, Flag.negative.mask]) ∧
      OwnershipLaw (compare o) (unionOf [Flag.equal.mask, Flag.greater.mask, Flag.lesser.mask]) ∧
      ∀ flags, (arithmetic r).apply ((compare o).apply flags) =
        (compare o).apply ((arithmetic r).apply flags) := by
  have harithmetic := owns_arithmetic r
  have hcompare := owns_compare o
  refine ⟨clearingLaw bits, foldl_clearing_perm hperm, harithmetic.ownershipLaw,
    hcompare.ownershipLaw, ?_⟩
  exact harithmetic.apply_comm hcompare rfl

/-- The change has the zero flag in both of its words. Alone it would set the flag, but after the
two clearings, in the other order, neither the zero flag nor the record of a division by zero is
left. -/
theorem changes_compose_overlap :
    List.Perm [Flag.zero.mask, Flag.divideByZero.mask] [Flag.divideByZero.mask, Flag.zero.mask] ∧
      ([Flag.divideByZero.mask, Flag.zero.mask].foldl clearing (modify 0x03 0x06)).apply 0x7F =
        0x39 ∧
      (compare .lt).apply ((arithmetic 0x18000).apply 0x03) = 0x34 := by
  have hperm : List.Perm [Flag.zero.mask, Flag.divideByZero.mask]
      [Flag.divideByZero.mask, Flag.zero.mask] := .swap _ _ _
  obtain ⟨hclearing, horder, -, -, hcomm⟩ := changes_compose hperm 0x18000 .lt
  refine ⟨hperm, ?_, ?_⟩
  · rw [← horder, hclearing.apply_modify]
    decide
  · rw [← hcomm]
    decide

end FlagChange

end Cpu16
