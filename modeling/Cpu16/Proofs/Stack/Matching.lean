import Mathlib.Data.Nat.Count
import Mathlib.Tactic.Common
import Cpu16.Word

set_option relaxedAutoImplicit false
set_option autoImplicit false

/-!
# Pushes and the pops that match them

Seen from a stack, a program is a sequence of pushes and pops with other things in between. This
file follows such a sequence on a list: which values are pending after a number of operations, and
which push a pop belongs to. A machine plays no role here.

## Main definitions

* `Cpu16.StackOp` — a push of a value, a pop, or something else.
* `Cpu16.stackAfter` — the values that are pending, the most recent first.
* `Cpu16.pushCount`, `Cpu16.popCount`, `Cpu16.depth` — how many pushes and pops there were, and by
  how much they differ.
* `Cpu16.Matches` — a pop takes back the value of a push.

## Main results

* `Cpu16.length_stackAfter` — as many values are pending as the depth says, as long as the pops
  never outnumber the pushes.
* `Cpu16.exists_matches` — what a pop finds on top of the list is the value of the push that
  matches it, and by `Cpu16.Matches.unique` there is only one such push.
-/

namespace Cpu16

/-- What an operation does to a stack: it puts a value on top, takes the top value off, or leaves
the stack alone. -/
inductive StackOp
  /-- Put a value on top. -/
  | push (value : Word)
  /-- Take the top value off. -/
  | pop
  /-- Leave the stack alone. -/
  | keep
  deriving DecidableEq, Repr

namespace StackOp

/-- The list after an operation on it. -/
def apply : StackOp → List Word → List Word
  | push value, stack => value :: stack
  | pop, stack => stack.tail
  | keep, stack => stack

/-- Whether the operation pushes a word. -/
def isPush : StackOp → Bool
  | push _ => true
  | pop | keep => false

/-- Whether the operation pops a word. -/
def isPop : StackOp → Bool
  | pop => true
  | push _ | keep => false

end StackOp

variable (ops : Nat → StackOp)

/-- The values that are pending after `n` operations on an empty stack, the most recent first. -/
def stackAfter : Nat → List Word
  | 0 => []
  | n + 1 => (ops n).apply (stackAfter n)

/-- Number of pushes among the first `n` operations. -/
def pushCount (n : Nat) : Nat := n.count fun k => (ops k).isPush = true

/-- Number of pops among the first `n` operations. -/
def popCount (n : Nat) : Nat := n.count fun k => (ops k).isPop = true

/-- By how much the pushes outnumber the pops among the first `n` operations. -/
def depth (n : Nat) : Int := (pushCount ops n : Int) - popCount ops n

/-- Operation `k` is a pop and takes back the value that operation `j` has pushed: between the two
there are as many pops as pushes, and never more pops than pushes up to any point. -/
structure Matches (j k : Nat) (value : Word) : Prop where
  /-- The push comes first. -/
  lt : j < k
  /-- Operation `j` pushes the value. -/
  push : ops j = .push value
  /-- Operation `k` is a pop. -/
  pop : ops k = .pop
  /-- Between the two, the pushes and pops balance. -/
  balanced : depth ops k = depth ops (j + 1)
  /-- Up to any point between the two, there are no more pops than pushes. -/
  pending : ∀ l, j < l → l ≤ k → depth ops (j + 1) ≤ depth ops l

variable {ops}

/-- Nothing has been pushed at first. -/
@[simp]
theorem pushCount_zero : pushCount ops 0 = 0 := Nat.count_zero _

/-- Nothing has been popped at first. -/
@[simp]
theorem popCount_zero : popCount ops 0 = 0 := Nat.count_zero _

/-- One more operation is counted if it is a push. -/
theorem pushCount_succ (n : Nat) :
    pushCount ops (n + 1) = pushCount ops n + if (ops n).isPush then 1 else 0 :=
  Nat.count_succ _ n

/-- One more operation is counted if it is a pop. -/
theorem popCount_succ (n : Nat) :
    popCount ops (n + 1) = popCount ops n + if (ops n).isPop then 1 else 0 :=
  Nat.count_succ _ n

/-- How one more operation changes the depth. -/
theorem depth_succ (n : Nat) :
    depth ops (n + 1) = depth ops n +
      match ops n with
      | .push _ => 1
      | .pop => -1
      | .keep => 0 := by
  unfold depth
  rw [pushCount_succ, popCount_succ]
  cases ops n <;> simp [StackOp.isPush, StackOp.isPop] <;> omega

/-- **The depth is the number of pending values**, as long as the pops never outnumber the
pushes.

**Proof sketch.** Induction on the number of operations. A pop finds a value on the list, since
otherwise there would be more pops than pushes after it. -/
theorem length_stackAfter {n : Nat} (h : ∀ k ≤ n, popCount ops k ≤ pushCount ops k) :
    ∀ k ≤ n, ((stackAfter ops k).length : Int) = depth ops k := by
  intro k
  induction k with
  | zero => simp [stackAfter, depth]
  | succ k ih =>
    intro hk
    have hlen := ih (by omega)
    have hnext : 0 ≤ depth ops (k + 1) := by
      have := h (k + 1) hk
      unfold depth
      omega
    rw [depth_succ] at hnext ⊢
    cases hop : ops k with
    | push value => simp [stackAfter, hop, StackOp.apply, hlen]
    | pop =>
      rw [hop] at hnext
      simp only [stackAfter, hop, StackOp.apply, List.length_tail]
      simp only at hnext ⊢
      omega
    | keep => simp [stackAfter, hop, StackOp.apply, hlen]

/-- A pop after which the pops do not outnumber the pushes finds a value on the list. -/
theorem stackAfter_ne_nil {n k : Nat} (h : ∀ k ≤ n, popCount ops k ≤ pushCount ops k)
    (hk : k < n) (hop : ops k = .pop) : stackAfter ops k ≠ [] := by
  intro hnil
  have hlen := length_stackAfter h k (by omega)
  have hnext : 0 ≤ depth ops (k + 1) := by
    have := h (k + 1) hk
    unfold depth
    omega
  rw [depth_succ, hop, ← hlen, hnil] at hnext
  simp at hnext

/-- **Where a pending value comes from.** The value with `p` others above it was pushed by an
operation since when the depth has never been lower than just after it, and is higher by `p` now.

**Proof sketch.** Induction on the number of operations. A push puts its value on top and one more
above all others, and a pop takes one away from above the others. -/
theorem exists_push_of_getElem? {k p : Nat} {value : Word}
    (h : (stackAfter ops k)[p]? = some value) :
    ∃ j < k, ops j = .push value ∧ depth ops k = depth ops (j + 1) + p ∧
      ∀ l, j < l → l ≤ k → depth ops (j + 1) ≤ depth ops l := by
  induction k generalizing p with
  | zero => simp [stackAfter] at h
  | succ k ih =>
    -- A value that was pending before the operation stays so at the new depth.
    have hold : ∀ q : Nat, (stackAfter ops k)[q]? = some value →
        depth ops (k + 1) + q = depth ops k + p → ∃ j < k + 1, ops j = .push value ∧
          depth ops (k + 1) = depth ops (j + 1) + p ∧
          ∀ l, j < l → l ≤ k + 1 → depth ops (j + 1) ≤ depth ops l := by
      intro q hq hdepth
      obtain ⟨j, hj, hpush, hd, hmin⟩ := ih hq
      refine ⟨j, by omega, hpush, by omega, ?_⟩
      intro l hl hlk
      obtain hlk | rfl : l ≤ k ∨ l = k + 1 := by omega
      · exact hmin l hl hlk
      · omega
    have hsucc := @depth_succ ops k
    cases hop : ops k with
    | push top =>
      simp only [stackAfter, hop, StackOp.apply] at h hsucc
      rcases p with _ | p
      · obtain rfl : top = value := by simpa using h
        refine ⟨k, by omega, hop, by simp, ?_⟩
        intro l hl hlk
        obtain rfl : l = k + 1 := by omega
        exact le_rfl
      · refine hold p (by simpa using h) ?_
        push_cast
        omega
    | pop =>
      simp only [stackAfter, hop, StackOp.apply, List.getElem?_tail] at h hsucc
      refine hold (p + 1) h ?_
      push_cast
      omega
    | keep =>
      simp only [stackAfter, hop, StackOp.apply] at h hsucc
      exact hold p h (by omega)

/-- A pop matches no more than one push. -/
theorem Matches.unique {j j' k : Nat} {value value' : Word} (h : Matches ops j k value)
    (h' : Matches ops j' k value') : j = j' ∧ value = value' := by
  -- Just before the later one of two such pushes, fewer values would be pending than just after
  -- the earlier one.
  have hle : ∀ {j j' : Nat} {value value' : Word}, Matches ops j k value →
      Matches ops j' k value' → j' ≤ j := by
    intro j j' value value' h h'
    by_contra hlt
    have hmin := h.pending j' (by omega) h'.lt.le
    have hsucc := @depth_succ ops j'
    rw [h'.push] at hsucc
    have hd := h.balanced
    have hd' := h'.balanced
    simp only at hsucc
    omega
  obtain rfl : j = j' := by
    have := hle h h'
    have := hle h' h
    omega
  exact ⟨rfl, StackOp.push.inj (h.push.symm.trans h'.push)⟩

/-- **The top of the list is the value of the matching push.** -/
theorem exists_matches {k : Nat} {value : Word} {rest : List Word} (hop : ops k = .pop)
    (h : stackAfter ops k = value :: rest) : ∃ j, Matches ops j k value := by
  have htop : (stackAfter ops k)[0]? = some value := by simp [h]
  obtain ⟨j, hj, hpush, hd, hmin⟩ := exists_push_of_getElem? htop
  exact ⟨j, hj, hpush, hop, by simpa using hd, hmin⟩

end Cpu16
