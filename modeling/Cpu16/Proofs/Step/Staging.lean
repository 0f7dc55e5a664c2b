import Cpu16.Proofs.Machine.AddressSpace
import Cpu16.Step.Execution

set_option relaxedAutoImplicit false
set_option autoImplicit false

/-!
# What an operation stages

Staging an operation interleaves its checks with the reading of its operands. Once all the
checks have passed, what is staged is a plain function of the machine and of the reply of the
device. Statements about steps that succeed are statements about this function.

## Main definitions

* `Cpu16.Operation.effects` — the effects of an operation whose checks pass.

## Main results

* `Cpu16.Operation.eq_effects_of_stage` — an operation that stages anything stages its effects.
* `Cpu16.execute_eq_ok_iff` — when the execution of an operation succeeds.
-/

universe u

namespace Cpu16

/-! ## Computations that may fault -/

/-- A composed computation succeeds exactly if its first part does and the rest does with it. -/
theorem bind_eq_ok_iff {α β : Type u} {x : Except Fault α} {g : α → Except Fault β} {b : β} :
    (x >>= g) = .ok b ↔ ∃ a, x = .ok a ∧ g a = .ok b := by
  cases x <;> simp [bind, Except.bind]

/-! ## The effects of an operation -/

/-- An address that may be loaded from or stored to is below the reserved one. -/
theorem Access.lt_lastAddress_of_check {a : Word} {u : Unit} (h : Access.data.check a = .ok u) :
    a < lastAddress := by
  simpa [Access.allows] using Access.check_eq_ok_iff.mp h

namespace Machine

/-- The operand word, where it can be read, is the word after the instruction word. -/
theorem eq_word_of_operand {m : Machine} {w : Word} (h : m.operand = .ok w) :
    w = m.memory.word (m.regs.pc + 1) := by
  obtain ⟨-, -, hw⟩ := bind_eq_ok_iff.mp h
  exact (Memory.word_eq_of_get? (Memory.read_eq_ok_iff.mp hw)).symm

/-- The operand word as an address, where it can be used, is the word after the instruction
word. -/
theorem eq_word_of_operandAddress {m : Machine} {w : Word} (h : m.operandAddress = .ok w) :
    w = m.memory.word (m.regs.pc + 1) := by
  obtain ⟨a, ha, h⟩ := bind_eq_ok_iff.mp h
  obtain ⟨-, -, h⟩ := bind_eq_ok_iff.mp h
  obtain rfl : a = w := by simpa [pure, Except.pure] using h
  exact eq_word_of_operand ha

/-- An operand that is used as an address is below the reserved one. -/
theorem lt_lastAddress_of_operandAddress {m : Machine} {a : Word}
    (h : m.operandAddress = .ok a) : a < lastAddress := by
  obtain ⟨b, -, h⟩ := bind_eq_ok_iff.mp h
  obtain ⟨_, hcheck, h⟩ := bind_eq_ok_iff.mp h
  obtain rfl := Except.ok.inj h
  exact Access.lt_lastAddress_of_check hcheck

end Machine

namespace Operation

/-- The effects of an operation whose checks all pass. -/
def effects (m : Machine) (reply : Word) (op : Operation) : Effects :=
  let regs := m.regs
  let next := Effects.fallThrough regs.pc op.size
  let operand := m.memory.word (regs.pc + 1)
  let top := m.memory.word (regs.sp + 1)
  let pushed (value : Word) (e : Effects) : Effects :=
    { e with write := some (regs.sp, value), sp := some (regs.sp - 1) }
  match op with
  | nop | invalidBranch _ | output _ _ => next
  | halt => { next with nextPc := regs.pc, stop := some .halt }
  | breakpoint => { next with stop := some .breakpoint }
  | setCarry => { next with flags := .modify Flag.carry.mask 0 }
  | clearCarry => { next with flags := .modify 0 Flag.carry.mask }
  | binary f addsCarry rd rs1 rs2 => regs.stageBinary f addsCarry rd rs1 rs2 next
  | complement rd rs => { next with dest := some (rd, ~~~regs.get rs) }
  | increment rd => Registers.stageCount rd (widen (regs.get rd) + 1) next
  | decrement rd => Registers.stageCount rd (widen (regs.get rd) - 1) next
  | shift mode rd amount =>
    { next with dest := some (rd, mode.apply (regs.get rd) amount.toNat) }
  | move rd rs => { next with dest := some (rd, regs.get rs) }
  | moveFromStackPointer rd => { next with dest := some (rd, regs.sp) }
  | moveToStackPointer rs => { next with sp := some (regs.get rs) }
  | compare left right =>
    { next with flags := .compare (ordering (regs.get left) (regs.get right)) }
  | jump condition =>
    if condition.holds regs.flagWord then { next with nextPc := operand } else next
  | call condition =>
    if condition.holds regs.flagWord then pushed next.nextPc { next with nextPc := operand }
    else next
  | ret => { next with nextPc := top, sp := some (regs.sp + 1) }
  | push rs => pushed (regs.get rs) next
  | pushFlags => pushed regs.flagWord next
  | pop rd => { next with dest := some (rd, top), sp := some (regs.sp + 1) }
  | popFlags =>
    { next with flags := .assign (top &&& Flags.activeMask), sp := some (regs.sp + 1) }
  | loadImmediate rd => { next with dest := some (rd, operand) }
  | load rd => { next with dest := some (rd, m.memory.word operand) }
  | store rs => { next with write := some (operand, regs.get rs) }
  | loadIndirect rd ra => { next with dest := some (rd, m.memory.word (regs.get ra)) }
  | storeIndirect ra rs => { next with write := some (regs.get ra, regs.get rs) }
  | input rd => { next with dest := some (rd, reply) }

/-- A push that stages anything stages the value at the stack pointer, and moves it down. -/
theorem eq_of_stagePush {regs : Registers} {value : Word} {e e' : Effects}
    (h : regs.stagePush value e = .ok e') :
    e' = { e with write := some (regs.sp, value), sp := some (regs.sp - 1) } := by
  obtain ⟨-, -, h⟩ := bind_eq_ok_iff.mp h
  exact (Except.ok.inj h).symm

/-- **What is staged.** If the checks of an operation pass, it stages its effects.

**Proof sketch.** By cases on the operation. One without checks stages its effects outright. In
one with checks, each part of the computation has succeeded (`bind_eq_ok_iff`), and whatever was
read is the word at the address that was read. -/
theorem eq_effects_of_stage {op : Operation} {m : Machine} {reply : Word} {e : Effects}
    (h : op.stage m reply = .ok e) : e = op.effects m reply := by
  cases op with
  | jump condition =>
    obtain ⟨target, ht, h⟩ := bind_eq_ok_iff.mp h
    obtain rfl := Machine.eq_word_of_operand ht
    exact (Except.ok.inj h).symm
  | call condition =>
    obtain ⟨target, ht, h⟩ := bind_eq_ok_iff.mp h
    obtain rfl := Machine.eq_word_of_operand ht
    simp only [effects]
    split at h
    · rename_i hc
      rw [if_pos hc, eq_of_stagePush h]
    · rename_i hc
      rw [if_neg hc]
      exact (Except.ok.inj h).symm
  | invalidBranch code => exact absurd h (by simp [stage])
  | ret =>
    obtain ⟨-, -, h⟩ := bind_eq_ok_iff.mp h
    obtain ⟨target, ht, h⟩ := bind_eq_ok_iff.mp h
    obtain rfl := Memory.word_eq_of_get? (Memory.read_eq_ok_iff.mp ht)
    exact (Except.ok.inj h).symm
  | push rs => exact eq_of_stagePush h
  | pushFlags => exact eq_of_stagePush h
  | pop rd =>
    obtain ⟨-, -, h⟩ := bind_eq_ok_iff.mp h
    obtain ⟨value, hv, h⟩ := bind_eq_ok_iff.mp h
    obtain rfl := Memory.word_eq_of_get? (Memory.read_eq_ok_iff.mp hv)
    exact (Except.ok.inj h).symm
  | popFlags =>
    obtain ⟨-, -, h⟩ := bind_eq_ok_iff.mp h
    obtain ⟨value, hv, h⟩ := bind_eq_ok_iff.mp h
    obtain rfl := Memory.word_eq_of_get? (Memory.read_eq_ok_iff.mp hv)
    exact (Except.ok.inj h).symm
  | loadImmediate rd =>
    obtain ⟨value, hv, h⟩ := bind_eq_ok_iff.mp h
    obtain rfl := Machine.eq_word_of_operand hv
    exact (Except.ok.inj h).symm
  | load rd =>
    obtain ⟨a, ha, h⟩ := bind_eq_ok_iff.mp h
    obtain rfl := Machine.eq_word_of_operandAddress ha
    obtain ⟨value, hv, h⟩ := bind_eq_ok_iff.mp h
    obtain rfl := Memory.word_eq_of_get? (Memory.read_eq_ok_iff.mp hv)
    exact (Except.ok.inj h).symm
  | store rs =>
    obtain ⟨a, ha, h⟩ := bind_eq_ok_iff.mp h
    obtain rfl := Machine.eq_word_of_operandAddress ha
    exact (Except.ok.inj h).symm
  | loadIndirect rd ra =>
    obtain ⟨-, -, h⟩ := bind_eq_ok_iff.mp h
    obtain ⟨value, hv, h⟩ := bind_eq_ok_iff.mp h
    obtain rfl := Memory.word_eq_of_get? (Memory.read_eq_ok_iff.mp hv)
    exact (Except.ok.inj h).symm
  | storeIndirect ra rs =>
    obtain ⟨-, -, h⟩ := bind_eq_ok_iff.mp h
    exact (Except.ok.inj h).symm
  | _ => exact (Except.ok.inj h).symm

end Operation

/-! ## Executing an operation -/

section Execute

variable {σ : Type u} {dev : Device σ} {op : Operation} {m : Machine} {s s₁ : σ}

/-- An operation succeeds exactly if the device replies, the checks of the operation pass and the
staged registers pass the last check. -/
theorem execute_eq_ok_iff {e : Effects} :
    execute dev op m s = (.ok e, s₁) ↔
      ∃ reply, dev.perform (op.exchange m.regs) s = (.ok reply, s₁) ∧
        op.stage m reply = .ok e ∧ e.checked = .ok e := by
  unfold execute
  rcases dev.perform (op.exchange m.regs) s with ⟨r, s₂⟩
  cases r with
  | error f => simp
  | ok reply =>
    simp only [Prod.mk.injEq, bind_eq_ok_iff, Except.ok.injEq]
    constructor
    · rintro ⟨⟨e', hs, hc⟩, rfl⟩
      obtain rfl := (Effects.checked_eq_ok_iff.mp hc).1
      exact ⟨reply, ⟨rfl, rfl⟩, hs, hc⟩
    · rintro ⟨_, ⟨rfl, rfl⟩, hs, hc⟩
      exact ⟨⟨e, hs, hc⟩, rfl⟩

end Execute

end Cpu16
