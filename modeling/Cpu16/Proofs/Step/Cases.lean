import Cpu16.Step.Basic

set_option relaxedAutoImplicit false
set_option autoImplicit false

/-!
# The three ways of a step

A step goes one of three ways: nothing can be fetched, or the fetched instruction fails, or it
succeeds. For each way there is one equation that says what becomes of the machine and of the
world, and what is reported. Everything else about a step is derived from these equations.

## Main results

* `Cpu16.Machine.fetch_eq_ok_iff`, `Cpu16.Machine.fetch_eq_error_iff` — what a fetch answers.
* `Cpu16.step_of_refused`, `Cpu16.step_of_failed`, `Cpu16.step_of_succeeded` — the three ways.
* `Cpu16.step_eq_faulted`, `Cpu16.step_eq_of_not_faulted` — which ways lead to a fault.
-/

universe u

namespace Cpu16

/-! ## Fetching -/

namespace Machine

/-- An instruction is fetched exactly if the program counter may be fetched from, lies in memory
and addresses a word whose operation is the one of the instruction. -/
theorem fetch_eq_ok_iff {m : Machine} {i : Instruction} :
    m.fetch = .ok i ↔ m.regs.pc < lastAddress ∧ m.memory.get? m.regs.pc = some i.word ∧
      Opcode.ofWord? i.word = some i.opcode := by
  unfold fetch Access.check
  cases ha : Access.fetch.allows m.regs.pc with
  | false =>
    have hpc : ¬m.regs.pc < lastAddress := by simpa [Access.allows] using ha
    simp [bind, Except.bind, hpc]
  | true =>
    have hpc : m.regs.pc < lastAddress := by simpa [Access.allows] using ha
    cases hw : m.memory.get? m.regs.pc with
    | none => simp [bind, Except.bind, throw, throwThe, MonadExceptOf.throw]
    | some w =>
      simp only [bind, Except.bind, if_true, Option.some.injEq, Instruction.decode_eq_ok_iff, hpc,
        true_and]
      constructor
      · rintro ⟨h, rfl⟩
        exact ⟨rfl, h⟩
      · rintro ⟨rfl, h⟩
        exact ⟨h, rfl⟩

/-- A fetch fails for one of two causes: the program counter cannot be fetched from or lies
outside memory, or the word at the program counter names no operation. -/
theorem fetch_eq_error_iff {m : Machine} {f : Fault} :
    m.fetch = .error f ↔
      ((lastAddress ≤ m.regs.pc ∨ m.memory.get? m.regs.pc = none) ∧ f = .pcOutOfRange) ∨
        (m.regs.pc < lastAddress ∧
          ∃ w, m.memory.get? m.regs.pc = some w ∧ Opcode.ofWord? w = none ∧
            f = .unknownOpcode) := by
  unfold fetch Access.check
  cases ha : Access.fetch.allows m.regs.pc with
  | false =>
    have hpc : lastAddress ≤ m.regs.pc := by simpa [Access.allows] using ha
    simp [bind, Except.bind, Access.fault, hpc, @eq_comm _ f, ← BitVec.not_le]
  | true =>
    have hpc : m.regs.pc < lastAddress := by simpa [Access.allows] using ha
    cases hw : m.memory.get? m.regs.pc with
    | none => simp [bind, Except.bind, throw, throwThe, MonadExceptOf.throw, @eq_comm _ f]
    | some w =>
      simp [bind, Except.bind, Instruction.decode_eq_error_iff, hpc, ← BitVec.not_lt]

end Machine

/-! ## The three equations -/

section Ways

variable {σ : Type u} {dev : Device σ} {sink : Sink σ} {m : Machine} {s : σ}

/-- **Nothing is fetched.** The step faults, and only the fault is reported. -/
theorem step_of_refused {f : Fault} (hf : m.fetch = .error f) :
    step dev sink m s =
      (.faulted f, (m.refuse f).machine.record m.regs.pc (.faulted f),
        sink (.faulted f m.regs.pc) s) := by
  simp [step, attempt, hf, Machine.refuse, Attempt.conclude, Outcome.events, Sink.reportAll]

/-- **The instruction fails.** It is passed over and counted, and its end and the fault are
reported. -/
theorem step_of_failed {i : Instruction} {f : Fault} {s₁ : σ} (hf : m.fetch = .ok i)
    (hx : execute dev i.operation m (sink (.started m.regs.pc i.word) s) = (.error f, s₁)) :
    step dev sink m s =
      (.faulted f,
        (m.setPc (pcPast m.regs.pc i.size)).tick.record m.regs.pc (.faulted f),
        sink.reportAll [.retired m.regs.pc (m.count + 1), .faulted f m.regs.pc] s₁) := by
  simp [step, attempt, hf, hx, Machine.retire, Attempt.conclude, Outcome.events, Machine.tick,
    Machine.setPc]

/-- **The instruction succeeds.** Its effects are committed and it is counted; its memory write,
its end and its stop are reported. -/
theorem step_of_succeeded {i : Instruction} {e : Effects} {s₁ : σ} (hf : m.fetch = .ok i)
    (hx : execute dev i.operation m (sink (.started m.regs.pc i.word) s) = (.ok e, s₁)) :
    step dev sink m s =
      (.ofStop e.stop, (m.commit e).tick.record m.regs.pc (.ofStop e.stop),
        sink.reportAll (m.writeEvents e ++ .retired m.regs.pc (m.count + 1) ::
          (Outcome.ofStop e.stop).events m.regs.pc) s₁) := by
  simp [step, attempt, hf, hx, Machine.retire, Attempt.conclude, Machine.tick, Machine.commit]

/-- The machine that a step answers. -/
theorem machine_eq_of_step {o : Outcome} {m' : Machine} {s' : σ}
    (h : step dev sink m s = (o, m', s')) : m' = (step dev sink m s).2.1 := by
  rw [h]

/-- The outcome of an instruction that succeeds is no fault. -/
theorem Outcome.ofStop_ne_faulted (stop : Option Stop) (f : Fault) :
    Outcome.ofStop stop ≠ .faulted f := by
  cases stop <;> simp [ofStop]

/-- A step that faults either fetched nothing, or its instruction failed. -/
theorem step_eq_faulted {f : Fault} {m' : Machine} {s' : σ}
    (h : step dev sink m s = (.faulted f, m', s')) :
    m.fetch = .error f ∨ ∃ i s₁, m.fetch = .ok i ∧
      execute dev i.operation m (sink (.started m.regs.pc i.word) s) = (.error f, s₁) := by
  cases hf : m.fetch with
  | error g =>
    rw [step_of_refused hf] at h
    left
    simpa using congrArg Prod.fst h
  | ok i =>
    right
    rcases hx : execute dev i.operation m (sink (.started m.regs.pc i.word) s) with ⟨r, s₁⟩
    cases r with
    | error g =>
      rw [step_of_failed hf hx] at h
      obtain rfl : g = f := by simpa using congrArg Prod.fst h
      exact ⟨i, s₁, rfl, hx⟩
    | ok e =>
      rw [step_of_succeeded hf hx] at h
      exact absurd (congrArg Prod.fst h) (Outcome.ofStop_ne_faulted _ _)

/-- A step that does not fault has fetched an instruction, which succeeded. -/
theorem step_eq_of_not_faulted {o : Outcome} {m' : Machine} {s' : σ}
    (h : step dev sink m s = (o, m', s')) (ho : ∀ f, o ≠ .faulted f) :
    ∃ i e s₁, m.fetch = .ok i ∧
      execute dev i.operation m (sink (.started m.regs.pc i.word) s) = (.ok e, s₁) := by
  cases hf : m.fetch with
  | error g =>
    rw [step_of_refused hf] at h
    exact absurd (congrArg Prod.fst h).symm (ho g)
  | ok i =>
    rcases hx : execute dev i.operation m (sink (.started m.regs.pc i.word) s) with ⟨r, s₁⟩
    cases r with
    | error g =>
      rw [step_of_failed hf hx] at h
      exact absurd (congrArg Prod.fst h).symm (ho g)
    | ok e => exact ⟨i, e, s₁, rfl, hx⟩

end Ways

end Cpu16
