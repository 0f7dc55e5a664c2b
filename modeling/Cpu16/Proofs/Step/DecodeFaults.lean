import Cpu16.Proofs.Step.Cases
import Cpu16.Proofs.Step.Staging

set_option relaxedAutoImplicit false
set_option autoImplicit false

/-!
# Words without a meaning

A fault of the class `decode` says that a word has no meaning as an instruction: its operation
is not assigned, or it is a branch whose condition is not assigned. This depends on the word
alone. A step on such a word raises such a fault whatever the machine is like, and a step on any
other word raises none, whatever else may go wrong in it.

## Main definitions

* `Cpu16.isMeaningful` — whether a word has a meaning as an instruction.
* `Cpu16.Machine.Fetches` — a machine fetches a word.
* `Cpu16.NeverDecode` — a computation raises no fault of the class `decode`.

## Main results

* `Cpu16.neverDecode_execute` — an operation other than an invalid branch raises none.
* `Cpu16.step_of_meaningless`, `Cpu16.kind_ne_decode_of_step` — the faults of steps on words
  without and with a meaning.
-/

universe u

namespace Cpu16

/-! ## Meaningful words -/

/-- Whether the operation is a branch with an unassigned condition. -/
def Operation.isInvalid : Operation → Bool
  | invalidBranch _ => true
  | _ => false

/-- Whether a word has a meaning as an instruction: its operation is assigned, and so is its
condition if it is a branch. -/
def isMeaningful (w : Word) : Bool :=
  match Instruction.decode w with
  | .ok i => !i.operation.isInvalid
  | .error _ => false

/-- The machine fetches the word `w`: the program counter may be fetched from, and addresses the
word in memory. -/
structure Machine.Fetches (m : Machine) (w : Word) : Prop where
  /-- The program counter is below the reserved address. -/
  pc : m.regs.pc < lastAddress
  /-- The word is the one at the program counter. -/
  word : m.memory.get? m.regs.pc = some w

/-- Every word is fetched by some machine: by one with no other word in memory. -/
theorem Machine.exists_fetches (w : Word) : ∃ m : Machine, m.Fetches w :=
  ⟨{ memory := ⟨#[w]⟩ }, ⟨show (0 : Word) < lastAddress by decide, rfl⟩⟩

/-! ## Computations without a decode fault -/

/-- The computation does not raise a fault of the class `decode`. -/
def NeverDecode {α : Type} (x : Except Fault α) : Prop :=
  ∀ f, x = .error f → f.kind ≠ .decode

section NeverDecode

variable {α β : Type}

/-- A computation that does not fault has no decode fault. -/
theorem NeverDecode.ok (a : α) : NeverDecode (.ok a) := by
  rintro f ⟨⟩

/-- A composed computation raises no decode fault if none of its parts does. -/
theorem NeverDecode.bind {x : Except Fault α} {g : α → Except Fault β} (hx : NeverDecode x)
    (hg : ∀ a, NeverDecode (g a)) : NeverDecode (x >>= g) := by
  cases x with
  | error f => exact fun f' hf => hx f' (congrArg _ (Except.error.inj hf))
  | ok a => exact hg a

/-- The address rules blame an address, and no instruction. -/
theorem Access.neverDecode_check (k : Access) (a : Word) : NeverDecode (k.check a) := by
  intro f hf
  obtain ⟨-, rfl⟩ := check_eq_error_iff.mp hf
  cases k <;> simp [fault, Fault.kind]

/-- A read has no decode fault. -/
theorem Memory.neverDecode_read (mem : Memory) (a : Word) : NeverDecode (mem.read a) := by
  unfold read
  cases mem.get? a with
  | some w => exact .ok w
  | none =>
    rintro f ⟨⟩
    simp [Fault.kind]

/-- The fetch of an operand has no decode fault. -/
theorem Machine.neverDecode_operand (m : Machine) : NeverDecode m.operand :=
  (Access.neverDecode_check _ _).bind fun _ => Memory.neverDecode_read _ _

/-- The check of an operand as an address has no decode fault. -/
theorem Machine.neverDecode_operandAddress (m : Machine) : NeverDecode m.operandAddress :=
  m.neverDecode_operand.bind fun a => (Access.neverDecode_check _ a).bind fun _ => .ok a

/-- To stage a push has no decode fault. -/
theorem Registers.neverDecode_stagePush (regs : Registers) (value : Word) (e : Effects) :
    NeverDecode (regs.stagePush value e) :=
  (Access.neverDecode_check _ _).bind fun _ => .ok _

/-- The last check has no decode fault. -/
theorem Effects.neverDecode_checked (e : Effects) : NeverDecode e.checked := by
  refine (Access.neverDecode_check _ _).bind fun _ => ?_
  cases e.sp with
  | none => exact .ok e
  | some sp => exact (Access.neverDecode_check _ sp).bind fun _ => .ok e

end NeverDecode

/-- **Staging raises no decode fault**, unless the operation is an invalid branch.

**Proof sketch.** By cases on the operation: each one is composed of checks of addresses and of
reads of memory, none of which blames the instruction. -/
theorem Operation.neverDecode_stage {op : Operation} (h : op.isInvalid = false) (m : Machine)
    (reply : Word) : NeverDecode (op.stage m reply) := by
  have check := Access.neverDecode_check
  have read := m.memory.neverDecode_read
  cases op with
  | invalidBranch code => exact absurd h (by simp [isInvalid])
  | jump condition => exact m.neverDecode_operand.bind fun _ => .ok _
  | call condition =>
    refine m.neverDecode_operand.bind fun _ => ?_
    split
    · exact Registers.neverDecode_stagePush _ _ _
    · exact .ok _
  | ret => exact (check _ _).bind fun _ => (read _).bind fun _ => .ok _
  | push rs | pushFlags => exact Registers.neverDecode_stagePush _ _ _
  | pop rd | popFlags => exact (check _ _).bind fun _ => (read _).bind fun _ => .ok _
  | loadImmediate rd => exact m.neverDecode_operand.bind fun _ => .ok _
  | load rd => exact m.neverDecode_operandAddress.bind fun _ => (read _).bind fun _ => .ok _
  | store rs => exact m.neverDecode_operandAddress.bind fun _ => .ok _
  | loadIndirect rd ra => exact (check _ _).bind fun _ => (read _).bind fun _ => .ok _
  | storeIndirect ra rs => exact (check _ _).bind fun _ => .ok _
  | _ => exact .ok _

section Execute

variable {σ : Type u}

/-- The device has faults of its own class. -/
theorem Device.neverDecode_perform (dev : Device σ) (x : Exchange) (s : σ) :
    NeverDecode (dev.perform x s).1 := by
  have hdevice : ∀ e : DeviceError, NeverDecode (α := Word) (.error e.fault) := by
    rintro e f ⟨⟩
    cases e <;> simp [DeviceError.fault, Fault.kind]
  cases x with
  | none => exact .ok 0
  | poll =>
    simp only [perform]
    rcases dev.poll s with ⟨e | key, s₁⟩
    · exact hdevice e
    · exact .ok _
  | draw character position =>
    simp only [perform]
    rcases dev.draw character position s with ⟨e | _, s₁⟩
    · exact hdevice e
    · exact .ok 0

/-- An operation other than an invalid branch raises no decode fault. -/
theorem neverDecode_execute {op : Operation} (h : op.isInvalid = false) (dev : Device σ)
    (m : Machine) (s : σ) : NeverDecode (execute dev op m s).1 := by
  have hperform := dev.neverDecode_perform (op.exchange m.regs) s
  unfold execute
  rcases hr : dev.perform (op.exchange m.regs) s with ⟨f | reply, s₁⟩
  · rintro _ ⟨⟩
    exact hperform f (congrArg Prod.fst hr)
  · exact (Operation.neverDecode_stage h m reply).bind Effects.neverDecode_checked

/-- An invalid branch fails before anything else is looked at. -/
theorem execute_of_isInvalid {op : Operation} (h : op.isInvalid = true) (dev : Device σ)
    (m : Machine) (s : σ) : execute dev op m s = (.error .invalidCondition, s) := by
  cases op with
  | invalidBranch code => rfl
  | _ => exact absurd h Bool.false_ne_true

/-! ## Steps -/

variable {dev : Device σ} {sink : Sink σ} {m : Machine} {s : σ} {w : Word}

/-- The instruction that is fetched with a word is the one that the word decodes to. -/
theorem Machine.Fetches.fetch_eq (h : m.Fetches w) : m.fetch = Instruction.decode w := by
  have hcheck : Access.fetch.check m.regs.pc = .ok () :=
    Access.check_eq_ok_iff.mpr (by simpa [Access.allows] using h.pc)
  unfold fetch
  rw [hcheck, h.word]
  rfl

/-- **A step on a word without a meaning** faults, and the fault is of the class `decode`. -/
theorem step_of_meaningless (h : m.Fetches w) (hw : isMeaningful w = false) :
    ∃ f, (step dev sink m s).1 = .faulted f ∧ f.kind = .decode := by
  have hfetch := h.fetch_eq
  unfold isMeaningful at hw
  cases hd : Instruction.decode w with
  | error f =>
    obtain ⟨-, rfl⟩ := Instruction.decode_eq_error_iff.mp hd
    exact ⟨.unknownOpcode, by rw [step_of_refused (hfetch.trans hd)], rfl⟩
  | ok i =>
    have hi : i.operation.isInvalid = true := by simpa [hd] using hw
    have hx := execute_of_isInvalid hi dev m (sink (.started m.regs.pc i.word) s)
    exact ⟨.invalidCondition, by rw [step_of_failed (hfetch.trans hd) hx], rfl⟩

/-- **A step on a word with a meaning** may fault, but the fault is of another class. -/
theorem kind_ne_decode_of_step (h : m.Fetches w) (hw : isMeaningful w = true) {f : Fault}
    (hf : (step dev sink m s).1 = .faulted f) : f.kind ≠ .decode := by
  have hfetch := h.fetch_eq
  unfold isMeaningful at hw
  cases hd : Instruction.decode w with
  | error g => simp [hd] at hw
  | ok i =>
    have hi : i.operation.isInvalid = false := by simpa [hd] using hw
    rcases step_eq_faulted (Prod.ext hf rfl) with hr | ⟨j, s₁, hj, hx⟩
    · rw [hfetch, hd] at hr
      exact absurd hr (by simp)
    · obtain rfl : i = j := Except.ok.inj (hd.symm.trans (hfetch.symm.trans hj))
      exact neverDecode_execute hi dev m _ f (congrArg Prod.fst hx)

end Execute

end Cpu16
