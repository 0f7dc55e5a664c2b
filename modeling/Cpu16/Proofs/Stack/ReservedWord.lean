import Cpu16.Proofs.Stack.Refinement

set_option relaxedAutoImplicit false
set_option autoImplicit false

/-!
# The reserved word

The last word of memory is reserved. The checks of an address do not keep everybody away from it,
since they differ by one there: loads and stores stop below it and so does a pop, a return stops one
word earlier, and a push may write it. What keeps the word safe is the stack pointer, which starts
below it and has only two ways to reach it.

This file says of every step who may write the word and how the stack pointer may get there, and
concludes that a run keeps the word as it was at the reset, unless it takes one of these ways.

## Main definitions

* `Cpu16.Writes` — a step writes at an address.
* `Cpu16.ReachesReserved` — a step takes the stack pointer to the reserved word.
* `Cpu16.GuardsReserved` — what a step does and does not do to the reserved word.

## Main results

* `Cpu16.Executed.write_cases` — a write is that of a push or of a store, and where it goes.
* `Cpu16.guardsReserved_step` — what every step does.
* `Cpu16.reserved_word_guarded` — what becomes of the reserved word in runs.
-/

universe u

namespace Cpu16

/-! ## Loads and stores -/

/-- The address from which the instruction loads a register, if it is a load. -/
def Instruction.loadAddress? (i : Instruction) (m : Machine) : Option Word :=
  match i.opcode with
  | .load => some (m.memory.word (m.regs.pc + 1))
  | .loadi => some (m.regs.get i.rs1)
  | _ => none

namespace Executed

variable {i : Instruction} {reply a : Word} {m m' : Machine} {o : Outcome}

/-- A load or a store that succeeds uses an address below the reserved one. -/
theorem address_lt (h : Executed i reply m o m')
    (ha : i.loadAddress? m = some a ∨ i.storeAddress? m = some a) : a < lastAddress := by
  have hstage := h.stage
  obtain ⟨opcode, w⟩ := i
  cases opcode <;> simp only [Instruction.loadAddress?, Instruction.storeAddress?, reduceCtorEq,
    Option.some.injEq, or_false, false_or] at ha
  case load | store =>
    obtain ⟨b, hb, -⟩ := bind_eq_ok_iff.mp hstage
    rw [← ha, ← Machine.eq_word_of_operandAddress hb]
    exact Machine.lt_lastAddress_of_operandAddress hb
  case loadi | storei =>
    obtain ⟨_, hcheck, -⟩ := bind_eq_ok_iff.mp hstage
    rw [← ha]
    exact Access.lt_lastAddress_of_check hcheck

/-- A load that succeeds delivers the word at its address. -/
theorem get_load (h : Executed i reply m o m') (ha : i.loadAddress? m = some a) :
    m'.regs.get i.rd = m.memory.word a := by
  rw [h.regs, Registers.get_commit]
  obtain ⟨opcode, w⟩ := i
  cases opcode
  case load | loadi =>
    obtain rfl := Option.some.inj ha
    exact if_pos rfl
  all_goals exact absurd ha.symm (Option.some_ne_none a)

/-- **A write** is that of a push, at a stack pointer other than zero, or that of a store, below the
reserved address. -/
theorem write_cases (h : Executed i reply m o m') {value : Word}
    (hw : i.write? m = some (a, value)) :
    (i.stackOp m = .push value ∧ a = m.regs.sp ∧ m.regs.sp ≠ 0) ∨
      (i.storeAddress? m = some a ∧ a < lastAddress) := by
  cases hop : i.stackOp m with
  | push pushed =>
    obtain ⟨hwrite, -, hne, -⟩ := h.write_push hop
    obtain ⟨ha, hvalue⟩ : a = m.regs.sp ∧ value = pushed :=
      Prod.ext_iff.mp (Option.some.inj (hw.symm.trans hwrite))
    exact .inl ⟨by rw [hvalue], ha, hne⟩
  | pop => exact absurd (hw.symm.trans (Instruction.effect_of_pop hop).2) (Option.some_ne_none _)
  | keep =>
    have hmov : i.movesToStackPointer = false := by
      refine Bool.eq_false_iff.mpr fun hmov => ?_
      obtain ⟨hmov, -⟩ := Bool.and_eq_true_iff.mp hmov
      simp [Instruction.write?, of_decide_eq_true hmov] at hw
    have ha := (Instruction.effect_of_keep hop hmov).2 a value hw
    exact .inr ⟨ha, h.address_lt (.inr ha)⟩

/-- **The two ways to the reserved address.** The stack pointer comes to it from elsewhere if a
register with this address is moved there, or by a pop that reads the reserved word.

**Proof sketch.** A push would have to come from beyond the address space. A return that would come
to the address fails, since it stops one word before a pop does. -/
theorem sp_eq_lastAddress (h : Executed i reply m o m') (hsp : m'.regs.sp = lastAddress)
    (hne : m.regs.sp ≠ lastAddress) :
    (i.movesToStackPointer = true ∧ m.regs.get i.rd = lastAddress) ∨
      (i.opcode = .pop ∧ m.regs.sp = 0x7FFE) := by
  cases hop : i.stackOp m with
  | push pushed =>
    -- The pointer was one higher, where a push is refused.
    obtain ⟨-, hafter, -, hle⟩ := h.write_push hop
    rw [hsp] at hafter
    rw [le_lastAddress_iff] at hle
    simp only [lastAddress] at hafter
    bv_omega
  | pop =>
    have hafter := h.sp.symm.trans hsp
    rw [(Instruction.effect_of_pop hop).1] at hafter
    have hbefore : m.regs.sp = 0x7FFE := by
      simp only [lastAddress] at hafter
      bv_omega
    refine .inr ⟨?_, hbefore⟩
    obtain ⟨opcode, w⟩ := i
    cases opcode
    case pop => rfl
    case rts =>
      -- The check of a return is stricter than that of a pop by one word.
      obtain ⟨_, hcheck, -⟩ := bind_eq_ok_iff.mp h.stage
      have hallows := Access.check_eq_ok_iff.mp hcheck
      rw [hbefore] at hallows
      exact absurd hallows (by decide)
    case call =>
      simp only [Instruction.stackOp] at hop
      split at hop <;> exact absurd hop (by simp)
    all_goals exact absurd hop (by simp [Instruction.stackOp])
  | keep =>
    have hafter := h.sp.symm.trans hsp
    cases hmov : i.movesToStackPointer with
    | false =>
      rw [(Instruction.effect_of_keep hop hmov).1] at hafter
      exact absurd hafter hne
    | true =>
      obtain ⟨ho, hk⟩ := Bool.and_eq_true_iff.mp hmov
      rw [Instruction.spAfter, of_decide_eq_true ho] at hafter
      exact .inl ⟨rfl, (if_pos (of_decide_eq_true hk)).symm.trans hafter⟩

end Executed

/-! ## What a step does -/

/-- The step from `m` to `m'` takes the stack pointer to the reserved address: it moves a register
with this address there, or pops the reserved word. -/
structure ReachesReserved (m m' : Machine) : Prop where
  /-- The stack pointer is at the reserved address afterwards. -/
  sp : m'.regs.sp = lastAddress
  /-- The instruction is one of the two. -/
  way : ∃ i, m.fetch = .ok i ∧
    ((i.movesToStackPointer = true ∧ m.regs.get i.rd = lastAddress) ∨
      (i.opcode = .pop ∧ m.regs.sp = 0x7FFE))

section Step

variable {σ : Type u} (dev : Device σ) (sink : Sink σ) (m : Machine) (s : σ)

/-- The step from `m` writes at address `a`: a write there is reported, or the word there is another
one afterwards. -/
def Writes (a : Word) : Prop :=
  (∃ value, .wrote a value ∈ reports dev sink m s) ∨
    (step dev sink m s).2.1.memory.get? a ≠ m.memory.get? a

/-- What the step from `m` does to the reserved word and does not. -/
structure GuardsReserved : Prop where
  /-- No store writes it. -/
  store : ∀ i, m.fetch = .ok i → i.opcode = .store ∨ i.opcode = .storei →
    ¬Writes dev sink m s lastAddress
  /-- No load delivers it: a load delivers the word at an address below, or it faults and delivers
  nothing. -/
  load : ∀ i a, m.fetch = .ok i → i.loadAddress? m = some a →
    (a < lastAddress ∧ (step dev sink m s).2.1.regs.get i.rd = m.memory.word a) ∨
      ((∃ f, (step dev sink m s).1 = .faulted f) ∧
        (step dev sink m s).2.1.regs.general = m.regs.general)
  /-- It is written by a push, or a call that is taken, at a stack pointer that is there. -/
  written : Writes dev sink m s lastAddress → m.regs.sp = lastAddress ∧
    ∃ i, m.fetch = .ok i ∧ (i.opcode = .push ∨ (i.opcode = .call ∧ i.isTaken m = true))
  /-- The stack pointer comes there in two ways only. -/
  sp : (step dev sink m s).2.1.regs.sp = lastAddress → m.regs.sp ≠ lastAddress →
    ReachesReserved m (step dev sink m s).2.1
  /-- No stack operation writes the first word. -/
  first : ∀ i, m.fetch = .ok i →
    i.opcode = .push ∨ i.opcode = .pop ∨ i.opcode = .call ∨ i.opcode = .rts →
      ¬Writes dev sink m s 0

variable {dev sink m s} {m' : Machine} {s' : σ} {o : Outcome}

/-- A step that writes has executed an instruction that writes there. -/
theorem Writes.executed {a : Word} (h : Writes dev sink m s a)
    (hstep : step dev sink m s = (o, m', s')) :
    ∃ i reply value, Executed i reply m o m' ∧ i.write? m = some (a, value) := by
  rcases h with ⟨value, hw⟩ | hne
  · obtain ⟨i, reply, hx, hwrite⟩ := executed_of_wrote hstep hw
    exact ⟨i, reply, value, hx, hwrite⟩
  rw [hstep] at hne
  rcases faulted_or_executed hstep with ⟨f, -, hframe, -⟩ | ⟨i, reply, hx⟩
  · exact absurd (congrArg (·.get? a) hframe.memory) hne
  refine ⟨i, reply, ?_⟩
  rcases hw : i.write? m with _ | ⟨b, value⟩
  · exact absurd (congrArg (·.get? a) (hx.memory_of_write?_eq_none hw)) hne
  · rw [(hx.memory_of_write? hw).1, Memory.get?_set] at hne
    by_cases hab : a = b
    · subst hab
      exact ⟨value, hx, rfl⟩
    · exact absurd (if_neg fun h => hab h.1) hne

variable (dev sink m s)

/-- **Every step guards the reserved word**, from every machine and with a memory of any length.

**Proof sketch.** A write is that of a push or of a store (`Executed.write_cases`), so the opcode
tells where it goes. The rest is `Executed.address_lt` and `Executed.sp_eq_lastAddress`; a step
that faults leaves registers and memory alone. -/
theorem guardsReserved_step : GuardsReserved dev sink m s := by
  rcases hstep : step dev sink m s with ⟨o, m', s'⟩
  constructor
  case store =>
    intro i hf hi hwrites
    obtain ⟨j, reply, value, hx, hw⟩ := hwrites.executed hstep
    obtain rfl : i = j := hx.eq_of_fetch hf
    rcases hx.write_cases hw with ⟨hop, -, -⟩ | ⟨-, hlt⟩
    · rcases hi with hi | hi <;> simp [Instruction.stackOp, hi] at hop
    · exact BitVec.lt_irrefl _ hlt
  case load =>
    intro i a hf ha
    rw [hstep]
    rcases faulted_or_executed hstep with ⟨f, ho, hframe, -⟩ | ⟨j, reply, hx⟩
    · exact .inr ⟨⟨f, ho⟩, hframe.general⟩
    · obtain rfl : i = j := hx.eq_of_fetch hf
      exact .inl ⟨hx.address_lt (.inl ha), hx.get_load ha⟩
  case written =>
    intro hwrites
    obtain ⟨i, reply, value, hx, hw⟩ := hwrites.executed hstep
    rcases hx.write_cases hw with ⟨hop, hsp, -⟩ | ⟨-, hlt⟩
    · exact ⟨hsp.symm, i, hx.fetch, Instruction.pushes_of_stackOp hop⟩
    · exact absurd hlt (BitVec.lt_irrefl _)
  case sp =>
    rw [hstep]
    intro hsp hne
    rcases faulted_or_executed hstep with ⟨f, -, hframe, -⟩ | ⟨i, reply, hx⟩
    · exact absurd (hframe.sp.symm.trans hsp) hne
    · exact ⟨hsp, i, hx.fetch, hx.sp_eq_lastAddress hsp hne⟩
  case first =>
    intro i hf hi hwrites
    obtain ⟨j, reply, value, hx, hw⟩ := hwrites.executed hstep
    obtain rfl : i = j := hx.eq_of_fetch hf
    rcases hx.write_cases hw with ⟨-, hsp, hne⟩ | ⟨hstore, -⟩
    · exact hne hsp.symm
    · rcases hi with hi | hi | hi | hi <;> simp [Instruction.storeAddress?, hi] at hstore

end Step

/-! ## Runs -/

section Run

variable {σ : Type u} {dev : Device σ} {sink : Sink σ} {m : Machine} {s : σ} {n : Nat}

/-- **The reserved word is safe** as long as the stack pointer keeps away from it.

**Proof sketch.** Induction on the number of steps. The stack pointer is not at the reserved
address: it was not there before the last step, and that step does not take it there. So the last
step does not write the word. -/
theorem get?_lastAddress_machineAfter (hsp : m.regs.sp ≠ lastAddress)
    (h : ∀ k < n, ¬ReachesReserved (machineAfter dev sink k m s)
      (machineAfter dev sink (k + 1) m s)) :
    (machineAfter dev sink n m s).regs.sp ≠ lastAddress ∧
      (machineAfter dev sink n m s).memory.get? lastAddress = m.memory.get? lastAddress := by
  induction n with
  | zero => exact ⟨hsp, rfl⟩
  | succ n ih =>
    obtain ⟨hne, hword⟩ := ih fun k hk => h k (Nat.lt_succ_of_lt hk)
    have hguards := guardsReserved_step dev sink (machineAfter dev sink n m s)
      (stepTimes dev sink n m s).2.2
    refine ⟨fun heq => h n (Nat.lt_succ_self n) (hguards.sp heq hne), ?_⟩
    have hnot := mt hguards.written fun hat => hne hat.1
    exact (not_not.mp (not_or.mp hnot).2).trans hword

/-- After a reset the reserved word is that of the baseline. -/
theorem get?_lastAddress_reset (m : Machine) :
    m.reset.memory.get? lastAddress = some m.baseline[0x7FFF] := by
  simp [Machine.reset, Memory.get?]

/-- **Who can touch the reserved word.** For every machine, device and sink, and every step of a run
from the machine: no store writes the reserved word and no load delivers it; only a push or a taken
call writes it, with the stack pointer there; the stack pointer comes there only by a move of a
register with this address or by a pop one word before; and no stack operation writes the first
word. So in a run from a reset in which the stack pointer comes there in neither of these two ways,
the reserved word is that of the baseline throughout. -/
theorem reserved_word_guarded (dev : Device σ) (sink : Sink σ) (m : Machine) (s : σ) :
    (∀ k, GuardsReserved dev sink (machineAfter dev sink k m s) (stepTimes dev sink k m s).2.2) ∧
      ∀ n, (∀ k < n, ¬ReachesReserved (machineAfter dev sink k m.reset s)
          (machineAfter dev sink (k + 1) m.reset s)) →
        (machineAfter dev sink n m.reset s).memory.get? lastAddress = some m.baseline[0x7FFF] := by
  refine ⟨fun k => guardsReserved_step dev sink _ _, fun n h => ?_⟩
  have hsp : m.reset.regs.sp ≠ lastAddress := show stackTop ≠ lastAddress by decide
  rw [(get?_lastAddress_machineAfter hsp h).2, get?_lastAddress_reset]

end Run

/-- The machine whose baseline starts with a `push` of a register and a `pop` into the flag
register. -/
def Machine.pushPopBaseline : Machine :=
  { initial with baseline := Image.ofWords spaceSize #[0x1480, 0x1840] }

/-- The machine after the `push`. -/
def Machine.pushPopBaselinePushed : Machine :=
  (pushPopBaseline.reset.commit { nextPc := 1, sp := some 0x7FFD, write := some (0x7FFE, 0) }).tick

/-- After the reset, live memory has the two instructions at its start and is clear otherwise. -/
theorem Machine.get?_pushPopBaseline {a : Word} (h : a.toNat < spaceSize) :
    pushPopBaseline.reset.memory.get? a = some (#[0x1480, 0x1840].getD a.toNat 0) :=
  get?_loadWords initial #[0x1480, 0x1840] h

/-- The first instruction pushes. -/
theorem Machine.fetch_pushPopBaseline : pushPopBaseline.reset.fetch = .ok ⟨.push, 0x1480⟩ :=
  fetch_eq_ok_iff.mpr ⟨by decide, get?_pushPopBaseline (by decide), rfl⟩

/-- The first step pushes and goes on. -/
theorem Machine.step_pushPopBaseline :
    step Device.silent Sink.ignore pushPopBaseline.reset () =
      (.proceed, pushPopBaselinePushed, ()) := by
  have hx : execute Device.silent (Instruction.operation ⟨.push, 0x1480⟩)
      pushPopBaseline.reset () =
        (.ok { nextPc := 1, sp := some 0x7FFD, write := some (0x7FFE, 0) }, ()) := rfl
  rw [step_of_succeeded fetch_pushPopBaseline hx, Sink.reportAll_ignore]
  rfl

/-- The second instruction pops. -/
theorem Machine.fetch_pushPopBaselinePushed :
    pushPopBaselinePushed.fetch = .ok ⟨.pop, 0x1840⟩ := by
  refine fetch_eq_ok_iff.mpr ⟨by decide, ?_, rfl⟩
  have hword := get?_pushPopBaseline (show (1 : Word).toNat < spaceSize by decide)
  simp only [pushPopBaselinePushed, tick, commit, Memory.get?_commit]
  simpa using hword

/-- The reserved word is safe in a run of the two instructions. -/
theorem reserved_word_guarded_pushPopBaseline :
    (machineAfter Device.silent Sink.ignore 2 Machine.pushPopBaseline.reset ()).memory.get?
        lastAddress = some Machine.pushPopBaseline.baseline[0x7FFF] := by
  have hone : machineAfter Device.silent Sink.ignore 1 Machine.pushPopBaseline.reset () =
      .pushPopBaselinePushed := by
    have hstep : stepTimes Device.silent Sink.ignore 1 Machine.pushPopBaseline.reset () = _ :=
      Machine.step_pushPopBaseline
    rw [machineAfter, hstep]
  refine (reserved_word_guarded Device.silent Sink.ignore .pushPopBaseline ()).2 2 ?_
  intro k hk hreaches
  obtain ⟨i, hf, hway⟩ := hreaches.way
  obtain rfl | rfl : k = 0 ∨ k = 1 := by omega
  · obtain rfl := Except.ok.inj (hf.symm.trans Machine.fetch_pushPopBaseline)
    rcases hway with ⟨hmov, -⟩ | ⟨hpop, -⟩
    · exact absurd hmov (by decide)
    · exact absurd hpop (by decide)
  · rw [hone] at hf hway
    obtain rfl := Except.ok.inj (hf.symm.trans Machine.fetch_pushPopBaselinePushed)
    rcases hway with ⟨hmov, -⟩ | ⟨-, hsp⟩
    · exact absurd hmov (by decide)
    · exact absurd hsp (show (0x7FFD : Word) ≠ 0x7FFE by decide)

end Cpu16
