import Cpu16.Proofs.Run.Journal
import Cpu16.Proofs.Step.FlagOwners

set_option relaxedAutoImplicit false
set_option autoImplicit false

/-!
# Where a flag has its value from

Each flag belongs to some instructions, and has its value from the last one of them that was
executed since the machine has started anew, or is clear if there was none. Instructions that do not
own the flag play no role in between, nor do steps that fault, nor does anything else that a host
does without editing the flag register. So a branch goes by the result of the last owner of the flag
that it tests.

## Main definitions

* `Cpu16.StepRecord.gives?` — the value that a step gives a flag, if it does.
* `Cpu16.Journal.flag` — the value that a flag has according to a journal.
* `Cpu16.Machine.BranchesBy` — the branch at the program counter goes by given values of the
  conditions.
* `Cpu16.FlagsOwned` — the flags agree with a journal, and what follows from that.

## Main results

* `Cpu16.flag_of_applyAll` — a flag has the value that the journal has for it.
* `Cpu16.flagsOwned_of_applyAll` — so branches go by the last owner, and without a pop into the
  flag register some flags exclude others.
-/

universe u v w

namespace Cpu16

/-! ## What a step gives a flag -/

namespace StepRecord

/-- The value that the step gives a flag, or nothing if the flag is left as it is. A step that
faults gives nothing. -/
def gives? (r : StepRecord.{u}) (g : Flag) : Option Bool :=
  r.executed?.bind fun i => i.gives? r.before r.after g

/-- Whether the step has popped into the flag register. -/
def popsFlags (r : StepRecord.{u}) : Bool :=
  r.executed?.any fun i => i.opcode = .pop ∧ i.modeBit = true

/-- A flag after a step has the value that the step gives it, or else the one before. -/
theorem flag_after (r : StepRecord.{u}) (g : Flag) :
    r.after.regs.flag g = (r.gives? g).getD (r.before.regs.flag g) := by
  unfold gives?
  rcases r.faulted_or_executed with ⟨f, -, hnone, hframe⟩ | ⟨i, reply, hsome, hx⟩
  · rw [hnone]
    exact Registers.flag_congr hframe.flags g
  · rw [hsome]
    exact hx.flag g

end StepRecord

/-- A reset clears every flag. -/
theorem Machine.flag_reset (m : Machine) (g : Flag) : m.reset.regs.flag g = false := by
  show Registers.initial.flag g = false
  cases g <;> decide

/-- A flag can be followed in a journal. A new start clears it. -/
theorem tracks_flag (g : Flag) :
    Tracks.{u} (fun m => some (m.regs.flag g)) (fun _ => some false)
      fun r old => (r.gives? g).or old where
  load _ _ := congrArg some (Machine.flag_reset _ g)
  step r := by
    rw [r.flag_after]
    exact Option.or_some.symm
  enter _ _ := rfl
  leave _ := rfl

/-- The value that a flag has according to a journal: the one that the latest step since the last
new start has given it. -/
def Journal.flag (j : Journal.{u}) (g : Flag) : Bool :=
  (j.sinceReset.findSome? fun r => r.gives? g).getD false

/-- A history in which the flag register is not edited by hand makes of a flag what its journal
does. -/
theorem replay_flag_of_applyAll {acts : List HostAct.{u}} {m m' : Machine}
    (hacts : ∀ act ∈ acts, act.editsFlags = false) (h : HostAct.applyAll acts m = some m')
    (g : Flag) :
    some (m'.regs.flag g) = (HostAct.journalAll acts m).replay (fun _ => some false)
      (fun r old => (r.gives? g).or old) (some (m.regs.flag g)) :=
  (tracks_flag g).applyAll h fun act hact he _ _ hm =>
    congrArg some (Registers.flag_congr ((HostAct.frame_of_isEdit hm he).2.2 (hacts act hact)) g)

/-- **A flag has the value that the journal has for it**, in every history that begins with a reset
and in which the flag register is not edited by hand. -/
theorem flag_of_applyAll {acts : List HostAct.{u}} {start m : Machine}
    (hacts : ∀ act ∈ acts, act.editsFlags = false)
    (h : HostAct.applyAll acts start.reset = some m) (g : Flag) :
    m.regs.flag g = (HostAct.journalAll acts start.reset).flag g := by
  have hreplay := replay_flag_of_applyAll hacts h g
  rw [Machine.flag_reset, Journal.replay_latest, Option.or_some] at hreplay
  exact Option.some.inj hreplay

/-! ## What follows -/

/-- The branch at the program counter goes by the values that `decides` has for the conditions: in
every step that executes a jump or a call whose condition it decides, the program counter becomes
the operand or goes on to the next instruction. -/
def Machine.BranchesBy (m : Machine) (decides : Condition → Option Bool) : Prop :=
  ∀ i c b, m.fetch = .ok i → (i.opcode = .jmp ∨ i.opcode = .call) →
    Condition.ofCode? i.conditionCode = some c → decides c = some b →
      ∀ {σ : Type v} (dev : Device σ) (sink : Sink σ) (s : σ) o m' s',
        step dev sink m s = (o, m', s') → (∀ f, o ≠ .faulted f) →
          m'.regs.pc = if b then m.memory.word (m.regs.pc + 1) else m.regs.pc + 2

/-- A branch goes by whatever says how its condition stands. -/
theorem Machine.BranchesBy.of_holds {m : Machine} {decides : Condition → Option Bool}
    (h : ∀ c b, decides c = some b → c.holds m.regs.flagWord = b) : m.BranchesBy.{v} decides := by
  intro i c b hf hi hc hb σ dev sink s o m' s' hstep ho
  rw [pc_of_branch hf hi hc hstep ho, h c b hb]

/-- If every step gives the flags of a group either no value or the ones that some `b` has for them,
so does the latest step that gives them any. -/
theorem findSome?_gives?_of_group {β : Type w} {group : Flag → Prop} {value : β → Flag → Bool}
    {l : List StepRecord.{u}}
    (h : ∀ r ∈ l, (∀ g, group g → r.gives? g = none) ∨
      ∃ b, ∀ g, group g → r.gives? g = some (value b g)) :
    (∀ g, group g → (l.findSome? fun r => r.gives? g) = none) ∨
      ∃ b, ∀ g, group g → (l.findSome? fun r => r.gives? g) = some (value b g) := by
  induction l with
  | nil => exact .inl fun _ _ => rfl
  | cons r l ih =>
    rcases h r List.mem_cons_self with hnone | ⟨b, hb⟩
    · have hl : ∀ g, group g → ((r :: l).findSome? fun r => r.gives? g) =
          l.findSome? fun r => r.gives? g := fun g hg => by
        rw [List.findSome?_cons, hnone g hg]
      refine (ih fun r' hr' => h r' (List.mem_cons_of_mem r hr')).imp ?_ ?_
      · exact fun hrest g hg => (hl g hg).trans (hrest g hg)
      · exact fun ⟨b, hb⟩ => ⟨b, fun g hg => (hl g hg).trans (hb g hg)⟩
    · refine .inr ⟨b, fun g hg => ?_⟩
      rw [List.findSome?_cons, hb g hg]

namespace StepRecord

/-- A step that does not pop into the flag register gives zero and negative no value, or the ones of
a word. -/
theorem gives?_zero_negative {r : StepRecord.{u}} (h : r.popsFlags = false) :
    (∀ g, g = .zero ∨ g = .negative → r.gives? g = none) ∨
      ∃ w : Word, ∀ g, g = .zero ∨ g = .negative →
        r.gives? g = some (if g = .zero then decide (w = 0) else w.getLsbD 15) := by
  unfold popsFlags at h
  unfold gives?
  cases hi : r.executed? with
  | none => exact .inl fun _ _ => rfl
  | some i =>
    rw [hi] at h
    have hpop : ¬(i.opcode = .pop ∧ i.modeBit = true) := by simpa using h
    cases hz : i.exactResult? r.before with
    | none =>
      left
      rintro g (rfl | rfl) <;> simp [Instruction.gives?, hpop, hz]
    | some z =>
      right
      refine ⟨r.after.regs.get i.rd, ?_⟩
      rintro g (rfl | rfl) <;> simp [Instruction.gives?, hpop, hz]

/-- Nor does it give the flags of a comparison any other values than the ones of two words. -/
theorem gives?_comparison {r : StepRecord.{u}} (h : r.popsFlags = false) :
    (∀ g, g = .equal ∨ g = .greater ∨ g = .lesser → r.gives? g = none) ∨
      ∃ xy : Word × Word, ∀ g, g = .equal ∨ g = .greater ∨ g = .lesser →
        r.gives? g = some (if g = .equal then decide (xy.1 = xy.2)
          else if g = .greater then decide (xy.2 < xy.1) else decide (xy.1 < xy.2)) := by
  unfold popsFlags at h
  unfold gives?
  cases hi : r.executed? with
  | none => exact .inl fun _ _ => rfl
  | some i =>
    rw [hi] at h
    have hpop : ¬(i.opcode = .pop ∧ i.modeBit = true) := by simpa using h
    by_cases ho : i.opcode = .cmp
    · right
      refine ⟨(r.before.regs.get i.rd, r.before.regs.get i.rs1), ?_⟩
      rintro g (rfl | rfl | rfl) <;> simp [Instruction.gives?, ho]
    · left
      rintro g (rfl | rfl | rfl) <;> simp [Instruction.gives?, hpop, ho]

/-- A step that executes an instruction with an exact result writes it, modulo 2^16. -/
theorem get_of_exactResult? {r : StepRecord.{u}} {i : Instruction} {z : Int}
    (hi : r.executed? = some i) (hz : i.exactResult? r.before = some z) :
    r.after.regs.get i.rd = BitVec.ofInt 16 z := by
  obtain ⟨reply, hx⟩ := exists_executed hi
  exact hx.get_of_exactResult? hz

end StepRecord

namespace Journal

variable {j : Journal.{u}}

/-- Without a pop into the flag register, zero and negative are not both set. -/
theorem not_zero_and_negative (h : ∀ r ∈ j.sinceReset, r.popsFlags = false) :
    ¬(j.flag .zero = true ∧ j.flag .negative = true) := by
  rintro ⟨hzero, hnegative⟩
  unfold flag at hzero hnegative
  rcases findSome?_gives?_of_group fun r hr => StepRecord.gives?_zero_negative (h r hr) with
    hnone | ⟨w, hw⟩
  · rw [hnone .zero (.inl rfl)] at hzero
    exact Bool.false_ne_true hzero
  · rw [hw .zero (.inl rfl)] at hzero
    rw [hw .negative (.inr rfl)] at hnegative
    have hw0 : w = 0 := of_decide_eq_true hzero
    rw [hw0] at hnegative
    simp at hnegative

/-- Without a pop into the flag register, at most one flag of a comparison is set. -/
theorem comparison_exclusive (h : ∀ r ∈ j.sinceReset, r.popsFlags = false) :
    ¬(j.flag .equal = true ∧ j.flag .greater = true) ∧
      ¬(j.flag .equal = true ∧ j.flag .lesser = true) ∧
      ¬(j.flag .greater = true ∧ j.flag .lesser = true) := by
  unfold flag
  rcases findSome?_gives?_of_group fun r hr => StepRecord.gives?_comparison (h r hr) with
    hnone | ⟨⟨x, y⟩, hxy⟩
  · simp [hnone]
  · rw [hxy .equal (.inl rfl), hxy .greater (.inr (.inl rfl)), hxy .lesser (.inr (.inr rfl))]
    show ¬(decide (x = y) = true ∧ decide (y < x) = true) ∧
      ¬(decide (x = y) = true ∧ decide (x < y) = true) ∧
      ¬(decide (y < x) = true ∧ decide (x < y) = true)
    simp only [decide_eq_true_eq]
    bv_omega

end Journal

/-- The flags of the machine agree with a journal, and so does what follows from the flags. -/
structure FlagsOwned (j : Journal.{u}) (m : Machine) : Prop where
  /-- Every flag has the value that the latest owner since the last new start has given it, and is
  clear if there was none. -/
  flag : ∀ g, m.regs.flag g = j.flag g
  /-- What an owner has written to its register is its exact result, modulo 2^16. -/
  result : ∀ r ∈ j.sinceReset, ∀ i z, r.executed? = some i → i.exactResult? r.before = some z →
    r.after.regs.get i.rd = BitVec.ofInt 16 z
  /-- Branches go by these values. -/
  branch : m.BranchesBy.{v} fun c => some (c.test j.flag)
  /-- As long as there was no pop into the flag register, zero and negative are not both set. -/
  zero_negative : (∀ r ∈ j.sinceReset, r.popsFlags = false) →
    ¬(m.regs.flag .zero = true ∧ m.regs.flag .negative = true)
  /-- Then also at most one of the flags of a comparison is set. -/
  comparison : (∀ r ∈ j.sinceReset, r.popsFlags = false) →
    ¬(m.regs.flag .equal = true ∧ m.regs.flag .greater = true) ∧
      ¬(m.regs.flag .equal = true ∧ m.regs.flag .lesser = true) ∧
      ¬(m.regs.flag .greater = true ∧ m.regs.flag .lesser = true)

/-- **Every flag has its value from its last owner.** Let a host do anything to a machine that has
just been reset, in any order, except that it does not edit the flag register by hand: make single
steps, let the machine run, reset and load, and edit registers and memory. Then each flag has the
value that the last step that owns it has given it since the machine has started anew; steps that
fault own nothing. Branches go by these values, and as long as nothing was popped into the flag
register, no flags are set that exclude each other.

**Proof sketch.** Each flag can be followed in the journal (`flag_of_applyAll`). The flags that
exclude each other have the same owners but for the pop, so they have their values from the same
step (`findSome?_gives?_of_group`), which has computed them from the same words. -/
theorem flagsOwned_of_applyAll {acts : List HostAct.{u}} {start m : Machine}
    (hacts : ∀ act ∈ acts, act.editsFlags = false)
    (h : HostAct.applyAll acts start.reset = some m) :
    FlagsOwned.{u, v} (HostAct.journalAll acts start.reset) m where
  flag := flag_of_applyAll hacts h
  result r _ i z hi hz := StepRecord.get_of_exactResult? hi hz
  branch := .of_holds fun c b hb => by
    rw [Condition.holds_flagWord, ← Option.some.inj hb]
    exact congrArg c.test (funext (flag_of_applyAll hacts h))
  zero_negative hpop := by
    rw [flag_of_applyAll hacts h, flag_of_applyAll hacts h]
    exact Journal.not_zero_and_negative hpop
  comparison hpop := by
    rw [flag_of_applyAll hacts h, flag_of_applyAll hacts h, flag_of_applyAll hacts h]
    exact Journal.comparison_exclusive hpop

/-- A host that has a register decremented and the carry flag set. -/
def HostAct.decrementAndSet : List HostAct.{0} :=
  [.host (.loadWords #[0x9040, 0x2000]), .host (.step Device.silent Sink.ignore ()),
    .host (.step Device.silent Sink.ignore ())]

/-- After that the flags agree with the journal. -/
theorem flagsOwned_of_applyAll_decrementAndSet :
    ∃ m, HostAct.applyAll HostAct.decrementAndSet Machine.initial.reset = some m ∧
      FlagsOwned.{0, 0} (HostAct.journalAll HostAct.decrementAndSet Machine.initial.reset) m := by
  have hacts : ∀ act ∈ HostAct.decrementAndSet, act.editsFlags = false := by
    simp [HostAct.decrementAndSet, HostAct.editsFlags]
  have h : HostAct.applyAll HostAct.decrementAndSet Machine.initial.reset = some _ := rfl
  exact ⟨_, h, flagsOwned_of_applyAll hacts h⟩

end Cpu16
