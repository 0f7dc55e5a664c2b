import Cpu16.Proofs.Run.FlagHistory

set_option relaxedAutoImplicit false
set_option autoImplicit false

/-!
# A comparison decides every later branch

The flags of a comparison belong to the comparison alone, apart from the pop into the flag register.
So once two words have been compared, six of the branch conditions tell how the words are ordered
until the next comparison or the next pop into the flag register, whatever happens in between: any
instructions and faults, and any change of the registers that held the words.

## Main definitions

* `Cpu16.Condition.comparison?` — what a condition says about two words.
* `Cpu16.Compares` — the flags of a comparison are those of two words.
* `Cpu16.ComparisonDecides` — the conditions tell how two words are ordered.

## Main results

* `Cpu16.comparisonDecides_of_applyAll` — they do, from a comparison on to the next one.
-/

universe u v w

namespace Cpu16

/-- What a condition says about the two words of the last comparison, if it is about these. -/
def Condition.comparison? (x y : Word) : Condition → Option Bool
  | equal => some (decide (x = y))
  | notEqual => some (decide (x ≠ y))
  | greater => some (decide (x > y))
  | lesser => some (decide (x < y))
  | greaterOrEqual => some (decide (x ≥ y))
  | lesserOrEqual => some (decide (x ≤ y))
  | _ => none

/-- The flags of a comparison are those of the words `x` and `y`. -/
structure Compares (x y : Word) (m : Machine) : Prop where
  /-- The words are equal. -/
  equal : m.regs.flag .equal = decide (x = y)
  /-- The first one is greater. -/
  greater : m.regs.flag .greater = decide (x > y)
  /-- The first one is lesser. -/
  lesser : m.regs.flag .lesser = decide (x < y)

/-- The conditions of the machine tell how the words `x` and `y` are ordered as unsigned numbers. -/
structure ComparisonDecides (x y : Word) (m : Machine) : Prop where
  /-- Each of the six conditions holds exactly if what it says about the words is true. -/
  holds : ∀ (c : Condition) b, c.comparison? x y = some b → c.holds m.regs.flagWord = b
  /-- Branches on these conditions go accordingly. -/
  branch : m.BranchesBy.{v} (Condition.comparison? x y)
  /-- Exactly one of equal, greater and lesser holds. -/
  existsUnique : ∃! c : Condition,
    (c = .equal ∨ c = .greater ∨ c = .lesser) ∧ c.holds m.regs.flagWord = true
  /-- Greater or equal is the contrary of lesser. -/
  greaterOrEqual : Condition.greaterOrEqual.holds m.regs.flagWord =
    !Condition.lesser.holds m.regs.flagWord
  /-- Lesser or equal is the contrary of greater. -/
  lesserOrEqual : Condition.lesserOrEqual.holds m.regs.flagWord =
    !Condition.greater.holds m.regs.flagWord

namespace Compares

variable {x y : Word} {m : Machine}

/-- The flags of a comparison decide the conditions. -/
theorem holds (h : Compares x y m) (c : Condition) (b : Bool) (hb : c.comparison? x y = some b) :
    c.holds m.regs.flagWord = b := by
  have hgreater : (decide (x > y) || decide (x = y)) = decide (x ≥ y) := by
    rw [← Bool.decide_or, decide_eq_decide]
    bv_omega
  have hlesser : (decide (x < y) || decide (x = y)) = decide (x ≤ y) := by
    rw [← Bool.decide_or, decide_eq_decide]
    bv_omega
  rw [Condition.holds_flagWord]
  cases c with
  | equal =>
    obtain rfl := Option.some.inj hb
    exact h.equal
  | notEqual =>
    obtain rfl := Option.some.inj hb
    rw [Condition.test, h.equal, decide_not]
  | greater =>
    obtain rfl := Option.some.inj hb
    exact h.greater
  | lesser =>
    obtain rfl := Option.some.inj hb
    exact h.lesser
  | greaterOrEqual =>
    obtain rfl := Option.some.inj hb
    rw [Condition.test, h.greater, h.equal, hgreater]
  | lesserOrEqual =>
    obtain rfl := Option.some.inj hb
    rw [Condition.test, h.lesser, h.equal, hlesser]
  | _ => exact absurd hb.symm (Option.some_ne_none b)

/-- Hence they tell how the words are ordered. -/
theorem comparisonDecides (h : Compares x y m) : ComparisonDecides.{v} x y m where
  holds := h.holds
  branch := .of_holds h.holds
  existsUnique := by
    have hequal : Condition.equal.holds m.regs.flagWord = decide (ordering x y = .eq) :=
      (h.holds .equal _ rfl).trans (decide_eq_decide.mpr ordering_eq_eq_iff.symm)
    have hgreater : Condition.greater.holds m.regs.flagWord = decide (ordering x y = .gt) :=
      (h.holds .greater _ rfl).trans (decide_eq_decide.mpr ordering_eq_gt_iff.symm)
    have hlesser : Condition.lesser.holds m.regs.flagWord = decide (ordering x y = .lt) :=
      (h.holds .lesser _ rfl).trans (decide_eq_decide.mpr ordering_eq_lt_iff.symm)
    -- The words are in exactly one order, and each of the three stands for one.
    cases hxy : ordering x y with
    | eq =>
      refine ⟨.equal, ⟨.inl rfl, by simp [hequal, hxy]⟩, ?_⟩
      rintro c ⟨rfl | rfl | rfl, hc⟩ <;> simp_all
    | gt =>
      refine ⟨.greater, ⟨.inr (.inl rfl), by simp [hgreater, hxy]⟩, ?_⟩
      rintro c ⟨rfl | rfl | rfl, hc⟩ <;> simp_all
    | lt =>
      refine ⟨.lesser, ⟨.inr (.inr rfl), by simp [hlesser, hxy]⟩, ?_⟩
      rintro c ⟨rfl | rfl | rfl, hc⟩ <;> simp_all
  greaterOrEqual := by
    rw [h.holds .greaterOrEqual _ rfl, h.holds .lesser _ rfl, ← decide_not, decide_eq_decide]
    exact BitVec.not_lt.symm
  lesserOrEqual := by
    rw [h.holds .lesserOrEqual _ rfl, h.holds .greater _ rfl, ← decide_not, decide_eq_decide]
    exact BitVec.not_lt.symm

end Compares

/-! ## From a comparison on -/

/-- A step that fetches a comparison executes it, and sets the flags of the words compared. -/
theorem compares_of_step {σ : Type u} {dev : Device σ} {sink : Sink σ} {m m' : Machine} {s s' : σ}
    {o : Outcome} {i : Instruction} (hf : m.fetch = .ok i) (hi : i.opcode = .cmp)
    (h : step dev sink m s = (o, m', s')) :
    Compares (m.regs.get i.rd) (m.regs.get i.rs1) m' := by
  have hop : i.operation = .compare i.rd i.rs1 := by
    unfold Instruction.operation
    rw [hi]
  have hstage : i.operation.stage m 0 = .ok (i.operation.effects m 0) := by
    rw [hop]
    rfl
  have hx : execute dev i.operation m (sink (.started m.regs.pc i.word) s) =
      (.ok (i.operation.effects m 0), sink (.started m.regs.pc i.word) s) := by
    refine execute_of_goesOn hf ?_ hstage ?_ ?_ <;> rw [hop] <;> rfl
  have ho : ∀ f, o ≠ .faulted f := by
    rw [step_of_succeeded hf hx] at h
    obtain ⟨rfl, -⟩ := Prod.ext_iff.mp h
    exact Outcome.ofStop_ne_faulted _
  obtain ⟨j, reply, hexecuted⟩ := executed_of_step h ho
  obtain rfl : i = j := hexecuted.eq_of_fetch hf
  exact ⟨hexecuted.flag_of_compare hi .equal, hexecuted.flag_of_compare hi .greater,
    hexecuted.flag_of_compare hi .lesser⟩

namespace StepRecord

/-- Whether the step has executed a comparison. -/
def compares (r : StepRecord.{u}) : Bool :=
  r.executed?.any fun i => i.opcode = .cmp

/-- A step that neither compares nor pops into the flag register gives the flags of a comparison no
value. -/
theorem gives?_of_not_compares {r : StepRecord.{u}} (hcompares : r.compares = false)
    (hpops : r.popsFlags = false) {g : Flag} (hg : g = .equal ∨ g = .greater ∨ g = .lesser) :
    r.gives? g = none := by
  unfold compares at hcompares
  unfold popsFlags at hpops
  unfold gives?
  cases hi : r.executed? with
  | none => rfl
  | some i =>
    rw [hi] at hcompares hpops
    have hcompare : i.opcode ≠ .cmp := by simpa using hcompares
    have hpop : ¬(i.opcode = .pop ∧ i.modeBit = true) := by simpa using hpops
    rcases hg with rfl | rfl | rfl <;> simp [Instruction.gives?, hcompare, hpop]

end StepRecord

/-- A history without a new start, a comparison and a pop into the flag register leaves the flags of
a comparison alone, if the host does not edit the flag register by hand. -/
theorem Compares.applyAll {x y : Word} {m m' : Machine} (hm : Compares x y m)
    {acts : List HostAct.{u}} (hacts : ∀ act ∈ acts, act.editsFlags = false)
    (h : HostAct.applyAll acts m = some m') (hreset : .reset ∉ HostAct.journalAll acts m)
    (hkeeps : ∀ r, .step r ∈ HostAct.journalAll acts m →
      r.compares = false ∧ r.popsFlags = false) :
    Compares x y m' := by
  have hflag : ∀ g, g = .equal ∨ g = .greater ∨ g = .lesser → m'.regs.flag g = m.regs.flag g := by
    intro g hg
    have hreplay := replay_flag_of_applyAll hacts h g
    rw [Journal.replay_of_fixed _ _ hreset] at hreplay
    · exact Option.some.inj hreplay
    · intro r hr
      obtain ⟨hcompares, hpops⟩ := hkeeps r hr
      rw [StepRecord.gives?_of_not_compares hcompares hpops hg, Option.none_or]
  exact ⟨(hflag .equal (.inl rfl)).trans hm.equal,
    (hflag .greater (.inr (.inl rfl))).trans hm.greater,
    (hflag .lesser (.inr (.inr rfl))).trans hm.lesser⟩

/-- **A comparison decides every later branch.** Let a step fetch a comparison of two registers, and
let a host do anything after it that neither starts the machine anew nor edits the flag register by
hand: make any number of steps, within runs or not, with any outcomes, and edit registers and
memory. If none of the steps executes another comparison or pops into the flag register, then the
branch conditions still tell how the words were ordered that the registers held at the comparison.

**Proof sketch.** The comparison sets its three flags (`compares_of_step`), which no later step owns
(`Compares.applyAll`), and the conditions are functions of the three flags. -/
theorem comparisonDecides_of_applyAll {σ : Type w} {dev : Device σ} {sink : Sink σ}
    {m₀ m₁ m : Machine} {s s' : σ} {o : Outcome} {i : Instruction} {acts : List HostAct.{u}}
    (hf : m₀.fetch = .ok i) (hi : i.opcode = .cmp) (hstep : step dev sink m₀ s = (o, m₁, s'))
    (hacts : ∀ act ∈ acts, act.editsFlags = false) (h : HostAct.applyAll acts m₁ = some m)
    (hreset : .reset ∉ HostAct.journalAll acts m₁)
    (hkeeps : ∀ r, .step r ∈ HostAct.journalAll acts m₁ →
      r.compares = false ∧ r.popsFlags = false) :
    ComparisonDecides.{v} (m₀.regs.get i.rd) (m₀.regs.get i.rs1) m :=
  ((compares_of_step hf hi hstep).applyAll hacts h hreset hkeeps).comparisonDecides

/-- A machine that compares 0 with 5, and then adds 5 and 5 into the register that held 0. -/
def Machine.compareAndAdd : Machine :=
  { regs := { general := #v[0, 5, 0, 0, 0, 0, 0, 0] }, memory := ⟨#[0x5810, 0x8012]⟩ }

/-- The machine after the comparison. -/
def Machine.compared : Machine :=
  (step Device.silent Sink.ignore .compareAndAdd ()).2.1

/-- A host that has one step made. -/
def HostAct.stepOnce : List HostAct.{0} :=
  [.host (.step Device.silent Sink.ignore ())]

/-- After the addition the conditions still tell how 0 and 5 are ordered. -/
theorem comparisonDecides_of_applyAll_compareAndAdd :
    ∃ m, HostAct.applyAll HostAct.stepOnce .compared = some m ∧ m.regs.get 0 = 10 ∧
      ComparisonDecides.{0} 0 5 m := by
  have hf : Machine.compareAndAdd.fetch = .ok ⟨.cmp, 0x5810⟩ := rfl
  have hstep : step Device.silent Sink.ignore .compareAndAdd () = (_, .compared, _) := rfl
  have hacts : ∀ act ∈ HostAct.stepOnce, act.editsFlags = false := by
    simp [HostAct.stepOnce, HostAct.editsFlags]
  have hjournal : HostAct.journalAll HostAct.stepOnce .compared =
      [.step (.of Device.silent Sink.ignore .compared ())] := rfl
  refine ⟨_, rfl, rfl, comparisonDecides_of_applyAll hf rfl hstep hacts rfl ?_ ?_⟩
  · rw [hjournal]
    simp
  · rw [hjournal]
    intro r hr
    obtain rfl : r = .of Device.silent Sink.ignore .compared () := by simpa using hr
    exact ⟨rfl, rfl⟩

end Cpu16
