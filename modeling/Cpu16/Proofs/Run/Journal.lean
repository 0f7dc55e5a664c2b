import Cpu16.Proofs.Run.Reset

set_option relaxedAutoImplicit false
set_option autoImplicit false

/-!
# The journal of a history

Of what a host does to a machine, a journal keeps the steps that are made, within runs or not, and
where the machine starts anew, at a reset or at a load that is accepted. What the machine shows of
its past, in a flag or in a counter, is a function of the journal: each step changes it in a way
that can be read off the record of the step, and the host leaves it alone. This file proves that for
whatever can be followed step by step.

A journal is written with the newest entry first.

## Main definitions

* `Cpu16.StepRecord` — a step that has been made.
* `Cpu16.Journal` — the steps and the new starts of a history; `Journal.steps` are all of the steps,
  `Journal.sinceReset` the ones since the last new start.
* `Cpu16.HostAct.journalAll` — the journal of what a host does; `HostAct.isEdit` are the edits by
  hand, which are not in it.
* `Cpu16.Tracks` — a part of the machine can be followed in a journal, and `Cpu16.Journal.replay` is
  what becomes of it.

## Main results

* `Cpu16.Tracks.applyAll` — after a history, the part is what becomes of it in the journal.
* `Cpu16.Journal.replay_latest` — where each step gives the part a value or leaves it alone, the
  latest value since the last new start counts.
-/

universe u v

namespace Cpu16

/-! ## Steps that have been made -/

/-- A step that has been made, with some device and some sink, in some world. -/
structure StepRecord : Type where
  /-- The machine before the step. -/
  before : Machine
  /-- How the step ended. -/
  outcome : Outcome
  /-- The machine after the step. -/
  after : Machine
  /-- There has been such a step. -/
  made : ∃ (σ : Type u) (dev : Device σ) (sink : Sink σ) (s s' : σ),
    step dev sink before s = (outcome, after, s')

namespace StepRecord

/-- The record of a step. -/
def of {σ : Type u} (dev : Device σ) (sink : Sink σ) (m : Machine) (s : σ) : StepRecord.{u} where
  before := m
  outcome := (step dev sink m s).1
  after := (step dev sink m s).2.1
  made := ⟨σ, dev, sink, s, _, rfl⟩

/-- The instruction that the step has executed with success, if it has. -/
def executed? (r : StepRecord.{u}) : Option Instruction :=
  if r.outcome.fault?.isSome then none else r.before.fetch.toOption

/-- A step has faulted and left everything but its place alone, or it has executed an
instruction. -/
theorem faulted_or_executed (r : StepRecord.{u}) :
    (∃ f, r.outcome = .faulted f ∧ r.executed? = none ∧ FaultFrame r.before f r.after) ∨
      ∃ i reply, r.executed? = some i ∧ Executed i reply r.before r.outcome r.after := by
  obtain ⟨σ, dev, sink, s, s', h⟩ := r.made
  unfold executed?
  rcases Cpu16.faulted_or_executed h with ⟨f, ho, hframe, -⟩ | ⟨i, reply, hx⟩
  · exact .inl ⟨f, ho, by simp [ho, Outcome.fault?], hframe⟩
  · refine .inr ⟨i, reply, ?_, hx⟩
    have hfault : r.outcome.fault? = none := by
      rw [hx.outcome]
      cases (i.operation.effects r.before reply).stop <;> rfl
    simp [hfault, hx.fetch, Except.toOption]

/-- A step that is recorded to have executed an instruction has done so. -/
theorem exists_executed {r : StepRecord.{u}} {i : Instruction} (h : r.executed? = some i) :
    ∃ reply, Executed i reply r.before r.outcome r.after := by
  rcases r.faulted_or_executed with ⟨f, -, hnone, -⟩ | ⟨j, reply, hsome, hx⟩
  · exact absurd (hnone.symm.trans h) (Option.some_ne_none i).symm
  · obtain rfl := Option.some.inj (hsome.symm.trans h)
    exact ⟨reply, hx⟩

end StepRecord

/-! ## Journals -/

/-- An entry of a journal. -/
inductive Entry : Type
  /-- The machine has started anew: a reset, or a load that was accepted. -/
  | reset
  /-- A step has been made. -/
  | step (r : StepRecord.{u})

/-- The steps and the new starts of a history, newest first. -/
abbrev Journal : Type := List Entry.{u}

namespace Journal

/-- All steps, newest first. -/
def steps : Journal.{u} → List StepRecord.{u}
  | [] => []
  | .reset :: j => steps j
  | .step r :: j => r :: steps j

/-- The steps since the machine has started anew, newest first. -/
def sinceReset : Journal.{u} → List StepRecord.{u}
  | [] => []
  | .reset :: _ => []
  | .step r :: j => r :: sinceReset j

/-- The journal of `n` steps. -/
def ofSteps {σ : Type u} (dev : Device σ) (sink : Sink σ) : Nat → Machine → σ → Journal.{u}
  | 0, _, _ => []
  | n + 1, m, s =>
    .step (.of dev sink (machineAfter dev sink n m s) (stepTimes dev sink n m s).2.2) ::
      ofSteps dev sink n m s

end Journal

/-- The journal of an operation of a host. A load that is refused is no new start. -/
def HostOp.journal : HostOp.{u} → Machine → Journal.{u}
  | loadWords _, _ | reset, _ => [.reset]
  | loadImage bytes, m => if (m.loadImage bytes).toOption.isSome then [.reset] else []
  | write _ _, _ | patch _ _, _ | setRegister _ _, _ | setFlags _, _ => []
  | step dev sink s, m => .ofSteps dev sink 1 m s
  | run dev sink fuel s, m =>
    ((Cpu16.run dev sink fuel m s).map fun r =>
      .ofSteps dev sink r.1.steps m.enterRun s.armed).getD []

namespace HostAct

/-- The journal of an act of a host. -/
def journal : HostAct.{u} → Machine → Journal.{u}
  | host op, m => op.journal m
  | setPc _, _ | setSp _, _ | setStatus _, _ | setFaultPc _, _ => []

/-- The journal of some acts, one after another. -/
def journalAll : List HostAct.{u} → Machine → Journal.{u}
  | [], _ => []
  | act :: acts, m => ((act.apply m).map (journalAll acts)).getD [] ++ act.journal m

/-- Whether the host edits the machine by hand. -/
def isEdit : HostAct.{u} → Bool
  | host (.write _ _) | host (.patch _ _) | host (.setRegister _ _) | host (.setFlags _) => true
  | host _ => false
  | setPc _ | setSp _ | setStatus _ | setFaultPc _ => true

/-- Whether the act edits the status or the place of the last fault by hand. -/
def editsBooks : HostAct.{u} → Bool
  | setStatus _ | setFaultPc _ => true
  | host _ | setPc _ | setSp _ => false

/-- Whether the act edits the flag register by hand. -/
def editsFlags : HostAct.{u} → Bool
  | host (.setFlags _) => true
  | _ => false

/-- What an edit by hand leaves alone: the count in any case, and status, place of the last fault
and flags unless it edits just these. -/
theorem frame_of_isEdit {act : HostAct.{u}} {m m' : Machine} (h : act.apply m = some m')
    (hedit : act.isEdit = true) :
    m'.count = m.count ∧
      (act.editsBooks = false → m'.faultPc = m.faultPc ∧ m'.status = m.status) ∧
      (act.editsFlags = false → m'.regs.flags = m.regs.flags) := by
  cases act with
  | setStatus | setFaultPc =>
    obtain rfl := Option.some.inj h
    exact ⟨rfl, fun hbooks => absurd hbooks (by simp [editsBooks]), fun _ => rfl⟩
  | setPc | setSp =>
    obtain rfl := Option.some.inj h
    exact ⟨rfl, fun _ => ⟨rfl, rfl⟩, fun _ => rfl⟩
  | host op =>
    cases op with
    | write a value =>
      obtain rfl := Option.some.inj h
      obtain ⟨memory, -, heq⟩ := m.exists_memory_of_write a value
      rw [heq]
      exact ⟨rfl, fun _ => ⟨rfl, rfl⟩, fun _ => rfl⟩
    | patch | setRegister =>
      obtain rfl := Option.some.inj h
      exact ⟨rfl, fun _ => ⟨rfl, rfl⟩, fun _ => rfl⟩
    | setFlags =>
      obtain rfl := Option.some.inj h
      exact ⟨rfl, fun _ => ⟨rfl, rfl⟩, fun hflags => absurd hflags (by simp [editsFlags])⟩
    | _ => exact absurd hedit (by simp [isEdit])

end HostAct

/-! ## What can be followed in a journal -/

/-- What an entry makes of a value, if a new start makes `anew` of it and a step makes `next`. -/
def Entry.replay {α : Type v} (anew : α → α) (next : StepRecord.{u} → α → α) :
    Entry.{u} → α → α
  | reset => anew
  | step r => next r

namespace Journal

variable {α : Type v} (anew : α → α) (next : StepRecord.{u} → α → α)

/-- What a journal makes of a value, if a new start makes `anew` of it and a step makes `next`. -/
def replay (start : α) (j : Journal.{u}) : α :=
  j.foldr (Entry.replay anew next) start

/-- Two journals are replayed one after the other, the earlier one first. -/
theorem replay_append (start : α) (j j' : Journal.{u}) :
    replay anew next start (j' ++ j) = replay anew next (replay anew next start j) j' :=
  List.foldr_append

/-- If no entry changes a value, neither does the journal. -/
theorem replay_of_fixed {start : α} {j : Journal.{u}} (hreset : .reset ∉ j)
    (hstep : ∀ r, .step r ∈ j → next r start = start) : replay anew next start j = start := by
  induction j with
  | nil => rfl
  | cons e j ih =>
    have hj : replay anew next start j = start :=
      ih (fun h => hreset (List.mem_cons_of_mem e h))
        fun r hr => hstep r (List.mem_cons_of_mem e hr)
    cases e with
    | reset => exact absurd List.mem_cons_self hreset
    | step r =>
      show next r (replay anew next start j) = start
      rw [hj]
      exact hstep r List.mem_cons_self

/-- **The latest value counts.** If a step either gives a value or leaves it alone, and a new start
makes the initial one, then what counts is the latest value that a step since then has given. -/
theorem replay_latest {β : Type v} (value? : StepRecord.{u} → Option β) (initial : Option β)
    (j : Journal.{u}) :
    replay (fun _ => initial) (fun r old => (value? r).or old) initial j =
      (j.sinceReset.findSome? value?).or initial := by
  induction j with
  | nil => rfl
  | cons e j ih =>
    cases e with
    | reset => rfl
    | step r =>
      show (value? r).or (replay _ _ initial j) = ((r :: sinceReset j).findSome? value?).or initial
      rw [ih, List.findSome?_cons]
      cases value? r <;> rfl

end Journal

/-- The part `f` of the machine can be followed in a journal: a new start makes `anew` of it, and a
step makes `next`. The start of a run may change the part only as far as the next step does not
mind, and the end of a run leaves it alone. -/
structure Tracks {α : Type v} (f : Machine → α) (anew : α → α) (next : StepRecord.{u} → α → α) :
    Prop where
  /-- A load is a new start, and so is a reset, which loads the baseline. -/
  load : ∀ (m : Machine) (image : Image spaceSize), f (m.load image) = anew (f m)
  /-- What a step makes of the part is read off its record. -/
  step : ∀ r : StepRecord.{u}, f r.after = next r (f r.before)
  /-- The first step of a run does not mind that the run has started. -/
  enter : ∀ (r : StepRecord.{u}) (m : Machine), next r (f m.enterRun) = next r (f m)
  /-- The end of a run is not seen. -/
  leave : ∀ m : Machine, f m.leaveRun = f m

namespace Tracks

variable {α : Type v} {f : Machine → α} {anew : α → α} {next : StepRecord.{u} → α → α}

/-- Some steps. -/
theorem machineAfter (h : Tracks f anew next) {σ : Type u} (dev : Device σ) (sink : Sink σ)
    (n : Nat) (m : Machine) (s : σ) :
    f (machineAfter dev sink n m s) = (Journal.ofSteps dev sink n m s).replay anew next (f m) := by
  induction n with
  | zero => rfl
  | succ n ih =>
    show f (StepRecord.of dev sink (Cpu16.machineAfter dev sink n m s) _).after = _
    rw [h.step]
    exact congrArg _ ih

/-- The first step of a run hides that the run has started. -/
theorem replay_ofSteps_enterRun (h : Tracks f anew next) {σ : Type u} (dev : Device σ)
    (sink : Sink σ) (n : Nat) (m m' : Machine) (s : σ) :
    (Journal.ofSteps dev sink (n + 1) m' s).replay anew next (f m.enterRun) =
      (Journal.ofSteps dev sink (n + 1) m' s).replay anew next (f m) := by
  induction n with
  | zero => exact h.enter _ m
  | succ n ih => exact congrArg _ ih

/-- A run that ends. -/
theorem run (h : Tracks f anew next) {ε : Type u} {dev : Device (Session ε)}
    {sink : Sink (Session ε)} {fuel : Nat} {m : Machine} {s : Session ε}
    {r : RunResult × Machine × Session ε} (hr : Cpu16.run dev sink fuel m s = some r) :
    f r.2.1 = (Journal.ofSteps dev sink r.1.steps m.enterRun s.armed).replay anew next (f m) := by
  rcases steps_of_run hr with ⟨hsteps, heq⟩ | ⟨n, hsteps, heq⟩
  · rw [hsteps, heq]
    rfl
  · rw [hsteps, heq, h.leave, h.machineAfter, h.replay_ofSteps_enterRun]

/-- An act of a host that does not edit the part by hand. -/
theorem apply (h : Tracks f anew next) {act : HostAct.{u}} {m m' : Machine}
    (hact : act.apply m = some m') (hedit : act.isEdit = true → f m' = f m) :
    f m' = (act.journal m).replay anew next (f m) := by
  cases act with
  | setPc | setSp | setStatus | setFaultPc => exact hedit rfl
  | host op =>
    cases op with
    | write | patch | setRegister | setFlags => exact hedit rfl
    | reset =>
      obtain rfl := Option.some.inj hact
      exact h.load m m.baseline
    | loadWords ws =>
      obtain rfl := Option.some.inj hact
      exact h.load m _
    | loadImage bytes =>
      obtain rfl := Option.some.inj hact
      -- A refused image leaves no entry, and the machine as it is.
      show f ((m.loadImage bytes).toOption.getD m) = Journal.replay anew next (f m)
        (if (m.loadImage bytes).toOption.isSome then [.reset] else [])
      unfold Machine.loadImage
      cases Image.decode spaceSize bytes with
      | error e => rfl
      | ok image => exact h.load m image
    | step dev sink s =>
      obtain rfl := Option.some.inj hact
      exact h.machineAfter dev sink 1 m s
    | run dev sink fuel s =>
      obtain ⟨r, hr, rfl⟩ := Option.map_eq_some_iff.mp hact
      -- The journal of a run has as many steps as its answer says.
      have hjournal : (HostAct.host (.run dev sink fuel s)).journal m =
          Journal.ofSteps dev sink r.1.steps m.enterRun s.armed := by
        show ((Cpu16.run dev sink fuel m s).map _).getD [] = _
        rw [hr]
        rfl
      rw [hjournal]
      exact h.run hr

/-- **After a history**, the part is what becomes of it in the journal, if the host does not edit it
by hand.

**Proof sketch.** Induction on the acts; one act is `Tracks.apply`. -/
theorem applyAll (h : Tracks f anew next) {acts : List HostAct.{u}} {m m' : Machine}
    (hacts : HostAct.applyAll acts m = some m')
    (hedit : ∀ act ∈ acts, act.isEdit = true → ∀ m m', act.apply m = some m' → f m' = f m) :
    f m' = (HostAct.journalAll acts m).replay anew next (f m) := by
  induction acts generalizing m with
  | nil =>
    obtain rfl := Option.some.inj hacts
    rfl
  | cons act acts ih =>
    obtain ⟨m₁, hact, hrest⟩ := Option.bind_eq_some_iff.mp hacts
    have hjournal : HostAct.journalAll (act :: acts) m =
        HostAct.journalAll acts m₁ ++ act.journal m := by
      rw [HostAct.journalAll, hact]
      rfl
    rw [hjournal, Journal.replay_append,
      ih hrest fun act' hmem => hedit act' (List.mem_cons_of_mem _ hmem),
      h.apply hact fun he => hedit act List.mem_cons_self he _ _ hact]

end Tracks

end Cpu16
