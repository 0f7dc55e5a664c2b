import Cpu16.Proofs.Step.Executed
import Cpu16.Run.Basic

set_option relaxedAutoImplicit false
set_option autoImplicit false

/-!
# Steps one after another

A host that does not want a continuous run makes single steps, one after another. This file
follows such a sequence of steps: what each of them ends with, what it makes of the machine and
of the world, and what it exchanges with the world.

## Main definitions

* `Cpu16.stepTimes` — a number of steps, with the machine `Cpu16.machineAfter` after them and the
  outcome `Cpu16.outcomeAfter` of the last one.
* `Cpu16.interactionsTimes` — what they exchange with the world.

## Main results

* `Cpu16.stepTimes_logged` — steps with a log are the steps without one, and append what they
  exchange.
* `Cpu16.world_step_ignore`, `Cpu16.world_stepTimes_silent` — what becomes of the world if nobody
  listens to the reports, and if the device is silent as well.
* `Cpu16.stepTimes_congr`, `Cpu16.interactionsTimes_congr` — the status of the machine plays no
  role in steps.
* `Cpu16.leaveRun_stepTimes_enterRun` — a run shows in the status of the machine only while it is
  on.
-/

universe u

namespace Cpu16

section Definitions

variable {σ : Type u} (dev : Device σ) (sink : Sink σ)

/-- The outcome of the last of `n` steps, with the machine and the world after it. -/
def stepTimes : Nat → Machine → σ → Outcome × Machine × σ
  | 0, m, s => (.proceed, m, s)
  | n + 1, m, s => step dev sink (stepTimes n m s).2.1 (stepTimes n m s).2.2

/-- The machine after `n` steps. -/
def machineAfter (n : Nat) (m : Machine) (s : σ) : Machine :=
  (stepTimes dev sink n m s).2.1

/-- The outcome of the last of `n` steps. -/
def outcomeAfter (n : Nat) (m : Machine) (s : σ) : Outcome :=
  (stepTimes dev sink n m s).1

/-- What `n` steps exchange with the world, in order. -/
def interactionsTimes : Nat → Machine → σ → List Interaction
  | 0, _, _ => []
  | n + 1, m, s => interactionsTimes n m s ++
      interactions dev sink (stepTimes dev sink n m s).2.1 (stepTimes dev sink n m s).2.2

end Definitions

/-- The machine after one more step is the one that this step makes, in the world after the others,
of the machine after the others. -/
theorem step_machineAfter {σ : Type u} (dev : Device σ) (sink : Sink σ) (n : Nat) (m : Machine)
    (s : σ) :
    step dev sink (machineAfter dev sink n m s) (stepTimes dev sink n m s).2.2 =
      (outcomeAfter dev sink (n + 1) m s, machineAfter dev sink (n + 1) m s,
        (stepTimes dev sink (n + 1) m s).2.2) := rfl

/-- Some steps do not change the length of live memory. -/
theorem size_memory_machineAfter {σ : Type u} (dev : Device σ) (sink : Sink σ) (n : Nat)
    (m : Machine) (s : σ) : (machineAfter dev sink n m s).memory.size = m.memory.size := by
  induction n with
  | zero => rfl
  | succ n ih => rw [size_memory_step (step_machineAfter dev sink n m s), ih]

/-! ## Steps that keep a log -/

section Logged

variable {σ τ : Type u} (e : τ ≃ σ × List Interaction) (dev : Device σ) (sink : Sink σ)

/-- **A log changes nothing.** Steps of a device and a sink that keep a log are the steps of the
device and the sink themselves, and append their interactions to the log.

**Proof sketch.** Induction on the number of steps; the last one is `step_logged`. -/
theorem stepTimes_logged (n : Nat) (m : Machine) (s : σ) (log : List Interaction) :
    stepTimes (dev.logged e) (sink.logged e) n m (e.symm (s, log)) =
      ((stepTimes dev sink n m s).1, (stepTimes dev sink n m s).2.1,
        e.symm ((stepTimes dev sink n m s).2.2, log ++ interactionsTimes dev sink n m s)) := by
  induction n with
  | zero => simp [stepTimes, interactionsTimes]
  | succ n ih =>
    rw [stepTimes, ih, step_logged, interactionsTimes, List.append_assoc]
    rfl

end Logged

/-! ## Steps without a trace -/

section Ignore

variable {σ : Type u}

/-- The world after an instruction is the one that the device has left. -/
theorem world_execute (dev : Device σ) (op : Operation) (m : Machine) (s : σ) :
    (execute dev op m s).2 = (dev.perform (op.exchange m.regs) s).2 := by
  unfold execute
  rcases dev.perform (op.exchange m.regs) s with ⟨f | reply, s₁⟩ <;> rfl

/-- Without a trace only the device acts on the world of a step, if something is fetched. -/
theorem world_step_ignore (dev : Device σ) (m : Machine) (s : σ) :
    (step dev Sink.ignore m s).2.2 =
      match m.fetch with
      | .error _ => s
      | .ok i => (dev.perform (i.operation.exchange m.regs) s).2 := by
  have hworld : (step dev Sink.ignore m s).2.2 = (attempt dev Sink.ignore m s).2 :=
    Sink.reportAll_ignore _ _
  rw [hworld]
  unfold attempt
  cases m.fetch with
  | error f => rfl
  | ok i => exact world_execute dev i.operation m s

/-- Without a trace, steps with the silent device leave the world as it is. -/
theorem world_stepTimes_silent (n : Nat) (m : Machine) (s : σ) :
    (stepTimes Device.silent Sink.ignore n m s).2.2 = s := by
  have hperform : ∀ (x : Exchange) (s : σ), (Device.silent.perform x s).2 = s := by
    intro x s
    cases x <;> rfl
  induction n with
  | zero => rfl
  | succ n ih =>
    rw [stepTimes, world_step_ignore, ih]
    cases (stepTimes Device.silent Sink.ignore n m s).2.1.fetch with
    | error f => rfl
    | ok i => exact hperform _ s

end Ignore

/-! ## The status plays no role -/

namespace Machine

/-- To start a run twice is to start it once. -/
@[simp]
theorem enterRun_enterRun (m : Machine) : m.enterRun.enterRun = m.enterRun := rfl

/-- Machines that agree apart from the status differ in the status only. -/
theorem exists_status_of_enterRun_eq {m m' : Machine} (h : m.enterRun = m'.enterRun) :
    ∃ status, m' = { m with status := status } := by
  refine ⟨m'.status, ?_⟩
  show m' = { m.enterRun with status := m'.status }
  rw [h]
  rfl

/-- Machines that agree apart from the status, and in the status that the end of a run leaves,
are equal once the run has ended. -/
theorem leaveRun_eq_of_enterRun_eq {m m' : Machine} (h : m.enterRun = m'.enterRun)
    (hs : m.leaveRun.status = m'.leaveRun.status) : m.leaveRun = m'.leaveRun := by
  obtain ⟨status, rfl⟩ := exists_status_of_enterRun_eq h
  show { m with status := m.leaveRun.status } = _
  rw [hs]
  rfl

/-- The end of a run does not touch a machine that is not running. -/
theorem leaveRun_of_status_ne_running {m : Machine} (h : m.status ≠ .running) :
    m.leaveRun = m := by
  unfold leaveRun
  rw [if_neg h]

/-- Once a run has ended, the machine is not running. -/
theorem status_leaveRun_ne_running (m : Machine) : m.leaveRun.status ≠ .running := by
  by_cases h : m.status = .running <;> simp [leaveRun, h]

end Machine

/-- The status of a machine outside a run after a step with a given outcome. -/
def Outcome.status : Outcome → Status
  | proceed => .idle
  | stopped _ => .halted
  | faulted f => .faulted f

namespace Outcome

variable {o : Outcome}

/-- A machine is idle after a step that lets execution proceed, and after no other one. -/
@[simp]
theorem status_eq_idle_iff : o.status = .idle ↔ o = .proceed := by
  cases o <;> simp [status]

/-- A machine is halted after a step that stops, and after no other one. -/
@[simp]
theorem status_eq_halted_iff : o.status = .halted ↔ ∃ reason, o = .stopped reason := by
  cases o <;> simp [status]

/-- A machine is faulted after a step that faults, with the same fault, and after no other one. -/
@[simp]
theorem status_eq_faulted_iff {f : Fault} : o.status = .faulted f ↔ o = .faulted f := by
  cases o <;> simp [status]

/-- No step leaves the machine running. -/
@[simp]
theorem status_ne_running : o.status ≠ .running := by
  cases o <;> simp [status]

end Outcome

/-- Once a run has ended, the status is the one of the last outcome. -/
theorem Machine.status_leaveRun_record (m : Machine) (pc : Word) (o : Outcome) :
    (m.record pc o).leaveRun.status = o.status := by
  cases o with
  | proceed => by_cases h : m.status = .running <;> simp [record, leaveRun, Outcome.status, h]
  | stopped reason => rfl
  | faulted f => rfl

section Status

variable {σ : Type u} (dev : Device σ) (sink : Sink σ) {m m' : Machine}

/-- A step goes the same way whatever the status is. -/
theorem step_congr (h : m.enterRun = m'.enterRun) (s : σ) :
    (step dev sink m s).1 = (step dev sink m' s).1 ∧
      (step dev sink m s).2.1.enterRun = (step dev sink m' s).2.1.enterRun ∧
      (step dev sink m s).2.2 = (step dev sink m' s).2.2 := by
  obtain ⟨status, rfl⟩ := Machine.exists_status_of_enterRun_eq h
  cases hf : m.fetch with
  | error f =>
    have hf' : { m with status := status }.fetch = .error f := hf
    rw [step_of_refused hf, step_of_refused hf']
    refine ⟨rfl, ?_, rfl⟩
    simp only [Machine.refuse]
    split <;> rfl
  | ok i =>
    have hf' : { m with status := status }.fetch = .ok i := hf
    rcases hx : execute dev i.operation m (sink (.started m.regs.pc i.word) s) with ⟨f | e, s₁⟩
    · rw [step_of_failed hf hx, step_of_failed hf' hx]
      exact ⟨rfl, rfl, rfl⟩
    · rw [step_of_succeeded hf hx, step_of_succeeded hf' hx]
      refine ⟨rfl, ?_, rfl⟩
      cases e.stop <;> rfl

/-- A step touches the status only to record its outcome there. -/
theorem exists_step_eq_record (m : Machine) (s : σ) :
    ∃ m₁ : Machine, m₁.status = m.status ∧
      (step dev sink m s).2.1 = m₁.record m.regs.pc (step dev sink m s).1 := by
  refine ⟨(attempt dev sink m s).1.machine, ?_, rfl⟩
  unfold attempt
  cases m.fetch with
  | error f =>
    simp only [Machine.refuse]
    split <;> rfl
  | ok i =>
    rcases hx : execute dev i.operation m (sink (.started m.regs.pc i.word) s) with ⟨f | e, s₁⟩
    · simp only [hx]
      rfl
    · simp only [hx]
      rfl

/-- A step of a machine that is not running leaves it so. -/
theorem status_step_ne_running (h : m.status ≠ .running) (s : σ) :
    (step dev sink m s).2.1.status ≠ .running := by
  obtain ⟨m₁, hs, h₁⟩ := exists_step_eq_record dev sink m s
  rw [h₁]
  cases (step dev sink m s).1 with
  | proceed => simp [Machine.record, hs, h]
  | stopped reason => simp [Machine.record]
  | faulted f => simp [Machine.record]

/-- Some steps go the same way whatever the status is. -/
theorem stepTimes_congr (h : m.enterRun = m'.enterRun) (n : Nat) (s : σ) :
    (stepTimes dev sink n m s).1 = (stepTimes dev sink n m' s).1 ∧
      (stepTimes dev sink n m s).2.1.enterRun = (stepTimes dev sink n m' s).2.1.enterRun ∧
      (stepTimes dev sink n m s).2.2 = (stepTimes dev sink n m' s).2.2 := by
  induction n with
  | zero => exact ⟨rfl, h, rfl⟩
  | succ n ih =>
    obtain ⟨-, hm, hs⟩ := ih
    simp only [stepTimes]
    rw [hs]
    exact step_congr dev sink hm _

/-- What some steps exchange with the world does not depend on the status either. -/
theorem interactionsTimes_congr (h : m.enterRun = m'.enterRun) (n : Nat) (s : σ) :
    interactionsTimes dev sink n m s = interactionsTimes dev sink n m' s := by
  let e := Equiv.refl (σ × List Interaction)
  have hl := (stepTimes_congr (dev.logged e) (sink.logged e) h n (e.symm (s, []))).2.2
  rw [stepTimes_logged, stepTimes_logged] at hl
  exact (Prod.ext_iff.mp (e.symm.injective hl)).2

/-- Some steps of a machine that is not running leave it so. -/
theorem status_stepTimes_ne_running (h : m.status ≠ .running) (n : Nat) (s : σ) :
    (stepTimes dev sink n m s).2.1.status ≠ .running := by
  induction n with
  | zero => exact h
  | succ n ih => exact status_step_ne_running dev sink ih _

/-- Once a run has ended, the status is the one of the outcome of its last step. -/
theorem status_leaveRun_stepTimes (m : Machine) (n : Nat) (s : σ) :
    (stepTimes dev sink (n + 1) m s).2.1.leaveRun.status =
      (stepTimes dev sink (n + 1) m s).1.status := by
  simp only [stepTimes]
  obtain ⟨m₁, -, h₁⟩ := exists_step_eq_record dev sink (stepTimes dev sink n m s).2.1
    (stepTimes dev sink n m s).2.2
  rw [h₁]
  exact Machine.status_leaveRun_record _ _ _

/-- **A run shows in the status only while it is on.** Steps within a run, once the run has
ended, have made of a machine what they make of it without a run, if there was at least one of
them and no other run was on.

**Proof sketch.** The two machines agree apart from the status (`stepTimes_congr`). Their
statuses are the ones of the outcomes of their last steps, in the one machine since the run has
ended and in the other since it was never running; and these outcomes agree too. -/
theorem leaveRun_stepTimes_enterRun (h : m.status ≠ .running) (n : Nat) (s : σ) :
    (stepTimes dev sink (n + 1) m.enterRun s).2.1.leaveRun =
      (stepTimes dev sink (n + 1) m s).2.1 := by
  obtain ⟨ho, hm, -⟩ := stepTimes_congr dev sink m.enterRun_enterRun (n + 1) s
  have hr := status_stepTimes_ne_running dev sink h (n + 1) s
  rw [← Machine.leaveRun_of_status_ne_running hr]
  refine Machine.leaveRun_eq_of_enterRun_eq hm ?_
  rw [status_leaveRun_stepTimes, status_leaveRun_stepTimes, ho]

end Status

end Cpu16
