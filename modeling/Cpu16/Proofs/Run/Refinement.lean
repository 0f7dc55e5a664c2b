import Mathlib.Data.Nat.Find
import Mathlib.Order.Bounds.Basic
import Cpu16.Proofs.Run.Steps

set_option relaxedAutoImplicit false
set_option autoImplicit false

/-!
# A run is a sequence of steps

A continuous run makes the same steps as a host that steps one by one, up to the first step
after which a run has to end: one that stops, faults, or leaves the control not running. The
device and the sink may stop the run or arm it again in the middle of a step, so the control is
looked at in the world that each step leaves.

## Main definitions

* `Cpu16.EndsAfter` — after which number of steps a run has to end.
* `Cpu16.Session.withLog`, `Cpu16.runInteractions` — what a run exchanges with the world.
* `Cpu16.RefinesSteps` — the answer of a run is the one of a number of single steps.

## Main results

* `Cpu16.runLoop_eq_some_iff` — the steps of a run go on to the first one after which it ends.
* `Cpu16.run_eq_some_iff`, `Cpu16.exists_run_iff` — what a run answers, and when it answers.
* `Cpu16.run_of_proceeds` — what it answers if nobody acts on the world.
* `Cpu16.run_refines_steps` — a run that ends is a sequence of single steps.
-/

universe u

namespace Cpu16

/-! ## Where a run ends -/

section Ends

variable {ε : Type u} (dev : Device (Session ε)) (sink : Sink (Session ε))

/-- Whether a run has to end after `k` steps: the last one did not let execution proceed, or the
control is not running after it. -/
def EndsAfter (m : Machine) (s : Session ε) (k : Nat) : Prop :=
  (stepTimes dev sink k m s).1.endsRun = true ∨
    (stepTimes dev sink k m s).2.2.control.isRunning = false

variable {dev sink} {m m' : Machine} {s : Session ε} {k n : Nat}

/-- Where a run ends does not depend on the status of the machine. -/
theorem endsAfter_congr (h : m.enterRun = m'.enterRun) (k : Nat) :
    EndsAfter dev sink m s k ↔ EndsAfter dev sink m' s k := by
  obtain ⟨ho, -, hs⟩ := stepTimes_congr dev sink h k s
  unfold EndsAfter
  rw [ho, hs]

/-- A run that has to end after `k` steps ends there, if it has come so far. -/
theorem isLeast_endsAfter_of_ends (h : EndsAfter dev sink m s k) :
    IsLeast {j | k ≤ j ∧ EndsAfter dev sink m s j} n ↔ n = k := by
  have hk : IsLeast {j | k ≤ j ∧ EndsAfter dev sink m s j} k := ⟨⟨le_rfl, h⟩, fun j hj => hj.1⟩
  constructor
  · intro hn
    exact hn.unique hk
  · rintro rfl
    exact hk

/-- A run that does not have to end after `k` steps ends later. -/
theorem isLeast_endsAfter_of_not_ends (h : ¬EndsAfter dev sink m s k) :
    IsLeast {j | k ≤ j ∧ EndsAfter dev sink m s j} n ↔
      IsLeast {j | k + 1 ≤ j ∧ EndsAfter dev sink m s j} n := by
  have hset : {j | k ≤ j ∧ EndsAfter dev sink m s j} =
      {j | k + 1 ≤ j ∧ EndsAfter dev sink m s j} := by
    ext j
    constructor
    · rintro ⟨hj, he⟩
      refine ⟨lt_of_le_of_ne hj ?_, he⟩
      rintro rfl
      exact h he
    · rintro ⟨hj, he⟩
      exact ⟨by omega, he⟩
  rw [hset]

/-- The answer of a run that has made `n` steps. -/
def answerAfter (dev : Device (Session ε)) (sink : Sink (Session ε)) (m : Machine)
    (s : Session ε) (n : Nat) : RunResult × Machine × Session ε :=
  (⟨n, (stepTimes dev sink n m s).1⟩, (stepTimes dev sink n m s).2)

/-- Where a run has to end after `k` steps, its answer is the one after `k` steps. -/
theorem exists_answerAfter_iff {b : Nat} {r : RunResult × Machine × Session ε} (hb : k ≤ b)
    (h : EndsAfter dev sink m s k) :
    (∃ n ≤ b, IsLeast {j | k ≤ j ∧ EndsAfter dev sink m s j} n ∧
      r = answerAfter dev sink m s n) ↔ answerAfter dev sink m s k = r := by
  simp only [isLeast_endsAfter_of_ends h]
  constructor
  · rintro ⟨n, -, rfl, rfl⟩
    rfl
  · rintro rfl
    exact ⟨k, hb, rfl, rfl⟩

/-- A run of which the control is not running makes no more steps. -/
theorem runLoop_of_not_running (h : s.control.isRunning = false) (fuel steps : Nat)
    (last : Outcome) (m : Machine) :
    runLoop dev sink fuel steps last m s = some (⟨steps, last⟩, m, s) := by
  cases fuel <;> simp [runLoop, h]

/-- So it ends after the steps that it has made. -/
theorem runLoop_eq_some_iff_of_not_running {r : RunResult × Machine × Session ε}
    (h : (stepTimes dev sink k m s).2.2.control.isRunning = false) (fuel : Nat) :
    runLoop dev sink fuel k (stepTimes dev sink k m s).1 (stepTimes dev sink k m s).2.1
        (stepTimes dev sink k m s).2.2 = some r ↔
      ∃ n ≤ k + fuel, IsLeast {j | k ≤ j ∧ EndsAfter dev sink m s j} n ∧
        r = answerAfter dev sink m s n := by
  rw [exists_answerAfter_iff (Nat.le_add_right k fuel) (.inr h), runLoop_of_not_running h,
    Option.some.injEq]
  rfl

/-- A run of which the control is running makes one more step, if the bound allows it. -/
theorem runLoop_stepTimes_of_running
    (h : (stepTimes dev sink k m s).2.2.control.isRunning = true) (fuel : Nat) :
    runLoop dev sink (fuel + 1) k (stepTimes dev sink k m s).1 (stepTimes dev sink k m s).2.1
        (stepTimes dev sink k m s).2.2 =
      if (stepTimes dev sink (k + 1) m s).1.endsRun then some (answerAfter dev sink m s (k + 1))
      else
        runLoop dev sink fuel (k + 1) (stepTimes dev sink (k + 1) m s).1
          (stepTimes dev sink (k + 1) m s).2.1 (stepTimes dev sink (k + 1) m s).2.2 := by
  rw [runLoop, if_pos h]
  rfl

/-- **The steps of a run.** After `k` steps of which the last one let execution proceed, the steps
of a run go on to the first number of steps after which a run has to end, if the bound allows it.

**Proof sketch.** Induction on the bound. If the control is not running, the run ends after `k`
steps. If it is, the run does not end there; the next step of the run is step `k + 1`, and either
the run ends after it or the induction hypothesis applies. -/
theorem runLoop_eq_some_iff {fuel : Nat} {r : RunResult × Machine × Session ε}
    (hk : (stepTimes dev sink k m s).1.endsRun = false) :
    runLoop dev sink fuel k (stepTimes dev sink k m s).1 (stepTimes dev sink k m s).2.1
        (stepTimes dev sink k m s).2.2 = some r ↔
      ∃ n ≤ k + fuel, IsLeast {j | k ≤ j ∧ EndsAfter dev sink m s j} n ∧
        r = answerAfter dev sink m s n := by
  induction fuel generalizing k with
  | zero =>
    cases hc : (stepTimes dev sink k m s).2.2.control.isRunning with
    | false => exact runLoop_eq_some_iff_of_not_running hc 0
    | true =>
      -- The run would go on, but the bound is used up.
      have hnot : ¬EndsAfter dev sink m s k := by simp [EndsAfter, hk, hc]
      rw [runLoop, if_pos hc]
      constructor
      · intro hr
        exact absurd hr.symm (Option.some_ne_none r)
      · rintro ⟨n, hn, hleast, -⟩
        obtain rfl : n = k := le_antisymm hn hleast.1.1
        exact absurd hleast.1.2 hnot
  | succ fuel ih =>
    cases hc : (stepTimes dev sink k m s).2.2.control.isRunning with
    | false => exact runLoop_eq_some_iff_of_not_running hc (fuel + 1)
    | true =>
      have hnot : ¬EndsAfter dev sink m s k := by simp [EndsAfter, hk, hc]
      have hb : k + (fuel + 1) = k + 1 + fuel := by omega
      simp only [isLeast_endsAfter_of_not_ends hnot, hb]
      rw [runLoop_stepTimes_of_running hc]
      cases he : (stepTimes dev sink (k + 1) m s).1.endsRun with
      | true =>
        rw [exists_answerAfter_iff (Nat.le_add_right (k + 1) fuel) (.inl he), if_pos rfl,
          Option.some.injEq]
      | false =>
        rw [if_neg Bool.false_ne_true]
        exact ih he

end Ends

/-! ## What a run answers -/

namespace Session

variable {ε : Type u}

/-- The world at the start of a run. -/
def armed (s : Session ε) : Session ε :=
  { s with control := s.control.arm }

/-- The world at the end of a run. -/
def finished (s : Session ε) : Session ε :=
  { s with control := s.control.finish }

/-- The world of a run with room for a log. -/
def withLog : Session (ε × List Interaction) ≃ Session ε × List Interaction where
  toFun t := (⟨t.control, t.env.1⟩, t.env.2)
  invFun p := ⟨p.1.control, (p.1.env, p.2)⟩
  left_inv _ := rfl
  right_inv _ := rfl

end Session

section Run

variable {ε : Type u} {dev : Device (Session ε)} {sink : Sink (Session ε)} {fuel : Nat}
  {m : Machine} {s : Session ε} {r : RunResult × Machine × Session ε}

/-- A run on a control without a pending stop makes its steps and ends. -/
theorem run_of_not_cancelled (hs : s.control.phase ≠ .cancelled) :
    run dev sink fuel m s = (runLoop dev sink fuel 0 .proceed m.enterRun s.armed).map fun r =>
      (r.1, r.2.1.leaveRun, r.2.2.finished) := by
  have hstart : s.control.start = (true, s.control.arm) := by
    unfold Control.start
    cases hp : s.control.phase with
    | idle | armed => rfl
    | cancelled => exact absurd hp hs
  have harmed : { s with control := s.control.arm } = s.armed := rfl
  unfold run
  rw [hstart]
  simp only [harmed]
  cases runLoop dev sink fuel 0 .proceed m.enterRun s.armed <;> rfl

/-- A run on a control with a pending stop makes no step and touches nothing but the control. -/
theorem run_of_cancelled (hs : s.control.phase = .cancelled) :
    run dev sink fuel m s = some (⟨0, .proceed⟩, m, s.finished) := by
  have hstart : s.control.start = (false, s.control) := by simp [Control.start, hs]
  unfold run
  rw [hstart]
  rfl

/-- **What a run answers.** A run on a control without a pending stop answers after the first
number of steps, at least one, after which it has to end, if the bound allows it. -/
theorem run_eq_some_iff (hs : s.control.phase ≠ .cancelled) :
    run dev sink fuel m s = some r ↔
      ∃ n ≤ fuel, IsLeast {k | 1 ≤ k ∧ EndsAfter dev sink m s.armed k} n ∧
        r = (⟨n, (stepTimes dev sink n m.enterRun s.armed).1⟩,
          (stepTimes dev sink n m.enterRun s.armed).2.1.leaveRun,
          (stepTimes dev sink n m.enterRun s.armed).2.2.finished) := by
  -- A control that has just been armed is running, so the run does not end before its first step.
  have hnot : ¬EndsAfter dev sink m.enterRun s.armed 0 := by
    simp [EndsAfter, stepTimes, Outcome.endsRun, Session.armed, Control.isRunning, Control.arm]
  have hcongr : ∀ k, EndsAfter dev sink m.enterRun s.armed k ↔ EndsAfter dev sink m s.armed k :=
    fun k => endsAfter_congr m.enterRun_enterRun k
  have hloop : ∀ r', runLoop dev sink fuel 0 .proceed m.enterRun s.armed = some r' ↔
      ∃ n ≤ 0 + fuel, IsLeast {k | 0 ≤ k ∧ EndsAfter dev sink m.enterRun s.armed k} n ∧
        r' = answerAfter dev sink m.enterRun s.armed n :=
    fun r' => runLoop_eq_some_iff rfl
  simp only [isLeast_endsAfter_of_not_ends hnot] at hloop
  simp only [hcongr, Nat.zero_add] at hloop
  rw [run_of_not_cancelled hs, Option.map_eq_some_iff]
  constructor
  · rintro ⟨r', hr', rfl⟩
    obtain ⟨n, hn, hleast, rfl⟩ := (hloop r').mp hr'
    exact ⟨n, hn, hleast, rfl⟩
  · rintro ⟨n, hn, hleast, rfl⟩
    exact ⟨_, (hloop _).mpr ⟨n, hn, hleast, rfl⟩, rfl⟩

/-- A run on a control without a pending stop ends exactly if it has to end at some time. -/
theorem exists_run_iff (hs : s.control.phase ≠ .cancelled) :
    (∃ fuel r, run dev sink fuel m s = some r) ↔ ∃ k, 1 ≤ k ∧ EndsAfter dev sink m s.armed k := by
  constructor
  · rintro ⟨fuel, r, hr⟩
    obtain ⟨n, -, hleast, -⟩ := (run_eq_some_iff hs).mp hr
    exact ⟨n, hleast.1⟩
  · intro h
    classical
    refine ⟨Nat.find h, _, (run_eq_some_iff hs).mpr ⟨Nat.find h, le_rfl, ?_, rfl⟩⟩
    exact ⟨Nat.find_spec h, fun j hj => Nat.find_min' h hj⟩

/-- **A run with the silent device and without a trace** ends after the first step that does not let
execution proceed.

**Proof sketch.** Nobody acts on the world, so the control goes on running. -/
theorem run_of_proceeds (hs : s.control.phase ≠ .cancelled) {n : Nat}
    (hgo : ∀ k ≤ n, outcomeAfter Device.silent Sink.ignore k m.enterRun s.armed = .proceed)
    (hend : (outcomeAfter Device.silent Sink.ignore (n + 1) m.enterRun s.armed).endsRun = true) :
    run Device.silent Sink.ignore (n + 1) m s =
      some (⟨n + 1, outcomeAfter Device.silent Sink.ignore (n + 1) m.enterRun s.armed⟩,
        (machineAfter Device.silent Sink.ignore (n + 1) m.enterRun s.armed).leaveRun,
        s.armed.finished) := by
  have hworld := world_stepTimes_silent (n + 1) m.enterRun s.armed
  have hnot : ∀ k ≤ n, ¬EndsAfter Device.silent Sink.ignore m.enterRun s.armed k := by
    rintro k hk (ho | hc)
    · rw [show (stepTimes Device.silent Sink.ignore k m.enterRun s.armed).1 = _ from hgo k hk] at ho
      exact Bool.noConfusion ho
    · rw [world_stepTimes_silent] at hc
      exact Bool.noConfusion hc
  have hleast : IsLeast {k | 1 ≤ k ∧ EndsAfter Device.silent Sink.ignore m s.armed k} (n + 1) := by
    refine ⟨⟨Nat.succ_pos n, (endsAfter_congr m.enterRun_enterRun _).mp (.inl hend)⟩, ?_⟩
    intro j hj
    by_contra hlt
    exact hnot j (by omega) ((endsAfter_congr m.enterRun_enterRun j).mpr hj.2)
  refine (run_eq_some_iff hs).mpr ⟨n + 1, le_rfl, hleast, ?_⟩
  rw [hworld]
  rfl

/-! ## What a run exchanges with the world -/

/-- What a run exchanges with the world, in order, if it ends within its bound: the log of a
device and a sink that keep one. -/
def runInteractions (dev : Device (Session ε)) (sink : Sink (Session ε)) (fuel : Nat)
    (m : Machine) (s : Session ε) : Option (List Interaction) :=
  (run (dev.logged Session.withLog) (sink.logged Session.withLog) fuel m
    (Session.withLog.symm (s, []))).map fun r => (Session.withLog r.2.2).2

/-- A log does not change where a run ends. -/
theorem endsAfter_logged (m : Machine) (s : Session ε) (log : List Interaction) (k : Nat) :
    EndsAfter (dev.logged Session.withLog) (sink.logged Session.withLog) m
      (Session.withLog.symm (s, log)) k ↔ EndsAfter dev sink m s k := by
  unfold EndsAfter
  rw [stepTimes_logged]
  rfl

/-- **What a run exchanges.** A run on a control without a pending stop exchanges with the world
what its steps exchange with it.

**Proof sketch.** With a log the run ends after the same number of steps (`endsAfter_logged`), and
what these steps have added to the log is what they exchange (`stepTimes_logged`). -/
theorem runInteractions_eq (hs : s.control.phase ≠ .cancelled)
    (h : run dev sink fuel m s = some r) :
    runInteractions dev sink fuel m s = some (interactionsTimes dev sink r.1.steps m s.armed) := by
  obtain ⟨n, hn, hleast, rfl⟩ := (run_eq_some_iff hs).mp h
  have hleast' : IsLeast {k | 1 ≤ k ∧ EndsAfter (dev.logged Session.withLog)
      (sink.logged Session.withLog) m (Session.withLog.symm (s.armed, [])) k} n := by
    simp only [endsAfter_logged]
    exact hleast
  have hs' : (Session.withLog.symm (s, [])).control.phase ≠ .cancelled := hs
  have hlog : run (dev.logged Session.withLog) (sink.logged Session.withLog) fuel m
      (Session.withLog.symm (s, [])) = some _ :=
    (run_eq_some_iff hs').mpr ⟨n, hn, hleast', rfl⟩
  have hsteps := stepTimes_logged Session.withLog dev sink n m.enterRun s.armed []
  unfold runInteractions
  rw [hlog]
  show some ((Session.withLog (stepTimes _ _ n m.enterRun
    (Session.withLog.symm (s.armed, []))).2.2).2) = _
  rw [hsteps, Equiv.apply_symm_apply, List.nil_append]
  exact congrArg some (interactionsTimes_congr dev sink m.enterRun_enterRun n s.armed)

/-- A run on a control with a pending stop exchanges nothing. -/
theorem runInteractions_of_cancelled (hs : s.control.phase = .cancelled) :
    runInteractions dev sink fuel m s = some [] := by
  have hs' : (Session.withLog.symm (s, [])).control.phase = .cancelled := hs
  unfold runInteractions
  rw [run_of_cancelled hs']
  rfl

/-! ## The refinement -/

/-- The answer `r` of a run, and what it exchanges with the world, are those of `n` single steps
from the machine `m`. The first of them is made in the world `s` with its control armed. -/
structure RefinesSteps (dev : Device (Session ε)) (sink : Sink (Session ε)) (m : Machine)
    (s : Session ε) (n : Nat) (r : RunResult × Machine × Session ε)
    (exchanged : Option (List Interaction)) : Prop where
  /-- There is at least one step, and the last one is the first after which a run has to end. -/
  least : IsLeast {k | 1 ≤ k ∧ EndsAfter dev sink m s.armed k} n
  /-- The number of steps is answered. -/
  steps : r.1.steps = n
  /-- The outcome of the last step is answered. -/
  final : r.1.final = (stepTimes dev sink n m s.armed).1
  /-- The machine is the one after the steps, unless another run was already on. -/
  machine : m.status ≠ .running → r.2.1 = (stepTimes dev sink n m s.armed).2.1
  /-- The world is the one after the steps, but for the control. -/
  world : r.2.2 = (stepTimes dev sink n m s.armed).2.2.finished
  /-- The control is idle. -/
  idle : r.2.2.control.phase = .idle
  /-- The calls of the device and the reports are those of the steps, in order. -/
  interactions : exchanged = some (interactionsTimes dev sink n m s.armed)

/-- **A run is a sequence of steps.** From every machine and world, for every device and sink, a
run that ends is a sequence of single steps up to the first one after which a run has to end, and
it does end if there is such a step. If a stop was pending, it makes no step, and touches nothing
but the control.

**Proof sketch.** The answer of a run is known in terms of steps within a run (`run_eq_some_iff`).
They go as steps without a run, since the status plays no role (`stepTimes_congr`), and once the
run has ended the status shows nothing of it either (`leaveRun_stepTimes_enterRun`). -/
theorem run_refines_steps (dev : Device (Session ε)) (sink : Sink (Session ε)) (m : Machine)
    (s : Session ε) :
    (s.control.phase ≠ .cancelled →
        (∀ fuel r, run dev sink fuel m s = some r →
          ∃ n ≤ fuel, RefinesSteps dev sink m s n r (runInteractions dev sink fuel m s)) ∧
        ((∃ k, 1 ≤ k ∧ EndsAfter dev sink m s.armed k) →
          ∃ fuel r, run dev sink fuel m s = some r)) ∧
      (s.control.phase = .cancelled → ∀ fuel,
        run dev sink fuel m s = some (⟨0, .proceed⟩, m, s.finished) ∧
          runInteractions dev sink fuel m s = some []) := by
  constructor
  · intro hs
    refine ⟨?_, (exists_run_iff hs).mpr⟩
    intro fuel r h
    have hlog := runInteractions_eq hs h
    obtain ⟨n, hn, hleast, rfl⟩ := (run_eq_some_iff hs).mp h
    obtain ⟨ho, -, hw⟩ := stepTimes_congr dev sink m.enterRun_enterRun n s.armed
    refine ⟨n, hn, hleast, rfl, ho, ?_, congrArg Session.finished hw, rfl, hlog⟩
    intro hm
    obtain ⟨k, rfl⟩ : ∃ k, n = k + 1 := ⟨n - 1, by have := hleast.1.1; omega⟩
    exact leaveRun_stepTimes_enterRun dev sink hm k s.armed
  · intro hs fuel
    exact ⟨run_of_cancelled hs, runInteractions_of_cancelled hs⟩

end Run

/-- A machine with a `nop` and a `halt`. -/
def Machine.nopHalt : Machine :=
  { memory := ⟨#[0x0000, 0x3C00]⟩ }

/-- The run of the two instructions ends after two steps. -/
theorem run_refines_steps_nopHalt :
    ∃ n ≤ 5, RefinesSteps Device.silent Sink.ignore .nopHalt ⟨{}, ()⟩ n
      (⟨2, .stopped .halt⟩,
        { Machine.nopHalt with regs := { pc := 1 }, count := 2, status := .halted }, ⟨{}, ()⟩)
      (runInteractions Device.silent Sink.ignore 5 .nopHalt ⟨{}, ()⟩) :=
  ((run_refines_steps Device.silent Sink.ignore .nopHalt ⟨{}, ()⟩).1 (by decide)).1 5 _ rfl

end Cpu16
