import Mathlib.Logic.Equiv.Defs
import Cpu16.Proofs.Step.Cases

set_option relaxedAutoImplicit false
set_option autoImplicit false

/-!
# What a step exchanges with the world

The machine reaches the world around it only through calls of its device and reports to its
sink. A device and a sink can be made to keep a log of both, in a world that has room for one;
the log never changes what they do. The interactions of a step are what the step adds to it.

## Main definitions

* `Cpu16.Interaction` — a call of the device with its answer, or a report.
* `Cpu16.Device.logged`, `Cpu16.Sink.logged` — a device and a sink that keep a log.
* `Cpu16.interactions`, `Cpu16.reports` — what a step exchanges, and the reports among it.

## Main results

* `Cpu16.step_logged` — a step with a log is the step without one, and appends its interactions.
* `Cpu16.reports_of_refused`, `Cpu16.reports_of_failed`, `Cpu16.reports_of_succeeded` — the
  reports of the three ways of a step.

## Implementation notes

A world with a log is a world `τ` with an equivalence `τ ≃ σ × List Interaction`, and not
literally a pair, because the world of a run has its log inside a `Session`.
-/

universe u

namespace Cpu16

/-! ## Interactions -/

/-- One exchange of the machine with the world around it. -/
inductive Interaction
  /-- The device was polled for a key and answered. -/
  | polled (answer : Except DeviceError Byte)
  /-- The device was asked to draw a character at a position and answered. -/
  | drew (character position : Word) (answer : Except DeviceError Unit)
  /-- The sink received a report. -/
  | reported (event : Event)

/-- The report of an interaction, if it is one. -/
def Interaction.event? : Interaction → Option Event
  | reported event => some event
  | polled _ | drew _ _ _ => none

section Logged

variable {σ τ : Type u}

/-- The device in a world with a log, which enters every call and its answer there. -/
def Device.logged (e : τ ≃ σ × List Interaction) (dev : Device σ) : Device τ where
  poll t :=
    let (answer, s) := dev.poll (e t).1
    (answer, e.symm (s, (e t).2 ++ [.polled answer]))
  draw character position t :=
    let (answer, s) := dev.draw character position (e t).1
    (answer, e.symm (s, (e t).2 ++ [.drew character position answer]))

/-- The sink in a world with a log, which enters every report there. -/
def Sink.logged (e : τ ≃ σ × List Interaction) (sink : Sink σ) : Sink τ :=
  fun event t => e.symm (sink event (e t).1, (e t).2 ++ [.reported event])

/-- The calls of the device that an exchange makes. -/
def Device.calls (dev : Device σ) : Exchange → σ → List Interaction
  | .none, _ => []
  | .poll, s => [.polled (dev.poll s).1]
  | .draw character position, s => [.drew character position (dev.draw character position s).1]

/-- What a step exchanges with the world, in order. -/
def interactions (dev : Device σ) (sink : Sink σ) (m : Machine) (s : σ) : List Interaction :=
  (step (dev.logged (.refl _)) (sink.logged (.refl _)) m (s, [])).2.2.2

/-- What a step reports, in order. -/
def reports (dev : Device σ) (sink : Sink σ) (m : Machine) (s : σ) : List Event :=
  (interactions dev sink m s).filterMap Interaction.event?

/-! ## Steps that keep a log -/

variable (e : τ ≃ σ × List Interaction) (dev : Device σ) (sink : Sink σ)

/-- Reports to a sink that keeps a log are entered there in order. -/
theorem Sink.reportAll_logged (events : List Event) (s : σ) (log : List Interaction) :
    (sink.logged e).reportAll events (e.symm (s, log)) =
      e.symm (sink.reportAll events s, log ++ events.map .reported) := by
  induction events generalizing s log with
  | nil => simp [reportAll]
  | cons event events ih =>
    have hcons : ∀ {ρ : Type u} (k : Sink ρ) (r : ρ),
        k.reportAll (event :: events) r = k.reportAll events (k event r) := fun _ _ => rfl
    rw [hcons, hcons, logged, Equiv.apply_symm_apply, ih]
    simp

/-- An exchange of a device that keeps a log is entered there. -/
theorem Device.perform_logged (x : Exchange) (s : σ) (log : List Interaction) :
    (dev.logged e).perform x (e.symm (s, log)) =
      ((dev.perform x s).1, e.symm ((dev.perform x s).2, log ++ dev.calls x s)) := by
  cases x with
  | none => simp [perform, calls]
  | poll =>
    rcases h : dev.poll s with ⟨answer, s₁⟩
    cases answer <;> simp [perform, calls, logged, h]
  | draw character position =>
    rcases h : dev.draw character position s with ⟨answer, s₁⟩
    cases answer <;> simp [perform, calls, logged, h]

/-- The calls of the device during an instruction are entered in the log. -/
theorem execute_logged (op : Operation) (m : Machine) (s : σ) (log : List Interaction) :
    execute (dev.logged e) op m (e.symm (s, log)) =
      ((execute dev op m s).1,
        e.symm ((execute dev op m s).2, log ++ dev.calls (op.exchange m.regs) s)) := by
  unfold execute
  rw [Device.perform_logged]
  rcases dev.perform (op.exchange m.regs) s with ⟨reply, s₁⟩
  cases reply <;> rfl

/-- What an attempt at an instruction exchanges with the world: the start of the instruction and
the calls of the device. -/
def attemptInteractions (m : Machine) (s : σ) : List Interaction :=
  match m.fetch with
  | .error _ => []
  | .ok i =>
    let start := Event.started m.regs.pc i.word
    .reported start :: dev.calls (i.operation.exchange m.regs) (sink start s)

/-- An attempt at an instruction with a log is the attempt without one. -/
theorem attempt_logged (m : Machine) (s : σ) (log : List Interaction) :
    attempt (dev.logged e) (sink.logged e) m (e.symm (s, log)) =
      ((attempt dev sink m s).1,
        e.symm ((attempt dev sink m s).2, log ++ attemptInteractions dev sink m s)) := by
  unfold attempt attemptInteractions
  cases m.fetch with
  | error f => simp
  | ok i =>
    simp only [Sink.logged, Equiv.apply_symm_apply, execute_logged]
    simp

/-- What a step adds to a log, whatever the world that has the log. -/
theorem step_logged_eq (m : Machine) (s : σ) (log : List Interaction) :
    step (dev.logged e) (sink.logged e) m (e.symm (s, log)) =
      ((step dev sink m s).1, (step dev sink m s).2.1,
        e.symm ((step dev sink m s).2.2, log ++ (attemptInteractions dev sink m s ++
          (((attempt dev sink m s).1.conclude m.regs.pc).events.map .reported)))) := by
  unfold step
  simp only [attempt_logged, Sink.reportAll_logged, List.append_assoc]

/-- The interactions of a step are the ones of the attempt and the reports that conclude it. -/
theorem interactions_eq (m : Machine) (s : σ) :
    interactions dev sink m s = attemptInteractions dev sink m s ++
      ((attempt dev sink m s).1.conclude m.regs.pc).events.map .reported := by
  have h := step_logged_eq (.refl (σ × List Interaction)) dev sink m s []
  simpa [interactions] using congrArg (fun r => r.2.2.2) h

/-- **A log changes nothing.** A step of a device and a sink that keep a log is the step of the
device and the sink themselves, and appends its interactions to the log. -/
theorem step_logged (m : Machine) (s : σ) (log : List Interaction) :
    step (dev.logged e) (sink.logged e) m (e.symm (s, log)) =
      ((step dev sink m s).1, (step dev sink m s).2.1,
        e.symm ((step dev sink m s).2.2, log ++ interactions dev sink m s)) := by
  rw [step_logged_eq, interactions_eq]

end Logged

/-! ## The reports of the three ways of a step -/

section Reports

variable {σ : Type u} {dev : Device σ} {sink : Sink σ} {m : Machine} {s : σ}

/-- A call of the device is no report. -/
theorem Device.filterMap_event?_calls (dev : Device σ) (x : Exchange) (s : σ) :
    (dev.calls x s).filterMap Interaction.event? = [] := by
  cases x <;> rfl

/-- A list of reports consists of these reports. -/
theorem filterMap_event?_reported (events : List Event) :
    (events.map Interaction.reported).filterMap Interaction.event? = events := by
  simp [List.filterMap_map, Function.comp_def, Interaction.event?]

/-- Where nothing is fetched, only the fault is reported. -/
theorem reports_of_refused {f : Fault} (hf : m.fetch = .error f) :
    reports dev sink m s = [.faulted f m.regs.pc] := by
  rw [reports, interactions_eq, List.filterMap_append, filterMap_event?_reported]
  simp [attemptInteractions, attempt, hf, Machine.refuse, Attempt.conclude, Outcome.events]

/-- An instruction that fails is reported with its start, its end and the fault. -/
theorem reports_of_failed {i : Instruction} {f : Fault} {s₁ : σ} (hf : m.fetch = .ok i)
    (hx : execute dev i.operation m (sink (.started m.regs.pc i.word) s) = (.error f, s₁)) :
    reports dev sink m s =
      [.started m.regs.pc i.word, .retired m.regs.pc (m.count + 1), .faulted f m.regs.pc] := by
  rw [reports, interactions_eq, List.filterMap_append, filterMap_event?_reported]
  simp [attemptInteractions, attempt, hf, hx, Machine.retire, Attempt.conclude, Outcome.events,
    Interaction.event?, Device.filterMap_event?_calls, Machine.tick, Machine.setPc]

/-- An instruction that succeeds is reported with its start, its memory write, its end and its
stop. -/
theorem reports_of_succeeded {i : Instruction} {e : Effects} {s₁ : σ} (hf : m.fetch = .ok i)
    (hx : execute dev i.operation m (sink (.started m.regs.pc i.word) s) = (.ok e, s₁)) :
    reports dev sink m s =
      .started m.regs.pc i.word :: (m.writeEvents e ++ .retired m.regs.pc (m.count + 1) ::
        (Outcome.ofStop e.stop).events m.regs.pc) := by
  rw [reports, interactions_eq, List.filterMap_append, filterMap_event?_reported]
  simp [attemptInteractions, attempt, hf, hx, Machine.retire, Attempt.conclude,
    Interaction.event?, Device.filterMap_event?_calls, Machine.tick, Machine.commit]

end Reports

end Cpu16
