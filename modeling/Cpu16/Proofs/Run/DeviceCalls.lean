import Cpu16.Proofs.Run.Refinement
import Cpu16.Proofs.Run.Twin
import Cpu16.Proofs.Step.FaultTable

set_option relaxedAutoImplicit false
set_option autoImplicit false

/-!
# No call of the device is lost

What the device does cannot be taken back, so it must not be called by a step that comes to
nothing. A step calls the device exactly once if it fetches one of the two instructions that ask for
it, and not at all otherwise. The answer of the device then decides how the step ends: after the
call nothing else can fail, since an instruction that was fetched is never at the end of the address
space. So the trace shows all calls of the device, in order, in the starts of these instructions.

## Main definitions

* `Cpu16.AnsweredBy` — how a step ends that has called the device, by the answer.
* `Cpu16.CallsDevice` — which calls of the device a step makes, and what comes of them.
* `Cpu16.CallsFollowStarts` — the calls in a log are those of the instructions that have started.

## Main results

* `Cpu16.callsDevice_step` — every step does so.
* `Cpu16.callsFollowStarts_interactionsTimes`, `Cpu16.callsFollowStarts_of_runInteractions` — the
  calls of some steps and of a run are the ones that the trace shows.
-/

universe u v

namespace Cpu16

/-! ## One call -/

/-- The step from `m` to `m'` that ends with `o` has had the given answer of the device. It succeeds
exactly if the device does, and then `general` tells its general registers; otherwise it raises the
fault of the failure, and the general registers are as before. In any case it only goes on to the
next word. -/
structure AnsweredBy {α : Type} (m : Machine) (answer : Except DeviceError α)
    (general : α → Register → Word) (o : Outcome) (m' : Machine) : Prop where
  /-- The step lets execution proceed if the device has answered. -/
  succeeded : ∀ a, answer = .ok a → o = .proceed ∧ ∀ r, m'.regs.get r = general a r
  /-- It faults if the device has failed. -/
  failed : ∀ e, answer = .error e → o = .faulted e.fault ∧ ∀ r, m'.regs.get r = m.regs.get r
  /-- The program counter is at the next word. -/
  pc : m'.regs.pc = m.regs.pc + 1
  /-- The stack pointer is as before. -/
  sp : m'.regs.sp = m.regs.sp
  /-- The flag register is as before. -/
  flags : m'.regs.flags = m.regs.flags
  /-- Live memory is as before. -/
  memory : m'.memory = m.memory

section Step

variable {σ : Type u} {dev : Device σ} {sink : Sink σ} {m : Machine} {s : σ} {i : Instruction}

/-- An instruction that was fetched is followed by a word of the address space. -/
theorem pcPast_one (hf : m.fetch = .ok i) : pcPast m.regs.pc 1 = m.regs.pc + 1 := by
  obtain ⟨hlt, -, -⟩ := Machine.fetch_eq_ok_iff.mp hf
  have hpast := toNat_pcPast m.regs.pc 1
  simp only [lastAddress] at hlt
  bv_omega

/-- The effects of an instruction of one word that writes no more than a general register. -/
def Effects.writing (pc : Word) (dest : Option (Register × Word)) : Effects :=
  { Effects.fallThrough pc 1 with dest := dest }

/-- **After the call nothing else can fail.** An instruction of one word that asks the device, and
stages no more than a general register, ends by the answer of the device. -/
theorem AnsweredBy.of_step {α : Type} {answer : Except DeviceError α} {reply : α → Word}
    {dest : α → Option (Register × Word)} (hf : m.fetch = .ok i) (hsize : i.size = 1)
    (hperform : (dev.perform (i.operation.exchange m.regs)
      (sink (.started m.regs.pc i.word) s)).1 = (answer.map reply).mapError DeviceError.fault)
    (hstage : ∀ a, i.operation.stage m (reply a) = .ok (.writing m.regs.pc (dest a))) :
    AnsweredBy m answer (fun a r => (m.regs.commit (.writing m.regs.pc (dest a))).get r)
      (step dev sink m s).1 (step dev sink m s).2.1 := by
  rcases hp : dev.perform (i.operation.exchange m.regs) (sink (.started m.regs.pc i.word) s) with
    ⟨r, s₁⟩
  rw [hp] at hperform
  cases answer with
  | ok a =>
    obtain rfl : r = .ok (reply a) := hperform
    -- Past one word the program counter is still in range, and the stack pointer stays.
    have hx := execute_of_goesOn hf hp (hstage a) rfl rfl
    have hregs : (step dev sink m s).2.1.regs = m.regs.commit (.writing m.regs.pc (dest a)) := by
      rw [step_of_succeeded hf hx]
      exact Machine.regs_record _ _ _
    have hmemory : (step dev sink m s).2.1.memory = m.memory := by
      rw [step_of_succeeded hf hx]
      exact Machine.memory_record _ _ _
    have houtcome : (step dev sink m s).1 = .proceed := by
      rw [step_of_succeeded hf hx]
      rfl
    rw [houtcome]
    refine ⟨?_, ?_, ?_, ?_, ?_, hmemory⟩
    · intro a' ha
      obtain rfl := Except.ok.inj ha
      exact ⟨rfl, fun r => by rw [hregs]⟩
    · intro e he
      cases he
    all_goals rw [hregs]
    · rfl
    · rfl
    · exact Flags.ofWord_toWord m.regs.flags
  | error e =>
    obtain rfl : r = .error e.fault := hperform
    have hx : execute dev i.operation m (sink (.started m.regs.pc i.word) s) =
        (.error e.fault, s₁) := by
      unfold execute
      rw [hp]
    rw [step_of_failed hf hx, hsize, pcPast_one hf]
    refine ⟨?_, ?_, rfl, rfl, rfl, rfl⟩
    · intro a ha
      cases ha
    · intro e' he
      obtain rfl := Except.error.inj he
      exact ⟨rfl, fun r => rfl⟩

end Step

/-! ## Every step -/

section CallsDevice

variable {σ : Type u} (dev : Device σ) (sink : Sink σ) (m : Machine) (s : σ)

/-- Which calls of the device a step makes, and what comes of them. A call is made in the world in
which the start of the instruction has been reported. -/
structure CallsDevice : Prop where
  /-- An input instruction polls for a key once. If there is an answer, its register becomes the key
  as a word. -/
  input : ∀ i, m.fetch = .ok i → i.opcode = .inchar →
    stepCalls dev sink m s = [.polled (dev.poll (sink (.started m.regs.pc i.word) s)).1] ∧
      AnsweredBy m (dev.poll (sink (.started m.regs.pc i.word) s)).1
        (fun key r => if r = i.rd then key.setWidth 16 else m.regs.get r)
        (step dev sink m s).1 (step dev sink m s).2.1
  /-- An output instruction draws once, the character in its first register at the position in its
  second one. No register is written. -/
  output : ∀ i, m.fetch = .ok i → i.opcode = .outchar →
    stepCalls dev sink m s = [.drew (m.regs.get i.rd) (m.regs.get i.rs1)
        (dev.draw (m.regs.get i.rd) (m.regs.get i.rs1) (sink (.started m.regs.pc i.word) s)).1] ∧
      AnsweredBy m
        (dev.draw (m.regs.get i.rd) (m.regs.get i.rs1) (sink (.started m.regs.pc i.word) s)).1
        (fun _ r => m.regs.get r) (step dev sink m s).1 (step dev sink m s).2.1
  /-- No other step calls the device, whether it fetches anything or not. -/
  others : (∀ i, m.fetch = .ok i → i.opcode ≠ .inchar ∧ i.opcode ≠ .outchar) →
    stepCalls dev sink m s = []

/-- **No call of the device is lost**, in any step.

**Proof sketch.** By the instruction that is fetched. The two that ask the device stage nothing that
could fail (`AnsweredBy.of_step`); all others ask for nothing. -/
theorem callsDevice_step : CallsDevice dev sink m s where
  input i hf ho := by
    have hop : i.operation = .input i.rd := by
      unfold Instruction.operation
      rw [ho]
    have hsize : i.size = 1 := by
      rw [Instruction.size, ho]
      rfl
    have hperform : (dev.perform (i.operation.exchange m.regs)
        (sink (.started m.regs.pc i.word) s)).1 =
          ((dev.poll (sink (.started m.regs.pc i.word) s)).1.map (BitVec.setWidth 16)).mapError
            DeviceError.fault := by
      rw [hop]
      exact dev.fst_perform_poll _
    have hstage : ∀ key : Byte, i.operation.stage m (key.setWidth 16) =
        .ok (.writing m.regs.pc (some (i.rd, key.setWidth 16))) := by
      intro key
      rw [hop]
      rfl
    have hanswered := AnsweredBy.of_step hf hsize hperform hstage
    simp only [Registers.get_commit] at hanswered
    refine ⟨?_, hanswered⟩
    rw [stepCalls_eq, hf]
    simp only [hop]
    rfl
  output i hf ho := by
    have hop : i.operation = .output i.rd i.rs1 := by
      unfold Instruction.operation
      rw [ho]
    have hsize : i.size = 1 := by
      rw [Instruction.size, ho]
      rfl
    have hperform : (dev.perform (i.operation.exchange m.regs)
        (sink (.started m.regs.pc i.word) s)).1 =
          ((dev.draw (m.regs.get i.rd) (m.regs.get i.rs1)
            (sink (.started m.regs.pc i.word) s)).1.map fun _ => 0).mapError DeviceError.fault := by
      rw [hop]
      exact dev.fst_perform_draw _ _ _
    have hstage : ∀ _ : Unit, i.operation.stage m 0 = .ok (.writing m.regs.pc none) := by
      intro _
      rw [hop]
      rfl
    have hanswered := AnsweredBy.of_step hf hsize hperform hstage
    simp only [Registers.get_commit] at hanswered
    refine ⟨?_, hanswered⟩
    rw [stepCalls_eq, hf]
    simp only [hop]
    rfl
  others h := by
    rw [stepCalls_eq]
    cases hf : m.fetch with
    | error f => rfl
    | ok i =>
      obtain ⟨hin, hout⟩ := h i hf
      -- Only the two codes that `h` excludes ask the device for anything.
      have hnone : i.operation.exchange m.regs = .none := by
        rw [i.exchange_operation]
        cases ho : i.opcode <;> simp_all
      simp only [hnone]
      rfl

end CallsDevice

/-! ## The trace shows all calls -/

/-- The operation that asks for a call of the device. -/
def Interaction.asker? : Interaction → Option Opcode
  | polled _ => some .inchar
  | drew _ _ _ => some .outchar
  | reported _ => none

/-- The operation of an instruction that has started, if it asks for a call of the device. -/
def Event.asker? : Event → Option Opcode
  | started _ w => (Opcode.ofWord? w).filter fun o => o = .inchar ∨ o = .outchar
  | retired _ _ | wrote _ _ | stopped _ _ | faulted _ _ => none

/-- The calls of the device in a log are, in order, those of the instructions that have started
according to the reports in it. -/
def CallsFollowStarts (log : List Interaction) : Prop :=
  log.filterMap Interaction.asker? = (log.filterMap Interaction.event?).filterMap Event.asker?

namespace CallsFollowStarts

/-- An empty log is in order. -/
theorem nil : CallsFollowStarts [] := rfl

/-- Two logs that are in order are so one after the other. -/
theorem append {log log' : List Interaction} (h : CallsFollowStarts log)
    (h' : CallsFollowStarts log') : CallsFollowStarts (log ++ log') := by
  unfold CallsFollowStarts at *
  rw [List.filterMap_append, List.filterMap_append, List.filterMap_append, h, h']

/-- Reports of anything but starts make no difference. -/
theorem reported {events : List Event} (h : ∀ event ∈ events, event.asker? = none) :
    CallsFollowStarts (events.map .reported) := by
  unfold CallsFollowStarts
  rw [filterMap_event?_reported, List.filterMap_eq_nil_iff.mpr h, List.filterMap_eq_nil_iff]
  intro interaction hmem
  obtain ⟨event, -, rfl⟩ := List.mem_map.mp hmem
  rfl

end CallsFollowStarts

section Steps

variable {σ : Type u} (dev : Device σ) (sink : Sink σ) (m : Machine) (s : σ)

/-- The start of an instruction and the calls that it makes belong together. -/
theorem callsFollowStarts_attemptInteractions :
    CallsFollowStarts (attemptInteractions dev sink m s) := by
  unfold attemptInteractions
  cases hf : m.fetch with
  | error f => exact .nil
  | ok i =>
    obtain ⟨-, -, ho⟩ := Machine.fetch_eq_ok_iff.mp hf
    show (dev.calls (i.operation.exchange m.regs) _).filterMap Interaction.asker? =
      (Event.started m.regs.pc i.word ::
        (dev.calls (i.operation.exchange m.regs) _).filterMap Interaction.event?).filterMap
          Event.asker?
    rw [Device.filterMap_event?_calls, i.exchange_operation]
    rw [List.filterMap_cons, Event.asker?, ho]
    cases i.opcode <;> rfl

/-- The reports that conclude a step are no starts. -/
theorem asker?_of_mem_events {event : Event}
    (h : event ∈ ((attempt dev sink m s).1.conclude m.regs.pc).events) : event.asker? = none := by
  have hconclude : ∀ a : Attempt, (∀ event ∈ a.events, event.asker? = none) →
      event ∈ (a.conclude m.regs.pc).events → event.asker? = none := by
    intro a ha hmem
    rcases List.mem_append.mp hmem with hmem | hmem
    · exact ha event hmem
    · cases ho : a.outcome <;> simp_all [Outcome.events, Event.asker?]
  refine hconclude _ ?_ h
  cases hf : m.fetch with
  | error f => simp [attempt, hf, Machine.refuse]
  | ok i =>
    rw [fst_attempt_of_fetch hf]
    cases (execute dev i.operation m (sink (.started m.regs.pc i.word) s)).1 with
    | error f => simp [Machine.retire, Event.asker?]
    | ok e =>
      obtain ⟨write, hwrite⟩ := m.exists_writeEvents_eq e
      cases write <;> simp [Machine.retire, hwrite, Event.asker?]

/-- The calls of a step are the ones that its reports show. -/
theorem callsFollowStarts_interactions : CallsFollowStarts (interactions dev sink m s) := by
  rw [interactions_eq]
  exact (callsFollowStarts_attemptInteractions dev sink m s).append
    (.reported fun event hmem => asker?_of_mem_events dev sink m s hmem)

/-- The calls of some steps are the ones that their reports show. -/
theorem callsFollowStarts_interactionsTimes (n : Nat) :
    CallsFollowStarts (interactionsTimes dev sink n m s) := by
  induction n with
  | zero => exact .nil
  | succ n ih => exact ih.append (callsFollowStarts_interactions dev sink _ _)

end Steps

/-- The calls of a run are the ones that its reports show. -/
theorem callsFollowStarts_of_runInteractions {ε : Type u} {dev : Device (Session ε)}
    {sink : Sink (Session ε)} {fuel : Nat} {m : Machine} {s : Session ε}
    {r : RunResult × Machine × Session ε} (h : run dev sink fuel m s = some r) :
    ∃ log, runInteractions dev sink fuel m s = some log ∧ CallsFollowStarts log := by
  by_cases hs : s.control.phase = .cancelled
  · exact ⟨[], runInteractions_of_cancelled hs, .nil⟩
  · exact ⟨_, runInteractions_eq hs h, callsFollowStarts_interactionsTimes dev sink m s.armed _⟩

/-- **No call of the device is lost.** From every machine, for every device and sink with any world
of their own: a step that fetches an input or an output instruction calls the device exactly once,
and then ends by the answer; all other steps do not call the device. So the calls of any number of
steps are, in order, those of the input and output instructions that have started according to the
trace, and the same holds of every run that ends.

**Proof sketch.** The claim about a step is `callsDevice_step`. In the log of a step the calls come
between the start of the instruction and the other reports, which are no starts, and the log of some
steps is made up of the logs of each of them. -/
theorem device_called_once {σ : Type u} (dev : Device σ) (sink : Sink σ) (m : Machine) (s : σ) :
    CallsDevice dev sink m s ∧ (∀ n, CallsFollowStarts (interactionsTimes dev sink n m s)) ∧
      ∀ {ε : Type v} (dev' : Device (Session ε)) (sink' : Sink (Session ε)) (fuel : Nat)
        (m' : Machine) (s' : Session ε) (r : RunResult × Machine × Session ε),
        run dev' sink' fuel m' s' = some r →
          ∃ log, runInteractions dev' sink' fuel m' s' = some log ∧ CallsFollowStarts log :=
  ⟨callsDevice_step dev sink m s, callsFollowStarts_interactionsTimes dev sink m s,
    fun _ _ _ _ _ _ hr => callsFollowStarts_of_runInteractions hr⟩

/-- A device whose world is a queue of keys. -/
def Device.queue : Device (List Byte) where
  poll keys := (.ok (keys.headD noKey), keys.tail)
  draw _ _ keys := (.ok (), keys)

/-- A machine whose first instruction polls for a key. -/
def Machine.inputAtStart : Machine :=
  { memory := ⟨#[0xD400]⟩ }

/-- It takes the first key from the queue. -/
theorem device_called_once_inputAtStart :
    stepCalls Device.queue Sink.ignore .inputAtStart [65, 66] = [.polled (.ok 65)] ∧
      (step Device.queue Sink.ignore .inputAtStart [65, 66]).1 = .proceed ∧
      (step Device.queue Sink.ignore .inputAtStart [65, 66]).2.1.regs.get 0 = 65 := by
  obtain ⟨hcalls, hanswered⟩ :=
    (device_called_once.{0, 0} Device.queue Sink.ignore .inputAtStart [65, 66]).1.input
      ⟨.inchar, 0xD400⟩ rfl rfl
  obtain ⟨houtcome, hget⟩ := hanswered.succeeded 65 rfl
  exact ⟨hcalls, houtcome, hget 0⟩

end Cpu16
