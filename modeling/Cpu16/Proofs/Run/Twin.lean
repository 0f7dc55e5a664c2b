import Cpu16.Proofs.Run.Trace

set_option relaxedAutoImplicit false
set_option autoImplicit false

/-!
# Two runs side by side

Nothing in the machine looks at the instruction count except the counter itself. So let two machines
differ in nothing but the count, and let them make the same number of steps, each with a device, a
sink and a world of its own. As long as the two devices give the same answers to the same calls, the
steps end in the same way, ask the same of the devices and report the same, except that the reported
counts differ by what the counts differed by before.

## Main definitions

* `Cpu16.Machine.shiftCount`, `Cpu16.Event.shiftCount` — a machine and a report with another count.
* `Cpu16.stepCalls`, `Cpu16.callsTimes` — the calls of the device that a step and some steps make.
* `Cpu16.SameAnswers` — the answers to the same calls are the same.
* `Cpu16.SameCourse` — some steps take the same course as some others, apart from the count.

## Main results

* `Cpu16.step_shiftCount` — a step of one machine beside a step of the other one.
* `Cpu16.stepTimes_shiftCount`, `Cpu16.sameCourse_shiftCount` — any number of steps of both.
* `Cpu16.stepTimes_shiftCount_ignore` — where one device gives the same answers twice.
-/

universe u v

namespace Cpu16

/-! ## Another count -/

/-- The machine with `d` more instructions counted. -/
def Machine.shiftCount (d : BitVec 64) (m : Machine) : Machine :=
  { m with count := m.count + d }

/-- The report, with `d` more instructions counted. Only the end of an instruction has a count. -/
def Event.shiftCount (d : BitVec 64) : Event → Event
  | retired pc count => retired pc (count + d)
  | started pc word => started pc word
  | wrote address value => wrote address value
  | stopped reason pc => stopped reason pc
  | faulted fault pc => faulted fault pc

/-- The exchange with the world, with `d` more instructions counted. -/
def Interaction.shiftCount (d : BitVec 64) : Interaction → Interaction
  | reported event => reported (event.shiftCount d)
  | polled answer => polled answer
  | drew character position answer => drew character position answer

/-- The attempt at an instruction, with `d` more instructions counted. -/
def Attempt.shiftCount (d : BitVec 64) (a : Attempt) : Attempt where
  outcome := a.outcome
  machine := a.machine.shiftCount d
  events := a.events.map (Event.shiftCount d)

section ShiftCount

variable (d : BitVec 64) (m : Machine)

/-- What is fetched does not depend on the count. -/
theorem Machine.fetch_shiftCount : (m.shiftCount d).fetch = m.fetch := rfl

/-- Neither does what an operation stages. -/
theorem Operation.stage_shiftCount (op : Operation) (reply : Word) :
    op.stage (m.shiftCount d) reply = op.stage m reply := rfl

/-- A write has no count. -/
theorem Machine.map_shiftCount_writeEvents (e : Effects) :
    (m.writeEvents e).map (Event.shiftCount d) = m.writeEvents e := by
  obtain ⟨write, hwrite⟩ := m.exists_writeEvents_eq e
  rw [hwrite]
  cases write <;> rfl

/-- A step that fetches nothing leaves the count alone. -/
theorem Machine.refuse_shiftCount (f : Fault) :
    (m.shiftCount d).refuse f = (m.refuse f).shiftCount d := by
  unfold refuse
  by_cases h : f = .unknownOpcode <;> simp [h, Attempt.shiftCount, shiftCount, setPc]

/-- One more instruction is counted, whatever the count is. -/
theorem Machine.tick_shiftCount : (m.shiftCount d).tick = m.tick.shiftCount d := by
  have hcount : m.count + d + 1 = m.count + 1 + d := by ac_rfl
  unfold tick shiftCount
  rw [hcount]

/-- The end of an instruction is the same, except for the count. -/
theorem Machine.retire_shiftCount (size : Nat) (result : Except Fault Effects) :
    (m.shiftCount d).retire size result = (m.retire size result).shiftCount d := by
  cases result with
  | error f =>
    have hafter := (m.setPc (pcPast m.regs.pc size)).tick_shiftCount d
    show Attempt.mk _ ((m.setPc (pcPast m.regs.pc size)).shiftCount d).tick
      [.retired _ ((m.setPc (pcPast m.regs.pc size)).shiftCount d).tick.count] = _
    rw [hafter]
    rfl
  | ok e =>
    have hafter := (m.commit e).tick_shiftCount d
    show Attempt.mk _ ((m.commit e).shiftCount d).tick
      (m.writeEvents e ++ [.retired _ ((m.commit e).shiftCount d).tick.count]) = _
    rw [hafter]
    simp only [retire, Attempt.shiftCount, List.map_append, map_shiftCount_writeEvents]
    rfl

/-- The outcome is recorded in the same way. -/
theorem Attempt.conclude_shiftCount (a : Attempt) (pc : Word) :
    (a.shiftCount d).conclude pc = (a.conclude pc).shiftCount d := by
  unfold conclude shiftCount
  cases a.outcome <;> simp [Outcome.events, Event.shiftCount] <;> rfl

end ShiftCount

/-! ## The calls of a device -/

/-- Whether the exchange is a call of the device. -/
def Interaction.isCall : Interaction → Bool
  | polled _ | drew _ _ _ => true
  | reported _ => false

/-- If both exchanges are the same call of a device, they have the same answer. -/
def Interaction.SameAnswer : Interaction → Interaction → Prop
  | polled answer, polled answer' => answer = answer'
  | drew character position answer, drew character' position' answer' =>
    character = character' → position = position' → answer = answer'
  | _, _ => True

/-- Two devices that are called one after another give the same answers: the calls in the same
place, as far as they are the same calls, have the same answer. -/
def SameAnswers (calls calls' : List Interaction) : Prop :=
  ∀ (k : Nat) i j, calls[k]? = some i → calls'[k]? = some j → i.SameAnswer j

/-- Calls have the same answers as themselves. -/
theorem SameAnswers.refl (calls : List Interaction) : SameAnswers calls calls := by
  intro k i j hi hj
  obtain rfl : i = j := Option.some.inj (hi.symm.trans hj)
  cases i with
  | polled answer => exact rfl
  | drew character position answer => exact fun _ _ => rfl
  | reported event => exact trivial

/-- If calls have the same answers up to some point and then go on, they have so before and after
that point. -/
theorem SameAnswers.of_append {calls calls' late late' : List Interaction}
    (h : SameAnswers (calls ++ late) (calls' ++ late')) :
    SameAnswers calls calls' ∧ (calls.length = calls'.length → SameAnswers late late') := by
  constructor
  · intro k i j hi hj
    have hk := (List.getElem?_eq_some_iff.mp hi).1
    have hk' := (List.getElem?_eq_some_iff.mp hj).1
    exact h k i j (by rw [List.getElem?_append_left hk, hi])
      (by rw [List.getElem?_append_left hk', hj])
  · intro hlength k i j hi hj
    refine h (calls.length + k) i j ?_ ?_
    · rw [List.getElem?_append_right (Nat.le_add_right _ _), Nat.add_sub_cancel_left, hi]
    · rw [hlength, List.getElem?_append_right (Nat.le_add_right _ _), Nat.add_sub_cancel_left, hj]

section Calls

variable {σ : Type u} {τ : Type v} {dev : Device σ} {dev' : Device τ} {s : σ} {s' : τ}

/-- The reply to a poll is the key, or the fault of the error, that the device answers. -/
theorem Device.fst_perform_poll (dev : Device σ) (s : σ) :
    (dev.perform .poll s).1 =
      ((dev.poll s).1.map (BitVec.setWidth 16)).mapError DeviceError.fault := by
  simp only [perform]
  rcases dev.poll s with ⟨e | key, s₁⟩ <;> rfl

/-- The reply to a drawing is the fault of the error that the device answers, if any. -/
theorem Device.fst_perform_draw (dev : Device σ) (character position : Word) (s : σ) :
    (dev.perform (.draw character position) s).1 =
      ((dev.draw character position s).1.map fun _ => 0).mapError DeviceError.fault := by
  simp only [perform]
  rcases dev.draw character position s with ⟨e | _, s₁⟩ <;> rfl

/-- Devices that give the same answer to an exchange have made the same calls, and reply alike. -/
theorem Device.perform_congr {x : Exchange} (h : SameAnswers (dev.calls x s) (dev'.calls x s')) :
    (dev.perform x s).1 = (dev'.perform x s').1 ∧ dev.calls x s = dev'.calls x s' := by
  cases x with
  | none => exact ⟨rfl, rfl⟩
  | poll =>
    have hanswer : (dev.poll s).1 = (dev'.poll s').1 := h 0 _ _ rfl rfl
    exact ⟨by rw [fst_perform_poll, fst_perform_poll, hanswer], by simp [calls, hanswer]⟩
  | draw character position =>
    have hanswer : (dev.draw character position s).1 = (dev'.draw character position s').1 :=
      h 0 _ _ rfl rfl rfl rfl
    exact ⟨by rw [fst_perform_draw, fst_perform_draw, hanswer], by simp [calls, hanswer]⟩

/-- An exchange with the device consists of calls. -/
theorem Device.filter_isCall_calls (dev : Device σ) (x : Exchange) (s : σ) :
    (dev.calls x s).filter Interaction.isCall = dev.calls x s := by
  cases x <;> rfl

/-- A call has no count. -/
theorem Device.map_shiftCount_calls (d : BitVec 64) (dev : Device σ) (x : Exchange) (s : σ) :
    (dev.calls x s).map (Interaction.shiftCount d) = dev.calls x s := by
  cases x <;> rfl

/-- No report is a call. -/
theorem filter_isCall_reported (events : List Event) :
    (events.map Interaction.reported).filter Interaction.isCall = [] := by
  rw [List.filter_eq_nil_iff]
  intro i hi
  obtain ⟨event, -, rfl⟩ := List.mem_map.mp hi
  exact Bool.false_ne_true

/-- Reports with another count are the same reports, except for the count. -/
theorem map_reported_shiftCount (d : BitVec 64) (events : List Event) :
    (events.map (Event.shiftCount d)).map Interaction.reported =
      (events.map Interaction.reported).map (Interaction.shiftCount d) := by
  rw [List.map_map, List.map_map]
  rfl

/-- Another count makes no other calls. -/
theorem filter_isCall_map_shiftCount (d : BitVec 64) (log : List Interaction) :
    (log.map (Interaction.shiftCount d)).filter Interaction.isCall =
      log.filter Interaction.isCall := by
  induction log with
  | nil => rfl
  | cons i log ih =>
    cases i <;> simp [List.filter_cons, Interaction.shiftCount, Interaction.isCall, ih]

/-- Another count makes the same reports, except for the count. -/
theorem filterMap_event?_map_shiftCount (d : BitVec 64) (log : List Interaction) :
    (log.map (Interaction.shiftCount d)).filterMap Interaction.event? =
      (log.filterMap Interaction.event?).map (Event.shiftCount d) := by
  induction log with
  | nil => rfl
  | cons i log ih =>
    cases i <;> simp [List.filterMap_cons, Interaction.shiftCount, Interaction.event?, ih]

end Calls

/-! ## Steps side by side -/

section Definitions

variable {σ : Type u} (dev : Device σ) (sink : Sink σ)

/-- The calls of the device that a step makes, in order. -/
def stepCalls (m : Machine) (s : σ) : List Interaction :=
  (interactions dev sink m s).filter Interaction.isCall

/-- The calls of the device that `n` steps make, in order. -/
def callsTimes (n : Nat) (m : Machine) (s : σ) : List Interaction :=
  (interactionsTimes dev sink n m s).filter Interaction.isCall

/-- One more step adds its calls to those of the steps before it. -/
theorem callsTimes_succ (n : Nat) (m : Machine) (s : σ) :
    callsTimes dev sink (n + 1) m s = callsTimes dev sink n m s ++
      stepCalls dev sink (machineAfter dev sink n m s) (stepTimes dev sink n m s).2.2 :=
  List.filter_append ..

/-- The calls of a step are the ones that the operation makes, if one is fetched. -/
theorem stepCalls_eq (m : Machine) (s : σ) :
    stepCalls dev sink m s =
      match m.fetch with
      | .error _ => []
      | .ok i => dev.calls (i.operation.exchange m.regs) (sink (.started m.regs.pc i.word) s) := by
  unfold stepCalls
  rw [interactions_eq, List.filter_append, filter_isCall_reported, List.append_nil]
  unfold attemptInteractions
  cases m.fetch with
  | error f => rfl
  | ok i => exact dev.filter_isCall_calls _ _

end Definitions

section Steps

variable {σ : Type u} {τ : Type v} {dev : Device σ} {dev' : Device τ} {sink : Sink σ}
  {sink' : Sink τ} {m : Machine} {s : σ} {s' : τ} {d : BitVec 64}

/-- An operation is executed in the same way on machines of which it stages the same, if the devices
reply alike. -/
theorem execute_congr {op : Operation} {m' : Machine} (hregs : m.regs = m'.regs)
    (hstage : ∀ reply, op.stage m reply = op.stage m' reply)
    (h : (dev.perform (op.exchange m.regs) s).1 = (dev'.perform (op.exchange m.regs) s').1) :
    (execute dev op m s).1 = (execute dev' op m' s').1 := by
  unfold execute
  rw [← hregs]
  rcases hp : dev.perform (op.exchange m.regs) s with ⟨reply, s₁⟩
  rcases hp' : dev'.perform (op.exchange m.regs) s' with ⟨reply', s₁'⟩
  obtain rfl : reply = reply' := by simpa [hp, hp'] using h
  cases reply with
  | error f => rfl
  | ok reply => exact congrArg (· >>= Effects.checked) (hstage reply)

/-- What an attempt makes of the machine, if an instruction is fetched. -/
theorem fst_attempt_of_fetch {i : Instruction} (hf : m.fetch = .ok i) :
    (attempt dev sink m s).1 =
      m.retire i.size (execute dev i.operation m (sink (.started m.regs.pc i.word) s)).1 := by
  unfold attempt
  rw [hf]

/-- An attempt at an instruction goes the same way whatever the count is. -/
theorem attempt_shiftCount
    (h : SameAnswers (stepCalls dev sink (m.shiftCount d) s) (stepCalls dev' sink' m s')) :
    (attempt dev sink (m.shiftCount d) s).1 = (attempt dev' sink' m s').1.shiftCount d ∧
      attemptInteractions dev sink (m.shiftCount d) s =
        (attemptInteractions dev' sink' m s').map (Interaction.shiftCount d) := by
  cases hf : m.fetch with
  | error f =>
    have hf' : (m.shiftCount d).fetch = .error f := (m.fetch_shiftCount d).trans hf
    unfold attempt attemptInteractions
    rw [hf, hf']
    exact ⟨m.refuse_shiftCount d f, rfl⟩
  | ok i =>
    have hf' : (m.shiftCount d).fetch = .ok i := (m.fetch_shiftCount d).trans hf
    rw [stepCalls_eq, stepCalls_eq, hf, hf'] at h
    have hcalled : SameAnswers
        (dev.calls (i.operation.exchange m.regs) (sink (.started m.regs.pc i.word) s))
        (dev'.calls (i.operation.exchange m.regs) (sink' (.started m.regs.pc i.word) s')) := h
    obtain ⟨hreply, hcalls⟩ := Device.perform_congr hcalled
    constructor
    · rw [fst_attempt_of_fetch hf, fst_attempt_of_fetch hf', ← m.retire_shiftCount]
      exact congrArg _ (execute_congr rfl (i.operation.stage_shiftCount d m) hreply)
    · unfold attemptInteractions
      rw [hf, hf']
      show Interaction.reported _ :: dev.calls (i.operation.exchange m.regs)
        (sink (.started m.regs.pc i.word) s) = _
      rw [hcalls, List.map_cons, Device.map_shiftCount_calls]
      rfl

/-- **A step of two machines that differ in the count.** If the devices give the same answers, it
ends in the same way, and the machines after it differ in nothing but the count, and by the same. -/
theorem step_shiftCount
    (h : SameAnswers (stepCalls dev sink (m.shiftCount d) s) (stepCalls dev' sink' m s')) :
    (step dev sink (m.shiftCount d) s).1 = (step dev' sink' m s').1 ∧
      (step dev sink (m.shiftCount d) s).2.1 = (step dev' sink' m s').2.1.shiftCount d ∧
      interactions dev sink (m.shiftCount d) s =
        (interactions dev' sink' m s').map (Interaction.shiftCount d) := by
  obtain ⟨hattempt, hlog⟩ := attempt_shiftCount h
  have hconclude : (attempt dev sink (m.shiftCount d) s).1.conclude m.regs.pc =
      ((attempt dev' sink' m s').1.conclude m.regs.pc).shiftCount d := by
    rw [hattempt, Attempt.conclude_shiftCount]
  refine ⟨?_, ?_, ?_⟩
  · show ((attempt dev sink (m.shiftCount d) s).1.conclude m.regs.pc).outcome = _
    rw [hconclude]
    rfl
  · show ((attempt dev sink (m.shiftCount d) s).1.conclude m.regs.pc).machine = _
    rw [hconclude]
    rfl
  · rw [interactions_eq, interactions_eq, List.map_append, ← hlog]
    show _ ++ ((attempt dev sink (m.shiftCount d) s).1.conclude m.regs.pc).events.map _ = _
    rw [hconclude]
    exact congrArg _ (map_reported_shiftCount d _)

/-- **Steps of two machines that differ in the count.** As long as the devices give the same
answers, all steps end in the same way, and the machines stay the same except for the count.

**Proof sketch.** Induction on the number of steps. The calls of the steps before the last one have
been the same, so the answers to the calls of the last one are in the same place, and they are the
same too. The last step is `step_shiftCount`. -/
theorem stepTimes_shiftCount {n : Nat}
    (h : SameAnswers (callsTimes dev sink n (m.shiftCount d) s) (callsTimes dev' sink' n m s')) :
    outcomeAfter dev sink n (m.shiftCount d) s = outcomeAfter dev' sink' n m s' ∧
      machineAfter dev sink n (m.shiftCount d) s =
        (machineAfter dev' sink' n m s').shiftCount d ∧
      interactionsTimes dev sink n (m.shiftCount d) s =
        (interactionsTimes dev' sink' n m s').map (Interaction.shiftCount d) := by
  induction n with
  | zero => exact ⟨rfl, rfl, rfl⟩
  | succ n ih =>
    rw [callsTimes_succ, callsTimes_succ] at h
    obtain ⟨hbefore, hlast⟩ := h.of_append
    obtain ⟨-, hmachine, hlog⟩ := ih hbefore
    -- As many calls have been made by the one machine as by the other one.
    have hcalls : callsTimes dev sink n (m.shiftCount d) s = callsTimes dev' sink' n m s' := by
      unfold callsTimes
      rw [hlog, filter_isCall_map_shiftCount]
    have hstep := hlast (congrArg List.length hcalls)
    rw [hmachine] at hstep
    obtain ⟨houtcome, hmachine', hlog'⟩ := step_shiftCount hstep
    unfold machineAfter at hmachine
    refine ⟨?_, ?_, ?_⟩
    · unfold outcomeAfter
      rw [stepTimes, hmachine]
      exact houtcome
    · unfold machineAfter
      rw [stepTimes, hmachine]
      exact hmachine'
    · rw [interactionsTimes, interactionsTimes, hmachine, hlog, List.map_append]
      exact congrArg _ hlog'

/-- Fewer steps have made the first of the calls, so the answers to these are the same too. -/
theorem SameAnswers.of_le {k n : Nat} (hk : k ≤ n) {m' : Machine}
    (h : SameAnswers (callsTimes dev sink n m s) (callsTimes dev' sink' n m' s')) :
    SameAnswers (callsTimes dev sink k m s) (callsTimes dev' sink' k m' s') := by
  induction hk with
  | refl => exact h
  | step _ ih =>
    rw [callsTimes_succ, callsTimes_succ] at h
    exact ih h.of_append.1

/-- Some steps take the same course as some others, apart from the count. -/
structure SameCourse (d : BitVec 64) (dev : Device σ) (sink : Sink σ) (m : Machine) (s : σ)
    (dev' : Device τ) (sink' : Sink τ) (m' : Machine) (s' : τ) (n : Nat) : Prop where
  /-- Each step ends in the same way. -/
  outcome : ∀ k ≤ n, outcomeAfter dev sink k m s = outcomeAfter dev' sink' k m' s'
  /-- After each step the machine is the same, with `d` more instructions counted. -/
  machine : ∀ k ≤ n, machineAfter dev sink k m s = (machineAfter dev' sink' k m' s').shiftCount d
  /-- The calls of the devices are the same, and so are the answers. -/
  calls : callsTimes dev sink n m s = callsTimes dev' sink' n m' s'
  /-- The reports are the same, with `d` more instructions counted. -/
  reports : reportsTimes dev sink n m s = (reportsTimes dev' sink' n m' s').map (Event.shiftCount d)

/-- **The count plays no role.** Two machines that differ in the count take the same course, as long
as their devices give the same answers. -/
theorem sameCourse_shiftCount {n : Nat}
    (h : SameAnswers (callsTimes dev sink n (m.shiftCount d) s) (callsTimes dev' sink' n m s')) :
    SameCourse d dev sink (m.shiftCount d) s dev' sink' m s' n where
  outcome k hk := (stepTimes_shiftCount (h.of_le hk)).1
  machine k hk := (stepTimes_shiftCount (h.of_le hk)).2.1
  calls := by
    unfold callsTimes
    rw [(stepTimes_shiftCount h).2.2, filter_isCall_map_shiftCount]
  reports := by
    unfold reportsTimes
    rw [(stepTimes_shiftCount h).2.2, filterMap_event?_map_shiftCount]

/-- Without a trace, one device makes the same world of the same world, whatever the count is. -/
theorem step_shiftCount_ignore (dev : Device σ) (m : Machine) (s : σ) :
    (step dev Sink.ignore (m.shiftCount d) s).2.1 = (step dev Sink.ignore m s).2.1.shiftCount d ∧
      (step dev Sink.ignore (m.shiftCount d) s).2.2 = (step dev Sink.ignore m s).2.2 ∧
      stepCalls dev Sink.ignore (m.shiftCount d) s = stepCalls dev Sink.ignore m s := by
  have hcalls : stepCalls dev Sink.ignore (m.shiftCount d) s = stepCalls dev Sink.ignore m s := by
    rw [stepCalls_eq, stepCalls_eq]
    rfl
  refine ⟨(step_shiftCount ?_).2.1, ?_, hcalls⟩
  · rw [hcalls]
    exact .refl _
  · rw [world_step_ignore, world_step_ignore]
    rfl

/-- Without a trace, one device and one world are enough for the same answers.

**Proof sketch.** Induction on the number of steps, together with the worlds being the same; one
step is `step_shiftCount_ignore`. -/
theorem stepTimes_shiftCount_ignore (dev : Device σ) (n : Nat) (m : Machine) (s : σ) :
    machineAfter dev Sink.ignore n (m.shiftCount d) s =
        (machineAfter dev Sink.ignore n m s).shiftCount d ∧
      (stepTimes dev Sink.ignore n (m.shiftCount d) s).2.2 =
        (stepTimes dev Sink.ignore n m s).2.2 ∧
      callsTimes dev Sink.ignore n (m.shiftCount d) s = callsTimes dev Sink.ignore n m s := by
  induction n with
  | zero => exact ⟨rfl, rfl, rfl⟩
  | succ n ih =>
    obtain ⟨hmachine, hworld, hcalls⟩ := ih
    obtain ⟨hmachine', hworld', hcalls'⟩ := step_shiftCount_ignore (d := d) dev
      (machineAfter dev Sink.ignore n m s) (stepTimes dev Sink.ignore n m s).2.2
    rw [callsTimes_succ, callsTimes_succ, hmachine, hworld, hcalls, hcalls']
    unfold machineAfter at *
    rw [stepTimes, stepTimes, hmachine, hworld]
    exact ⟨hmachine', hworld', rfl⟩

end Steps

end Cpu16
