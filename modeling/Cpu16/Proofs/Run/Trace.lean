import Cpu16.Proofs.Run.Steps

set_option relaxedAutoImplicit false
set_option autoImplicit false

/-!
# The trace is a faithful log

The reports of some steps, in the order in which they come, are a complete account of what the
steps have done to memory and to the instruction count. Each step reports in one of three forms.
Whoever has the memory before the steps and the reports can make the reported writes again, and
finds in the memory so far the word of every instruction that starts, also in a program that
rewrites itself, and in the end the memory after the steps.

## Main definitions

* `Cpu16.StepReports` — the forms of the reports of a step.
* `Cpu16.Memory.replay` — the memory after the reported writes have been made again.
* `Cpu16.Accounts` — a list of reports accounts for the changes between two machines.
* `Cpu16.reportsTimes` — what some steps report.

## Main results

* `Cpu16.Accounts.append` — accounts of successive changes make up an account of all of them.
* `Cpu16.stepReports_reports`, `Cpu16.accounts_reports` — the reports of a step have one of the
  forms and account for the step.
* `Cpu16.reportsTimes_faithful` — the reports of any number of steps do.
-/

universe u

namespace Cpu16

/-! ## Reports as an account -/

/-- How a step at `pc` reports: a fault and nothing else if no instruction could be fetched, or the
start of the instruction, then a memory write if there is one, the end of the instruction, and at
last its stop if there is one; or its fault, and then no memory write. -/
inductive StepReports (pc : Word) : List Event → Prop
  /-- No instruction could be fetched. -/
  | refused (f : Fault) : StepReports pc [.faulted f pc]
  /-- The instruction has faulted. -/
  | failed (w : Word) (count : BitVec 64) (f : Fault) :
      StepReports pc [.started pc w, .retired pc count, .faulted f pc]
  /-- The instruction has been executed. -/
  | succeeded (w : Word) (write : Option (Word × Word)) (count : BitVec 64) (stop : Option Stop) :
      StepReports pc (.started pc w :: (write.toList.map fun (a, value) => .wrote a value) ++
        .retired pc count :: stop.toList.map fun reason => .stopped reason pc)

/-- The count that a report of the end of an instruction has. -/
def Event.retired? : Event → Option (BitVec 64)
  | retired _ count => some count
  | started _ _ | wrote _ _ | stopped _ _ | faulted _ _ => none

/-- The counts of the instructions that have ended, in order. -/
def retiredCounts (events : List Event) : List (BitVec 64) :=
  events.filterMap Event.retired?

/-- The counts of a trace that goes on. -/
theorem retiredCounts_append (events events' : List Event) :
    retiredCounts (events ++ events') = retiredCounts events ++ retiredCounts events' :=
  List.filterMap_append

/-- A fault ends no instruction. -/
theorem retiredCounts_faulted (f : Fault) (pc : Word) : retiredCounts [.faulted f pc] = [] := rfl

namespace Memory

/-- The memory after a report: a reported write is made again. -/
def redo (mem : Memory) : Event → Memory
  | .wrote a value => mem.set a value
  | .started _ _ | .retired _ _ | .stopped _ _ | .faulted _ _ => mem

/-- The memory after the writes of some reports have been made again, in order. -/
def replay (mem : Memory) (events : List Event) : Memory :=
  events.foldl redo mem

/-- The writes of a trace that goes on are replayed in order. -/
theorem replay_append (mem : Memory) (events events' : List Event) :
    mem.replay (events ++ events') = (mem.replay events).replay events' :=
  List.foldl_append

/-- A write outside memory is no write. -/
theorem set_of_not_contains {mem : Memory} {a : Word} (h : mem.contains a = false) (value : Word) :
    mem.set a value = mem := by
  have hle : mem.words.size ≤ a.toNat := Nat.le_of_not_lt (of_decide_eq_false h)
  ext1
  exact Array.setIfInBounds_eq_of_size_le hle

end Memory

/-- The reports account for the changes from the machine `m` to the machine `m'`. -/
structure Accounts (m : Machine) (events : List Event) (m' : Machine) : Prop where
  /-- The word of an instruction that starts is found in memory once all writes that were reported
  before have been made again. -/
  started : ∀ before pc w after, events = before ++ .started pc w :: after →
    (m.memory.replay before).get? pc = some w
  /-- The counts go up by one from the count before, modulo 2^64. -/
  counts : ∀ j count, (retiredCounts events)[j]? = some count →
    count = m.count + 1 + BitVec.ofNat 64 j
  /-- The count afterwards is the last one. -/
  count : m'.count = m.count + BitVec.ofNat 64 (retiredCounts events).length
  /-- The memory afterwards is the one in which all reported writes have been made again. -/
  memory : m.memory.replay events = m'.memory

namespace Accounts

variable {m m₁ m₂ : Machine} {events events' : List Event}

/-- No report accounts for no change. -/
theorem refl (m : Machine) : Accounts m [] m where
  started before pc w after h := by simp at h
  counts j count h := by simp [retiredCounts] at h
  count := by simp [retiredCounts]
  memory := rfl

/-- **Accounts of successive changes** make up an account of all of them. -/
theorem append (h : Accounts m events m₁) (h' : Accounts m₁ events' m₂) :
    Accounts m (events ++ events') m₂ where
  started before pc w after heq := by
    rcases List.append_eq_append_iff.mp heq with ⟨late, rfl, hlate⟩ | ⟨early, rfl, hearly⟩
    · -- The instruction starts among the later reports.
      rw [Memory.replay_append, h.memory]
      exact h'.started late pc w after hlate
    · cases early with
      | nil =>
        rw [List.append_nil] at h
        rw [h.memory]
        exact h'.started [] pc w after hearly.symm
      | cons event early =>
        obtain ⟨rfl, -⟩ := List.cons_eq_cons.mp hearly
        exact h.started before pc w early rfl
  counts j count hj := by
    rw [retiredCounts_append] at hj
    by_cases hlt : j < (retiredCounts events).length
    · rw [List.getElem?_append_left hlt] at hj
      exact h.counts j count hj
    · obtain ⟨k, rfl⟩ := Nat.exists_eq_add_of_le (Nat.le_of_not_lt hlt)
      rw [List.getElem?_append_right (Nat.le_add_right _ _), Nat.add_sub_cancel_left] at hj
      rw [h'.counts k count hj, h.count, BitVec.ofNat_add]
      ac_rfl
  count := by
    rw [h'.count, h.count, retiredCounts_append, List.length_append, BitVec.ofNat_add,
      BitVec.add_assoc]
  memory := by rw [Memory.replay_append, h.memory, h'.memory]

end Accounts

/-! ## The reports of a step -/

namespace Machine

/-- To record an outcome leaves the registers alone. -/
@[simp]
theorem regs_record (m : Machine) (pc : Word) (o : Outcome) : (m.record pc o).regs = m.regs := by
  cases o <;> rfl

/-- To record an outcome leaves memory alone. -/
@[simp]
theorem memory_record (m : Machine) (pc : Word) (o : Outcome) :
    (m.record pc o).memory = m.memory := by
  cases o <;> rfl

/-- To record an outcome leaves the count alone. -/
@[simp]
theorem count_record (m : Machine) (pc : Word) (o : Outcome) : (m.record pc o).count = m.count := by
  cases o <;> rfl

/-- To make the reported write of an instruction again is to commit its effect on memory: a write
that is not reported has been dropped. -/
theorem replay_writeEvents (m : Machine) (e : Effects) :
    m.memory.replay (m.writeEvents e) = m.memory.commit e := by
  unfold writeEvents Memory.commit
  cases e.write with
  | none => rfl
  | some w =>
    obtain ⟨a, value⟩ := w
    cases hc : m.memory.contains a with
    | true => simp [hc, Memory.replay, Memory.redo]
    | false => simp [hc, Memory.replay, Memory.set_of_not_contains hc]

/-- At most one write is reported. -/
theorem exists_writeEvents_eq (m : Machine) (e : Effects) :
    ∃ write : Option (Word × Word),
      m.writeEvents e = write.toList.map fun (a, value) => .wrote a value := by
  unfold writeEvents
  cases e.write with
  | none => exact ⟨none, rfl⟩
  | some w =>
    obtain ⟨a, value⟩ := w
    cases hc : m.memory.contains a with
    | true => exact ⟨some (a, value), by simp [hc]⟩
    | false => exact ⟨none, by simp [hc]⟩

end Machine

section Step

variable {σ : Type u} (dev : Device σ) (sink : Sink σ) (m : Machine) (s : σ)

/-- **The reports of a step** have one of the three forms, at the program counter before it. -/
theorem stepReports_reports : StepReports m.regs.pc (reports dev sink m s) := by
  cases hf : m.fetch with
  | error f =>
    rw [reports_of_refused hf]
    exact .refused f
  | ok i =>
    rcases hx : execute dev i.operation m (sink (.started m.regs.pc i.word) s) with ⟨f | e, s₁⟩
    · rw [reports_of_failed hf hx]
      exact .failed _ _ f
    · rw [reports_of_succeeded hf hx]
      obtain ⟨write, hw⟩ := m.exists_writeEvents_eq e
      have hstop : (Outcome.ofStop e.stop).events m.regs.pc =
          e.stop.toList.map fun reason => .stopped reason m.regs.pc := by
        cases e.stop <;> rfl
      rw [hw, hstop]
      exact .succeeded _ write _ e.stop

/-- A lone report of a fault accounts for a step that touches neither memory nor the count. -/
theorem Accounts.of_refused {m m' : Machine} (f : Fault) (pc : Word)
    (hmemory : m'.memory = m.memory) (hcount : m'.count = m.count) :
    Accounts m [.faulted f pc] m' where
  started before pc' w after h := by
    have hmem : Event.started pc' w ∈ [Event.faulted f pc] := by simp [h]
    simp at hmem
  counts j count h := by
    rw [retiredCounts_faulted] at h
    simp at h
  count := by
    rw [retiredCounts_faulted, hcount]
    exact (BitVec.add_zero _).symm
  memory := hmemory.symm

/-- The reports of an instruction account for it if it starts with its word and ends once. -/
theorem Accounts.of_instruction {m m' : Machine} {pc w : Word} {events : List Event}
    (hw : m.memory.get? pc = some w) (hstart : ∀ pc' w', .started pc' w' ∉ events)
    (hretired : retiredCounts events = [m.count + 1]) (hcount : m'.count = m.count + 1)
    (hmemory : m.memory.replay events = m'.memory) : Accounts m (.started pc w :: events) m' where
  started before pc' w' after h := by
    cases before with
    | nil =>
      obtain ⟨⟨rfl, rfl⟩, -⟩ : (pc = pc' ∧ w = w') ∧ events = after := by simpa using h
      exact hw
    | cons event before =>
      obtain ⟨-, rfl⟩ := List.cons_eq_cons.mp h
      exact absurd (List.mem_append_right before List.mem_cons_self) (hstart pc' w')
  counts j count h := by
    have hevents : retiredCounts (.started pc w :: events) = [m.count + 1] := hretired
    rw [hevents, List.getElem?_singleton] at h
    split at h
    · rename_i hj
      rw [← Option.some.inj h, hj]
      exact (BitVec.add_zero _).symm
    · exact absurd h.symm (Option.some_ne_none _)
  count := by
    have hevents : retiredCounts (.started pc w :: events) = [m.count + 1] := hretired
    rw [hevents, hcount]
    rfl
  memory := hmemory

/-- **The reports of a step account for it.**

**Proof sketch.** By the way of the step. An instruction that fails reports no write and makes none.
One that succeeds reports the write that it makes (`Machine.replay_writeEvents`). -/
theorem accounts_reports : Accounts m (reports dev sink m s) (step dev sink m s).2.1 := by
  cases hf : m.fetch with
  | error f =>
    rw [reports_of_refused hf, step_of_refused hf]
    -- A refusal may move the program counter, for which the account does not ask.
    obtain ⟨hmemory, hcount⟩ : (m.refuse f).machine.memory = m.memory ∧
        (m.refuse f).machine.count = m.count := by
      unfold Machine.refuse
      by_cases h : f = .unknownOpcode <;> simp [h, Machine.setPc]
    exact .of_refused f _ (by simpa using hmemory) (by simpa using hcount)
  | ok i =>
    obtain ⟨-, hw, -⟩ := Machine.fetch_eq_ok_iff.mp hf
    rcases hx : execute dev i.operation m (sink (.started m.regs.pc i.word) s) with ⟨f | e, s₁⟩
    · rw [reports_of_failed hf hx, step_of_failed hf hx]
      exact .of_instruction hw (by simp) rfl (Machine.count_record _ _ _)
        (Machine.memory_record (m.retire i.size (.error f)).machine _ _).symm
    · rw [reports_of_succeeded hf hx, step_of_succeeded hf hx]
      obtain ⟨write, hwrite⟩ := m.exists_writeEvents_eq e
      refine .of_instruction hw ?_ ?_ (Machine.count_record _ _ _) ?_
      · intro pc' w'
        rw [hwrite]
        cases write <;> cases e.stop <;> simp [Outcome.ofStop, Outcome.events]
      · rw [hwrite]
        cases write <;> cases e.stop <;> rfl
      · -- What is reported after the write is no write.
        have hlast : ∀ mem : Memory, mem.replay (.retired m.regs.pc (m.count + 1) ::
            (Outcome.ofStop e.stop).events m.regs.pc) = mem := by
          intro mem
          cases e.stop <;> rfl
        rw [Memory.replay_append, m.replay_writeEvents, hlast, Machine.memory_record]
        rfl

end Step

/-! ## The reports of some steps -/

section Steps

variable {σ : Type u} (dev : Device σ) (sink : Sink σ) (n : Nat) (m : Machine) (s : σ)

/-- What `n` steps report, in order. -/
def reportsTimes : List Event :=
  (interactionsTimes dev sink n m s).filterMap Interaction.event?

/-- One more step adds its reports. -/
theorem reportsTimes_succ :
    reportsTimes dev sink (n + 1) m s = reportsTimes dev sink n m s ++
      reports dev sink (machineAfter dev sink n m s) (stepTimes dev sink n m s).2.2 :=
  List.filterMap_append

/-- Some steps report step by step. -/
theorem reportsTimes_eq_flatMap :
    reportsTimes dev sink n m s = (List.range n).flatMap fun k =>
      reports dev sink (machineAfter dev sink k m s) (stepTimes dev sink k m s).2.2 := by
  induction n with
  | zero => rfl
  | succ n ih => rw [reportsTimes_succ, ih, List.range_succ, List.flatMap_append,
      List.flatMap_singleton]

/-- The reports of some steps account for them. -/
theorem accounts_reportsTimes :
    Accounts m (reportsTimes dev sink n m s) (machineAfter dev sink n m s) := by
  induction n with
  | zero => exact .refl m
  | succ n ih =>
    rw [reportsTimes_succ]
    exact ih.append (accounts_reports dev sink _ _)

/-- **The trace is a faithful log.** From every machine, for every device and sink and any number of
steps, the reports are made up of one block for each step, in one of the forms of `StepReports` at
the program counter before that step, and they account for the machine after the steps: for the word
of every instruction that starts, for the counts and for memory. -/
theorem reportsTimes_faithful :
    (∃ block : Nat → List Event,
        reportsTimes dev sink n m s = (List.range n).flatMap block ∧
          ∀ k < n, StepReports (machineAfter dev sink k m s).regs.pc (block k)) ∧
      Accounts m (reportsTimes dev sink n m s) (machineAfter dev sink n m s) :=
  ⟨⟨_, reportsTimes_eq_flatMap dev sink n m s, fun _ _ => stepReports_reports dev sink _ _⟩,
    accounts_reportsTimes dev sink n m s⟩

end Steps

end Cpu16
