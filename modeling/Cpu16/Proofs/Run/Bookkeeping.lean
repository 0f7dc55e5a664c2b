import Cpu16.Proofs.Run.Journal

set_option relaxedAutoImplicit false
set_option autoImplicit false

/-!
# The machine keeps its books

The machine shows a host whether it has stopped or faulted, where it faulted last, and how many
instructions it has counted. Steps, runs, resets and loads write these fields in different places
and on different occasions. Whatever the order, at the end they are functions of the journal: the
status tells the outcome of the last step since the machine has started anew, the place of the last
fault the most recent step that faulted since then, and the count the number of all steps for which
an instruction could be fetched.

## Main definitions

* `Cpu16.StepRecord.isUnfetched` — the step ended before an instruction was fetched.
* `Cpu16.Bookkeeping` — status, place of the last fault and count agree with a journal.

## Main results

* `Cpu16.tracks_faultPc`, `Cpu16.tracks_status`, `Cpu16.tracks_count` — each of the fields can be
  followed in a journal.
* `Cpu16.bookkeeping_of_applyAll` — they agree with the journal of whatever a host does.
-/

universe u

namespace Cpu16

/-! ## What a step writes in the books -/

namespace StepRecord

/-- The program counter before the step, if the step faulted. -/
def faultPc? (r : StepRecord.{u}) : Option Word :=
  r.outcome.fault?.map fun _ => r.before.regs.pc

/-- Whether the step ended before an instruction was fetched: the program counter is at the reserved
address or past it, or no word is there, or the word there names no operation. -/
def isUnfetched (r : StepRecord.{u}) : Bool :=
  decide (0x7FFF ≤ r.before.regs.pc) ||
    ((r.before.memory.get? r.before.regs.pc).bind Opcode.ofWord?).isNone

/-- If the fetch faults, no instruction has been fetched. -/
theorem isUnfetched_of_fetch_eq_error {r : StepRecord.{u}} {f : Fault}
    (h : r.before.fetch = .error f) : r.isUnfetched = true := by
  rcases Machine.fetch_eq_error_iff.mp h with ⟨hpc | hw, -⟩ | ⟨-, w, hw, ho, -⟩
  · simp [isUnfetched, show 0x7FFF#16 ≤ r.before.regs.pc from hpc]
  · simp [isUnfetched, hw]
  · simp [isUnfetched, hw, ho]

/-- If the fetch does not fault, an instruction has been fetched. -/
theorem isUnfetched_of_fetch_eq_ok {r : StepRecord.{u}} {i : Instruction}
    (h : r.before.fetch = .ok i) : r.isUnfetched = false := by
  obtain ⟨hpc, hw, ho⟩ := Machine.fetch_eq_ok_iff.mp h
  have hlt : r.before.regs.pc < 0x7FFF#16 := hpc
  simp [isUnfetched, hw, ho, hlt]

/-- A step latches its place if it faults. -/
theorem faultPc_after (r : StepRecord.{u}) : r.after.faultPc = r.faultPc?.or r.before.faultPc := by
  rcases r.faulted_or_executed with ⟨f, ho, -, hframe⟩ | ⟨i, reply, -, hx⟩
  · rw [hframe.faultPc, faultPc?, ho]
    rfl
  · obtain ⟨σ, dev, sink, s, s', h⟩ := r.made
    obtain ⟨j, e, s₁, hf, he⟩ := step_eq_of_not_faulted h hx.ne_faulted
    obtain ⟨status, hrecord⟩ :=
      (r.before.commit e).tick.record_ofStop r.before.regs.pc e.stop
    have hnone : r.faultPc? = none := by
      rw [faultPc?, hx.outcome]
      cases (i.operation.effects r.before reply).stop <;> rfl
    rw [machine_eq_of_step h, step_of_succeeded hf he, hnone]
    show ((r.before.commit e).tick.record _ _).faultPc = _
    rw [hrecord]
    rfl

/-- A step counts its instruction if there is one. -/
theorem count_after (r : StepRecord.{u}) :
    r.after.count = if r.isUnfetched then r.before.count else r.before.count + 1 := by
  obtain ⟨σ, dev, sink, s, s', h⟩ := r.made
  rw [machine_eq_of_step h]
  cases hf : r.before.fetch with
  | error f =>
    rw [step_of_refused hf, Machine.count_record, if_pos (isUnfetched_of_fetch_eq_error hf)]
    unfold Machine.refuse
    split <;> rfl
  | ok i =>
    rw [if_neg (by simp [isUnfetched_of_fetch_eq_ok hf])]
    rcases hx : execute dev i.operation r.before (sink (.started r.before.regs.pc i.word) s) with
      ⟨f | e, s₁⟩
    · rw [step_of_failed hf hx, Machine.count_record]
      rfl
    · rw [step_of_succeeded hf hx, Machine.count_record]
      rfl

/-- Once a run has ended, the status tells the outcome of the last step. -/
theorem status_after (r : StepRecord.{u}) : r.after.leaveRun.status = r.outcome.status := by
  obtain ⟨σ, dev, sink, s, s', h⟩ := r.made
  have hlast := status_leaveRun_stepTimes dev sink r.before 0 s
  simp only [stepTimes, h] at hlast
  exact hlast

end StepRecord

/-- The place of the last fault can be followed in a journal. -/
theorem tracks_faultPc :
    Tracks.{u} Machine.faultPc (fun _ => none) fun r old => r.faultPc?.or old where
  load _ _ := rfl
  step := StepRecord.faultPc_after
  enter _ _ := rfl
  leave _ := rfl

/-- The count can be followed in a journal. A new start leaves it alone. -/
theorem tracks_count :
    Tracks.{u} Machine.count id fun r old => if r.isUnfetched then old else old + 1 where
  load _ _ := rfl
  step := StepRecord.count_after
  enter _ _ := rfl
  leave _ := rfl

/-- The status, as it is once a run has ended, can be followed in a journal. -/
theorem tracks_status :
    Tracks.{u} (fun m => m.leaveRun.status) (fun _ => .idle) fun r _ => r.outcome.status where
  load _ _ := rfl
  step := StepRecord.status_after
  enter _ _ := rfl
  leave m := by
    by_cases h : m.status = .running <;> simp [Machine.leaveRun, h]

namespace Journal

/-- What a journal makes of a count: the number of its steps less those that fetched nothing. -/
theorem replay_count (start : BitVec 64) (j : Journal.{u}) :
    j.replay id (fun r old => if r.isUnfetched then old else old + 1) start =
      start + (BitVec.ofNat 64 j.steps.length -
        BitVec.ofNat 64 (j.steps.countP StepRecord.isUnfetched)) := by
  induction j with
  | nil => exact (BitVec.add_zero start).symm
  | cons e j ih =>
    cases e with
    | reset => exact ih
    | step r =>
      have hlength : (steps (.step r :: j)).length = (steps j).length + 1 := rfl
      have hcount : (steps (.step r :: j)).countP StepRecord.isUnfetched =
          (steps j).countP StepRecord.isUnfetched + if r.isUnfetched then 1 else 0 :=
        List.countP_cons
      show (if r.isUnfetched then replay _ _ start j else replay _ _ start j + 1) = _
      rw [ih, hlength, hcount, BitVec.ofNat_add, BitVec.ofNat_add]
      cases r.isUnfetched with
      | true =>
        rw [if_pos rfl, if_pos rfl]
        grind
      | false =>
        rw [if_neg Bool.false_ne_true, if_neg Bool.false_ne_true]
        grind

/-- What a journal makes of a status: the outcome of the last step since the machine has started
anew. -/
theorem replay_status (j : Journal.{u}) :
    j.replay (fun _ => .idle) (fun r _ => r.outcome.status) .idle =
      (j.sinceReset.head?.map fun r => r.outcome.status).getD .idle := by
  cases j with
  | nil => rfl
  | cons e j => cases e <;> rfl

end Journal

/-! ## The books of a history -/

/-- Status, place of the last fault and count of the machine agree with a journal. -/
structure Bookkeeping (j : Journal.{u}) (m : Machine) : Prop where
  /-- No place is latched exactly if no step since the last new start has faulted. -/
  faultPc_eq_none_iff : m.faultPc = none ↔ ∀ r ∈ j.sinceReset, ∀ f, r.outcome ≠ .faulted f
  /-- Otherwise it is the program counter before the most recent step that faulted, whatever came
  after it. -/
  faultPc_eq_some : ∀ newer r older f, j.sinceReset = newer ++ r :: older →
    (∀ q ∈ newer, ∀ f, q.outcome ≠ .faulted f) → r.outcome = .faulted f →
      m.faultPc = some r.before.regs.pc
  /-- The status is a fault exactly if the last step since the last new start raised it. -/
  status_eq_faulted_iff : ∀ f, m.status = .faulted f ↔
    ∃ r, j.sinceReset.head? = some r ∧ r.outcome = .faulted f
  /-- The machine has stopped exactly if that step stopped. -/
  status_eq_halted_iff : m.status = .halted ↔
    ∃ r reason, j.sinceReset.head? = some r ∧ r.outcome = .stopped reason
  /-- The machine is idle exactly if that step let execution proceed, or there was none. -/
  status_eq_idle_iff : m.status = .idle ↔
    ∀ r, j.sinceReset.head? = some r → r.outcome = .proceed
  /-- The machine is never running. -/
  status_ne_running : m.status ≠ .running
  /-- The count is the number of all steps, new starts or not, less those that fetched nothing. -/
  count : m.count = BitVec.ofNat 64 j.steps.length -
    BitVec.ofNat 64 (j.steps.countP StepRecord.isUnfetched)

namespace StepRecord

/-- A step gives no place of a fault exactly if it does not fault. -/
theorem faultPc?_eq_none_iff {r : StepRecord.{u}} :
    r.faultPc? = none ↔ ∀ f, r.outcome ≠ .faulted f := by
  unfold faultPc?
  cases r.outcome <;> simp [Outcome.fault?]

end StepRecord

/-- The fields agree with a journal if they are what the journal makes of them. -/
theorem Bookkeeping.of_replay {j : Journal.{u}} {m : Machine}
    (hfaultPc : m.faultPc = j.sinceReset.findSome? StepRecord.faultPc?)
    (hstatus : m.status = (j.sinceReset.head?.map fun r => r.outcome.status).getD .idle)
    (hcount : m.count = BitVec.ofNat 64 j.steps.length -
      BitVec.ofNat 64 (j.steps.countP StepRecord.isUnfetched)) : Bookkeeping j m where
  faultPc_eq_none_iff := by
    rw [hfaultPc, List.findSome?_eq_none_iff]
    exact forall₂_congr fun r _ => StepRecord.faultPc?_eq_none_iff
  faultPc_eq_some newer r older f hsplit hnewer hr := by
    have hnone : newer.findSome? StepRecord.faultPc? = none :=
      List.findSome?_eq_none_iff.mpr fun q hq => StepRecord.faultPc?_eq_none_iff.mpr (hnewer q hq)
    have hsome : r.faultPc? = some r.before.regs.pc := by
      simp [StepRecord.faultPc?, hr, Outcome.fault?]
    rw [hfaultPc, hsplit, List.findSome?_append, hnone, List.findSome?_cons, hsome]
    rfl
  status_eq_faulted_iff f := by
    rw [hstatus]
    cases j.sinceReset.head? <;> simp
  status_eq_halted_iff := by
    rw [hstatus]
    cases j.sinceReset.head? <;> simp
  status_eq_idle_iff := by
    rw [hstatus]
    cases j.sinceReset.head? <;> simp
  status_ne_running := by
    rw [hstatus]
    cases j.sinceReset.head? <;> simp
  count := hcount

/-- Between two acts the machine is not running: a reset makes it idle, a step and the end of a run
have set the status, and edits of memory and registers do not touch it. -/
theorem HostAct.status_apply_ne_running {act : HostAct.{u}} {m m' : Machine}
    (h : act.apply m = some m') (hact : act.editsBooks = false) (hm : m.status ≠ .running) :
    m'.status ≠ .running := by
  cases act with
  | setStatus | setFaultPc => cases hact
  | setPc | setSp =>
    obtain rfl := Option.some.inj h
    exact hm
  | host op =>
    refine HostOp.invariant_of_apply (P := fun m' => m'.status ≠ .running) h hm
      (fun _ _ => Status.noConfusion) Status.noConfusion (fun _ _ => hm) (fun _ _ _ => hm) ?_ ?_
    · intro σ dev sink s
      exact status_step_ne_running dev sink hm s
    · intro ε dev sink n s
      exact Machine.status_leaveRun_ne_running _

/-- A machine that is not running is not left running by a history in which the books are not edited
by hand: every run puts the status back at its end. -/
theorem HostAct.status_applyAll_ne_running {acts : List HostAct.{u}} {m m' : Machine}
    (h : HostAct.applyAll acts m = some m') (hacts : ∀ act ∈ acts, act.editsBooks = false)
    (hm : m.status ≠ .running) : m'.status ≠ .running :=
  HostAct.invariant_of_applyAll (P := fun m => m.status ≠ .running) h hm
    fun act hmem _ _ hact hm => HostAct.status_apply_ne_running hact (hacts act hmem) hm

/-- A load, accepted or refused, and a reset leave the count alone. -/
theorem HostOp.count_apply {op : HostOp.{u}} (hop : op.isLoad = true ∨ op = .reset) {m m' : Machine}
    (h : op.apply m = some m') : m'.count = m.count := by
  rcases hop with hload | rfl
  · cases op with
    | loadWords ws =>
      obtain rfl := Option.some.inj h
      rfl
    | loadImage bytes =>
      obtain rfl := Option.some.inj h
      unfold Machine.loadImage
      cases Image.decode spaceSize bytes <;> rfl
    | _ => exact absurd hload (by simp [isLoad])
  · obtain rfl := Option.some.inj h
    rfl

/-- **The machine keeps its books.** Let a host do anything to a machine that was made without a
program or with one, in any order, except that it does not edit the status and the place of the last
fault by hand: load and reset, make single steps, let the machine run until the run ends, under any
control, and edit registers, flags and memory. Then the place of the last fault, the status and the
count are functions of the steps that were made and of where the machine has started anew; and loads
and resets leave the count alone.

**Proof sketch.** Each of the fields can be followed in the journal (`Tracks.applyAll`), and what
the journal makes of it is known (`Journal.replay_latest`, `Journal.replay_status`,
`Journal.replay_count`). The status is followed as if a run had ended, but none is on between two
acts. -/
theorem bookkeeping_of_applyAll {acts : List HostAct.{u}} {start m : Machine}
    (hstart : start = .initial ∨ ∃ ws, start = .ofProgram ws)
    (hacts : ∀ act ∈ acts, act.editsBooks = false)
    (h : HostAct.applyAll acts start = some m) :
    Bookkeeping (HostAct.journalAll acts start) m ∧
      ∀ op : HostOp.{u}, op.isLoad = true ∨ op = .reset →
        ∀ m', op.apply m = some m' → m'.count = m.count := by
  obtain ⟨hfaultPc, hstatus, hcount⟩ :
      start.faultPc = none ∧ start.status = .idle ∧ start.count = 0#64 := by
    rcases hstart with rfl | ⟨ws, rfl⟩ <;> exact ⟨rfl, rfl, rfl⟩
  have hbooks : ∀ act ∈ acts, act.isEdit = true → ∀ m m', act.apply m = some m' →
      m'.faultPc = m.faultPc ∧ m'.status = m.status :=
    fun act hact hedit m m' hm => (HostAct.frame_of_isEdit hm hedit).2.1 (hacts act hact)
  have hidle : start.status ≠ .running := by
    rw [hstatus]
    exact Status.noConfusion
  have hrunning : m.status ≠ .running := HostAct.status_applyAll_ne_running h hacts hidle
  refine ⟨.of_replay ?_ ?_ ?_, fun op hop m' hm' => HostOp.count_apply hop hm'⟩
  · rw [tracks_faultPc.applyAll h fun act hact he m m' hm => (hbooks act hact he m m' hm).1,
      hfaultPc, Journal.replay_latest, Option.or_none]
  · have htrack := tracks_status.applyAll h fun act hact he m m' hm => by
      simp only [Machine.leaveRun, (hbooks act hact he m m' hm).2]
    rw [Machine.leaveRun_of_status_ne_running hrunning,
      Machine.leaveRun_of_status_ne_running hidle, hstatus, Journal.replay_status] at htrack
    exact htrack
  · rw [tracks_count.applyAll h fun _ _ he _ _ hm => (HostAct.frame_of_isEdit hm he).1, hcount,
      Journal.replay_count, BitVec.zero_add]

/-- A host that has an unassigned word stepped over, a `nop` executed, a run refused and an image
that is too short refused. -/
def HostAct.faultAndGoOn : List HostAct.{0} :=
  [.host (.loadWords #[0x0400, 0x0000]), .host (.step Device.silent Sink.ignore ()),
    .host (.step Device.silent Sink.ignore ()),
    .host (.run Device.silent Sink.ignore 5 ⟨{ phase := .cancelled }, ()⟩),
    .host (.loadImage #[0x00])]

/-- After that the books agree with the journal. -/
theorem bookkeeping_of_applyAll_faultAndGoOn :
    ∃ m, HostAct.applyAll HostAct.faultAndGoOn .initial = some m ∧
      Bookkeeping (HostAct.journalAll HostAct.faultAndGoOn .initial) m := by
  have hacts : ∀ act ∈ HostAct.faultAndGoOn, act.editsBooks = false := by
    simp [HostAct.faultAndGoOn, HostAct.editsBooks]
  have h : HostAct.applyAll HostAct.faultAndGoOn .initial = some _ := rfl
  exact ⟨_, h, (bookkeeping_of_applyAll (.inl rfl) hacts h).1⟩

end Cpu16
