import Mathlib.Data.List.Forall2
import Cpu16.Proofs.Run.Lockstep
import Cpu16.Proofs.Run.Refinement
import Cpu16.Proofs.Run.Twin
import Cpu16.Run.Processor

set_option relaxedAutoImplicit false
set_option autoImplicit false

/-!
# Tracing is transparent

A processor does the same whether it records reports or not, and what it does is what single steps
and runs do to a machine without a processor. If it records, no report is lost, made twice or put
out of order: what has been taken from the processor so far, followed by what it still has, are all
reports since its start, also across resets. If it does not, there is nothing to take.

To see what a processor asks of its device, the device enters each call in a log. The machine
without a processor has a log of the calls and of the reports.

## Main definitions

* `Cpu16.Processor.Op` — what an owner does with a processor, and `Cpu16.Processor.Answer` what is
  answered.
* `Cpu16.Owned`, `Cpu16.Unowned` — a processor, with what has been taken from it; and a machine
  without a processor.
* `Cpu16.Processor.history` — what comes of some operations, one after another.
* `Cpu16.Processor.DrainsAll` — every taking in a history empties the buffer.
* `Cpu16.Mirrors` — a processor shows what the machine without one shows.
* `Cpu16.TracingTransparent` — the processors with and without a trace do what the machine does, and
  the trace is complete.

## Main results

* `Cpu16.Lockstep.recording` — a buffer of reports goes in lockstep with a log.
* `Cpu16.Mirrors.apply`, `Cpu16.mirrors_history` — one operation, and any number of them.
* `Cpu16.Processor.drainsAll_of_history` — a taking empties the buffer, wherever it stands.
* `Cpu16.tracing_transparent` — tracing is transparent.
-/

universe u v w

namespace Cpu16

/-! ## Worlds that keep reports -/

section Recording

variable {σ : Type u} {ε : Type v} {dev : Device σ} {sink : Sink σ} {dev' : Device (Session ε)}
  {R : σ → Session ε → Prop}

/-- **A buffer in lockstep.** If a world that keeps its reports goes in lockstep with one that
ignores them, then it does so with the latter beside a buffer, and the buffer has the reports that
have not been taken from it. -/
theorem Lockstep.recording (h : Lockstep dev sink dev' Sink.ignore R) {events : σ → List Event}
    (hpoll : ∀ s, events (dev.poll s).2 = events s)
    (hdraw : ∀ character position s, events (dev.draw character position s).2 = events s)
    (hreport : ∀ event s, events (sink event s) = events s ++ [event]) (taken : Array Event) :
    Lockstep dev sink dev'.recording Sink.record
      fun s t => R s t.dropBuffer ∧ taken ++ t.buffer = (events s).toArray where
  poll s t hst := by
    obtain ⟨hanswer, hworld⟩ := h.poll s t.dropBuffer hst.1
    exact ⟨hanswer, hworld, by rw [hpoll]; exact hst.2⟩
  draw character position s t hst := by
    obtain ⟨hanswer, hworld⟩ := h.draw character position s t.dropBuffer hst.1
    exact ⟨hanswer, hworld, by rw [hdraw]; exact hst.2⟩
  report event s t hst := by
    refine ⟨h.report event s t.dropBuffer hst.1, ?_⟩
    show taken ++ t.buffer.push event = _
    rw [hreport, Array.append_push, hst.2, List.push_toArray]

end Recording

section Logs

variable {ε : Type u}

namespace Session

/-- The reports in the log of a world. -/
def events (s : Session (ε × List Interaction)) : List Event :=
  (withLog s).2.filterMap Interaction.event?

/-- The world, with nothing but the calls of the device in its log. -/
def callsOnly (s : Session (ε × List Interaction)) : Session (ε × List Interaction) :=
  withLog.symm ((withLog s).1, (withLog s).2.filter Interaction.isCall)

/-- The world `t` is `s`, but the reports are not in its log. -/
def Forgets (s t : Session (ε × List Interaction)) : Prop :=
  t = s.callsOnly

/-- The world `t` is `s`, but the reports are not in its log, and those that have not been taken are
in its buffer. -/
def Buffers (taken : Array Event) (s : Session (ε × List Interaction))
    (t : Recorded (ε × List Interaction)) : Prop :=
  s.Forgets t.dropBuffer ∧ taken ++ t.buffer = s.events.toArray

end Session

variable (dev : Device (Session ε))

/-- A world that logs calls and reports goes in lockstep with one that logs only the calls. -/
theorem lockstep_forgets :
    Lockstep (dev.logged Session.withLog) (Sink.ignore.logged Session.withLog)
      (dev.logged Session.withLog) Sink.ignore Session.Forgets where
  poll := by
    rintro s _ rfl
    refine ⟨rfl, ?_⟩
    simp [Device.logged, Session.Forgets, Session.callsOnly, List.filter_cons, Interaction.isCall]
  draw := by
    rintro character position s _ rfl
    refine ⟨rfl, ?_⟩
    simp [Device.logged, Session.Forgets, Session.callsOnly, List.filter_cons, Interaction.isCall]
  report := by
    rintro event s _ rfl
    simp [Sink.logged, Sink.ignore, Session.Forgets, Session.callsOnly, Interaction.isCall]

/-- A world that logs calls and reports goes in lockstep with one that logs the calls and records
the reports. -/
theorem lockstep_buffers (taken : Array Event) :
    Lockstep (dev.logged Session.withLog) (Sink.ignore.logged Session.withLog)
      (dev.logged Session.withLog).recording Sink.record (Session.Buffers taken) := by
  refine (lockstep_forgets dev).recording ?_ ?_ ?_ taken
  · intro s
    simp [Device.logged, Session.events, Interaction.event?]
  · intro character position s
    simp [Device.logged, Session.events, Interaction.event?]
  · intro event s
    simp [Sink.logged, Session.events, Interaction.event?]

/-- The worlds with and without reports have the same control, and it is set in both alike. -/
theorem sharesControl_forgets : SharesControl (@Session.Forgets ε) where
  control := by
    rintro s _ rfl
    rfl
  set := by
    rintro s _ rfl c
    rfl

/-- So it is if the reports are in a buffer. -/
theorem sharesControl_buffers (taken : Array Event) :
    SharesControl (@Session.Buffers ε taken) where
  control _ _ hst := (congrArg Session.control hst.1).symm
  set s t hst c := ⟨sharesControl_forgets.set s t.dropBuffer hst.1 c, hst.2⟩

end Logs

/-! ## What is done with a processor -/

namespace Processor

/-- What the owner of a processor does with it. -/
inductive Op : Type
  /-- One step. -/
  | step
  /-- A run, of at most `fuel` steps. -/
  | run (fuel : Nat)
  /-- A reset. -/
  | reset
  /-- Another clock rate. -/
  | setRate (hz : Nat)
  /-- Any edit of the machine by hand. -/
  | edit (f : Machine → Machine)
  /-- Anything that is done through a handle on the control. -/
  | control (f : Control → Control)
  /-- The recorded reports are taken. -/
  | drain

/-- What an operation answers. -/
inductive Answer : Type
  /-- Nothing. -/
  | done
  /-- The outcome of a step. -/
  | stepped (outcome : Outcome)
  /-- The result of a run. -/
  | ran (result : RunResult)
  deriving DecidableEq, Repr

/-- Some operations, one after another: what each of them answers, and what there is after it. There
is no history if an operation comes to no end. -/
def history {α : Type u} (apply : Op → α → Option (Answer × α)) :
    List Op → α → Option (List (Answer × α))
  | [], _ => some []
  | op :: ops, a => (apply op a).bind fun r => (history apply ops r.2).map (r :: ·)

end Processor

/-- A processor, with all reports that its owner has taken from it so far. -/
structure Owned (ε : Type u) : Type u where
  /-- The processor. -/
  processor : Processor ε
  /-- The reports that have been taken, one taking after another. -/
  taken : Array Event := #[]

/-- A machine without a processor, and its world, with a log of the calls and the reports. -/
structure Unowned (ε : Type u) : Type u where
  /-- The machine. -/
  machine : Machine
  /-- The world, with the log. -/
  session : Session (ε × List Interaction)

/-- What is seen after an operation. -/
structure Sight (ε : Type u) : Type u where
  /-- What the operation has answered. -/
  answer : Processor.Answer
  /-- The machine. -/
  machine : Machine
  /-- The control, and the world of the device. -/
  session : Session ε
  /-- The calls of the device so far, with what it has answered. -/
  calls : List Interaction

section Operations

variable {ε : Type u}

/-- A new processor with a program, whose device logs its calls. -/
def Owned.ofProgram (dev : Device (Session ε)) (config : Config) (env : ε) (ws : Array Word) :
    Owned (ε × List Interaction) where
  processor := .ofProgram (dev.logged Session.withLog) config (env, []) ws

/-- A new machine with a program, and a new control. -/
def Unowned.ofProgram (rate : Nat) (env : ε) (ws : Array Word) : Unowned ε where
  machine := .ofProgram ws
  session := ⟨.ofRate rate, (env, [])⟩

/-- What is seen of a processor. -/
def Owned.sight (r : Processor.Answer × Owned (ε × List Interaction)) : Sight ε where
  answer := r.1
  machine := r.2.processor.machine
  session := (Session.withLog r.2.processor.session).1
  calls := (Session.withLog r.2.processor.session).2

/-- What is seen of a machine without a processor. -/
def Unowned.sight (r : Processor.Answer × Unowned ε) : Sight ε where
  answer := r.1
  machine := r.2.machine
  session := (Session.withLog r.2.session).1
  calls := (Session.withLog r.2.session).2.filter Interaction.isCall

/-- All reports that a processor has made, first the ones that have been taken from it, and then the
ones that are still in it. -/
def Owned.trace (w : Owned ε) : Array Event :=
  w.taken ++ w.processor.trace

namespace Processor.Op

/-- The operation on a processor. -/
def apply : Op → Owned ε → Option (Answer × Owned ε)
  | step, w => some (.stepped w.processor.step.1, { w with processor := w.processor.step.2 })
  | run fuel, w =>
    (w.processor.run fuel).map fun r => (.ran r.1, { w with processor := r.2 })
  | reset, w => some (.done, { w with processor := w.processor.reset })
  | setRate hz, w => some (.done, { w with processor := w.processor.setRate hz })
  | edit f, w =>
    some (.done, { w with processor := { w.processor with machine := f w.processor.machine } })
  | control f, w => some (.done, { w with processor := w.processor.modifyControl f })
  | drain, w => some (.done, ⟨w.processor.drain.2, w.taken ++ w.processor.drain.1⟩)

/-- The operation on a machine without a processor. Its reports are in the log, where they stay. -/
def applyFree (dev : Device (Session ε)) : Op → Unowned ε → Option (Answer × Unowned ε)
  | step, w =>
    let r := Cpu16.step (dev.logged Session.withLog) (Sink.ignore.logged Session.withLog) w.machine
      w.session
    some (.stepped r.1, ⟨r.2.1, r.2.2⟩)
  | run fuel, w =>
    (Cpu16.run (dev.logged Session.withLog) (Sink.ignore.logged Session.withLog) fuel w.machine
      w.session).map fun r => (.ran r.1, ⟨r.2.1, r.2.2⟩)
  | reset, w => some (.done, { w with machine := w.machine.reset })
  | setRate hz, w =>
    some (.done, { w with session := { w.session with control := w.session.control.setRate hz } })
  | edit f, w => some (.done, { w with machine := f w.machine })
  | control f, w =>
    some (.done, { w with session := { w.session with control := f w.session.control } })
  | drain, w => some (.done, w)

end Processor.Op

/-- In a history of the processor `v` with the results `rs`, every taking answers all reports that
are in the processor, in their order, and leaves none there. The owner has them after those that
have been taken before. -/
def Processor.DrainsAll (ops : List Op) (v : Owned ε) (rs : List (Answer × Owned ε)) : Prop :=
  ∀ (k : Nat) before r, ops[k]? = some .drain → (v :: rs.map Prod.snd)[k]? = some before →
    rs[k]? = some r →
      r.2.taken = before.taken ++ before.processor.trace ∧ r.2.processor.trace = #[]

end Operations

/-! ## One operation -/

namespace Processor

/-- **Every operation of a history goes on where the one before it has ended.** The states in which
the operations are started are the first one and those that the earlier operations have left.

**Proof sketch.** Induction on the operations, with any first state. -/
theorem apply_of_history {α : Type w} {apply : Op → α → Option (Answer × α)} {ops : List Op} {a : α}
    {rs : List (Answer × α)} (h : history apply ops a = some rs) {k : Nat} {op : Op} {before : α}
    {r : Answer × α} (hop : ops[k]? = some op) (hbefore : (a :: rs.map Prod.snd)[k]? = some before)
    (hr : rs[k]? = some r) : apply op before = some r := by
  induction ops generalizing a rs k with
  | nil => cases hop
  | cons op' ops ih =>
    obtain ⟨r', hr', hrest⟩ := Option.bind_eq_some_iff.mp h
    obtain ⟨rs', hrs', rfl⟩ := Option.map_eq_some_iff.mp hrest
    cases k with
    | zero =>
      obtain rfl : op' = op := Option.some.inj hop
      obtain rfl : a = before := Option.some.inj hbefore
      obtain rfl : r' = r := Option.some.inj hr
      exact hr'
    | succ k => exact ih hrs' hop hbefore hr

variable {ε : Type u} {α : Type w}

/-- **A taking empties the buffer**, wherever it stands in a history. -/
theorem drainsAll_of_history {ops : List Op} {v : Owned ε} {rs : List (Answer × Owned ε)}
    (h : history Op.apply ops v = some rs) : DrainsAll ops v rs := by
  intro k before r hop hbefore hr
  have hdrain := apply_of_history h hop hbefore hr
  obtain rfl := Option.some.inj hdrain
  exact ⟨rfl, rfl⟩

/-- What a step or a run that is not recorded makes of the processor, with its answer. -/
def resume (p : Processor ε) (r : α × Machine × Session ε) : α × Processor ε :=
  (r.1, { p with machine := r.2.1, session := r.2.2 })

/-- What a step or a run that is recorded makes of the processor, with its answer. -/
def resumeRecorded (p : Processor ε) (r : α × Machine × Recorded ε) : α × Processor ε :=
  (r.1, { p with machine := r.2.1, session := r.2.2.dropBuffer, trace := r.2.2.buffer })

variable {p : Processor ε}

/-- A step is recorded if the processor records. -/
theorem step_of_tracing (h : p.config.tracing = true) :
    p.step = p.resumeRecorded
      (Cpu16.step p.device.recording Sink.record p.machine (p.session.withBuffer p.trace)) :=
  if_pos h

/-- A step is not recorded otherwise. -/
theorem step_of_not_tracing (h : p.config.tracing = false) :
    p.step = p.resume (Cpu16.step p.device Sink.ignore p.machine p.session) :=
  if_neg (Bool.eq_false_iff.mp h)

/-- A run is recorded if the processor records. -/
theorem run_of_tracing (h : p.config.tracing = true) (fuel : Nat) :
    p.run fuel = (Cpu16.run p.device.recording Sink.record fuel p.machine
      (p.session.withBuffer p.trace)).map p.resumeRecorded := by
  refine (if_pos h).trans ?_
  cases Cpu16.run p.device.recording Sink.record fuel p.machine (p.session.withBuffer p.trace) <;>
    rfl

/-- A run is not recorded otherwise. -/
theorem run_of_not_tracing (h : p.config.tracing = false) (fuel : Nat) :
    p.run fuel = (Cpu16.run p.device Sink.ignore fuel p.machine p.session).map p.resume := by
  refine (if_neg (Bool.eq_false_iff.mp h)).trans ?_
  cases Cpu16.run p.device Sink.ignore fuel p.machine p.session <;> rfl

end Processor

section Mirrors

variable {ε : Type u} {α : Type w} {dev : Device (Session ε)} {tracing : Bool} {w : Unowned ε}
  {v : Owned (ε × List Interaction)}

/-- The processor `v`, whose device is `dev` with a log of its calls, shows what the machine `w`
without a processor shows, and has all reports if it records, and none if it does not. -/
structure Mirrors (dev : Device (Session ε)) (tracing : Bool) (w : Unowned ε)
    (v : Owned (ε × List Interaction)) : Prop where
  /-- The machines are the same. -/
  machine : v.processor.machine = w.machine
  /-- The device is the one of the machine. -/
  device : v.processor.device = dev.logged Session.withLog
  /-- Whether the processor records. -/
  records : v.processor.config.tracing = tracing
  /-- The worlds are the same, and so are the calls of the device. -/
  session : w.session.Forgets v.processor.session
  /-- No report is lost. -/
  trace : v.trace = if tracing then w.session.events.toArray else #[]

/-- Options that are related are mapped to related ones. -/
theorem rel_map {β γ δ : Type w} {r : α → β → Prop} {r' : γ → δ → Prop} {f : α → γ} {g : β → δ}
    {x : Option α} {y : Option β} (h : Option.Rel r x y) (hfg : ∀ a b, r a b → r' (f a) (g b)) :
    Option.Rel r' (x.map f) (y.map g) := by
  cases h with
  | none => exact .none
  | some h => exact .some (hfg _ _ h)

namespace Mirrors

/-- A processor that records goes in lockstep with the machine. -/
theorem lockstep_recording (h : Mirrors dev true w v) :
    Lockstep (dev.logged Session.withLog) (Sink.ignore.logged Session.withLog)
      v.processor.device.recording Sink.record (Session.Buffers v.taken) := by
  rw [h.device]
  exact lockstep_buffers dev v.taken

/-- A processor that does not record goes in lockstep with the machine. -/
theorem lockstep (h : Mirrors dev false w v) :
    Lockstep (dev.logged Session.withLog) (Sink.ignore.logged Session.withLog) v.processor.device
      Sink.ignore Session.Forgets := by
  rw [h.device]
  exact lockstep_forgets dev

/-- The world of a processor that records, beside its buffer. -/
theorem related (h : Mirrors dev true w v) :
    w.session.Buffers v.taken (v.processor.session.withBuffer v.processor.trace) :=
  ⟨h.session, h.trace⟩

/-- A step or a run that is recorded. -/
theorem resumeRecorded (h : Mirrors dev true w v)
    {x : α × Machine × Session (ε × List Interaction)}
    {y : α × Machine × Recorded (ε × List Interaction)}
    (hxy : Alike (Session.Buffers v.taken) x y) :
    Mirrors dev true ⟨x.2.1, x.2.2⟩ { v with processor := (v.processor.resumeRecorded y).2 } where
  machine := hxy.machine.symm
  device := h.device
  records := h.records
  session := hxy.world.1
  trace := hxy.world.2

/-- A step or a run that is not recorded. -/
theorem resume (h : Mirrors dev false w v) {x y : α × Machine × Session (ε × List Interaction)}
    (hxy : Alike Session.Forgets x y) :
    Mirrors dev false ⟨x.2.1, x.2.2⟩ { v with processor := (v.processor.resume y).2 } where
  machine := hxy.machine.symm
  device := h.device
  records := h.records
  session := hxy.world
  trace := h.trace

/-- Whatever is done to the machine and to the control alike. -/
theorem modify (h : Mirrors dev tracing w v) (f : Machine → Machine) (g : Control → Control)
    (rate : Nat) :
    Mirrors dev tracing
      ⟨f w.machine, { w.session with control := g w.session.control }⟩
      { v with processor := { v.processor.modifyControl g with
        machine := f v.processor.machine
        config := { v.processor.config with rate := rate } } } where
  machine := congrArg f h.machine
  device := h.device
  records := h.records
  session := by
    have hs : v.processor.session = w.session.callsOnly := h.session
    exact congrArg (fun s : Session _ => { s with control := g s.control }) hs
  trace := h.trace

/-- The reports are taken. -/
theorem drain (h : Mirrors dev tracing w v) :
    Mirrors dev tracing w ⟨v.processor.drain.2, v.taken ++ v.processor.drain.1⟩ where
  machine := h.machine
  device := h.device
  records := h.records
  session := h.session
  trace := (Array.append_empty).trans h.trace

/-- **One operation** answers the same with a processor and without one, and the processor still
shows what the machine shows.

**Proof sketch.** A step or a run goes in lockstep with the one without a processor, in a world that
logs calls and reports (`lockstep_buffers`, `lockstep_forgets`). All other operations do the same
to both. -/
theorem apply (h : Mirrors dev tracing w v) (op : Processor.Op) :
    Option.Rel (fun r r' => r.1 = r'.1 ∧ Mirrors dev tracing r.2 r'.2) (op.applyFree dev w)
      (op.apply v) := by
  cases op with
  | reset => exact .some ⟨rfl, h.modify Machine.reset id v.processor.config.rate⟩
  | setRate hz => exact .some ⟨rfl, h.modify id (·.setRate hz) hz⟩
  | edit f => exact .some ⟨rfl, h.modify f id v.processor.config.rate⟩
  | control f => exact .some ⟨rfl, h.modify id f v.processor.config.rate⟩
  | drain => exact .some ⟨rfl, h.drain⟩
  | step =>
    obtain ⟨m, s⟩ := w
    obtain rfl : v.processor.machine = m := h.machine
    cases tracing with
    | true =>
      -- The buffer of the processor stands for the reports that have not been taken.
      have hstep := h.lockstep_recording.step v.processor.machine h.related
      show Option.Rel _ _ (some (Processor.Answer.stepped v.processor.step.1,
        { v with processor := v.processor.step.2 }))
      rw [Processor.step_of_tracing h.records]
      exact .some ⟨congrArg _ hstep.answer, h.resumeRecorded hstep⟩
    | false =>
      -- The reports are dropped, so only the calls have to agree.
      have hstep := h.lockstep.step v.processor.machine h.session
      show Option.Rel _ _ (some (Processor.Answer.stepped v.processor.step.1,
        { v with processor := v.processor.step.2 }))
      rw [Processor.step_of_not_tracing h.records]
      exact .some ⟨congrArg _ hstep.answer, h.resume hstep⟩
  | run fuel =>
    obtain ⟨m, s⟩ := w
    obtain rfl : v.processor.machine = m := h.machine
    show Option.Rel _ _ ((v.processor.run fuel).map _)
    cases tracing with
    | true =>
      have hrun := h.lockstep_recording.run (sharesControl_buffers v.taken) fuel
        v.processor.machine h.related
      rw [Processor.run_of_tracing h.records, Option.map_map]
      exact rel_map hrun fun x y hxy => ⟨congrArg _ hxy.answer, h.resumeRecorded hxy⟩
    | false =>
      have hrun := h.lockstep.run sharesControl_forgets fuel v.processor.machine h.session
      rw [Processor.run_of_not_tracing h.records, Option.map_map]
      exact rel_map hrun fun x y hxy => ⟨congrArg _ hxy.answer, h.resume hxy⟩

/-- What is seen of a processor is what is seen of the machine that it shows. -/
theorem sight (h : Mirrors dev tracing w v) (answer : Processor.Answer) :
    Unowned.sight (answer, w) = Owned.sight (answer, v) := by
  have hs : v.processor.session = w.session.callsOnly := h.session
  unfold Unowned.sight Owned.sight
  rw [h.machine, hs]
  rfl

end Mirrors

/-! ## Any number of operations -/

/-- **Some operations.** The histories of a machine and of a processor that shows it answer the
same, and the processor shows the machine after every operation. -/
theorem mirrors_history (h : Mirrors dev tracing w v) (ops : List Processor.Op) :
    Option.Rel (List.Forall₂ fun r r' => r.1 = r'.1 ∧ Mirrors dev tracing r.2 r'.2)
      (Processor.history (Processor.Op.applyFree dev) ops w)
      (Processor.history Processor.Op.apply ops v) := by
  induction ops generalizing w v with
  | nil => exact .some .nil
  | cons op ops ih =>
    have hop := h.apply op
    show Option.Rel _ ((op.applyFree dev w).bind _) ((op.apply v).bind _)
    generalize op.applyFree dev w = x at hop ⊢
    generalize op.apply v = y at hop ⊢
    cases hop with
    | none => exact .none
    | some hr => exact rel_map (ih hr.2) fun _ _ hrs => .cons hr hrs

/-- Where two histories are related, what is read off them is the same. -/
theorem map_eq_of_rel {β γ : Type u} {δ : Type w} {r : β → γ → Prop} {x : Option (List β)}
    {y : Option (List γ)} (h : Option.Rel (List.Forall₂ r) x y) {f : β → δ} {g : γ → δ}
    (hfg : ∀ a b, r a b → f a = g b) : x.map (List.map f) = y.map (List.map g) := by
  cases h with
  | none => rfl
  | @some as bs h =>
    have hmap : List.Forall₂ Eq (as.map f) (bs.map g) :=
      List.forall₂_map_left_iff.mpr (List.forall₂_map_right_iff.mpr (h.imp hfg))
    exact congrArg some (List.forall₂_eq_eq_eq ▸ hmap)

end Mirrors

/-! ## Tracing is transparent -/

section Transparent

variable {ε : Type u} (dev : Device (Session ε)) (rate : Nat) (env : ε) (ws : Array Word)

/-- The operations `ops` come to the same on a processor with the program `ws`, with a trace or
without one, and on a machine without a processor; and the trace is complete. -/
structure TracingTransparent (ops : List Processor.Op) : Prop where
  /-- With a trace, every operation answers as it does without a processor, and the machine, its
  world and the calls of the device are the same after it. -/
  traced :
    (Processor.history Processor.Op.apply ops (.ofProgram dev ⟨rate, true⟩ env ws)).map
        (List.map Owned.sight) =
      (Processor.history (Processor.Op.applyFree dev) ops (.ofProgram rate env ws)).map
        (List.map Unowned.sight)
  /-- So it is without a trace. -/
  untraced :
    (Processor.history Processor.Op.apply ops (.ofProgram dev ⟨rate, false⟩ env ws)).map
        (List.map Owned.sight) =
      (Processor.history (Processor.Op.applyFree dev) ops (.ofProgram rate env ws)).map
        (List.map Unowned.sight)
  /-- After every operation, the reports that have been taken, followed by those that are still in
  the processor, are all reports, each once and in order. -/
  lossless :
    (Processor.history Processor.Op.apply ops (.ofProgram dev ⟨rate, true⟩ env ws)).map
        (List.map fun r => r.2.trace) =
      (Processor.history (Processor.Op.applyFree dev) ops (.ofProgram rate env ws)).map
        (List.map fun r => r.2.session.events.toArray)
  /-- With a trace or without one, every taking empties the buffer. -/
  drained : ∀ tracing rs,
    Processor.history Processor.Op.apply ops (.ofProgram dev ⟨rate, tracing⟩ env ws) = some rs →
      Processor.DrainsAll ops (.ofProgram dev ⟨rate, tracing⟩ env ws) rs
  /-- Without a trace, nothing is ever taken. -/
  silent : ∀ rs,
    Processor.history Processor.Op.apply ops (.ofProgram dev ⟨rate, false⟩ env ws) = some rs →
      ∀ r ∈ rs, r.2.taken = #[]

/-- A new processor shows a new machine. -/
theorem mirrors_ofProgram (tracing : Bool) :
    Mirrors dev tracing (.ofProgram rate env ws) (.ofProgram dev ⟨rate, tracing⟩ env ws) where
  machine := rfl
  device := rfl
  records := rfl
  session := rfl
  trace := by cases tracing <;> rfl

/-- **Tracing is transparent.** For every program, device and clock rate, and for every sequence of
operations on a processor: the answers, the calls of the device and the machine after each operation
are the same with a trace and without one, and they are those of single steps and runs of a machine
without a processor. No report is lost, and every taking empties the buffer.

**Proof sketch.** A new processor shows a new machine (`mirrors_ofProgram`), and so it does after
every operation (`mirrors_history`). What is seen, and the trace, are read off that. What a taking
does to the buffer is `Processor.drainsAll_of_history`. -/
theorem tracing_transparent (ops : List Processor.Op) :
    TracingTransparent dev rate env ws ops := by
  have htraced := mirrors_history (mirrors_ofProgram dev rate env ws true) ops
  have huntraced := mirrors_history (mirrors_ofProgram dev rate env ws false) ops
  refine ⟨(map_eq_of_rel htraced ?_).symm, (map_eq_of_rel huntraced ?_).symm,
    (map_eq_of_rel htraced ?_).symm, ?_, ?_⟩
  · rintro ⟨answer, w⟩ ⟨answer', v⟩ ⟨rfl : answer = answer', h⟩
    exact h.sight answer
  · rintro ⟨answer, w⟩ ⟨answer', v⟩ ⟨rfl : answer = answer', h⟩
    exact h.sight answer
  · rintro r r' ⟨-, h⟩
    exact h.trace.symm
  · intro tracing rs hrs
    exact Processor.drainsAll_of_history hrs
  · intro rs hrs r hr
    -- What has been taken is part of the whole trace, which is empty throughout.
    have hempty := map_eq_of_rel huntraced (f := fun _ => #[]) (g := fun r => r.2.trace)
      fun r r' h => h.2.trace.symm
    rw [hrs] at hempty
    obtain ⟨as, -, has⟩ := Option.map_eq_some_iff.mp hempty
    have hmem : r.2.trace ∈ as.map fun _ => #[] := has ▸ List.mem_map_of_mem hr
    obtain ⟨-, -, htrace⟩ := List.mem_map.mp hmem
    exact (Array.append_eq_empty_iff.mp htrace.symm).1

end Transparent

end Cpu16
