import Cpu16.Proofs.Run.ControlLog
import Cpu16.Run.Handles

set_option relaxedAutoImplicit false
set_option autoImplicit false

/-!
# Families of handles

A host makes handles on run controls, clones them, and arms, stops, paces and runs through them, in
any order. This file follows such a history. The handles that go back to the same new handle are a
family. They always show the same control, which nothing but what is done through one of them
changes; and what has been done through them is all that has to be known of it.

The histories have the most recent operation first.

## Main definitions

* `Cpu16.HandleOp` — what a host may do; `Cpu16.Handles.after` does one after another.
* `Cpu16.originOf` — the new handle that a handle goes back to.
* `Cpu16.createdAs`, `Cpu16.actsOn` — how a family was made, and what has been done to it.
* `Cpu16.Follows` — what the handles after a history are like.
* `Cpu16.ControlProtocol` — what a host can rely on.

## Main results

* `Cpu16.Follows.create`, `Cpu16.Follows.clone`, `Cpu16.Follows.act` — one more operation.
* `Cpu16.follows_of_after` — the handles after a history can be told from the history.
* `Cpu16.controlProtocol_of_after` — what a host can rely on after every history.
-/

namespace Cpu16

/-! ## Histories -/

/-- How a new handle is made. -/
inductive Creation
  /-- With an idle control that is not paced. -/
  | plain
  /-- With a period. -/
  | ofPeriod (d : Duration)
  /-- With a clock rate. -/
  | ofRate (hz : Nat)

namespace Creation

/-- The control of the new handle. -/
def control : Creation → Control
  | plain => {}
  | ofPeriod d => Control.ofPeriod d
  | ofRate hz => Control.ofRate hz

/-- The period that is asked for. -/
def period : Creation → Duration
  | plain => Duration.zero
  | ofPeriod d => d
  | ofRate hz => periodOfRate hz

end Creation

/-- What a host may do with handles. -/
inductive HandleOp
  /-- Make a handle with a control of its own. -/
  | create (how : Creation)
  /-- Make a handle that shares the control of handle `h`. -/
  | clone (h : Nat)
  /-- Act on the control through handle `h`. -/
  | act (h : Nat) (act : ControlAct)

namespace HandleOp

/-- The handles after an operation. Nothing is answered if there is no handle `h`, or for a run that
does not end. -/
def apply : HandleOp → Handles → Option Handles
  | create how, hs => some (hs.create how.control)
  | clone h, hs => if h < hs.size then some (hs.clone h) else none
  | act h (.run fuel m), hs => (hs.run h fuel m).map fun r => r.2.2
  | act h a, hs => if h < hs.size then some (hs.modify h a.effect) else none

end HandleOp

/-- The handles after a history. -/
def Handles.after : List HandleOp → Option Handles
  | [] => some .empty
  | op :: ops => (Handles.after ops).bind op.apply

/-- Number of the handles that have been made. They are numbered in the order in which they were. -/
def handleCount : List HandleOp → Nat
  | [] => 0
  | .create _ :: ops | .clone _ :: ops => handleCount ops + 1
  | .act _ _ :: ops => handleCount ops

/-- The new handle that a handle goes back to: itself, or the origin of what it was cloned from. -/
def originOf : List HandleOp → Nat → Nat
  | [], h => h
  | .clone g :: ops, h => originOf ops (if h = handleCount ops then g else h)
  | .create _ :: ops, h => if h = handleCount ops then h else originOf ops h
  | .act _ _ :: ops, h => originOf ops h

/-- How the new handle `origin` was made. -/
def createdAs : List HandleOp → Nat → Creation
  | [], _ => .plain
  | .create how :: ops, origin => if origin = handleCount ops then how else createdAs ops origin
  | .clone _ :: ops, origin | .act _ _ :: ops, origin => createdAs ops origin

/-- What has been done through the handles that go back to `origin`. -/
def actsOn : List HandleOp → Nat → List ControlAct
  | [], _ => []
  | .create _ :: ops, origin | .clone _ :: ops, origin => actsOn ops origin
  | .act h a :: ops, origin =>
    if originOf ops h = origin then a :: actsOn ops origin else actsOn ops origin

/-- The control of the handles that go back to `origin`, as the history tells it. -/
def controlOf (ops : List HandleOp) (origin : Nat) : Control :=
  (createdAs ops origin).control.after (actsOn ops origin)

section ControlOf

variable {ops : List HandleOp} {g h origin : Nat}

/-- A handle that is created is its own origin. -/
theorem originOf_create_self (how : Creation) :
    originOf (.create how :: ops) (handleCount ops) = handleCount ops :=
  if_pos rfl

/-- A creation leaves the origins of the older handles alone. -/
theorem originOf_create_of_lt (hh : h < handleCount ops) (how : Creation) :
    originOf (.create how :: ops) h = originOf ops h :=
  if_neg (Nat.ne_of_lt hh)

/-- A new family has the control that it was made with. -/
theorem controlOf_create_self (hacts : actsOn ops (handleCount ops) = []) (how : Creation) :
    controlOf (.create how :: ops) (handleCount ops) = how.control := by
  simp only [controlOf, createdAs, actsOn, hacts, if_pos]
  rfl

/-- A creation leaves the controls of the older families alone. -/
theorem controlOf_create_of_lt (ho : origin < handleCount ops) (how : Creation) :
    controlOf (.create how :: ops) origin = controlOf ops origin := by
  simp only [controlOf, createdAs, actsOn, if_neg (Nat.ne_of_lt ho)]

/-- An act on a family is done to its control. -/
theorem controlOf_act_of_eq (ho : originOf ops g = origin) (a : ControlAct) :
    controlOf (.act g a :: ops) origin = a.effect (controlOf ops origin) := by
  simp only [controlOf, createdAs, actsOn, if_pos ho, Control.after_cons]

/-- An act through a handle leaves the controls of other families alone. -/
theorem controlOf_act_of_ne (ho : originOf ops g ≠ origin) (a : ControlAct) :
    controlOf (.act g a :: ops) origin = controlOf ops origin := by
  simp only [controlOf, createdAs, actsOn, if_neg ho]

end ControlOf

/-! ## Handles -/

namespace Handles

variable {hs : Handles} {g h : Nat} {c : Control}

/-- A handle reads the control of its family. -/
theorem get?_eq_some_iff :
    hs.get? h = some c ↔ ∃ family, hs.families[h]? = some family ∧ hs.controls[family]? = some c :=
  Option.bind_eq_some_iff

/-- A new handle has a family of its own, and all others keep theirs. -/
theorem families_create (hs : Handles) (c : Control) (h : Nat) :
    (hs.create c).families[h]? =
      if h = hs.size then some hs.controls.size else hs.families[h]? :=
  Array.getElem?_push

/-- A new handle reads the control that it was created with. -/
theorem get?_create_size (hs : Handles) (c : Control) : (hs.create c).get? hs.size = some c :=
  get?_eq_some_iff.mpr ⟨hs.controls.size, by simp [families_create], Array.getElem?_push_size⟩

/-- The handles that there are already keep their controls. -/
theorem get?_create (hc : hs.get? h = some c) (c' : Control) : (hs.create c').get? h = some c := by
  obtain ⟨family, hfamily, hcontrol⟩ := get?_eq_some_iff.mp hc
  have hne : h ≠ hs.size := by
    rintro rfl
    simp [size] at hfamily
  have hlt := (Array.getElem?_eq_some_iff.mp hcontrol).1
  refine get?_eq_some_iff.mpr ⟨family, by rw [families_create, if_neg hne, hfamily], ?_⟩
  exact (Array.getElem?_push_lt hlt).trans (by rw [← hcontrol]; simp [hlt])

/-- The clone is in the family of the handle `g`. -/
theorem families_clone (hg : g < hs.size) (h : Nat) :
    (hs.clone g).families[h]? = hs.families[if h = hs.size then g else h]? := by
  obtain ⟨family, hfamily⟩ : ∃ family, hs.families[g]? = some family :=
    ⟨_, Array.getElem?_eq_getElem hg⟩
  have hpush : (hs.families.push family)[h]? =
      if h = hs.size then some family else hs.families[h]? := Array.getElem?_push
  unfold clone
  rw [hfamily, hpush]
  by_cases heq : h = hs.size
  · rw [if_pos heq, if_pos heq, hfamily]
  · rw [if_neg heq, if_neg heq]

/-- The clone shows the control of the handle `g`, and the others show theirs. -/
theorem get?_clone (hg : g < hs.size) (h : Nat) :
    (hs.clone g).get? h = hs.get? (if h = hs.size then g else h) := by
  have hcontrols : (hs.clone g).controls = hs.controls := by
    unfold clone
    split <;> rfl
  unfold get?
  rw [families_clone hg, hcontrols]

/-- A change of a control leaves every handle in its family. -/
@[simp]
theorem families_modify (hs : Handles) (g : Nat) (f : Control → Control) :
    (hs.modify g f).families = hs.families := by
  unfold modify
  split <;> rfl

/-- What is done through a handle is done to the control of its family. -/
theorem get?_modify (hs : Handles) (g : Nat) (f : Control → Control) (h : Nat) :
    (hs.modify g f).get? h =
      if hs.families[h]? = hs.families[g]? then (hs.get? h).map f else hs.get? h := by
  unfold get?
  rw [families_modify]
  cases hh : hs.families[h]? with
  | none => simp
  | some family =>
    unfold modify
    cases hg : hs.families[g]? with
    | none => simp
    | some family' =>
      show (hs.controls.modify family' f)[family]? = _
      rw [Array.getElem?_modify]
      by_cases heq : family = family'
      · subst heq
        simp
      · have hne : family' ≠ family := fun h => heq h.symm
        simp [heq, hne]

/-- To change a control is to change it to what the change makes of it. -/
theorem modify_congr {f f' : Control → Control} (hc : hs.get? g = some c) (hf : f c = f' c) :
    hs.modify g f = hs.modify g f' := by
  obtain ⟨family, hfamily, hcontrol⟩ := get?_eq_some_iff.mp hc
  unfold modify
  rw [hfamily]
  have hcontrols : hs.controls.modify family f = hs.controls.modify family f' := by
    refine Array.ext_getElem? fun i => ?_
    rw [Array.getElem?_modify, Array.getElem?_modify]
    by_cases hi : family = i
    · subst hi
      simp [hcontrol, hf]
    · rw [if_neg hi, if_neg hi]
  simp only [hcontrols]

/-- A run through a handle is a run under the control of its family, which it leaves idle. -/
theorem run_eq_some {fuel : Nat} {m : Machine} {r : RunResult × Machine × Handles}
    (hr : hs.run g fuel m = some r) :
    ∃ c, hs.get? g = some c ∧ r.2.2 = hs.modify g Control.finish ∧
      (c.phase = .cancelled → r.1.steps = 0 ∧ r.2.1 = m) ∧
      (c.phase ≠ .cancelled → 0 < r.1.steps) := by
  obtain ⟨c, hc, hr⟩ := Option.bind_eq_some_iff.mp hr
  obtain ⟨⟨result, m', s⟩, hrun, hr⟩ := Option.bind_eq_some_iff.mp hr
  obtain rfl := Option.some.inj hr
  obtain ⟨hs', hcancelled, hsteps⟩ := run_silent hrun
  refine ⟨c, hc, modify_congr hc ?_, hcancelled, hsteps⟩
  exact congrArg Session.control hs'

/-- A run through a handle whose control is cancelled ends at once. -/
theorem run_of_phase_cancelled (hc : hs.get? g = some c) (hphase : c.phase = .cancelled)
    (fuel : Nat) (m : Machine) :
    hs.run g fuel m = some (⟨0, .proceed⟩, m, hs.modify g fun _ => c.finish) := by
  have hrun : Cpu16.run Device.silent Sink.ignore fuel m ⟨c, ()⟩ =
      some (⟨0, .proceed⟩, m, ⟨c.finish, ()⟩) := run_of_cancelled hphase
  unfold run
  rw [hc]
  simp only [Option.bind_eq_bind, Option.bind_some, hrun]
  rfl

end Handles

/-! ## What the handles are like -/

/-- What the handles after a history are like. -/
structure Follows (ops : List HandleOp) (hs : Handles) : Prop where
  /-- There are as many handles as have been made. -/
  size : hs.size = handleCount ops
  /-- Every handle goes back to one of them. -/
  origin_lt : ∀ h < handleCount ops, originOf ops h < handleCount ops
  /-- Nothing has been done to a family that there is not yet. -/
  actsOn_eq_nil : ∀ origin, handleCount ops ≤ origin → actsOn ops origin = []
  /-- Handles are in the same family if they go back to the same new handle. -/
  family_eq_iff : ∀ h < handleCount ops, ∀ h' < handleCount ops,
    hs.families[h]? = hs.families[h']? ↔ originOf ops h = originOf ops h'
  /-- Every handle shows the control that the history tells of its family. -/
  get? : ∀ h < handleCount ops, hs.get? h = some (controlOf ops (originOf ops h))

namespace Follows

variable {ops : List HandleOp} {hs : Handles}

/-- Without handles there is nothing to follow. -/
theorem empty : Follows [] .empty where
  size := rfl
  origin_lt h hh := absurd hh (Nat.not_lt_zero h)
  actsOn_eq_nil _ _ := rfl
  family_eq_iff h hh := absurd hh (Nat.not_lt_zero h)
  get? h hh := absurd hh (Nat.not_lt_zero h)

/-- A handle that has been made is in a family with a control. -/
theorem exists_family_lt (hf : Follows ops hs) {h : Nat} (hh : h < handleCount ops) :
    ∃ family < hs.controls.size, hs.families[h]? = some family := by
  obtain ⟨family, hfamily, hcontrol⟩ := Handles.get?_eq_some_iff.mp (hf.get? h hh)
  exact ⟨family, (Array.getElem?_eq_some_iff.mp hcontrol).1, hfamily⟩

/-- **A new handle** is the origin of a family of its own. -/
theorem create (hf : Follows ops hs) (how : Creation) :
    Follows (.create how :: ops) (hs.create how.control) := by
  have hnew : originOf (.create how :: ops) (handleCount ops) = handleCount ops :=
    originOf_create_self how
  have hold : ∀ h < handleCount ops, originOf (.create how :: ops) h = originOf ops h :=
    fun h hh => originOf_create_of_lt hh how
  have hfamilyNew : (hs.create how.control).families[handleCount ops]? =
      some hs.controls.size := by
    rw [Handles.families_create, if_pos hf.size.symm]
  have hfamilyOld : ∀ h < handleCount ops,
      (hs.create how.control).families[h]? = hs.families[h]? := by
    intro h hh
    rw [Handles.families_create, if_neg (by rw [hf.size]; exact Nat.ne_of_lt hh)]
  -- The new family has just got its number, so no earlier handle is in it.
  have hother : ∀ h < handleCount ops, hs.families[h]? ≠ some hs.controls.size := by
    intro h hh heq
    obtain ⟨family, hlt, hfamily⟩ := hf.exists_family_lt hh
    obtain rfl : family = hs.controls.size := Option.some.inj (hfamily.symm.trans heq)
    exact Nat.lt_irrefl _ hlt
  constructor
  case size => exact (Array.size_push _).trans (congrArg (· + 1) hf.size)
  case origin_lt =>
    intro h hh
    rcases Nat.lt_succ_iff_lt_or_eq.mp hh with hh | rfl
    · rw [hold h hh]
      exact Nat.lt_succ_of_lt (hf.origin_lt h hh)
    · rw [hnew]
      exact Nat.lt_succ_self _
  case actsOn_eq_nil => exact fun origin ho => hf.actsOn_eq_nil origin (Nat.le_of_succ_le ho)
  case family_eq_iff =>
    intro h hh h' hh'
    rcases Nat.lt_succ_iff_lt_or_eq.mp hh with hh | rfl <;>
      rcases Nat.lt_succ_iff_lt_or_eq.mp hh' with hh' | rfl
    · rw [hfamilyOld h hh, hfamilyOld h' hh', hold h hh, hold h' hh']
      exact hf.family_eq_iff h hh h' hh'
    -- An old handle and the new one are neither in one family nor of one origin.
    · rw [hfamilyOld h hh, hfamilyNew, hold h hh, hnew]
      exact iff_of_false (hother h hh) (Nat.ne_of_lt (hf.origin_lt h hh))
    · rw [hfamilyOld h' hh', hfamilyNew, hold h' hh', hnew]
      exact iff_of_false (hother h' hh').symm (Nat.ne_of_gt (hf.origin_lt h' hh'))
    · exact iff_of_true rfl rfl
  case get? =>
    intro h hh
    rcases Nat.lt_succ_iff_lt_or_eq.mp hh with hh | rfl
    · rw [hold h hh, Handles.get?_create (hf.get? h hh), controlOf_create_of_lt (hf.origin_lt h hh)]
    · rw [hnew, controlOf_create_self (hf.actsOn_eq_nil _ (Nat.le_refl _)), ← hf.size,
        hs.get?_create_size]

/-- **A clone** goes back to the same new handle as the handle that it is a clone of. -/
theorem clone (hf : Follows ops hs) {g : Nat} (hg : g < handleCount ops) :
    Follows (.clone g :: ops) (hs.clone g) := by
  have hsize : g < hs.size := by rwa [hf.size]
  -- What there is to know of the clone is known of `g`, and of every other handle of itself.
  have hsource : ∀ h < handleCount ops + 1,
      (if h = handleCount ops then g else h) < handleCount ops := by
    intro h hh
    split
    · exact hg
    · omega
  have horigin : ∀ h, originOf (.clone g :: ops) h =
      originOf ops (if h = handleCount ops then g else h) := fun _ => rfl
  constructor
  case size =>
    obtain ⟨family, -, hg⟩ := hf.exists_family_lt hg
    unfold Handles.clone
    rw [hg]
    exact (Array.size_push _).trans (congrArg (· + 1) hf.size)
  case origin_lt =>
    intro h hh
    rw [horigin]
    exact Nat.lt_succ_of_lt (hf.origin_lt _ (hsource h hh))
  case actsOn_eq_nil => exact fun origin ho => hf.actsOn_eq_nil origin (Nat.le_of_succ_le ho)
  case family_eq_iff =>
    intro h hh h' hh'
    rw [Handles.families_clone hsize, Handles.families_clone hsize, hf.size, horigin, horigin]
    exact hf.family_eq_iff _ (hsource h hh) _ (hsource h' hh')
  case get? =>
    intro h hh
    rw [Handles.get?_clone hsize, hf.size, horigin]
    exact hf.get? _ (hsource h hh)

/-- **An act** through a handle is done to the control of its family. -/
theorem act (hf : Follows ops hs) {g : Nat} (hg : g < handleCount ops) (a : ControlAct) :
    Follows (.act g a :: ops) (hs.modify g a.effect) := by
  constructor
  case size =>
    unfold Handles.size
    rw [hs.families_modify]
    exact hf.size
  case origin_lt => exact hf.origin_lt
  case actsOn_eq_nil =>
    intro origin ho
    have hne : originOf ops g ≠ origin := Nat.ne_of_lt (Nat.lt_of_lt_of_le (hf.origin_lt g hg) ho)
    exact (if_neg hne).trans (hf.actsOn_eq_nil origin ho)
  case family_eq_iff =>
    rw [hs.families_modify]
    exact hf.family_eq_iff
  case get? =>
    intro h hh
    have hsame := hf.family_eq_iff h hh g hg
    rw [Handles.get?_modify, hf.get? h hh]
    show _ = some (controlOf (.act g a :: ops) (originOf ops h))
    by_cases heq : originOf ops h = originOf ops g
    · rw [if_pos (hsame.mpr heq), controlOf_act_of_eq heq.symm]
      rfl
    · rw [if_neg (hsame.not.mpr heq), controlOf_act_of_ne (Ne.symm heq)]

end Follows

/-- What an act through a handle makes of the handles. -/
theorem HandleOp.apply_act {hs hs' : Handles} {g : Nat} {a : ControlAct}
    (h : (HandleOp.act g a).apply hs = some hs') : g < hs.size ∧ hs' = hs.modify g a.effect := by
  cases a with
  | run fuel m =>
    obtain ⟨r, hr, rfl⟩ := Option.map_eq_some_iff.mp h
    obtain ⟨c, hc, hs', -⟩ := Handles.run_eq_some hr
    obtain ⟨family, hfamily, -⟩ := Handles.get?_eq_some_iff.mp hc
    exact ⟨(Array.getElem?_eq_some_iff.mp hfamily).1, hs'⟩
  | arm | stop | setRate | setPeriod =>
    obtain ⟨hg, heq⟩ := Option.ite_none_right_eq_some.mp h
    exact ⟨hg, (Option.some.inj heq).symm⟩

/-- **The handles after a history** can be told from the history.

**Proof sketch.** Induction on the history, with one lemma for each kind of operation. -/
theorem follows_of_after {ops : List HandleOp} {hs : Handles} (h : Handles.after ops = some hs) :
    Follows ops hs := by
  induction ops generalizing hs with
  | nil =>
    obtain rfl := Option.some.inj h
    exact .empty
  | cons op ops ih =>
    obtain ⟨hs₀, hbefore, hop⟩ := Option.bind_eq_some_iff.mp h
    have hf := ih hbefore
    cases op with
    | create how =>
      obtain rfl := Option.some.inj hop
      exact hf.create how
    | clone g =>
      obtain ⟨hg, heq⟩ := Option.ite_none_right_eq_some.mp hop
      obtain rfl := Option.some.inj heq
      exact hf.clone (by rwa [← hf.size])
    | act g a =>
      obtain ⟨hg, rfl⟩ := HandleOp.apply_act hop
      exact hf.act (by rwa [← hf.size]) a

/-! ## What a host can rely on -/

/-- What a host can rely on with the handles that it has after a history. -/
structure ControlProtocol (ops : List HandleOp) (hs : Handles) : Prop where
  /-- Every handle shows a control. -/
  exists_control : ∀ h < handleCount ops, ∃ c, hs.get? h = some c
  /-- The handles of one family show the same control. -/
  shared : ∀ h < handleCount ops, ∀ h' < handleCount ops, originOf ops h = originOf ops h' →
    hs.get? h = hs.get? h'
  /-- No operation affects a handle, unless it is an act through a handle of the same family. -/
  isolated : ∀ (op : HandleOp) hs', op.apply hs = some hs' → ∀ h < handleCount ops,
    (∀ g a, op = .act g a → originOf ops g ≠ originOf ops h) → hs'.get? h = hs.get? h
  /-- A control is running if the family has been armed since its last run, and has not been stopped
  after the last arm. -/
  isRunning_iff : ∀ h c, hs.get? h = some c →
    (c.isRunning = true ↔ Armed (sinceRun (actsOn ops (originOf ops h))))
  /-- A run makes no step and leaves its machine alone if the family has been armed since its last
  run, and has been stopped after the last arm; otherwise it makes a step. -/
  run_iff : ∀ h fuel m result m' hs', hs.run h fuel m = some (result, m', hs') →
    (result.steps = 0 ∧ m' = m ↔ Cancelled (sinceRun (actsOn ops (originOf ops h)))) ∧
      (0 < result.steps ↔ ¬Cancelled (sinceRun (actsOn ops (originOf ops h))))
  /-- A run that makes no step ends at once. -/
  run_of_cancelled : ∀ h < handleCount ops,
    Cancelled (sinceRun (actsOn ops (originOf ops h))) →
      ∀ fuel m, ∃ hs', hs.run h fuel m = some (⟨0, .proceed⟩, m, hs')
  /-- After a run the whole family is idle. -/
  idle : ∀ h fuel m result m' hs', hs.run h fuel m = some (result, m', hs') →
    ∀ h' < handleCount ops, originOf ops h' = originOf ops h →
      ∃ c, hs'.get? h' = some c ∧ c.phase = .idle
  /-- The period is the one that was set last through a handle of the family, as far as it goes. -/
  period_eq : ∀ h c, hs.get? h = some c → c.period.toNanos =
    min (lastPeriod (createdAs ops (originOf ops h)).period
      (actsOn ops (originOf ops h))).toNanos Control.maxPeriodNanos

/-- A new control is idle. -/
theorem Creation.phase_control (how : Creation) : how.control.phase = .idle := by
  cases how with
  | plain => rfl
  | ofPeriod d => exact Control.phase_setPeriod _ d
  | ofRate hz => exact Control.phase_setRate _ hz

/-- A new control has the period that it was created with, as far as it can keep it. -/
theorem Creation.toNanos_period_control (how : Creation) :
    how.control.period.toNanos = min how.period.toNanos Control.maxPeriodNanos := by
  cases how with
  | plain => decide
  | ofPeriod d => exact Control.toNanos_period_setPeriod _ d
  | ofRate hz => exact Control.toNanos_period_setPeriod _ _

section Protocol

variable {ops : List HandleOp} {hs : Handles} {h : Nat} {c : Control}

/-- Only a handle that has been made shows a control, and it is the one that the history tells. -/
theorem Follows.eq_controlOf (hf : Follows ops hs) (hc : hs.get? h = some c) :
    h < handleCount ops ∧ c = controlOf ops (originOf ops h) := by
  obtain ⟨family, hfamily, -⟩ := Handles.get?_eq_some_iff.mp hc
  have hh : h < handleCount ops := by
    rw [← hf.size]
    exact (Array.getElem?_eq_some_iff.mp hfamily).1
  exact ⟨hh, Option.some.inj (hc.symm.trans (hf.get? h hh))⟩

/-- The phase of a handle can be told from the history. -/
theorem Follows.phase_iff (hf : Follows ops hs) (hc : hs.get? h = some c) :
    (c.phase = .armed ↔ Armed (sinceRun (actsOn ops (originOf ops h)))) ∧
      (c.phase = .cancelled ↔ Cancelled (sinceRun (actsOn ops (originOf ops h)))) := by
  obtain ⟨-, rfl⟩ := hf.eq_controlOf hc
  exact Control.phase_after (Creation.phase_control _) _

/-- No operation affects the handles of another family. -/
theorem Follows.get?_apply (hf : Follows ops hs) {op : HandleOp} {hs' : Handles}
    (hop : op.apply hs = some hs') (hh : h < handleCount ops)
    (hact : ∀ g a, op = .act g a → originOf ops g ≠ originOf ops h) :
    hs'.get? h = hs.get? h := by
  cases op with
  | create how =>
    obtain rfl := Option.some.inj hop
    rw [hf.get? h hh]
    exact Handles.get?_create (hf.get? h hh) _
  | clone g =>
    obtain ⟨hg, heq⟩ := Option.ite_none_right_eq_some.mp hop
    obtain rfl := Option.some.inj heq
    rw [Handles.get?_clone hg, hf.size, if_neg (Nat.ne_of_lt hh)]
  | act g a =>
    obtain ⟨hg, rfl⟩ := HandleOp.apply_act hop
    have hg' : g < handleCount ops := by rwa [← hf.size]
    have hne := (hf.family_eq_iff h hh g hg').not.mpr (hact g a rfl).symm
    rw [Handles.get?_modify, if_neg hne]

/-- **What a host can rely on**, after every history of operations on handles.

**Proof sketch.** Every handle shows the control that the history tells of its family
(`follows_of_after`), of which `Control.phase_after` and `Control.toNanos_period_after` tell the
phase and the period. A run looks at the phase and leaves it idle (`run_silent`). -/
theorem controlProtocol_of_after (hops : Handles.after ops = some hs) : ControlProtocol ops hs := by
  have hf := follows_of_after hops
  constructor
  case exists_control => exact fun h hh => ⟨_, hf.get? h hh⟩
  case shared =>
    intro h hh h' hh' heq
    rw [hf.get? h hh, hf.get? h' hh', heq]
  case isolated => exact fun op hs' hop h hh hact => hf.get?_apply hop hh hact
  case isRunning_iff =>
    intro h c hc
    rw [← (hf.phase_iff hc).1]
    exact decide_eq_true_iff
  case run_iff =>
    intro h fuel m result m' hs' hrun
    obtain ⟨c, hc, -, hcancelled, hsteps⟩ := Handles.run_eq_some hrun
    rw [← (hf.phase_iff hc).2]
    refine ⟨⟨fun hzero => ?_, hcancelled⟩, fun hpos hphase => ?_, hsteps⟩
    -- A run on a control without a pending stop makes at least one step.
    · by_contra hphase
      exact absurd hzero.1 (Nat.ne_of_gt (hsteps hphase))
    · exact absurd (hcancelled hphase).1 (Nat.ne_of_gt hpos)
  case run_of_cancelled =>
    intro h hh hcancelled fuel m
    have hphase := (hf.phase_iff (hf.get? h hh)).2.mpr hcancelled
    exact ⟨_, Handles.run_of_phase_cancelled (hf.get? h hh) hphase fuel m⟩
  case idle =>
    intro h fuel m result m' hs' hrun h' hh' heq
    obtain ⟨c, hc, hs'eq, -⟩ := Handles.run_eq_some hrun
    obtain ⟨hh, rfl⟩ := hf.eq_controlOf hc
    obtain rfl : hs' = hs.modify h Control.finish := hs'eq
    rw [Handles.get?_modify, if_pos ((hf.family_eq_iff h' hh' h hh).mpr heq), hf.get? h' hh']
    exact ⟨_, rfl, rfl⟩
  case period_eq =>
    intro h c hc
    obtain ⟨-, rfl⟩ := hf.eq_controlOf hc
    exact Control.toNanos_period_after (Creation.toNanos_period_control _) _

end Protocol

/-- A host that makes a handle and a clone of it, arms through the one, and stops through the
other. -/
def HandleOp.armAndStop : List HandleOp :=
  [.act 1 .stop, .act 0 .arm, .clone 0, .create (.ofRate 1000)]

/-- After that a run through either handle makes no step. -/
theorem controlProtocol_of_after_armAndStop :
    ∃ hs, Handles.after HandleOp.armAndStop = some hs ∧
      ∀ h < 2, ∀ fuel m, ∃ hs', hs.run h fuel m = some (⟨0, .proceed⟩, m, hs') := by
  have hops : Handles.after HandleOp.armAndStop = some _ := rfl
  have hacts : ∀ h < 2,
      sinceRun (actsOn HandleOp.armAndStop (originOf HandleOp.armAndStop h)) = [.stop, .arm] := by
    intro h hh
    match h, hh with
    | 0, _ => rfl
    | 1, _ => rfl
  refine ⟨_, hops, fun h hh => (controlProtocol_of_after hops).run_of_cancelled h hh ?_⟩
  rw [hacts h hh]
  exact ⟨[.stop], [], rfl, by simp, by simp⟩

end Cpu16
