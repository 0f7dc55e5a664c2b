import Cpu16.Run.Basic

set_option relaxedAutoImplicit false
set_option autoImplicit false

/-!
# Two worlds in lockstep

A machine learns of its world only what the device answers. So let there be two worlds, each with a
device and a sink, and a relation between them that is kept by every call and every report, and
under which both devices give the same answers. Then a machine cannot tell the two worlds from each
other: steps and runs do the same to it in both, and leave the worlds related.

## Main definitions

* `Cpu16.Lockstep` — a relation between two worlds that every call and every report keeps.
* `Cpu16.SharesControl` — related worlds of runs have the same control.
* `Cpu16.Alike` — two results are the same, and leave related worlds.

## Main results

* `Cpu16.Lockstep.step`, `Cpu16.Lockstep.run` — steps and runs in related worlds are alike.
-/

universe u v w

namespace Cpu16

/-! ## Related worlds -/

section Worlds

variable {σ : Type u} {τ : Type v}

/-- The worlds `σ` and `τ`, each with its device and its sink, go in lockstep under the relation
`R`. -/
structure Lockstep (dev : Device σ) (sink : Sink σ) (dev' : Device τ) (sink' : Sink τ)
    (R : σ → τ → Prop) : Prop where
  /-- A key that is polled is the same, and the worlds stay related. -/
  poll : ∀ s t, R s t → (dev.poll s).1 = (dev'.poll t).1 ∧ R (dev.poll s).2 (dev'.poll t).2
  /-- So it is when a character is drawn. -/
  draw : ∀ character position s t, R s t →
    (dev.draw character position s).1 = (dev'.draw character position t).1 ∧
      R (dev.draw character position s).2 (dev'.draw character position t).2
  /-- The worlds stay related when something is reported. -/
  report : ∀ event s t, R s t → R (sink event s) (sink' event t)

/-- Two results, each of a machine and a world, are the same, and the worlds are related. -/
structure Alike {α : Type w} (R : σ → τ → Prop) (x : α × Machine × σ) (y : α × Machine × τ) :
    Prop where
  /-- The answers are the same. -/
  answer : x.1 = y.1
  /-- The machines are the same. -/
  machine : x.2.1 = y.2.1
  /-- The worlds are related. -/
  world : R x.2.2 y.2.2

end Worlds

/-- Related worlds of runs have the same control, and stay related if it is set in both. -/
structure SharesControl {ε : Type u} {ε' : Type v} (R : Session ε → Session ε' → Prop) : Prop where
  /-- The controls are the same. -/
  control : ∀ s t, R s t → s.control = t.control
  /-- The controls are set together. -/
  set : ∀ s t, R s t → ∀ c, R { s with control := c } { t with control := c }

namespace Lockstep

/-! ## Steps -/

section Step

variable {σ : Type u} {τ : Type v} {dev : Device σ} {sink : Sink σ} {dev' : Device τ}
  {sink' : Sink τ} {R : σ → τ → Prop} {s : σ} {t : τ}

/-- An exchange with the device has the same reply. -/
theorem perform (h : Lockstep dev sink dev' sink' R) (x : Exchange) (hst : R s t) :
    (dev.perform x s).1 = (dev'.perform x t).1 ∧ R (dev.perform x s).2 (dev'.perform x t).2 := by
  cases x with
  | none => exact ⟨rfl, hst⟩
  | poll =>
    have hpoll := h.poll s t hst
    rcases hs : dev.poll s with ⟨answer, s₁⟩
    rcases ht : dev'.poll t with ⟨answer', t₁⟩
    rw [hs, ht] at hpoll
    obtain ⟨rfl : answer = answer', hworld⟩ := hpoll
    cases answer <;> simpa [Device.perform, hs, ht] using hworld
  | draw character position =>
    have hdraw := h.draw character position s t hst
    rcases hs : dev.draw character position s with ⟨answer, s₁⟩
    rcases ht : dev'.draw character position t with ⟨answer', t₁⟩
    rw [hs, ht] at hdraw
    obtain ⟨rfl : answer = answer', hworld⟩ := hdraw
    cases answer <;> simpa [Device.perform, hs, ht] using hworld

/-- An operation comes to the same. -/
theorem execute (h : Lockstep dev sink dev' sink' R) (op : Operation) (m : Machine) (hst : R s t) :
    (execute dev op m s).1 = (execute dev' op m t).1 ∧
      R (execute dev op m s).2 (execute dev' op m t).2 := by
  have hperform := h.perform (op.exchange m.regs) hst
  revert hperform
  unfold Cpu16.execute
  rcases dev.perform (op.exchange m.regs) s with ⟨reply, s₁⟩
  rcases dev'.perform (op.exchange m.regs) t with ⟨reply', t₁⟩
  rintro ⟨rfl : reply = reply', hworld⟩
  cases reply <;> exact ⟨rfl, hworld⟩

/-- Any number of reports keep the worlds related. -/
theorem reportAll (h : Lockstep dev sink dev' sink' R) (events : List Event) (hst : R s t) :
    R (sink.reportAll events s) (sink'.reportAll events t) := by
  induction events generalizing s t with
  | nil => exact hst
  | cons event events ih => exact ih (h.report event s t hst)

/-- An attempt at an instruction makes the same of the machine. -/
theorem attempt (h : Lockstep dev sink dev' sink' R) (m : Machine) (hst : R s t) :
    (attempt dev sink m s).1 = (attempt dev' sink' m t).1 ∧
      R (attempt dev sink m s).2 (attempt dev' sink' m t).2 := by
  unfold Cpu16.attempt
  cases m.fetch with
  | error f => exact ⟨rfl, hst⟩
  | ok i =>
    obtain ⟨hresult, hworld⟩ :=
      h.execute i.operation m (h.report (.started m.regs.pc i.word) s t hst)
    exact ⟨congrArg (m.retire i.size) hresult, hworld⟩

/-- **A step cannot tell related worlds from each other.** -/
theorem step (h : Lockstep dev sink dev' sink' R) (m : Machine) (hst : R s t) :
    Alike R (step dev sink m s) (step dev' sink' m t) := by
  have hattempt := h.attempt m hst
  revert hattempt
  unfold Cpu16.step
  rcases Cpu16.attempt dev sink m s with ⟨a, s₁⟩
  rcases Cpu16.attempt dev' sink' m t with ⟨a', t₁⟩
  rintro ⟨rfl : a = a', hworld⟩
  exact ⟨rfl, rfl, h.reportAll _ hworld⟩

end Step

/-! ## Runs -/

section Run

variable {ε : Type u} {ε' : Type v} {dev : Device (Session ε)} {sink : Sink (Session ε)}
  {dev' : Device (Session ε')} {sink' : Sink (Session ε')} {R : Session ε → Session ε' → Prop}
  {s : Session ε} {t : Session ε'}

/-- The steps of a run go on for the same time, and do the same. -/
theorem runLoop (h : Lockstep dev sink dev' sink' R) (hR : SharesControl R)
    (fuel steps : Nat) (last : Outcome) (m : Machine) (hst : R s t) :
    Option.Rel (Alike R) (runLoop dev sink fuel steps last m s)
      (runLoop dev' sink' fuel steps last m t) := by
  induction fuel generalizing steps last m s t with
  | zero =>
    unfold Cpu16.runLoop
    rw [hR.control s t hst]
    split
    · exact .none
    · exact .some ⟨rfl, rfl, hst⟩
  | succ fuel ih =>
    unfold Cpu16.runLoop
    rw [hR.control s t hst]
    split
    · have hstep := h.step m hst
      revert hstep
      rcases Cpu16.step dev sink m s with ⟨o, m₁, s₁⟩
      rcases Cpu16.step dev' sink' m t with ⟨o', m₁', t₁⟩
      rintro ⟨rfl : o = o', rfl : m₁ = m₁', hworld⟩
      dsimp only
      split
      · exact .some ⟨rfl, rfl, hworld⟩
      · exact ih (steps + 1) o m₁ hworld
    · exact .some ⟨rfl, rfl, hst⟩

/-- **A run cannot tell related worlds from each other.** Either it ends in both, with the same
answer, or in none of them. -/
theorem run (h : Lockstep dev sink dev' sink' R) (hR : SharesControl R) (fuel : Nat) (m : Machine)
    (hst : R s t) :
    Option.Rel (Alike R) (run dev sink fuel m s) (run dev' sink' fuel m t) := by
  unfold Cpu16.run
  rw [hR.control s t hst]
  rcases t.control.start with ⟨started, control⟩
  cases started with
  | false => exact .some ⟨rfl, rfl, hR.set s t hst _⟩
  | true =>
    have hloop := h.runLoop hR fuel 0 .proceed m.enterRun (hR.set s t hst control)
    dsimp only
    generalize Cpu16.runLoop dev sink fuel 0 .proceed m.enterRun _ = x at hloop ⊢
    generalize Cpu16.runLoop dev' sink' fuel 0 .proceed m.enterRun _ = y at hloop ⊢
    cases hloop with
    | none => exact .none
    | @some x y halike =>
      have hworld : R x.2.2 y.2.2 := halike.world
      refine .some ⟨halike.answer, congrArg Machine.leaveRun halike.machine, ?_⟩
      show R { x.2.2 with control := x.2.2.control.finish }
        { y.2.2 with control := y.2.2.control.finish }
      rw [hR.control _ _ hworld]
      exact hR.set _ _ hworld _

end Run

end Lockstep

end Cpu16
