import Mathlib.Algebra.GroupWithZero.Nat
import Cpu16.Run.Pacing

set_option relaxedAutoImplicit false
set_option autoImplicit false

/-!
# What a wait reads

Each test of a wait reads the clock and the period, and asks whether the run still wants to go on
only if there is time left. So over many waits the answers of the run are used up more slowly than
the periods. This file takes all three as streams of arbitrary readings, and says how far some waits
have read each of them when they are over.

Within one wait this does not show. Every test but the last has asked the run, so that the readings
of a test are as far into the streams as the test is into the wait.

## Main definitions

* `Cpu16.Readings`, `Cpu16.Position` — streams of readings, and how far they have been read.
* `Cpu16.Readings.pacing` — the pacing that takes its readings from there.
* `Cpu16.Readings.TimeIsUp`, `Cpu16.Readings.HasReason` — the reasons of a test to leave.
* `Cpu16.WaitEnd`, `Cpu16.Readings.EndsWith`, `Cpu16.Readings.WaitLaw` — where a wait ends.
* `Cpu16.Pacing.waits`, `Cpu16.Readings.Waits` — some waits one after another.

## Main results

* `Cpu16.Readings.wait_eq_some_iff` — a wait leaves at the first test that has a reason.
* `Cpu16.Readings.waits_eq_some_iff` — so does each of some waits.
* `Cpu16.Readings.waits_poll` — how far the streams have been read then.
-/

universe u

namespace Cpu16

/-! ## Streams of readings -/

/-- What there is to read: streams of arbitrary readings. -/
structure Readings where
  /-- The time since the last checkpoint. -/
  elapsed : Nat → Duration
  /-- The period of the clock. -/
  period : Nat → Duration
  /-- Whether the run still wants to go on. -/
  keep : Nat → Bool

/-- How many readings have been taken of each stream. -/
@[ext]
structure Position where
  /-- Of the time, hence the number of tests. -/
  tests : Nat
  /-- Of the period. -/
  periods : Nat
  /-- Of the answers of the run. -/
  keeps : Nat
  deriving DecidableEq, Repr

/-- How a wait has ended. -/
structure WaitEnd where
  /-- The test at which it has left, counted from zero. -/
  test : Nat
  /-- Whether its time was up then. -/
  timeUp : Bool
  deriving DecidableEq, Repr

namespace WaitEnd

/-- Number of tests of the wait. -/
def tests (e : WaitEnd) : Nat := e.test + 1

/-- Number of tests that have asked the run: all of them, but for one at which the time was up. -/
def keeps (e : WaitEnd) : Nat := e.test + if e.timeUp then 0 else 1

end WaitEnd

/-- After a wait, the time and the period have been read once in every test of it. -/
def Position.after (t : Position) (e : WaitEnd) : Position :=
  ⟨t.tests + e.tests, t.periods + e.tests, t.keeps + e.keeps⟩

/-- After a test that has not left, every stream has been read once more. -/
def Position.next (t : Position) : Position :=
  ⟨t.tests + 1, t.periods + 1, t.keeps + 1⟩

/-- A wait that begins one test later and ends one test earlier ends at the same position. -/
theorem Position.after_next (t : Position) (k : Nat) (b : Bool) :
    t.next.after ⟨k, b⟩ = t.after ⟨k + 1, b⟩ := by
  ext <;> simp only [after, next, WaitEnd.tests, WaitEnd.keeps] <;> omega

namespace Readings

/-- The pacing whose readings are taken from the streams. Each stream is read on its own. -/
def pacing (r : Readings) : Pacing Position where
  elapsed t := (r.elapsed t.tests, { t with tests := t.tests + 1 })
  period t := (r.period t.periods, { t with periods := t.periods + 1 })
  keepWaiting t := (r.keep t.keeps, { t with keeps := t.keeps + 1 })

variable (r : Readings) (t : Position)

/-- At test `k` of a wait that starts at `t`, the time of the batch is up. -/
def TimeIsUp (k : Nat) : Prop :=
  (batchTime (r.period (t.periods + k))).toNanos ≤ (r.elapsed (t.tests + k)).toNanos

/-- Whether the time is up at a test can be computed. -/
instance (k : Nat) : Decidable (r.TimeIsUp t k) :=
  inferInstanceAs (Decidable (_ ≤ _))

/-- Test `k` of a wait that starts at `t` has a reason to leave: the time is up, or the run does not
want to go on. -/
def HasReason (k : Nat) : Prop :=
  r.TimeIsUp t k ∨ r.keep (t.keeps + k) = false

/-- Whether a test has a reason to leave can be computed. -/
instance (k : Nat) : Decidable (r.HasReason t k) :=
  inferInstanceAs (Decidable (_ ∨ _))

/-- A wait that starts at `t` ends with `e`, which is its first test that has a reason to leave. -/
structure EndsWith (e : WaitEnd) : Prop where
  /-- The last test has a reason to leave. -/
  reason : r.HasReason t e.test
  /-- No test before it has one. -/
  first : ∀ k < e.test, ¬r.HasReason t k
  /-- Whether the reason is the time, in which case the run has not been asked. -/
  timeUp : e.timeUp = decide (r.TimeIsUp t e.test)

variable {r t}

/-- After the next test, the tests are counted from there. -/
theorem timeIsUp_next (k : Nat) : r.TimeIsUp t.next k ↔ r.TimeIsUp t (k + 1) := by
  simp only [TimeIsUp, Position.next, Nat.add_assoc, Nat.add_comm 1 k]

/-- The tests of a wait that begins one test later are the same, one place earlier. -/
theorem hasReason_next (k : Nat) : r.HasReason t.next k ↔ r.HasReason t (k + 1) := by
  rw [HasReason, HasReason, timeIsUp_next]
  simp only [Position.next, Nat.add_assoc, Nat.add_comm 1 k]

/-- A wait whose first test has a reason ends there. -/
theorem endsWith_iff_of_hasReason (h : r.HasReason t 0) {e : WaitEnd} :
    r.EndsWith t e ↔ e = ⟨0, decide (r.TimeIsUp t 0)⟩ := by
  constructor
  · rintro ⟨-, hfirst, htime⟩
    obtain ⟨k, b⟩ := e
    obtain rfl : k = 0 := Nat.eq_zero_of_not_pos fun hpos => hfirst 0 hpos h
    rw [show b = _ from htime]
  · rintro rfl
    exact ⟨h, fun k hk => absurd hk (Nat.not_lt_zero k), rfl⟩

/-- A wait whose first test has none ends where the rest of it does. -/
theorem endsWith_iff_of_not_hasReason (h : ¬r.HasReason t 0) {e : WaitEnd} :
    r.EndsWith t e ↔ ∃ k b, e = ⟨k + 1, b⟩ ∧ r.EndsWith t.next ⟨k, b⟩ := by
  constructor
  · rintro ⟨hreason, hfirst, htime⟩
    obtain ⟨k, b⟩ := e
    cases k with
    | zero => exact absurd hreason h
    | succ k =>
      refine ⟨k, b, rfl, (hasReason_next k).mpr hreason, fun i hi => ?_, ?_⟩
      · exact mt (hasReason_next i).mp (hfirst (i + 1) (Nat.succ_lt_succ hi))
      · rw [htime, decide_eq_decide, timeIsUp_next]
  · rintro ⟨k, b, rfl, hreason, hfirst, htime⟩
    refine ⟨(hasReason_next k).mp hreason, fun i hi => ?_, ?_⟩
    · cases i with
      | zero => exact h
      | succ i => exact mt (hasReason_next i).mpr (hfirst i (Nat.lt_of_succ_lt_succ hi))
    · rw [htime, decide_eq_decide, timeIsUp_next]

/-! ## One wait -/

/-- What a test reads and answers. -/
theorem test_pacing (r : Readings) (t : Position) :
    r.pacing.test t =
      if r.TimeIsUp t 0 then (false, { t with tests := t.tests + 1, periods := t.periods + 1 })
      else (r.keep t.keeps, t.next) := by
  have hless : (r.elapsed t.tests).isLess (batchTime (r.period t.periods)) = true ↔
      ¬r.TimeIsUp t 0 := Duration.isLess_iff.trans Nat.not_le.symm
  by_cases h : r.TimeIsUp t 0
  · rw [if_pos h]
    simp [Pacing.test, pacing, Bool.eq_false_iff.mpr (mt hless.mp (not_not_intro h))]
  · rw [if_neg h]
    simp [Pacing.test, pacing, hless.mpr h, Position.next]

/-- A test with a reason to leave ends the wait. It has not asked the run if the time is up. -/
theorem test_of_hasReason (h : r.HasReason t 0) :
    r.pacing.test t = (false, t.after ⟨0, decide (r.TimeIsUp t 0)⟩) := by
  rw [test_pacing]
  by_cases hup : r.TimeIsUp t 0
  · simp [hup, Position.after, WaitEnd.tests, WaitEnd.keeps]
  · have hkeep : r.keep t.keeps = false := h.resolve_left hup
    simp [hup, hkeep, Position.after, Position.next, WaitEnd.tests, WaitEnd.keeps]

/-- A test without a reason to leave has asked the run. -/
theorem test_of_not_hasReason (h : ¬r.HasReason t 0) : r.pacing.test t = (true, t.next) := by
  obtain ⟨hup, hkeep⟩ := not_or.mp h
  have hkeep : r.keep t.keeps = true := eq_true_of_ne_false hkeep
  rw [test_pacing, if_neg hup, hkeep]

/-- **A wait leaves at the first test that has a reason**, and where there is one within the bound
of its tests it does leave.

**Proof sketch.** Induction on the bound, with any start: the first test leaves, or the wait is the
rest of it from the next position on. -/
theorem wait_eq_some_iff {fuel : Nat} {t' : Position} :
    r.pacing.wait fuel t = some t' ↔ ∃ e, e.test < fuel ∧ r.EndsWith t e ∧ t' = t.after e := by
  induction fuel generalizing t with
  | zero => simp [Pacing.wait]
  | succ fuel ih =>
    unfold Pacing.wait
    by_cases h : r.HasReason t 0
    · rw [test_of_hasReason h]
      constructor
      · intro hw
        exact ⟨_, Nat.succ_pos fuel, (endsWith_iff_of_hasReason h).mpr rfl,
          (Option.some.inj hw).symm⟩
      · rintro ⟨e, -, he, rfl⟩
        rw [(endsWith_iff_of_hasReason h).mp he]
    · rw [test_of_not_hasReason h]
      show r.pacing.wait fuel t.next = some t' ↔ _
      rw [ih]
      constructor
      · rintro ⟨⟨k, b⟩, hk, he, rfl⟩
        exact ⟨⟨k + 1, b⟩, Nat.succ_lt_succ hk,
          (endsWith_iff_of_not_hasReason h).mpr ⟨k, b, rfl, he⟩, t.after_next k b⟩
      · rintro ⟨e, hk, he, rfl⟩
        obtain ⟨k, b, rfl, hrest⟩ := (endsWith_iff_of_not_hasReason h).mp he
        exact ⟨⟨k, b⟩, Nat.lt_of_succ_lt_succ hk, hrest, (t.after_next k b).symm⟩

/-- The law of one wait that starts at `t`. It ends with `e` and the streams have been read up to
`t'`. -/
structure WaitLaw (r : Readings) (t : Position) (e : WaitEnd) (t' : Position) : Prop
    extends r.EndsWith t e where
  /-- The clock is read once in each test. -/
  tests : t'.tests = t.tests + (e.test + 1)
  /-- So is the period. -/
  periods : t'.periods = t.periods + (e.test + 1)
  /-- The run is asked once in each test, but not in the last one if the time is up there. -/
  keeps : t'.keeps = t.keeps + (e.test + if r.TimeIsUp t e.test then 0 else 1)
  /-- A period of zero ends the wait without asking the run, if nothing has ended it before. -/
  zero : ∀ k, r.period (t.periods + k) = .zero →
    e.test ≤ k ∧ (e.test = k → t'.keeps = t.keeps + k)
  /-- The wait is over at the test that is told by the run to leave. -/
  cancelled : ∀ k, r.keep (t.keeps + k) = false → e.test ≤ k

/-- At a period of zero the time is up. -/
theorem timeIsUp_of_zero {k : Nat} (h : r.period (t.periods + k) = .zero) : r.TimeIsUp t k := by
  have hbatch : (batchTime .zero).toNanos = 0 := by decide
  rw [TimeIsUp, h, hbatch]
  exact Nat.zero_le _

/-- No test after the one at which a wait ends has been made. -/
theorem EndsWith.test_le {e : WaitEnd} (h : r.EndsWith t e) {k : Nat} (hk : r.HasReason t k) :
    e.test ≤ k :=
  Nat.le_of_not_lt fun hlt => h.first k hlt hk

/-- A wait that ends with `e` has read the streams as far as its law says. -/
theorem EndsWith.waitLaw {e : WaitEnd} (h : r.EndsWith t e) : WaitLaw r t e (t.after e) where
  toEndsWith := h
  tests := rfl
  periods := rfl
  keeps := by
    show t.keeps + (e.test + if e.timeUp then 0 else 1) = _
    simp only [h.timeUp, decide_eq_true_eq]
  zero k hk := by
    have hup := timeIsUp_of_zero hk
    refine ⟨h.test_le (.inl hup), ?_⟩
    rintro rfl
    show t.keeps + (e.test + if e.timeUp then 0 else 1) = _
    rw [h.timeUp, decide_eq_true hup]
    rfl
  cancelled k hk := h.test_le (.inr hk)

end Readings

/-! ## One wait after another -/

/-- Some waits, one after another. It answers nothing if one of them does not end. -/
def Pacing.waits {σ : Type u} (p : Pacing σ) (fuel : Nat) : Nat → σ → Option σ
  | 0, s => some s
  | n + 1, s => (p.wait fuel s).bind (p.waits fuel n)

namespace Readings

variable (r : Readings)

/-- Some waits end one after another, each at the position where the next one starts. -/
inductive Waits : List WaitEnd → Position → Position → Prop
  /-- No wait reads anything. -/
  | none (t : Position) : Waits [] t t
  /-- One wait, and the rest from where it has stopped reading. -/
  | more {e : WaitEnd} {es : List WaitEnd} {t₁ t₂ t₃ : Position} (wait : WaitLaw r t₁ e t₂)
    (rest : Waits es t₂ t₃) : Waits (e :: es) t₁ t₃

variable {r}

/-- The law of a wait says where the next one starts. -/
theorem WaitLaw.eq_after {e : WaitEnd} {t t' : Position} (h : WaitLaw r t e t') :
    t' = t.after e := by
  obtain ⟨hends, htests, hperiods, hkeeps, -, -⟩ := h
  ext
  · exact htests
  · exact hperiods
  · rw [hkeeps, Position.after, WaitEnd.keeps, hends.timeUp]
    simp only [decide_eq_true_eq]

/-- **Each of some waits leaves at the first test that has a reason**, and later waits go on where
the earlier ones have stopped reading. -/
theorem waits_eq_some_iff {fuel n : Nat} {t t' : Position} :
    r.pacing.waits fuel n t = some t' ↔
      ∃ es : List WaitEnd, es.length = n ∧ (∀ e ∈ es, e.test < fuel) ∧ r.Waits es t t' := by
  induction n generalizing t with
  | zero =>
    constructor
    · intro h
      obtain rfl : t = t' := Option.some.inj h
      exact ⟨[], rfl, by simp, .none t⟩
    · rintro ⟨es, hlength, -, hwaits⟩
      obtain rfl := List.eq_nil_of_length_eq_zero hlength
      cases hwaits
      rfl
  | succ n ih =>
    rw [Pacing.waits, Option.bind_eq_some_iff]
    constructor
    · rintro ⟨t₂, hwait, hrest⟩
      obtain ⟨e, he, hends, rfl⟩ := wait_eq_some_iff.mp hwait
      obtain ⟨es, hlength, hes, hwaits⟩ := ih.mp hrest
      refine ⟨e :: es, congrArg (· + 1) hlength, ?_, .more hends.waitLaw hwaits⟩
      exact List.forall_mem_cons.mpr ⟨he, hes⟩
    · rintro ⟨es, hlength, hes, hwaits⟩
      cases hwaits with
      | none => cases hlength
      | @more e es _ t₂ _ hwait hrest =>
        obtain ⟨he, hes⟩ := List.forall_mem_cons.mp hes
        exact ⟨t₂, wait_eq_some_iff.mpr ⟨e, he, hwait.toEndsWith, hwait.eq_after⟩,
          ih.mpr ⟨es, Nat.succ.inj hlength, hes, hrest⟩⟩

/-- The streams have been read as often as the waits have read them, each on its own.

**Proof sketch.** Induction on the waits: what one of them has read is its law. -/
theorem Waits.counts {es : List WaitEnd} {t t' : Position} (h : r.Waits es t t') :
    t'.tests = t.tests + (es.map WaitEnd.tests).sum ∧
      t'.periods = t.periods + (es.map WaitEnd.tests).sum ∧
      t'.keeps = t.keeps + (es.map WaitEnd.keeps).sum := by
  induction h with
  | none t => exact ⟨rfl, rfl, rfl⟩
  | more hwait _ ih =>
    obtain rfl := hwait.eq_after
    obtain ⟨htests, hperiods, hkeeps⟩ := ih
    simp only [Position.after] at htests hperiods hkeeps
    simp only [List.map_cons, List.sum_cons]
    omega

/-- **Waits poll exactly until the first reason to leave.** Some waits one after another return,
with no more than `fuel` tests in each, exactly if each of them has a test with a reason to leave
within this bound; each leaves at the first such test, has read the streams as far as its law says,
and hands its position on to the next one. Over all of them, the clock and the period are read once
for every test, and the run is asked once for every test at which the time was not up. -/
theorem waits_poll (r : Readings) (fuel n : Nat) (t t' : Position) :
    (r.pacing.waits fuel n t = some t' ↔
      ∃ es : List WaitEnd, es.length = n ∧ (∀ e ∈ es, e.test < fuel) ∧ r.Waits es t t') ∧
    ∀ es, r.Waits es t t' →
      t'.tests = t.tests + (es.map WaitEnd.tests).sum ∧
        t'.periods = t.periods + (es.map WaitEnd.tests).sum ∧
        t'.keeps = t.keeps + (es.map WaitEnd.keeps).sum :=
  ⟨waits_eq_some_iff, fun _ => Waits.counts⟩

end Readings

/-- Readings of a clock that stands still. The period is a nanosecond at first, and then there is
none. The run always wants to go on. -/
def Readings.retuned : Readings where
  elapsed _ := .zero
  period k := if k < 2 then .ofNanos 1 else .zero
  keep _ := true

/-- The first wait ends at the third test, when there is no period any more, and the second one at
once. So of four tests only two have asked the run. -/
theorem Readings.waits_poll_retuned :
    ∃ es, retuned.Waits es ⟨0, 0, 0⟩ ⟨4, 4, 2⟩ ∧ 4 = 0 + (es.map WaitEnd.tests).sum ∧
      2 = 0 + (es.map WaitEnd.keeps).sum := by
  obtain ⟨hreturns, hcounts⟩ := waits_poll retuned 3 2 ⟨0, 0, 0⟩ ⟨4, 4, 2⟩
  obtain ⟨es, -, -, hwaits⟩ := hreturns.mp (by decide)
  obtain ⟨htests, -, hkeeps⟩ := hcounts es hwaits
  exact ⟨es, hwaits, htests, hkeeps⟩

end Cpu16
