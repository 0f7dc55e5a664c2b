import Cpu16.Proofs.Run.ControlLog

set_option relaxedAutoImplicit false
set_option autoImplicit false

/-!
# The arithmetic of pacing

Between the clock rate that a host asks for and the time that a batch of instructions is given there
are three places where a number may not fit. The period of a rate is rounded down to whole
nanoseconds, a control keeps the nanoseconds of its period in 64 bits, and a batch takes a multiple
of the period, which has to be a span of time again.

Only the first of them is ever felt at a clock rate. The period of a rate fits into a control, and
the multiple of what fits into a control is a span. So the time of a batch is short of the exact one
by less than a nanosecond for each instruction.

## Main definitions

* `Cpu16.RateLaw` — the period of a clock rate is exact but for the rounding.
* `Cpu16.BatchLaw` — the time of a batch is exact up to the longest span.
* `Cpu16.Control.PeriodLaw` — what a control keeps of a period, and the time of a batch then.

## Main results

* `Cpu16.toNanos_periodOfRate`, `Cpu16.toNanos_batchTime` — both in nanoseconds.
* `Cpu16.Control.toNanos_batchTime_period` — the time of a batch is exact for every control.
* `Cpu16.pacing_exact` — all the laws together.
-/

namespace Cpu16

/-! ## Clock rates -/

/-- In nanoseconds the period of a rate is a quotient. No time at a rate of zero is one as well. -/
theorem toNanos_periodOfRate (hz : Nat) : (periodOfRate hz).toNanos = nanosPerSecond / hz := by
  unfold periodOfRate
  split
  · subst hz
    rfl
  · have hsecond : nanosPerSecond ≤ Duration.longest.toNanos := by decide
    rw [Duration.toNanos_ofNanos, min_eq_left ((Nat.div_le_self _ _).trans hsecond)]

/-- The instructions of a second take no more than a second at the period of the rate, and more at a
period that is longer by one nanosecond. At a higher rate the period is not longer. -/
structure RateLaw (hz : Nat) : Prop where
  /-- The period is not rounded up. -/
  le_second : (periodOfRate hz).toNanos * hz ≤ nanosPerSecond
  /-- It is rounded down by less than a nanosecond. -/
  second_lt : nanosPerSecond < ((periodOfRate hz).toNanos + 1) * hz
  /-- A higher rate has no longer period. -/
  faster : ∀ hz', hz ≤ hz' → (periodOfRate hz').toNanos ≤ (periodOfRate hz).toNanos

/-- **The law of clock rates** holds for every rate but zero: the period is a rounded quotient. -/
theorem rateLaw {hz : Nat} (h : 0 < hz) : RateLaw hz := by
  constructor
  case le_second =>
    rw [toNanos_periodOfRate]
    exact Nat.div_mul_le_self _ _
  case second_lt =>
    rw [toNanos_periodOfRate, Nat.mul_comm]
    exact Nat.lt_mul_div_succ _ h
  case faster =>
    intro hz' hle
    rw [toNanos_periodOfRate, toNanos_periodOfRate]
    exact Nat.div_le_div_left hle h

/-! ## Batches -/

/-- The time of a batch is that of its instructions, as far as there is such a span. -/
theorem toNanos_batchTime (d : Duration) :
    (batchTime d).toNanos = min (batchSize * d.toNanos) Duration.longest.toNanos := by
  rw [batchTime, Duration.toNanos_scale, Nat.mul_comm]

/-- A batch takes as long as its instructions, as far as there is such a span. So it takes no longer
at a shorter period. -/
structure BatchLaw (d : Duration) : Prop where
  /-- A batch takes the time of its instructions, cut off at the longest span. -/
  toNanos : (batchTime d).toNanos = min (batchSize * d.toNanos) Duration.longest.toNanos
  /-- It takes no longer at a shorter period. -/
  mono : ∀ e : Duration, d.toNanos ≤ e.toNanos → (batchTime d).toNanos ≤ (batchTime e).toNanos

/-- **The law of batches** holds for every span of time. -/
theorem batchLaw (d : Duration) : BatchLaw d where
  toNanos := toNanos_batchTime d
  mono e hle := by
    have hmul := Nat.mul_le_mul_left batchSize hle
    rw [toNanos_batchTime, toNanos_batchTime]
    omega

/-! ## Controls -/

namespace Control

/-- A control has no longer period than it can keep. -/
theorem toNanos_period_le (c : Control) : c.period.toNanos ≤ maxPeriodNanos := by
  rw [period, Duration.toNanos_ofNanos]
  exact (min_le_left _ _).trans (Nat.le_of_lt_succ c.periodNanos.isLt)

/-- **The time of a batch is exact for every control**, whatever its period is. -/
theorem toNanos_batchTime_period (c : Control) :
    (batchTime c.period).toNanos = batchSize * c.period.toNanos := by
  have hlongest : batchSize * maxPeriodNanos ≤ Duration.longest.toNanos := by decide
  rw [toNanos_batchTime, min_eq_left]
  exact (Nat.mul_le_mul_left _ c.toNanos_period_le).trans hlongest

/-- A control keeps the period of a rate. -/
theorem toNanos_period_setRate (c : Control) (hz : Nat) :
    (c.setRate hz).period.toNanos = (periodOfRate hz).toNanos := by
  have hle : (periodOfRate hz).toNanos ≤ maxPeriodNanos := by
    have hsecond : nanosPerSecond ≤ maxPeriodNanos := by decide
    rw [toNanos_periodOfRate]
    exact (Nat.div_le_self _ _).trans hsecond
  rw [setRate, toNanos_period_setPeriod, min_eq_left hle]

/-- What the control `c` reports of a period that is set, and how long a batch takes. -/
structure PeriodLaw (c : Control) : Prop where
  /-- A period that is set is reported, as far as 64 bits of nanoseconds go. -/
  setPeriod : ∀ d, (c.setPeriod d).period.toNanos = min d.toNanos maxPeriodNanos
  /-- A batch takes exactly as long as its instructions do at the period that is reported. -/
  batch : (batchTime c.period).toNanos = batchSize * c.period.toNanos
  /-- At the rate that is set, the instructions of a second take, in batches, no more than a
  second. -/
  le_second : ∀ hz, 0 < hz →
    (batchTime (c.setRate hz).period).toNanos * hz ≤ batchSize * nanosPerSecond
  /-- They take more if every instruction takes a nanosecond more. -/
  second_lt : ∀ hz, 0 < hz →
    batchSize * nanosPerSecond < ((batchTime (c.setRate hz).period).toNanos + batchSize) * hz

/-- **The law of periods** holds for every control, however it got its period. -/
theorem periodLaw (c : Control) : c.PeriodLaw where
  setPeriod := c.toNanos_period_setPeriod
  batch := c.toNanos_batchTime_period
  le_second hz h := by
    rw [toNanos_batchTime_period, toNanos_period_setRate, Nat.mul_assoc]
    exact Nat.mul_le_mul_left _ (rateLaw h).le_second
  second_lt hz h := by
    rw [toNanos_batchTime_period, toNanos_period_setRate, ← Nat.mul_add_one, Nat.mul_assoc]
    exact Nat.mul_lt_mul_of_pos_left (rateLaw h).second_lt (by decide)

end Control

/-- **The arithmetic of pacing is exact.** The period of every clock rate is exact but for the
rounding to nanoseconds, and a rate of zero gives no time. The time of a batch is exact up to the
longest span. A control that is made with a period, or to which one is set, reports it as far as 64
bits of nanoseconds go. The time of a batch at the period of a control is exact, and short of the
exact time at its clock rate by less than a nanosecond for each instruction. -/
theorem pacing_exact :
    (∀ hz, 0 < hz → RateLaw hz) ∧ periodOfRate 0 = .zero ∧ (∀ d, BatchLaw d) ∧
      (∀ d, (Control.ofPeriod d).period.toNanos = min d.toNanos Control.maxPeriodNanos) ∧
      ∀ c : Control, c.PeriodLaw :=
  ⟨fun _ => rateLaw, rfl, batchLaw, Control.toNanos_period_setPeriod {}, Control.periodLaw⟩

/-- At three instructions per second a third of a second is rounded down. -/
theorem pacing_exact_threePerSecond : 0 < 3 ∧ (periodOfRate 3).toNanos = 333333333 := by
  have hrate : RateLaw 3 := pacing_exact.1 3 (by decide)
  have hle := hrate.le_second
  have hlt := hrate.second_lt
  rw [nanosPerSecond] at hle hlt
  omega

end Cpu16
