import Cpu16.Run.Duration

set_option relaxedAutoImplicit false
set_option autoImplicit false

/-!
# Clock pacing

A continuous run is paced once per batch of instructions. At the end of a batch the run waits
until the time that the batch should take has passed, so that the average rate follows the
clock while single instructions run at full speed.

The wait looks at three things that change while it goes on: the time that has passed, the
period of the clock and whether the run still wants to go on. They are read from a world `σ`.

## Main definitions

* `Cpu16.periodOfRate` — the time of one instruction at a clock rate.
* `Cpu16.batchTime` — the time of one batch at a period.
* `Cpu16.isCheckpoint` — where the batches end.
* `Cpu16.Pacing`, `Cpu16.Pacing.wait` — the readings of a wait, and the wait.

## Main results

* `Cpu16.Pacing.wait_mono` — where a wait ends does not depend on the bound of its tests.
-/

universe u

namespace Cpu16

/-- Number of instructions in a batch. -/
def batchSize : Nat := 1000

/-- The time of one instruction at `hz` instructions per second, rounded down to a whole
nanosecond. A rate of zero stands for no pacing, hence for no time. -/
def periodOfRate (hz : Nat) : Duration :=
  if hz = 0 then Duration.zero else Duration.ofNanos (nanosPerSecond / hz)

/-- The time that a batch should take at a period. -/
def batchTime (period : Duration) : Duration :=
  period.scale batchSize

/-- Whether a batch ends when `count` instructions have been counted. -/
def isCheckpoint (count : BitVec 64) : Bool :=
  count.toNat % batchSize = 0

/-- The readings of a wait, taken from a world `σ`. -/
structure Pacing (σ : Type u) where
  /-- The time since the last checkpoint. -/
  elapsed : σ → Duration × σ
  /-- The period of the clock. -/
  period : σ → Duration × σ
  /-- Whether the run still wants to go on. -/
  keepWaiting : σ → Bool × σ

namespace Pacing

variable {σ : Type u}

/-- One test of the wait: whether it has to go on. The third reading is taken only if time is
left in the budget. -/
def test (p : Pacing σ) (s : σ) : Bool × σ :=
  let (elapsed, s) := p.elapsed s
  let (period, s) := p.period s
  if elapsed.isLess (batchTime period) then
    p.keepWaiting s
  else
    (false, s)

/-- The wait: tests until one of them fails. It answers nothing if all the tests that `fuel`
allows succeed. -/
def wait (p : Pacing σ) : Nat → σ → Option σ
  | 0, _ => none
  | fuel + 1, s =>
    match p.test s with
    | (true, s) => p.wait fuel s
    | (false, s) => some s

/-- A larger bound keeps the end of a wait. -/
theorem wait_mono {p : Pacing σ} {fuel fuel' : Nat} (h : fuel ≤ fuel') {s s' : σ}
    (hw : p.wait fuel s = some s') : p.wait fuel' s = some s' := by
  induction fuel generalizing fuel' s with
  | zero => simp [wait] at hw
  | succ fuel ih =>
    obtain ⟨k, rfl⟩ : ∃ k, fuel' = k + 1 := ⟨fuel' - 1, by omega⟩
    unfold wait at hw ⊢
    split at hw
    · rename_i ht
      simpa [ht] using ih (by omega) hw
    · rename_i ht
      simpa [ht] using hw

end Pacing

/-- The average rate of a run of `steps` steps, for a clock display. A run that took no time has
no rate, which is shown as zero. -/
def averageRate (steps : Nat) (elapsed : Duration) : Float :=
  let seconds := (UInt64.ofNat elapsed.seconds).toFloat +
    (UInt64.ofNat elapsed.nanos).toFloat / (UInt64.ofNat nanosPerSecond).toFloat
  if seconds > 0 then (UInt64.ofNat steps).toFloat / seconds else 0

end Cpu16
