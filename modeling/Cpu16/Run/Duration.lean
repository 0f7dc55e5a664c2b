set_option relaxedAutoImplicit false
set_option autoImplicit false

/-!
# Spans of time

A span of time is a number of whole seconds below 2^64 and a rest in nanoseconds. What would be
longer than the longest span is the longest span.

## Main definitions

* `Cpu16.Duration` — a span, with its length `Duration.toNanos` in nanoseconds.
* `Cpu16.Duration.ofParts` — the span of some seconds and some nanoseconds.
* `Cpu16.Duration.scale` — a multiple of a span.
* `Cpu16.Duration.isLess` — whether a span is shorter than another one.

## Main results

* `Cpu16.Duration.toNanos_ofParts`, `Cpu16.Duration.toNanos_scale` — both are exact up to the
  longest span.
* `Cpu16.Duration.isLess_iff` — comparing the parts compares the lengths.
-/

namespace Cpu16

/-- Number of nanoseconds in a second. -/
def nanosPerSecond : Nat := 1000000000

/-- Bound of the seconds of a span of time. -/
def secondsBound : Nat := 0x10000000000000000

/-- A span of time. -/
@[ext]
structure Duration where
  /-- The whole seconds. -/
  seconds : Nat
  /-- The rest, in nanoseconds. -/
  nanos : Nat
  /-- The seconds fit into 64 bits. -/
  seconds_lt : seconds < secondsBound
  /-- The rest is less than a second. -/
  nanos_lt : nanos < nanosPerSecond
  deriving DecidableEq

namespace Duration

/-- The length of a span in nanoseconds. -/
def toNanos (d : Duration) : Nat :=
  d.seconds * nanosPerSecond + d.nanos

/-- The empty span. -/
def zero : Duration := ⟨0, 0, by decide, by decide⟩

/-- The longest span. -/
def longest : Duration := ⟨secondsBound - 1, nanosPerSecond - 1, by decide, by decide⟩

/-- The span of `s` seconds and `n` nanoseconds, of which whole seconds are carried over. -/
def ofParts (s n : Nat) : Duration :=
  if h : s + n / nanosPerSecond < secondsBound then
    ⟨s + n / nanosPerSecond, n % nanosPerSecond, h, Nat.mod_lt _ (by decide)⟩
  else
    longest

/-- The span of `n` nanoseconds. -/
def ofNanos (n : Nat) : Duration := ofParts 0 n

/-- The span that is `k` times as long. -/
def scale (d : Duration) (k : Nat) : Duration :=
  ofParts (d.seconds * k) (d.nanos * k)

/-- Whether a span is shorter than another one: its seconds decide, and where they are equal the
rest does. -/
def isLess (d e : Duration) : Bool :=
  d.seconds < e.seconds || d.seconds == e.seconds && d.nanos < e.nanos

/-- **Comparing the parts compares the lengths.** -/
theorem isLess_iff {d e : Duration} : d.isLess e = true ↔ d.toNanos < e.toNanos := by
  have hd := d.nanos_lt
  have he := e.nanos_lt
  simp only [isLess, toNanos, nanosPerSecond, Bool.or_eq_true, Bool.and_eq_true, beq_iff_eq,
    decide_eq_true_eq] at *
  omega

/-- No span is longer than the longest one. -/
theorem toNanos_le_longest (d : Duration) : d.toNanos ≤ longest.toNanos := by
  have h₁ := d.seconds_lt
  have h₂ := d.nanos_lt
  simp only [toNanos, longest, secondsBound, nanosPerSecond] at *
  omega

/-- **Carrying is exact.** The span of some seconds and nanoseconds has their length, as long
as there is such a span. -/
theorem toNanos_ofParts (s n : Nat) :
    (ofParts s n).toNanos = min (s * nanosPerSecond + n) longest.toNanos := by
  have hlongest : longest.toNanos = secondsBound * nanosPerSecond - 1 := by decide
  rw [hlongest]
  by_cases h : s + n / nanosPerSecond < secondsBound
  · simp only [ofParts, dif_pos h, toNanos]
    simp only [secondsBound, nanosPerSecond] at h ⊢
    omega
  · rw [ofParts, dif_neg h, hlongest]
    simp only [secondsBound, nanosPerSecond] at h ⊢
    omega

/-- A span of nanoseconds has the length asked for, as long as there is such a span. -/
theorem toNanos_ofNanos (n : Nat) : (ofNanos n).toNanos = min n longest.toNanos := by
  simp [ofNanos, toNanos_ofParts]

/-- **Scaling is exact.** A multiple of a span has the multiple of its length, as long as there
is such a span. -/
theorem toNanos_scale (d : Duration) (k : Nat) :
    (d.scale k).toNanos = min (d.toNanos * k) longest.toNanos := by
  rw [scale, toNanos_ofParts]
  congr 1
  rw [toNanos, Nat.add_mul, Nat.mul_right_comm]

end Duration

end Cpu16
