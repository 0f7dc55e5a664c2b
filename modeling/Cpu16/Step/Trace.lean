import Cpu16.Fault
import Cpu16.Word

set_option relaxedAutoImplicit false
set_option autoImplicit false

/-!
# Trace events

While it steps, the machine reports what it does. A sink receives the reports one by one, in
order, and may do with them what it wants to the world around the machine, of which it is a
part.

## Main definitions

* `Cpu16.Event` — the reports.
* `Cpu16.Sink` — a receiver of reports in a world `σ`.
-/

universe u

namespace Cpu16

/-- Why execution stopped without an error. -/
inductive Stop
  /-- A `halt`; the program counter stays on it. -/
  | halt
  /-- A `breakp`; the program counter is after it. -/
  | breakpoint
  deriving DecidableEq, Repr

/-- A report of the machine. -/
inductive Event
  /-- The instruction `word` was fetched from `pc` and is about to be executed. -/
  | started (pc word : Word)
  /-- The instruction at `pc` is over, and `count` instructions have been counted. -/
  | retired (pc : Word) (count : BitVec 64)
  /-- A store, a push or a call wrote `value` to memory. -/
  | wrote (address value : Word)
  /-- The instruction at `pc` asked for a stop. -/
  | stopped (reason : Stop) (pc : Word)
  /-- The step at `pc` raised a fault. -/
  | faulted (fault : Fault) (pc : Word)
  deriving DecidableEq, Repr

/-- A receiver of reports in a world `σ`. -/
abbrev Sink (σ : Type u) := Event → σ → σ

namespace Sink

variable {σ : Type u}

/-- The sink that ignores everything. -/
def ignore : Sink σ := fun _ s => s

/-- Passes a list of reports to a sink, in order. -/
def reportAll (sink : Sink σ) (events : List Event) (s : σ) : σ :=
  events.foldl (fun s e => sink e s) s

/-- A sink that ignores its reports leaves the world alone. -/
@[simp]
theorem reportAll_ignore (events : List Event) (s : σ) :
    reportAll ignore events s = s := by
  induction events with
  | nil => rfl
  | cons e es ih => exact ih

/-- Reports are handed to the sink in order. -/
theorem reportAll_append (sink : Sink σ) (es es' : List Event) (s : σ) :
    sink.reportAll (es ++ es') s = sink.reportAll es' (sink.reportAll es s) :=
  List.foldl_append

end Sink

end Cpu16
