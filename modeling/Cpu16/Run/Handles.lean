import Cpu16.Run.Basic

set_option relaxedAutoImplicit false
set_option autoImplicit false

/-!
# Handles on run controls

A control is shared through handles. A new handle has a control of its own; a cloned handle has
the control of the handle that it was cloned from. What is done through one handle is seen
through all the handles of its family.

## Main definitions

* `Cpu16.Handles` — the controls, and the handles on them.
* `Cpu16.Handles.create`, `Cpu16.Handles.clone` — the two ways to a new handle.
* `Cpu16.Handles.modify`, `Cpu16.Handles.run` — what is done through a handle.
-/

namespace Cpu16

/-- Controls, one for each family, and for each handle the family that it belongs to. -/
structure Handles where
  /-- The control of each family. -/
  controls : Array Control := #[]
  /-- The family of each handle. -/
  families : Array Nat := #[]
  deriving DecidableEq, Repr

namespace Handles

/-- No handles. -/
def empty : Handles := {}

/-- Number of handles. -/
def size (hs : Handles) : Nat := hs.families.size

/-- The control that a handle stands for. -/
def get? (hs : Handles) (h : Nat) : Option Control :=
  hs.families[h]? >>= fun family => hs.controls[family]?

/-- A new handle on a control of its own. -/
def create (hs : Handles) (c : Control) : Handles where
  controls := hs.controls.push c
  families := hs.families.push hs.controls.size

/-- A new handle on the control of the handle `h`. Without a handle `h` there is no new one. -/
def clone (hs : Handles) (h : Nat) : Handles :=
  match hs.families[h]? with
  | some family => { hs with families := hs.families.push family }
  | none => hs

/-- Changes the control of the handle `h`. -/
def modify (hs : Handles) (h : Nat) (f : Control → Control) : Handles :=
  match hs.families[h]? with
  | some family => { hs with controls := hs.controls.modify family f }
  | none => hs

/-- Runs a machine under the control of the handle `h`, with the silent device and without a
trace. Nothing is answered if there is no such handle, or if the run goes on after `fuel`
steps. -/
def run (hs : Handles) (h : Nat) (fuel : Nat) (m : Machine) :
    Option (RunResult × Machine × Handles) := do
  let control ← hs.get? h
  let (result, m, s) ← Cpu16.run Device.silent Sink.ignore fuel m ⟨control, ()⟩
  return (result, m, hs.modify h fun _ => s.control)

end Handles

end Cpu16
