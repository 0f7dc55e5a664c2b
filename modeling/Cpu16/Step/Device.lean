import Cpu16.Fault
import Cpu16.Word

set_option relaxedAutoImplicit false
set_option autoImplicit false

/-!
# The character device

The machine knows its character device only through two calls: one polls for a key, the other
draws a character. A device acts on a world `σ` that belongs to the embedder; the machine never
looks into it.

An instruction has at most one exchange with the device, and what it asks for depends on the
registers alone. `Device.perform` is the only place where the device is called.

## Main definitions

* `Cpu16.Device` — the two calls, on a world `σ`.
* `Cpu16.Exchange` — what an instruction asks of the device.
* `Cpu16.Device.perform` — the exchange itself.
-/

universe u

namespace Cpu16

/-- What polling answers, by convention, when no key is available. -/
def noKey : Byte := 255

/-- A character device, acting on a world `σ`. -/
structure Device (σ : Type u) where
  /-- Polls for a key, without waiting for one. -/
  poll : σ → Except DeviceError Byte × σ
  /-- Draws a character at a screen position. -/
  draw (character position : Word) : σ → Except DeviceError Unit × σ

/-- What an instruction asks of the device. -/
inductive Exchange
  /-- Nothing. -/
  | none
  /-- A key. -/
  | poll
  /-- To draw a character at a screen position. -/
  | draw (character position : Word)
  deriving DecidableEq, Repr

namespace Device

variable {σ : Type u}

/-- The device that has no key and draws nothing. -/
def silent : Device σ where
  poll s := (.ok noKey, s)
  draw _ _ s := (.ok (), s)

/-- Carries out an exchange. The reply is the key that was polled, as a word, or zero where
nothing is asked for. -/
def perform (dev : Device σ) : Exchange → σ → Except Fault Word × σ
  | .none, s => (.ok 0, s)
  | .poll, s =>
    match dev.poll s with
    | (.ok key, s) => (.ok (key.setWidth 16), s)
    | (.error e, s) => (.error e.fault, s)
  | .draw character position, s =>
    match dev.draw character position s with
    | (.ok (), s) => (.ok 0, s)
    | (.error e, s) => (.error e.fault, s)

/-- An instruction that asks for nothing leaves the world alone. -/
@[simp]
theorem perform_none (dev : Device σ) (s : σ) : dev.perform .none s = (.ok 0, s) := rfl

end Device

end Cpu16
