import Cpu16.Fault
import Cpu16.Word

set_option relaxedAutoImplicit false
set_option autoImplicit false

/-!
# Memory

One word-addressed memory holds code, data and the stack. It normally has the size of the full
address space, but a host may give the machine a memory of any length, so every access is
checked against it.

## Main definitions

* `Cpu16.Memory` — a memory, read by `Memory.get?` and written by `Memory.set`.
* `Cpu16.Memory.read`, `Cpu16.Memory.write` — the same with a fault outside memory.

## Main results

* `Cpu16.Memory.get?_set` — a write is seen at its address and nowhere else.
-/

namespace Cpu16

/-- A memory: the words from address 0 on. -/
structure Memory where
  /-- The words, by address. -/
  words : Array Word
  deriving DecidableEq, Repr

namespace Memory

/-- The memory of `n` zeros. -/
def zeros (n : Nat) : Memory :=
  ⟨Array.replicate n 0⟩

/-- Number of words. -/
def size (mem : Memory) : Nat := mem.words.size

/-- The word at an address, if the address is in memory. -/
def get? (mem : Memory) (a : Word) : Option Word :=
  mem.words[a.toNat]?

/-- The memory with one word replaced; a write outside memory has no effect. -/
def set (mem : Memory) (a value : Word) : Memory :=
  ⟨mem.words.setIfInBounds a.toNat value⟩

/-- Whether an address is in memory. -/
def contains (mem : Memory) (a : Word) : Bool :=
  a.toNat < mem.size

/-- The word at an address, or the fault of an address outside memory. -/
def read (mem : Memory) (a : Word) : Except Fault Word :=
  match mem.get? a with
  | some w => .ok w
  | none => .error .invalidAddress

/-- The memory with one word replaced, or the fault of an address outside memory. -/
def write (mem : Memory) (a value : Word) : Except Fault Memory :=
  if mem.contains a then .ok (mem.set a value) else .error .invalidAddress

/-- The words from an address on, at most `n` of them. -/
def slice (mem : Memory) (a : Word) (n : Nat) : Array Word :=
  mem.words.extract a.toNat (a.toNat + n)

/-- The memory with the words of `ws` written one after another from address `a` on. Words that
would fall outside memory have no effect. -/
def patch (mem : Memory) (a : Word) (ws : Array Word) : Memory :=
  ⟨ws.zipIdx.foldl (fun words (w, i) => words.setIfInBounds (a.toNat + i) w) mem.words⟩

/-- The memory cut, or filled up with zeros, to `n` words. -/
def resize (mem : Memory) (n : Nat) : Memory :=
  ⟨mem.words.extract 0 n ++ Array.replicate (n - mem.size) 0⟩

/-- A memory is its words. -/
@[ext]
theorem ext {mem mem' : Memory} (h : mem.words = mem'.words) : mem = mem' := by
  cases mem; cases mem'; cases h; rfl

/-- A cleared memory has the size that was asked for. -/
@[simp]
theorem size_zeros (n : Nat) : (zeros n).size = n := by
  simp [zeros, size]

/-- A write keeps the size of memory, also one that is dropped. -/
@[simp]
theorem size_set (mem : Memory) (a value : Word) : (mem.set a value).size = mem.size := by
  simp [set, size]

/-- To write some words changes no size either. -/
@[simp]
theorem size_patch (mem : Memory) (a : Word) (ws : Array Word) :
    (mem.patch a ws).size = mem.size := by
  unfold patch size
  refine Array.foldl_induction (fun _ (words : Array Word) => words.size = mem.words.size) rfl ?_
  intro i words h
  rw [Array.size_setIfInBounds, h]

/-- A resized memory has the size asked for. -/
@[simp]
theorem size_resize (mem : Memory) (n : Nat) : (mem.resize n).size = n := by
  simp only [resize, size, Array.size_append, Array.size_replicate, Array.size_extract]
  omega

/-- **Reading after writing.** A write is seen at its address, if that is in memory, and
nowhere else. -/
theorem get?_set (mem : Memory) (a b value : Word) :
    (mem.set a value).get? b =
      if b = a ∧ a.toNat < mem.size then some value else mem.get? b := by
  simp only [get?, set, size, Array.getElem?_setIfInBounds]
  by_cases h : b = a
  · subst h
    by_cases hb : b.toNat < mem.words.size <;> simp [hb]
  · have : a.toNat ≠ b.toNat := fun e => h (BitVec.eq_of_toNat_eq e.symm)
    simp [h, this]

/-- An address outside memory reads as nothing. -/
theorem get?_eq_none_iff {mem : Memory} {a : Word} : mem.get? a = none ↔ mem.size ≤ a.toNat := by
  simp [get?, size]

/-- An address in memory reads as some word. -/
theorem exists_get?_of_lt {mem : Memory} {a : Word} (h : a.toNat < mem.size) :
    ∃ w, mem.get? a = some w := by
  simp only [size] at h
  exact ⟨mem.words[a.toNat], by simp [get?, h]⟩

end Memory

end Cpu16
