import Mathlib.Data.List.Intervals
import Cpu16.Proofs.Listing.Operands
import Cpu16.Proofs.Machine.AddressSpace

set_option relaxedAutoImplicit false
set_option autoImplicit false

/-!
# The rows around an address

A window of a listing looks back once, at its first address, and from there on it carries along from
row to row whether the next word is an operand. The text of a single address looks back each time.
This file proves that both agree, wherever the window begins and ends.

## Main definitions

* `Cpu16.Memory.rowAt` — the row of an address on its own.
* `Cpu16.Row.Agrees` — a row shows what is asked for its address alone.

## Main results

* `Cpu16.Memory.showsOperand_add_one` — what a row hands on to the next one.
* `Cpu16.Memory.rowsFrom_eq` — the rows of a window are those of its addresses.
* `Cpu16.Memory.window_agrees` — a window has one row for each address in its range, and each row
  agrees with what is asked for its address alone.
-/

namespace Cpu16

/-! ## Single rows -/

/-- The row shows the word at its address, with the text of that address and with whether the word
is an operand. -/
structure Row.Agrees (mem : Memory) (view : View) (row : Row) : Prop where
  /-- The word is the one at the address. -/
  word : mem.get? row.address = some row.word
  /-- The text is the one of the address. -/
  text : mem.textAt view row.address = some row.text
  /-- A view of instructions tells operands. -/
  decoded : view = .decoded → row.isOperand = mem.isOperand row.address
  /-- A view of numbers has no operands. -/
  raw : view = .raw → row.isOperand = false

namespace Memory

variable {mem : Memory} {view : View}

/-- The row of an address on its own. -/
def rowAt (mem : Memory) (view : View) (a : Word) : Row where
  address := a
  word := mem.word a
  text := wordText view (mem.showsOperand view a) (mem.word a)
  isOperand := mem.showsOperand view a

/-- The row of an address in memory agrees with what is asked for the address. -/
theorem agrees_rowAt {a : Word} (ha : a.toNat < mem.size) : (mem.rowAt view a).Agrees mem view where
  word := get?_eq_some_word ha
  text := by rw [textAt, rowAt, get?_eq_some_word ha]; rfl
  decoded h := by simp [rowAt, showsOperand, h]
  raw h := by simp [rowAt, showsOperand, h]

/-- **What a row hands on.** A word is shown as an operand if the word before it takes one and is
not shown as one itself. -/
theorem showsOperand_add_one {a w : Word} (hw : mem.get? a = some w)
    (hsucc : (a + 1).toNat = a.toNat + 1) (hlt : a.toNat + 1 < mem.size) :
    mem.showsOperand view (a + 1) =
      (view = .decoded && !mem.showsOperand view a && takesOperand w) := by
  have hnext : mem.isOperand (a + 1) = (!mem.isOperand a && takesOperand w) := by
    rw [Bool.eq_iff_iff, isOperand_add_one_of_get? hw hsucc hlt, Bool.and_eq_true_iff,
      Bool.not_eq_true', and_comm]
  unfold showsOperand
  rw [hnext]
  cases view <;> rfl

/-! ## Rows one after another -/

/-- **The rows of some addresses.** If it is known whether the first word is an operand, the rows
from there on are those of the addresses on their own.

**Proof sketch.** Induction on the number of rows. What a row hands on is right for the next one,
if there is a next one (`showsOperand_add_one`). -/
theorem rowsFrom_eq {n a : Nat} {operand : Bool} (rows : Array Row) (hsize : a + n ≤ mem.size)
    (hwidth : a + n ≤ 0x10000)
    (ho : 0 < n → operand = mem.showsOperand view (BitVec.ofNat 16 a)) :
    (mem.rowsFrom view n a operand rows).toList =
      rows.toList ++ (List.range' a n).map fun k => mem.rowAt view (BitVec.ofNat 16 k) := by
  induction n generalizing a operand rows with
  | zero => simp [rowsFrom]
  | succ n ih =>
    have haddress : (BitVec.ofNat 16 a).toNat = a := by
      rw [BitVec.toNat_ofNat]
      omega
    have hget : mem.get? (BitVec.ofNat 16 a) = some (mem.word (BitVec.ofNat 16 a)) :=
      get?_eq_some_word (by omega)
    have hword : mem.words[a]? = some (mem.word (BitVec.ofNat 16 a)) := by
      rw [← hget, get?, haddress]
    -- The flag that was handed on is the one that the address shows.
    have hrow : (⟨BitVec.ofNat 16 a, mem.word (BitVec.ofNat 16 a),
        wordText view operand (mem.word (BitVec.ofNat 16 a)), operand⟩ : Row) =
          mem.rowAt view (BitVec.ofNat 16 a) := by
      rw [ho (Nat.succ_pos n)]
      rfl
    unfold rowsFrom
    rw [hword]
    simp only [hrow]
    rw [ih _ (by omega) (by omega), List.range'_succ, List.map_cons, Array.toList_push,
      List.append_assoc, List.singleton_append]
    -- So is the one that is handed on, if a row is left for it.
    intro hn
    have hnext : BitVec.ofNat 16 (a + 1) = BitVec.ofNat 16 a + 1 := by
      bv_omega
    rw [hnext, showsOperand_add_one hget (by bv_omega) (by omega), ho (Nat.succ_pos n)]

/-! ## Windows -/

/-- The addresses in the range of a window, in order: those in memory from `before` words before an
address to `after` words after it, as far as there are 16-bit addresses. -/
def windowAddresses (mem : Memory) (center before after : Word) : List Nat :=
  (List.range mem.size).filter fun a =>
    center.toNat - before.toNat ≤ a ∧ a ≤ center.toNat + after.toNat ∧ a ≤ 0xFFFF

/-- The addresses of a window are those in memory around its center that 16 bits can name. -/
theorem mem_windowAddresses {center before after : Word} {a : Nat} :
    a ∈ mem.windowAddresses center before after ↔
      a < mem.size ∧ center.toNat - before.toNat ≤ a ∧ a ≤ center.toNat + after.toNat ∧
        a ≤ 0xFFFF := by
  simp [windowAddresses]

/-- The range of a window has no gaps. -/
theorem windowAddresses_eq (mem : Memory) (center before after : Word) :
    mem.windowAddresses center before after =
      List.range' (center.toNat - before.toNat)
        (min (center.toNat + after.toNat + 1) (min mem.size 0x10000) -
          (center.toNat - before.toNat)) := by
  have hrange : List.range mem.size = List.Ico 0 mem.size := (List.Ico.zero_bot mem.size).symm
  have hbounds : ∀ a, decide (center.toNat - before.toNat ≤ a ∧ a ≤ center.toNat + after.toNat ∧
      a ≤ 0xFFFF) = (decide (center.toNat - before.toNat ≤ a) &&
        decide (a < min (center.toNat + after.toNat + 1) 0x10000)) := by
    intro a
    rw [← Bool.decide_and, decide_eq_decide]
    omega
  unfold windowAddresses
  simp only [hbounds]
  rw [← List.filter_filter, hrange, List.Ico.filter_lt, List.Ico.filter_le, Nat.zero_max,
    Nat.min_left_comm]
  rfl

/-- The rows of a window are those of the addresses in its range on their own. -/
theorem toList_window (mem : Memory) (view : View) (center before after : Word) :
    (mem.window view center before after).toList =
      (mem.windowAddresses center before after).map fun a =>
        mem.rowAt view (BitVec.ofNat 16 a) := by
  have hbefore := center.isLt
  rw [windowAddresses_eq]
  unfold window
  generalize hstop : min (center.toNat + after.toNat + 1) (min mem.size 0x10000) = stop
  rcases Nat.le_total stop (center.toNat - before.toNat) with hle | hle
  · simp [Nat.sub_eq_zero_of_le hle, rowsFrom]
  · rw [rowsFrom_eq #[] (by omega) (by omega) fun _ => rfl]
    rfl

/-- **A window agrees with its addresses.** In a memory of any length, a window has exactly one row
for each address in its range, in order, and none if the range begins past memory. Each row shows
the word at its address, with the text of that address alone; and in a view of instructions it is
an operand if the address alone is one, in a view of numbers never. -/
theorem window_agrees (mem : Memory) (view : View) (center before after : Word) :
    (mem.window view center before after).toList.map (fun row => row.address.toNat) =
        mem.windowAddresses center before after ∧
      (mem.window view center before after = #[] ↔ mem.size ≤ center.toNat - before.toNat) ∧
      ∀ row ∈ mem.window view center before after, row.Agrees mem view := by
  have haddress : ∀ a ∈ mem.windowAddresses center before after,
      (BitVec.ofNat 16 a).toNat = a ∧ a < mem.size := by
    intro a ha
    obtain ⟨hsize, -, -, hwidth⟩ := mem_windowAddresses.mp ha
    exact ⟨by rw [BitVec.toNat_ofNat]; omega, hsize⟩
  refine ⟨?_, ?_, fun row hrow => ?_⟩
  · rw [toList_window, List.map_map]
    refine (List.map_congr_left fun a ha => ?_).trans (List.map_id _)
    exact (haddress a ha).1
  · rw [← Array.toList_eq_nil_iff, toList_window, List.map_eq_nil_iff, windowAddresses_eq,
      List.range'_eq_nil_iff]
    have hcenter := center.isLt
    omega
  · rw [← Array.mem_toList_iff, toList_window, List.mem_map] at hrow
    obtain ⟨a, ha, rfl⟩ := hrow
    obtain ⟨heq, hlt⟩ := haddress a ha
    exact agrees_rowAt (heq.symm ▸ hlt)

/-- A memory with a jump, its operand, which reads as a `loadn`, and a `halt`. -/
def jumpAndHalt : Memory := ⟨#[0x0800, 0xE000, 0x3C00]⟩

/-- A window around the `halt` begins at the operand, and shows it as one. -/
theorem window_agrees_jumpAndHalt :
    jumpAndHalt.window .decoded 2 1 5 =
        #[⟨1, 0xE000, "#57344", true⟩, ⟨2, 0x3C00, "halt", false⟩] ∧
      Row.Agrees jumpAndHalt .decoded ⟨1, 0xE000, "#57344", true⟩ := by
  have hwindow : jumpAndHalt.window .decoded 2 1 5 =
      #[⟨1, 0xE000, "#57344", true⟩, ⟨2, 0x3C00, "halt", false⟩] := rfl
  refine ⟨hwindow, (window_agrees jumpAndHalt .decoded 2 1 5).2.2 _ ?_⟩
  rw [hwindow]
  exact Array.mem_of_getElem? (i := 0) rfl

end Memory

end Cpu16
