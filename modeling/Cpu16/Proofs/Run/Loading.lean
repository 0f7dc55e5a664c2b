import Cpu16.Proofs.Machine.ByteForm
import Cpu16.Proofs.Run.History

set_option relaxedAutoImplicit false
set_option autoImplicit false

/-!
# The two ways to load

Words are loaded into the baseline that is there, which is cleared and then written from the front;
a full image in its byte form takes the place of the baseline as a whole. Both leave the same
machine behind, whatever the baseline was before, and an image that is refused leaves the machine as
it was.

## Main definitions

* `Cpu16.Machine.LoadsAlike` — what the two ways to load some words leave behind.

## Main results

* `Cpu16.Memory.getElem?_patch` — words that are written one after another are seen at their places
  and nowhere else.
* `Cpu16.Machine.loadsAlike` — the two ways to load agree for words of every number.
* `Cpu16.Machine.loading_agrees` — what a host can rely on when it loads words, and when it loads
  bytes.
-/

namespace Cpu16

/-! ## Memories, word by word -/

namespace Memory

/-- A resized memory has the words of the old one, and zeros after them. -/
theorem getElem?_resize (mem : Memory) {n j : Nat} (hj : j < n) :
    (mem.resize n).words[j]? = some (mem.words.getD j 0) := by
  have hsize : (mem.words.extract 0 n).size = min n mem.words.size := by
    rw [Array.size_extract, Nat.sub_zero]
  rw [Array.getD_eq_getD_getElem?]
  unfold resize
  by_cases h : j < mem.words.size
  · rw [Array.getElem?_append_left (by omega), Array.getElem?_extract, if_pos (by omega),
      Nat.zero_add, Array.getElem?_eq_getElem h, Option.getD_some]
  · rw [Array.getElem?_append_right (by omega), Array.getElem?_replicate,
      if_pos (by unfold size; omega), Array.getElem?_eq_none (Nat.le_of_not_lt h), Option.getD_none]

/-- **Writing word by word.** The words that are written one after another are seen at their places,
and every other place is as before.

**Proof sketch.** Induction on the number of words that have been written. The next word goes to a
place that none of them has touched. -/
theorem getElem?_patch (mem : Memory) (a : Word) (ws : Array Word) {j : Nat} (hj : j < mem.size) :
    (mem.patch a ws).words[j]? =
      if a.toNat ≤ j ∧ j < a.toNat + ws.size then ws[j - a.toNat]? else mem.words[j]? := by
  unfold patch
  have hsize : ws.zipIdx.size = ws.size := Array.size_zipIdx
  rw [← hsize]
  refine (Array.foldl_induction (fun k (words : Array Word) => words.size = mem.size ∧
    words[j]? = if a.toNat ≤ j ∧ j < a.toNat + k then ws[j - a.toNat]? else mem.words[j]?)
    ⟨rfl, by rw [if_neg (by omega)]⟩ ?_).2
  rintro ⟨k, hk⟩ words ⟨hwords, hread⟩
  have hk' : k < ws.size := hsize ▸ hk
  have hitem : ws.zipIdx[k] = (ws[k], k) := by rw [Array.getElem_zipIdx, Nat.zero_add]
  simp only [Fin.getElem_fin, hitem] at hread ⊢
  refine ⟨by rw [Array.size_setIfInBounds, hwords], ?_⟩
  rw [Array.getElem?_setIfInBounds, hread]
  by_cases hplace : a.toNat + k = j
  · rw [if_pos hplace, if_pos (by omega), if_pos (by omega), ← hplace, Nat.add_sub_cancel_left,
      Array.getElem?_eq_getElem hk']
  · rw [if_neg hplace]
    exact if_congr (by omega) rfl rfl

/-- Words that are written from the front of a cleared memory leave nothing else in it. -/
theorem patch_cleared (mem : Memory) (ws : Array Word) :
    (Memory.mk (mem.words.map fun _ => 0)).patch 0 ws = (Memory.mk ws).resize mem.size := by
  have hsize : (Memory.mk (mem.words.map fun _ => 0)).size = mem.size := Array.size_map
  have hsize' : ((Memory.mk ws).resize mem.size).words.size = mem.size := size_resize _ _
  refine ext (Array.ext ((size_patch _ _ _).trans (hsize.trans hsize'.symm)) fun j hj hj' => ?_)
  have hjm : j < mem.size := hsize' ▸ hj'
  have hpatch := getElem?_patch _ 0 ws (hsize.symm ▸ hjm)
  have hresize := getElem?_resize (Memory.mk ws) hjm
  have hzero : (0 : Word).toNat = 0 := rfl
  rw [Array.getElem?_eq_getElem hj', Array.getD_eq_getD_getElem?] at hresize
  rw [Array.getElem?_eq_getElem hj, hzero, Nat.zero_add, Nat.sub_zero] at hpatch
  apply Option.some.inj
  rw [hpatch, hresize]
  by_cases h : j < ws.size
  · rw [if_pos ⟨Nat.zero_le j, h⟩, Array.getElem?_eq_getElem h, Option.getD_some]
  · rw [if_neg (by omega), Array.getElem?_eq_none (Nat.le_of_not_lt h), Option.getD_none,
      Array.getElem?_map, Array.getElem?_eq_getElem hjm, Option.map_some]

end Memory

/-- An image that is made of words has the words of the resized memory. -/
theorem Image.toArray_ofWords (n : Nat) (ws : Array Word) :
    (ofWords n ws).toArray = ((Memory.mk ws).resize n).words := by
  have hsize : ((Memory.mk ws).resize n).words.size = n := Memory.size_resize _ n
  refine Array.ext (by rw [Vector.size_toArray, hsize]) fun j hj hj' => ?_
  have hread := Memory.getElem?_resize (Memory.mk ws) (hsize ▸ hj')
  rw [Array.getElem?_eq_getElem hj', Option.some.injEq] at hread
  rw [hread, Vector.getElem_toArray, getElem_ofWords]

/-! ## Loading -/

namespace Machine

/-- What the two ways to load some words leave behind. -/
structure LoadsAlike (m : Machine) (ws : Array Word) : Prop where
  /-- A load of the words, cut or filled up with zeros, as a full image leaves the same machine. -/
  loadImage : m.loadImage (bytesOfWords ((Memory.mk ws).resize spaceSize).words) =
    .ok (m.loadWords ws)
  /-- Live memory then has these words. -/
  memory : (m.loadWords ws).memory = (Memory.mk ws).resize spaceSize
  /-- So has the baseline. -/
  baseline : (m.loadWords ws).baseline.toArray = ((Memory.mk ws).resize spaceSize).words
  /-- To clear the baseline that is there and to write the words from its front leads to that
  one. -/
  inPlace : (Memory.mk (m.baseline.toArray.map fun _ => 0)).patch 0 ws =
    ⟨(m.loadWords ws).baseline.toArray⟩
  /-- The copy of the baseline over live memory is possible, and leads to the live memory. -/
  copy : m.memory.overwrite? (m.loadWords ws).baseline.toArray = some (m.loadWords ws).memory

/-- After a load the baseline is the program, cut or filled up to the address space. -/
theorem baseline_loadWords (m : Machine) (ws : Array Word) :
    (m.loadWords ws).baseline.toArray = ((Memory.mk ws).resize spaceSize).words :=
  Image.toArray_ofWords spaceSize ws

/-- After a load live memory is the same as the baseline. -/
theorem memory_loadWords (m : Machine) (ws : Array Word) :
    (m.loadWords ws).memory = (Memory.mk ws).resize spaceSize :=
  congrArg Memory.mk (Image.toArray_ofWords spaceSize ws)

/-- **The two ways to load agree** for words of every number. -/
theorem loadsAlike {m : Machine} (hm : m.memory.size = spaceSize) (ws : Array Word) :
    m.LoadsAlike ws where
  loadImage := by
    rw [← Image.toArray_ofWords, Machine.loadImage, Image.decode_bytesOfWords]
    rfl
  memory := m.memory_loadWords ws
  baseline := m.baseline_loadWords ws
  inPlace := by
    have hsize : (Memory.mk m.baseline.toArray).size = spaceSize := m.baseline.size_toArray
    rw [Memory.patch_cleared (Memory.mk m.baseline.toArray), hsize, baseline_loadWords]
  copy := if_pos (hm.trans (m.loadWords ws).baseline.size_toArray.symm)

/-- An image of the wrong length is refused, and the machine stays as it is. -/
theorem loadImage_of_size_ne (m : Machine) {bytes : Array Byte} (h : bytes.size ≠ 65536) :
    m.loadImage bytes = .error (.wrongLength 65536 bytes.size) ∧
      (HostOp.loadImage.{0} bytes).apply m = some m := by
  have herror : m.loadImage bytes = .error (.wrongLength 65536 bytes.size) := by
    rw [loadImage, (Image.reads spaceSize bytes).error h]
    rfl
  refine ⟨herror, ?_⟩
  rw [HostOp.apply, herror]
  rfl

/-- **Loading.** Bytes are read as words exactly if they are even in number, and reading undoes the
byte form and is undone by it. Images are read exactly if they have their length. A code image of
another length, even or odd, is refused with this length, and the machine stays as it is. To load
words and to load the full image that they make leads to one and the same machine, which has this
image in live memory and as its baseline, whatever the baseline was before. -/
theorem loading_agrees {m : Machine} (hm : m.memory.size = spaceSize) (ws : Array Word)
    (bytes : Array Byte) :
    (((∃ ws', wordsOfBytes bytes = .ok ws') ↔ bytes.size % 2 = 0) ∧
      (∀ ws', wordsOfBytes bytes = .ok ws' → bytesOfWords ws' = bytes) ∧
      wordsOfBytes (bytesOfWords ws) = .ok ws) ∧
    Image.Reads spaceSize 65536 bytes ∧ Image.Reads charmapWords 1024 bytes ∧
    (bytes.size ≠ 65536 → m.loadImage bytes = .error (.wrongLength 65536 bytes.size) ∧
      (HostOp.loadImage.{0} bytes).apply m = some m) ∧
    m.LoadsAlike ws := by
  have hcode : 65536 = 2 * spaceSize := rfl
  have hcharmap : 1024 = 2 * charmapWords := rfl
  refine ⟨⟨exists_wordsOfBytes_iff, fun _ => bytesOfWords_of_wordsOfBytes,
    wordsOfBytes_bytesOfWords ws⟩, ?_, ?_, m.loadImage_of_size_ne, loadsAlike hm ws⟩
  · rw [hcode]
    exact Image.reads spaceSize bytes
  · rw [hcharmap]
    exact Image.reads charmapWords bytes

/-- A machine with a program of three words refuses an image of one byte, and a shorter program that
is loaded by either way leaves nothing of the old one behind. -/
theorem loading_agrees_shorter :
    (ofProgram #[0xE000, 5, 0x3C00]).memory.size = spaceSize ∧
    (ofProgram #[0xE000, 5, 0x3C00]).loadImage #[0x3C] = .error (.wrongLength 65536 1) ∧
    (ofProgram #[0xE000, 5, 0x3C00]).LoadsAlike #[0x3C00] := by
  have hm : (ofProgram #[0xE000, 5, 0x3C00]).memory.size = spaceSize := by
    rw [ofProgram, memory_loadWords, Memory.size_resize]
  have h := loading_agrees hm #[0x3C00] #[0x3C]
  exact ⟨hm, (h.2.2.2.1 (by decide)).1, h.2.2.2.2⟩

end Machine

end Cpu16
