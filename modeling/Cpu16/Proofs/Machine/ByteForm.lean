import Cpu16.Machine.Image

set_option relaxedAutoImplicit false
set_option autoImplicit false

/-!
# The byte form of words

The byte form of a sequence of words can be read back, and every sequence of bytes of even length is
the byte form of the words that are read from it. So an image is read exactly if its length is
right, and then nothing of it is lost.

## Main definitions

* `Cpu16.Image.Reads` — which byte sequences are images of a length, and what is read from them.

## Main results

* `Cpu16.wordsOfBytes_bytesOfWords` — words are read back from their byte form.
* `Cpu16.bytesOfWords_of_wordsOfBytes` — bytes are the byte form of the words that are read from
  them.
* `Cpu16.Image.reads` — images are read exactly if they have their length.
-/

namespace Cpu16

/-! ## One word -/

namespace Word

/-- The high byte of a word that is put together. -/
theorem highByte_ofBytes (high low : Byte) : highByte (ofBytes high low) = high :=
  BitVec.extractLsb'_append_eq_left

/-- The low byte of a word that is put together. -/
theorem lowByte_ofBytes (high low : Byte) : lowByte (ofBytes high low) = low :=
  BitVec.extractLsb'_append_eq_right

/-- A word is put together from its two bytes. -/
theorem ofBytes_highByte_lowByte (w : Word) : ofBytes (highByte w) (lowByte w) = w :=
  BitVec.extractLsb'_append_extractLsb'

end Word

/-! ## Many words -/

/-- The bytes of the word at position `i` stand at positions `2 * i` and `2 * i + 1`. -/
theorem getElem?_bytesOfWords (ws : Array Word) (i : Nat) :
    (bytesOfWords ws)[2 * i]? = ws[i]?.map Word.highByte ∧
      (bytesOfWords ws)[2 * i + 1]? = ws[i]?.map Word.lowByte := by
  have hlist : (bytesOfWords ws).toList =
      ws.toList.flatMap fun w => [Word.highByte w, Word.lowByte w] := Array.toList_flatMap
  rw [← Array.getElem?_toList, ← Array.getElem?_toList, ← Array.getElem?_toList, hlist]
  induction ws.toList generalizing i with
  | nil => simp
  | cons w ws ih =>
    cases i with
    | zero => exact ⟨rfl, rfl⟩
    | succ i => exact ih i

/-- A word takes two bytes. -/
theorem size_bytesOfWords (ws : Array Word) : (bytesOfWords ws).size = 2 * ws.size := by
  have hsizes : ∀ w : Word, (#[Word.highByte w, Word.lowByte w] : Array Byte).size = 2 :=
    fun _ => rfl
  simp only [bytesOfWords, Array.size_flatMap, hsizes]
  rw [← Array.sum_toList, Array.toList_map, List.map_const', List.sum_replicate_nat,
    Array.length_toList, Nat.mul_comm]

/-- The word at position `i` is made of the bytes at positions `2 * i` and `2 * i + 1`. -/
theorem getElem?_pairBytes {bytes : Array Byte} {i : Nat} {high low : Byte}
    (hhigh : bytes[2 * i]? = some high) (hlow : bytes[2 * i + 1]? = some low) :
    (pairBytes bytes)[i]? = some (Word.ofBytes high low) := by
  obtain ⟨hlt, hhigh⟩ := Array.getElem?_eq_some_iff.mp hhigh
  obtain ⟨hlt', hlow⟩ := Array.getElem?_eq_some_iff.mp hlow
  rw [Array.getElem?_eq_getElem (by rw [size_pairBytes]; omega)]
  simp [pairBytes, hhigh, hlow]

/-- Words are paired again from their byte form. -/
theorem pairBytes_bytesOfWords (ws : Array Word) : pairBytes (bytesOfWords ws) = ws := by
  have hsize : (pairBytes (bytesOfWords ws)).size = ws.size := by
    rw [size_pairBytes, size_bytesOfWords]
    omega
  refine Array.ext hsize fun i hi hi' => ?_
  obtain ⟨hhigh, hlow⟩ := getElem?_bytesOfWords ws i
  rw [Array.getElem?_eq_getElem hi', Option.map_some] at hhigh hlow
  have hpair := getElem?_pairBytes hhigh hlow
  rw [Array.getElem?_eq_getElem hi, Word.ofBytes_highByte_lowByte] at hpair
  exact Option.some.inj hpair

/-- The pairs of an even number of bytes have them as their byte form. -/
theorem bytesOfWords_pairBytes {bytes : Array Byte} (h : bytes.size % 2 = 0) :
    bytesOfWords (pairBytes bytes) = bytes := by
  have hsize : (bytesOfWords (pairBytes bytes)).size = bytes.size := by
    rw [size_bytesOfWords, size_pairBytes]
    omega
  refine Array.ext hsize fun j hj hj' => ?_
  have hhalf : j / 2 < bytes.size / 2 := by omega
  have hpair : (pairBytes bytes)[j / 2]? = some _ :=
    getElem?_pairBytes (Array.getElem?_eq_getElem (by omega)) (Array.getElem?_eq_getElem (by omega))
  obtain ⟨hhigh, hlow⟩ := getElem?_bytesOfWords (pairBytes bytes) (j / 2)
  rw [hpair, Option.map_some, Word.highByte_ofBytes] at hhigh
  rw [hpair, Option.map_some, Word.lowByte_ofBytes] at hlow
  -- A byte is the high or the low one of its word, by the parity of its position.
  rcases Nat.mod_two_eq_zero_or_one j with heven | hodd
  · have hpos : 2 * (j / 2) = j := by omega
    simp only [hpos] at hhigh
    exact (Array.getElem?_eq_some_iff.mp hhigh).2
  · have hpos : 2 * (j / 2) + 1 = j := by omega
    simp only [hpos] at hlow
    exact (Array.getElem?_eq_some_iff.mp hlow).2

/-- **Words are read back** from their byte form. -/
theorem wordsOfBytes_bytesOfWords (ws : Array Word) : wordsOfBytes (bytesOfWords ws) = .ok ws := by
  unfold wordsOfBytes
  rw [if_pos (by rw [size_bytesOfWords]; omega), pairBytes_bytesOfWords]

/-- Words are read from bytes exactly if these are even in number. -/
theorem exists_wordsOfBytes_iff {bytes : Array Byte} :
    (∃ ws, wordsOfBytes bytes = .ok ws) ↔ bytes.size % 2 = 0 := by
  unfold wordsOfBytes
  by_cases h : bytes.size % 2 = 0 <;> simp [h]

/-- **Nothing is lost.** Bytes are the byte form of the words that are read from them. -/
theorem bytesOfWords_of_wordsOfBytes {bytes : Array Byte} {ws : Array Word}
    (h : wordsOfBytes bytes = .ok ws) : bytesOfWords ws = bytes := by
  have heven := exists_wordsOfBytes_iff.mp ⟨ws, h⟩
  unfold wordsOfBytes at h
  rw [if_pos heven] at h
  obtain rfl := Except.ok.inj h
  exact bytesOfWords_pairBytes heven

/-! ## Images -/

namespace Image

/-- What is read from a sequence of bytes as an image of `n` words in `length` bytes. -/
structure Reads (n length : Nat) (bytes : Array Byte) : Prop where
  /-- An image is read exactly if the length is right. -/
  exists_iff : (∃ image, decode n bytes = .ok image) ↔ bytes.size = length
  /-- Any other length is reported, odd or even. -/
  error : bytes.size ≠ length → decode n bytes = .error (.wrongLength length bytes.size)
  /-- The words of the image are those whose byte form the bytes are. -/
  words : ∀ image, decode n bytes = .ok image → wordsOfBytes bytes = .ok image.toArray

/-- **Images are read exactly if they have their length.** -/
theorem reads (n : Nat) (bytes : Array Byte) : Reads n (2 * n) bytes := by
  have himage : imageBytes n = 2 * n := rfl
  by_cases h : bytes.size = 2 * n
  · have heven : bytes.size % 2 = 0 := by omega
    have hdecode : decode n bytes = .ok ⟨pairBytes bytes, by rw [size_pairBytes]; omega⟩ :=
      dif_pos h
    refine ⟨iff_of_true ⟨_, hdecode⟩ h, fun hne => absurd h hne, fun image him => ?_⟩
    obtain rfl := Except.ok.inj (hdecode.symm.trans him)
    exact if_pos heven
  · have hdecode : decode n bytes = .error (.wrongLength (2 * n) bytes.size) := dif_neg h
    have hnone : ∀ image, decode n bytes ≠ .ok image := by
      intro image him
      rw [hdecode] at him
      cases him
    exact ⟨iff_of_false (fun ⟨image, him⟩ => hnone image him) h, fun _ => hdecode,
      fun image him => absurd him (hnone image)⟩

/-- An image is read back from its byte form. -/
theorem decode_bytesOfWords {n : Nat} (image : Image n) :
    decode n (bytesOfWords image.toArray) = .ok image := by
  have hsize : (bytesOfWords image.toArray).size = 2 * n := by
    rw [size_bytesOfWords, Vector.size_toArray]
  obtain ⟨image', him⟩ := (reads n _).exists_iff.mpr hsize
  have hwords := (reads n _).words image' him
  rw [wordsOfBytes_bytesOfWords] at hwords
  rw [him, Vector.toArray_inj.mp (Except.ok.inj hwords)]

end Image

end Cpu16
