import Cpu16.Word

set_option relaxedAutoImplicit false
set_option autoImplicit false

/-!
# Memory images

An image is a sequence of bytes that holds words with their high byte first. A code image fills
the full address space, a character map has 512 words; an image of another length is refused
as a whole.

## Main definitions

* `Cpu16.bytesOfWords`, `Cpu16.wordsOfBytes` — the byte form of words, and back.
* `Cpu16.Image` — the words of an image of a fixed length.
* `Cpu16.Image.decode` — the image in a sequence of bytes.
* `Cpu16.Image.ofWords` — words cut or filled up with zeros to the length of an image.
-/

namespace Cpu16

/-- Why a sequence of bytes is no image. -/
inductive ImageError
  /-- The bytes cannot be split into whole words. -/
  | oddLength (actual : Nat)
  /-- The bytes do not have the exact length that the image needs. -/
  | wrongLength (expected actual : Nat)
  deriving DecidableEq, Repr

/-- The diagnostic text of an image error. -/
def ImageError.message : ImageError → String
  | oddLength actual => s!"image length {actual} is not a multiple of 2"
  | wrongLength expected actual => s!"image is {actual} bytes, expected exactly {expected}"

namespace Word

/-- The word with the given high and low bytes. -/
def ofBytes (high low : Byte) : Word := high ++ low

/-- The high byte of a word. -/
def highByte (w : Word) : Byte := w.extractLsb' 8 8

/-- The low byte of a word. -/
def lowByte (w : Word) : Byte := w.extractLsb' 0 8

end Word

/-- The byte form of words: two bytes for each word, the high byte first. -/
def bytesOfWords (ws : Array Word) : Array Byte :=
  ws.flatMap fun w => #[Word.highByte w, Word.lowByte w]

/-- The words whose byte form the bytes are; a last byte without a partner is left out. -/
def pairBytes (bytes : Array Byte) : Array Word :=
  Array.ofFn fun i : Fin (bytes.size / 2) =>
    have := i.isLt
    Word.ofBytes bytes[2 * i.val] bytes[2 * i.val + 1]

/-- Two bytes make one word. -/
@[simp]
theorem size_pairBytes (bytes : Array Byte) : (pairBytes bytes).size = bytes.size / 2 := by
  simp [pairBytes]

/-- The words whose byte form the bytes are. -/
def wordsOfBytes (bytes : Array Byte) : Except ImageError (Array Word) :=
  if bytes.size % 2 = 0 then .ok (pairBytes bytes) else .error (.oddLength bytes.size)

/-- The words of an image of `n` words. -/
abbrev Image (n : Nat) := Vector Word n

/-- Number of words of a character map. -/
def charmapWords : Nat := 512

/-- Number of bytes of an image of `n` words. -/
def imageBytes (n : Nat) : Nat := 2 * n

namespace Image

/-- The image of zeros. -/
def zeros (n : Nat) : Image n := Vector.replicate n 0

/-- The image that starts with the words of `ws`: what is too long is cut off, what is missing
is zero. -/
def ofWords (n : Nat) (ws : Array Word) : Image n :=
  Vector.ofFn fun i => ws.getD i.val 0

/-- The words of an image are the words that it was made of, and zeros after them. -/
@[simp]
theorem getElem_ofWords (n : Nat) (ws : Array Word) (i : Nat) (h : i < n) :
    (ofWords n ws)[i] = ws.getD i 0 := by
  simp [ofWords]

/-- The image in a sequence of bytes, which must have its exact length. -/
def decode (n : Nat) (bytes : Array Byte) : Except ImageError (Image n) :=
  if h : bytes.size = imageBytes n then
    .ok ⟨pairBytes bytes, by simp only [size_pairBytes, h, imageBytes]; omega⟩
  else
    .error (.wrongLength (imageBytes n) bytes.size)

end Image

end Cpu16
