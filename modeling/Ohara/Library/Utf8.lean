import Mathlib.Data.List.Basic

/-!
# Text as UTF-8

The bytes of a text, and the text that bytes are read as when what is no text is replaced: a
broken sequence by one replacement character, with the bytes that could still have begun a
character.
-/

namespace Utf8

/-- The bytes of a text. -/
def encode (text : List Char) : List UInt8 :=
    text.flatMap String.utf8EncodeChar

/-- What stands for bytes that are no character. -/
def replacement : Char := Char.ofNat 0xfffd

/-- The byte can follow the first one of a character. -/
def Continues (b : UInt8) : Prop := 0x80 ≤ b ∧ b ≤ 0xbf

instance (b : UInt8) : Decidable (Continues b) := inferInstanceAs (Decidable (_ ∧ _))

/-- The second byte of a character of three or four bytes. -/
def Follows (first second : UInt8) : Prop :=
    first = 0xe0 ∧ 0xa0 ≤ second ∧ second ≤ 0xbf
      ∨ first = 0xed ∧ 0x80 ≤ second ∧ second ≤ 0x9f
      ∨ 0xe1 ≤ first ∧ first ≤ 0xef ∧ first ≠ 0xed ∧ Continues second
      ∨ first = 0xf0 ∧ 0x90 ≤ second ∧ second ≤ 0xbf
      ∨ 0xf1 ≤ first ∧ first ≤ 0xf3 ∧ Continues second
      ∨ first = 0xf4 ∧ 0x80 ≤ second ∧ second ≤ 0x8f

instance (first second : UInt8) : Decidable (Follows first second) :=
    inferInstanceAs (Decidable (_ ∨ _))

/-- How many bytes after the first one a broken sequence takes with it. -/
def brokenTail (first : UInt8) : List UInt8 → Nat
  | second :: third :: _ =>
      if Follows first second then
        if 0xf0 ≤ first ∧ Continues third then 2 else 1
      else 0
  | [second] => if Follows first second then 1 else 0
  | [] => 0

/-- The character at the start of the bytes. -/
def firstChar (bytes : List UInt8) : Option Char :=
    bytes.toByteArray.utf8DecodeChar? 0

/-- The text of bytes, with a replacement for each run that is no character. -/
def decodeLossy : List UInt8 → List Char
  | [] => []
  | first :: rest =>
      match firstChar (first :: rest) with
      | some c => c :: decodeLossy (rest.drop (c.utf8Size - 1))
      | none => replacement :: decodeLossy (rest.drop (brokenTail first rest))
termination_by bytes => bytes.length
decreasing_by all_goals simp only [List.length_drop, List.length_cons]; omega

@[simp]
theorem encode_nil : encode [] = [] := rfl

@[simp]
theorem encode_cons (c : Char) (text : List Char) :
    encode (c :: text) = String.utf8EncodeChar c ++ encode text := rfl

theorem firstChar_encode (c : Char) (rest : List UInt8) :
    firstChar (String.utf8EncodeChar c ++ rest) = some c := by
  rw [firstChar, List.toByteArray_append]
  exact ByteArray.utf8DecodeChar?_utf8EncodeChar_append

/-- Text is read back as it was. -/
theorem decodeLossy_encode (text : List Char) : decodeLossy (encode text) = text := by
  induction text with
  | nil => simp [decodeLossy]
  | cons c rest ih =>
      have size : (String.utf8EncodeChar c).length = c.utf8Size := String.length_utf8EncodeChar c
      cases bytes : String.utf8EncodeChar c with
      | nil => exact absurd bytes String.utf8EncodeChar_ne_nil
      | cons first tail =>
          have found := firstChar_encode c (encode rest)
          rw [bytes, List.cons_append] at found
          rw [encode_cons, bytes, List.cons_append, decodeLossy, found]
          have tail_length : tail.length = c.utf8Size - 1 := by
            rw [← size, bytes]
            rfl
          simp [← tail_length, ih]

end Utf8
