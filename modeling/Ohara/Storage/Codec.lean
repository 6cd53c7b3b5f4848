import Ohara.Types

/-!
# Column codecs

`vec_codec` writes an embedding as the little-endian bytes of its floats. The byte form determines
the vector, so what a cached embedding is read back as is what was put there.
-/

namespace Ohara

/-- The four bytes of a float, least significant first. -/
def toLeBytes (f : F32) : List UInt8 :=
    let bits := f.toNat
    [UInt8.ofNat bits, UInt8.ofNat (bits / 2 ^ 8), UInt8.ofNat (bits / 2 ^ 16),
      UInt8.ofNat (bits / 2 ^ 24)]

/-- The float whose little-endian bytes are given. -/
def fromLeBytes (b0 b1 b2 b3 : UInt8) : F32 :=
    UInt32.ofNat (b0.toNat + 2 ^ 8 * b1.toNat + 2 ^ 16 * b2.toNat + 2 ^ 24 * b3.toNat)

/-- The bytes of a vector, as `vec0` stores it. -/
def vecToBytes (v : Vector) : List UInt8 :=
    v.flatMap toLeBytes

/-- Reads four bytes at a time; a shorter tail is dropped, as by `chunks_exact`. -/
def bytesToVec : List UInt8 → Vector
  | b0 :: b1 :: b2 :: b3 :: rest => fromLeBytes b0 b1 b2 b3 :: bytesToVec rest
  | _ => []

theorem fromLeBytes_toLeBytes (f : F32) :
    fromLeBytes (UInt8.ofNat f.toNat) (UInt8.ofNat (f.toNat / 2 ^ 8))
      (UInt8.ofNat (f.toNat / 2 ^ 16)) (UInt8.ofNat (f.toNat / 2 ^ 24)) = f := by
  apply UInt32.toNat.inj
  have bound := f.toNat_lt
  simp only [fromLeBytes, UInt8.toNat_ofNat', UInt32.toNat_ofNat']
  omega

theorem bytesToVec_vecToBytes (v : Vector) : bytesToVec (vecToBytes v) = v := by
  induction v with
  | nil => rfl
  | cons f rest ih =>
      have tail : bytesToVec (List.flatMap toLeBytes rest) = rest := ih
      simp only [vecToBytes, List.flatMap_cons, toLeBytes, List.cons_append, List.nil_append,
        bytesToVec]
      rw [fromLeBytes_toLeBytes, tail]

theorem length_vecToBytes (v : Vector) : (vecToBytes v).length = 4 * v.length := by
  induction v with
  | nil => rfl
  | cons f rest ih =>
      have tail : (List.flatMap toLeBytes rest).length = 4 * rest.length := ih
      simp only [vecToBytes, List.flatMap_cons, List.length_append, tail, List.length_cons]
      simp only [toLeBytes, List.length_cons, List.length_nil]
      omega

/-! ## JSON text of a list of names -/

/-- The sign around a JSON string. -/
def quote : Char := Char.ofNat 0x22

/-- The escape of a JSON string. -/
def backslash : Char := Char.ofNat 0x5c

/-- The escape of one character inside a JSON string, as `serde_json` writes it. -/
def jsonEscape (c : Char) : List Char :=
    if c = quote then [backslash, quote]
    else if c = backslash then [backslash, backslash]
    else if c.toNat = 0x08 then [backslash, 'b']
    else if c.toNat = 0x09 then [backslash, 't']
    else if c.toNat = 0x0a then [backslash, 'n']
    else if c.toNat = 0x0c then [backslash, 'f']
    else if c.toNat = 0x0d then [backslash, 'r']
    else if c.toNat < 0x20 then
      [backslash, 'u', '0', '0', Nat.digitChar (c.toNat / 16), Nat.digitChar (c.toNat % 16)]
    else [c]

/-- The text of a JSON string. -/
def jsonString (s : String) : List Char :=
    [quote] ++ s.toList.flatMap jsonEscape ++ [quote]

/-- `serde_json::to_string` of a list of strings, the form of `symbol.sibling_names`. -/
def jsonStringArray (names : List String) : String :=
    String.ofList (['['] ++ [','].intercalate (names.map jsonString) ++ [']'])

end Ohara
