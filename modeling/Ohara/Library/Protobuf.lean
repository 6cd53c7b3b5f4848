import Mathlib.Algebra.Ring.Nat
import Mathlib.Data.List.Basic
import Mathlib.Data.List.Forall2

/-!
# Protobuf messages

A message is a sequence of fields: a key, which is a varint and names the field and its wire type,
and a body whose size the wire type decides. Messages are split into fields that know their bytes,
so that what is not looked into can be carried over as it is.
-/

namespace Protobuf

/-- The bytes of a message. -/
abbrev Bytes := List UInt8

/-! ## Varints -/

/-- The value and the size of a varint of at most `limit` bytes. -/
def scan : Nat → Bytes → Option (Nat × Nat)
  | 0, _ => none
  | _ + 1, [] => none
  | limit + 1, byte :: rest =>
      if byte.toNat < 128 then some (byte.toNat, 1)
      else (scan limit rest).map fun tail => (byte.toNat - 128 + 128 * tail.1, tail.2 + 1)

/-- The 64-bit value and the size of a varint; bits past the 64th are dropped. -/
def varint (bytes : Bytes) : Option (Nat × Nat) :=
    (scan 10 bytes).map fun read => (read.1 % 2 ^ 64, read.2)

/-- The shortest varint of a value. -/
def encode (value : Nat) : Bytes :=
    if value < 128 then [UInt8.ofNat value]
    else UInt8.ofNat (value % 128 + 128) :: encode (value / 128)
termination_by value
decreasing_by omega

theorem toNat_ofNat {n : Nat} (small : n < 256) : (UInt8.ofNat n).toNat = n := by
  rw [UInt8.toNat_ofNat']
  exact Nat.mod_eq_of_lt small

theorem scan_take {limit value size : Nat} {bytes : Bytes}
    (read : scan limit bytes = some (value, size)) :
    0 < size ∧ size ≤ bytes.length ∧ ∀ rest, scan limit (bytes.take size ++ rest) =
      some (value, size) := by
  induction limit generalizing bytes value size with
  | zero => cases read
  | succ limit ih =>
      cases bytes with
      | nil => cases read
      | cons byte tail =>
          rw [scan] at read
          split at read
          · next last =>
              cases read
              refine ⟨by decide, by simp, fun rest => ?_⟩
              simp [scan, last]
          · next more =>
              rcases Option.map_eq_some_iff.1 read with ⟨⟨rest_value, rest_size⟩, found, same⟩
              cases same
              rcases ih found with ⟨-, within, alike⟩
              refine ⟨by omega, by simpa using within, fun rest => ?_⟩
              rw [List.take_succ_cons, List.cons_append, scan, if_neg more, alike]
              rfl

theorem scan_encode {limit value : Nat} (fits : value < 128 ^ (limit + 1)) (rest : Bytes) :
    scan (limit + 1) (encode value ++ rest) = some (value, (encode value).length) := by
  induction limit generalizing value with
  | zero =>
      have small : value < 128 := by simpa using fits
      rw [encode, if_pos small]
      simp [scan, toNat_ofNat (show value < 256 by omega), small]
  | succ limit ih =>
      rw [encode]
      split
      · next small => simp [scan, toNat_ofNat (show value < 256 by omega), small]
      · next large =>
          have byte := toNat_ofNat (show value % 128 + 128 < 256 by omega)
          have quotient_fits : value / 128 < 128 ^ (limit + 1) := by
            rw [Nat.div_lt_iff_lt_mul (by decide), ← Nat.pow_succ]
            exact fits
          rw [List.cons_append, scan, byte, if_neg (by omega), ih quotient_fits]
          simp only [Option.map_some, List.length_cons, Option.some.injEq, Prod.mk.injEq, and_true]
          omega

theorem scan_size_le {limit value size : Nat} {bytes : Bytes}
    (read : scan limit bytes = some (value, size)) : size ≤ limit := by
  induction limit generalizing bytes value size with
  | zero => cases read
  | succ limit ih =>
      cases bytes with
      | nil => cases read
      | cons byte tail =>
          rw [scan] at read
          split at read
          · cases read
            omega
          · rcases Option.map_eq_some_iff.1 read with ⟨⟨rest_value, rest_size⟩, found, same⟩
            cases same
            have rest_le := ih found
            simp only
            omega

theorem encode_ne_nil (value : Nat) : encode value ≠ [] := by
  rw [encode]
  split
  · simp
  · simp

theorem varint_take {value size : Nat} {bytes : Bytes} (read : varint bytes = some (value, size)) :
    0 < size ∧ size ≤ bytes.length ∧ value < 2 ^ 64 ∧
      ∀ rest, varint (bytes.take size ++ rest) = some (value, size) := by
  rcases Option.map_eq_some_iff.1 read with ⟨⟨full, full_size⟩, scanned, same⟩
  cases same
  rcases scan_take scanned with ⟨positive, within, alike⟩
  refine ⟨positive, within, Nat.mod_lt _ (by decide), fun rest => ?_⟩
  rw [varint, alike]
  rfl

theorem varint_encode {value : Nat} (fits : value < 2 ^ 64) (rest : Bytes) :
    varint (encode value ++ rest) = some (value, (encode value).length) := by
  have fits_scan : value < 128 ^ (9 + 1) := Nat.lt_trans fits (by decide)
  rw [varint, scan_encode fits_scan, Option.map_some, Nat.mod_eq_of_lt fits]

theorem varint_size_le {value size : Nat} {bytes : Bytes}
    (read : varint bytes = some (value, size)) : size ≤ 10 := by
  rcases Option.map_eq_some_iff.1 read with ⟨⟨full, full_size⟩, scanned, same⟩
  cases same
  exact scan_size_le scanned

theorem length_encode {value : Nat} (fits : value < 2 ^ 64) :
    1 ≤ (encode value).length ∧ (encode value).length ≤ 10 := by
  constructor
  · exact List.length_pos_iff.2 (encode_ne_nil value)
  · exact varint_size_le (varint_encode fits [])

/-! ## Fields -/

/-- A field with its bytes, key and body. -/
structure Field where
  key : Nat
  /-- What a length-delimited field holds. -/
  payload : Option Bytes
  bytes : Bytes
deriving DecidableEq, Repr

namespace Field

/-- The number of the field. -/
def number (field : Field) : Nat :=
    field.key / 8

end Field

/-- The size and the payload of the body at the front of the bytes. -/
def body (wire : Nat) (bytes : Bytes) : Option (Nat × Option Bytes) :=
    match wire with
    | 0 => (varint bytes).map fun read => (read.2, none)
    | 1 => if 8 ≤ bytes.length then some (8, none) else none
    | 2 =>
        (varint bytes).bind fun read =>
          if read.2 + read.1 ≤ bytes.length then
            some (read.2 + read.1, some ((bytes.drop read.2).take read.1))
          else none
    | 5 => if 4 ≤ bytes.length then some (4, none) else none
    | _ => none

theorem body_varint (bytes : Bytes) :
    body 0 bytes = (varint bytes).map fun read => (read.2, none) :=
  rfl

theorem body_fixed64 (bytes : Bytes) :
    body 1 bytes = if 8 ≤ bytes.length then some (8, none) else none :=
  rfl

theorem body_len (bytes : Bytes) :
    body 2 bytes = (varint bytes).bind fun read =>
      if read.2 + read.1 ≤ bytes.length then
        some (read.2 + read.1, some ((bytes.drop read.2).take read.1))
      else none :=
  rfl

theorem body_fixed32 (bytes : Bytes) :
    body 5 bytes = if 4 ≤ bytes.length then some (4, none) else none :=
  rfl

/-- The field at the front of the bytes. -/
def readField (bytes : Bytes) : Option Field :=
    (varint bytes).bind fun key =>
      (body (key.1 % 8) (bytes.drop key.2)).map fun read =>
        ⟨key.1, read.2, bytes.take (key.2 + read.1)⟩

/-- The field is what is read wherever its bytes stand. -/
structure Field.Reads (field : Field) : Prop where
  nonempty : field.bytes ≠ []
  read : ∀ rest, readField (field.bytes ++ rest) = some field

theorem body_take {wire size : Nat} {bytes : Bytes} {payload : Option Bytes}
    (read : body wire bytes = some (size, payload)) :
    size ≤ bytes.length ∧ ∀ rest, body wire (bytes.take size ++ rest) = some (size, payload) := by
  unfold body at read
  split at read
  · rcases Option.map_eq_some_iff.1 read with ⟨⟨value, varint_size⟩, found, same⟩
    cases same
    rcases varint_take found with ⟨-, within, -, alike⟩
    exact ⟨within, fun rest => by simp [body, alike]⟩
  · rcases Option.ite_none_right_eq_some.1 read with ⟨within, same⟩
    cases same
    exact ⟨within, fun rest => by simp [body, within]⟩
  · rcases Option.bind_eq_some_iff.1 read with ⟨⟨length, length_size⟩, found, rest⟩
    rcases Option.ite_none_right_eq_some.1 rest with ⟨within, same⟩
    cases same
    rcases varint_take found with ⟨-, -, -, alike⟩
    refine ⟨within, fun rest => ?_⟩
    have front : bytes.take (length_size + length) ++ rest =
        bytes.take length_size ++ ((bytes.drop length_size).take length ++ rest) := by
      rw [← List.append_assoc, ← List.take_add]
    have front_length : (bytes.take length_size).length = length_size := by
      rw [List.length_take]
      omega
    have payload_length : ((bytes.drop length_size).take length).length = length := by
      rw [List.length_take, List.length_drop]
      omega
    have dropped : (bytes.take (length_size + length) ++ rest).drop length_size =
        (bytes.drop length_size).take length ++ rest := by
      rw [front, List.drop_append_of_le_length (by omega), List.drop_of_length_le (by omega),
        List.nil_append]
    have enough : length_size + length ≤ (bytes.take (length_size + length) ++ rest).length := by
      rw [List.length_append, List.length_take]
      omega
    simp only [body]
    rw [front, alike, ← front, Option.bind_some, if_pos enough, dropped,
      List.take_append_of_le_length (by omega), List.take_of_length_le (by omega)]
  · rcases Option.ite_none_right_eq_some.1 read with ⟨within, same⟩
    cases same
    exact ⟨within, fun rest => by simp [body, within]⟩
  · cases read

theorem payload_of_body {wire size : Nat} {bytes : Bytes} {payload : Option Bytes}
    (read : body wire bytes = some (size, payload)) (other : wire ≠ 2) : payload = none := by
  unfold body at read
  split at read
  · rcases Option.map_eq_some_iff.1 read with ⟨_, -, same⟩
    cases same
    rfl
  · cases (Option.ite_none_right_eq_some.1 read).2
    rfl
  · exact absurd rfl other
  · cases (Option.ite_none_right_eq_some.1 read).2
    rfl
  · cases read

theorem length_payload_of_body {wire size : Nat} {bytes payload : Bytes}
    (read : body wire bytes = some (size, some payload)) : payload.length ≤ size := by
  by_cases len : wire = 2
  · rw [len, body_len] at read
    rcases Option.bind_eq_some_iff.1 read with ⟨length, -, rest⟩
    rcases Option.ite_none_right_eq_some.1 rest with ⟨-, same⟩
    cases same
    rw [List.length_take]
    omega
  · cases payload_of_body read len

/-- A field that was read is at the front of the bytes. -/
theorem readField_take {field : Field} {bytes : Bytes} (read : readField bytes = some field) :
    field.Reads ∧ field.bytes <+: bytes ∧ field.key < 2 ^ 64 := by
  rcases Option.bind_eq_some_iff.1 read with ⟨⟨key, key_size⟩, key_read, rest⟩
  rcases Option.map_eq_some_iff.1 rest with ⟨⟨body_size, payload⟩, body_read, same⟩
  cases same
  rcases varint_take key_read with ⟨positive, key_within, fits, key_alike⟩
  rcases body_take body_read with ⟨body_within, body_alike⟩
  rw [List.length_drop] at body_within
  refine ⟨⟨?_, fun rest => ?_⟩, List.take_prefix _ _, fits⟩
  · intro empty
    have no_bytes := congrArg List.length empty
    rw [List.length_take, List.length_nil] at no_bytes
    omega
  · have front : bytes.take (key_size + body_size) ++ rest =
        bytes.take key_size ++ ((bytes.drop key_size).take body_size ++ rest) := by
      rw [← List.append_assoc, ← List.take_add]
    have front_length : (bytes.take key_size).length = key_size := by
      rw [List.length_take]
      omega
    have dropped : (bytes.take (key_size + body_size) ++ rest).drop key_size =
        (bytes.drop key_size).take body_size ++ rest := by
      rw [front, List.drop_append_of_le_length (by omega), List.drop_of_length_le (by omega),
        List.nil_append]
    have all_length : (bytes.take (key_size + body_size)).length = key_size + body_size := by
      rw [List.length_take]
      omega
    have key_alike' : varint (bytes.take (key_size + body_size) ++ rest) = some (key, key_size) := by
      rw [front, key_alike]
    simp only [readField, key_alike', Option.bind_some, dropped, body_alike, Option.map_some]
    rw [List.take_append_of_le_length (by omega), List.take_of_length_le (by omega)]

theorem Field.Reads.payload {field : Field} (reads : field.Reads) {payload : Bytes}
    (holds : field.payload = some payload) :
    field.key % 8 = 2 ∧ payload.length ≤ field.bytes.length := by
  have read := reads.read []
  rcases Option.bind_eq_some_iff.1 read with ⟨⟨key, key_size⟩, -, rest⟩
  rcases Option.map_eq_some_iff.1 rest with ⟨⟨body_size, found⟩, body_read, same⟩
  have same_key : key = field.key := congrArg Field.key same
  have same_payload : found = some payload := (congrArg Field.payload same).trans holds
  subst same_key same_payload
  have within := (body_take body_read).1
  rw [List.append_nil, List.length_drop] at within
  refine ⟨?_, ?_⟩
  · by_contra other
    cases payload_of_body body_read other
  · exact Nat.le_trans (length_payload_of_body body_read) (by omega)

/-- A length-delimited field with shortest key and length. -/
def lenField (key : Nat) (payload : Bytes) : Field where
  key := key
  payload := some payload
  bytes := encode key ++ encode payload.length ++ payload

/-- A varint field with shortest key and value. -/
def varintField (key value : Nat) : Field where
  key := key
  payload := none
  bytes := encode key ++ encode value

theorem lenField_reads {key : Nat} {payload : Bytes} (fits : key < 2 ^ 64) (wire : key % 8 = 2)
    (short : payload.length < 2 ^ 64) : (lenField key payload).Reads := by
  refine ⟨by simp [lenField, encode_ne_nil], fun rest => ?_⟩
  have key_read := varint_encode fits (encode payload.length ++ (payload ++ rest))
  have length_read := varint_encode short (payload ++ rest)
  simp only [readField, lenField, List.append_assoc, key_read, Option.bind_some, List.drop_left,
    wire, body, length_read]
  rw [if_pos (by simp)]
  have whole : encode key ++ (encode payload.length ++ (payload ++ rest)) =
      (encode key ++ encode payload.length ++ payload) ++ rest := by
    simp only [List.append_assoc]
  simp only [Option.map_some, Option.some.injEq, Field.mk.injEq, true_and, List.take_left]
  rw [whole, ← Nat.add_assoc, ← List.length_append, ← List.length_append, List.take_left]
  simp only [List.append_assoc]

theorem varintField_reads {key value : Nat} (fits : key < 2 ^ 64) (wire : key % 8 = 0)
    (value_fits : value < 2 ^ 64) : (varintField key value).Reads := by
  refine ⟨by simp [varintField, encode_ne_nil], fun rest => ?_⟩
  have key_read := varint_encode fits (encode value ++ rest)
  have value_read := varint_encode value_fits rest
  simp only [readField, varintField, List.append_assoc, key_read, Option.bind_some, List.drop_left,
    wire, body, value_read, Option.map_some]
  rw [← List.append_assoc, ← List.length_append, List.take_left]

/-! ## Messages -/

/-- The fields of a message, when it splits into fields. -/
def split (bytes : Bytes) : Option (List Field) :=
    if bytes = [] then some []
    else
      match _found : readField bytes with
      | none => none
      | some field => (split (bytes.drop field.bytes.length)).map fun rest => field :: rest
termination_by bytes.length
decreasing_by
  have read := readField_take _found
  have positive := List.length_pos_iff.2 read.1.nonempty
  have within := read.2.1.length_le
  rw [List.length_drop]
  omega

theorem split_nil : split [] = some [] := by
  rw [split, if_pos rfl]

theorem split_of_readField {bytes : Bytes} {field : Field} (read : readField bytes = some field) :
    split bytes = (split (bytes.drop field.bytes.length)).map fun rest => field :: rest := by
  have nonempty : bytes ≠ [] := by
    rintro rfl
    cases read
  rw [split, if_neg nonempty]
  split
  · next none_read =>
      rw [read] at none_read
      cases none_read
  · next found found_read =>
      rw [read] at found_read
      cases found_read
      rfl

theorem split_eq_none {bytes : Bytes} (nonempty : bytes ≠ []) (read : readField bytes = none) :
    split bytes = none := by
  rw [split, if_neg nonempty]
  split
  · rfl
  · next found found_read =>
      rw [read] at found_read
      cases found_read

/-- The fields make up the message, and each is what is read wherever its bytes stand. -/
theorem split_eq_some {bytes : Bytes} {fields : List Field} (splits : split bytes = some fields) :
    fields.flatMap Field.bytes = bytes ∧ ∀ field ∈ fields, field.Reads ∧ field.key < 2 ^ 64 := by
  fun_induction split bytes generalizing fields with
  | case1 =>
      cases splits
      simp
  | case2 => cases splits
  | case3 bytes nonempty field read ih =>
      rcases Option.map_eq_some_iff.1 splits with ⟨rest, rest_splits, same⟩
      cases same
      rcases readField_take read with ⟨reads, front, fits⟩
      rcases ih rest_splits with ⟨rest_bytes, rest_read⟩
      refine ⟨?_, List.forall_mem_cons.2 ⟨⟨reads, fits⟩, rest_read⟩⟩
      rw [List.flatMap_cons, rest_bytes, List.prefix_iff_eq_append.1 front]

theorem split_flatMap {fields : List Field} (reads : ∀ field ∈ fields, field.Reads) :
    split (fields.flatMap Field.bytes) = some fields := by
  induction fields with
  | nil => exact split_nil
  | cons field rest ih =>
      rw [List.forall_mem_cons] at reads
      rw [List.flatMap_cons, split_of_readField (reads.1.read _), List.drop_left, ih reads.2]
      rfl

/-! ## Paths -/

/-- The fields that hold the messages of the next level. -/
abbrev Level := Nat → Bool

/-- The message of the next level that the field holds. -/
def Field.submessage (level : Level) (field : Field) : Option Bytes :=
    if level field.number then field.payload else none

/-- The message splits into fields, and so do those on the path. -/
def Splits : List Level → Bytes → Prop
  | [], bytes => ∃ fields, split bytes = some fields
  | level :: path, bytes => ∃ fields, split bytes = some fields ∧
      ∀ field ∈ fields, ∀ payload, field.submessage level = some payload → Splits path payload

/-- Keys and lengths on the path are encoded as short as they can be. -/
def Shortest : List Level → Bytes → Prop
  | [], _ => True
  | level :: path, bytes => ∀ fields, split bytes = some fields →
      ∀ field ∈ fields, ∀ payload, field.submessage level = some payload →
        field = lenField field.key payload ∧ Shortest path payload

/-- The fields at the end of the path meet `condition`. -/
def AtEnd (condition : Field → Prop) : List Level → Bytes → Prop
  | [], bytes => ∀ fields, split bytes = some fields → ∀ field ∈ fields, condition field
  | level :: path, bytes => ∀ fields, split bytes = some fields →
      ∀ field ∈ fields, ∀ payload, field.submessage level = some payload →
        AtEnd condition path payload

/-- A message of one field splits on the path when what the field holds does. -/
theorem splits_lenField {level : Level} {path : List Level} {key : Nat} {payload : Bytes}
    (fits : key < 2 ^ 64) (wire : key % 8 = 2) (short : payload.length < 2 ^ 64)
    (below : Splits path payload) : Splits (level :: path) (lenField key payload).bytes := by
  have alone := split_flatMap (List.forall_mem_singleton.2 (lenField_reads fits wire short))
  rw [List.flatMap_singleton] at alone
  refine ⟨_, alone, ?_⟩
  intro field field_mem found holds
  rw [List.mem_singleton] at field_mem
  subst field_mem
  have same : some payload = some found := (Option.ite_none_right_eq_some.1 holds).2
  cases same
  exact below

end Protobuf
