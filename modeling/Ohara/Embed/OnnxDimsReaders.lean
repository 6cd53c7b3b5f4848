import Mathlib.Tactic.Convert
import Ohara.Embed.OnnxDims

/-!
# The readers of the rewriter

Each reader of `onnx_dims` at an offset agrees with the message splitter on the bytes from there:
it returns what the splitter reads, and it bails out where the splitter reads nothing. No reader
panics on a buffer, which is shorter than `2 ^ 63` bytes.
-/

namespace Ohara

namespace OnnxDims

open Protobuf

/-- The code returns what is specified, and bails out where nothing is. -/
def Agrees {α : Type} (result : Result α) : Option α → Prop
  | some a => result = .ok a
  | none => ∃ message, result = .error (.bail message)

theorem Agrees.bind {α β : Type} {result : Result α} {spec : Option α} {next : α → Result β}
    {specNext : α → Option β} (first : Agrees result spec)
    (rest : ∀ a, spec = some a → Agrees (next a) (specNext a)) :
    Agrees (result >>= next) (spec.bind specNext) := by
  cases spec with
  | none =>
      rcases first with ⟨message, bailed⟩
      rw [bailed]
      exact ⟨message, rfl⟩
  | some a =>
      have returned : result = .ok a := first
      rw [returned]
      exact rest a rfl

theorem Agrees.map {α β : Type} {result : Result α} {spec : Option α} (first : Agrees result spec)
    (f : α → β) : Agrees (result >>= fun a => pure (f a)) (spec.map f) := by
  rw [Option.map_eq_bind]
  exact first.bind fun a _ => rfl

/-! ## Bits -/

theorem and_7f (n : Nat) : n &&& 0x7f = n % 128 :=
  Nat.and_two_pow_sub_one_eq_mod n 7

theorem and_80 (byte : UInt8) : byte.toNat &&& 0x80 = 0 ↔ byte.toNat < 128 := by
  have all : ∀ n : Fin 256, n.val &&& 0x80 = 0 ↔ n.val < 128 := by decide +kernel
  exact all ⟨byte.toNat, byte.toNat_lt⟩

theorem or_80 {n : Nat} (small : n < 128) : n ||| 0x80 = n + 128 := by
  have disjoint : 128 + n = 128 ||| n :=
    Nat.two_pow_add_eq_or_of_lt (show n < 2 ^ 7 from small) 1
  rw [Nat.or_comm, ← disjoint, Nat.add_comm]

/-- Bits set above a value are added to it. -/
theorem or_shifted {value shift : Nat} (below : value < 2 ^ shift) (shift_lt : shift < 64)
    (bits : Nat) :
    value ||| (bits <<< shift) % 2 ^ 64 = (value + 2 ^ shift * bits) % 2 ^ 64 := by
  have width : 2 ^ shift * 2 ^ (64 - shift) = 2 ^ 64 := by
    rw [← Nat.pow_add, Nat.add_sub_cancel' (Nat.le_of_lt shift_lt)]
  have shifted : (bits <<< shift) % 2 ^ 64 = 2 ^ shift * (bits % 2 ^ (64 - shift)) := by
    rw [Nat.shiftLeft_eq, Nat.mul_comm, ← width, Nat.mul_mod_mul_left]
  have kept : bits % 2 ^ (64 - shift) + 1 ≤ 2 ^ (64 - shift) :=
    Nat.mod_lt _ (Nat.two_pow_pos _)
  have fits : value + 2 ^ shift * (bits % 2 ^ (64 - shift)) < 2 ^ 64 := by
    calc value + 2 ^ shift * (bits % 2 ^ (64 - shift))
        < 2 ^ shift + 2 ^ shift * (bits % 2 ^ (64 - shift)) := Nat.add_lt_add_right below _
      _ = 2 ^ shift * (bits % 2 ^ (64 - shift) + 1) := by rw [Nat.mul_succ, Nat.add_comm]
      _ ≤ 2 ^ shift * 2 ^ (64 - shift) := Nat.mul_le_mul_left _ kept
      _ = 2 ^ 64 := width
  have product : (2 ^ shift * bits) % 2 ^ 64 = 2 ^ shift * (bits % 2 ^ (64 - shift)) := by
    rw [← width, Nat.mul_mod_mul_left]
  rw [shifted, Nat.or_comm, ← Nat.two_pow_add_eq_or_of_lt below, Nat.add_comm,
    ← Nat.add_mod_mod, product, Nat.mod_eq_of_lt fits]

/-! ## Offsets -/

theorem drop_of_lt {buf : Bytes} {pos : Nat} (within : pos < buf.length) :
    ∃ byte, buf[pos]? = some byte ∧ buf.drop pos = byte :: buf.drop (pos + 1) :=
  ⟨buf[pos], List.getElem?_eq_getElem within, List.drop_eq_getElem_cons within⟩

theorem add_ok {a b : Nat} (fits : a + b < 2 ^ 64) : add a b = .ok (a + b) := by
  rw [add, checkedAdd, if_pos fits]

theorem checkedAdd_filter {buf : Bytes} (short : buf.length < 2 ^ 63) (a b : Nat) :
    ((checkedAdd a b).filter fun stop => decide (stop ≤ buf.length)) =
      if a + b ≤ buf.length then some (a + b) else none := by
  rw [checkedAdd]
  by_cases within : a + b ≤ buf.length
  · rw [if_pos within, if_pos (by omega)]
    simp [within]
  · rw [if_neg within]
    split
    · simpa using Nat.lt_of_not_le within
    · rfl

theorem slice_ok {buf : Bytes} {start stop : Nat} (ordered : start ≤ stop)
    (within : stop ≤ buf.length) :
    slice buf start stop = .ok ((buf.drop start).take (stop - start)) := by
  rw [slice, if_pos ⟨ordered, within⟩, List.drop_take]

/-! ## Readers -/

variable {buf : Bytes}

/-- After `k` rounds the value has `7 * k` bits and `10 - k` more bytes may follow. -/
theorem readVarintLoop_agrees {limit value shift : Nat} (pos : Nat)
    (room : min buf.length (pos + limit) < 2 ^ 64) (width : shift + 7 * limit = 70)
    (below : 0 < limit → value < 2 ^ shift) :
    Agrees (readVarintLoop buf (limit + 1) value shift pos)
      ((scan limit (buf.drop pos)).map fun read =>
        ((value + 2 ^ shift * read.1) % 2 ^ 64, pos + read.2)) := by
  induction limit generalizing value shift pos with
  | zero =>
      rw [scan, readVarintLoop]
      split
      · exact ⟨_, rfl⟩
      · rw [if_pos (by omega)]
        exact ⟨_, rfl⟩
  | succ limit ih =>
      rw [readVarintLoop]
      split
      · next beyond =>
          rw [List.drop_of_length_le beyond]
          exact ⟨_, rfl⟩
      · next within =>
          rcases drop_of_lt (Nat.lt_of_not_le within) with ⟨byte, at_pos, front⟩
          have value_below := below (Nat.succ_pos limit)
          have shift_lt : shift < 64 := by omega
          rw [if_neg (by omega), byteAt, at_pos, front, Fallible.ok_bind, add_ok (by omega),
            Fallible.ok_bind, shiftLeft, if_pos shift_lt, Fallible.ok_bind, and_7f, scan]
          by_cases last : byte.toNat < 128
          · rw [if_pos ((and_80 byte).2 last), if_pos last, Nat.mod_eq_of_lt last,
              or_shifted value_below shift_lt]
            rfl
          · rw [if_neg (fun none_set => last ((and_80 byte).1 none_set)), if_neg last,
              or_shifted value_below shift_lt]
            have seven_more : byte.toNat % 128 = byte.toNat - 128 := by
              have byte_lt := byte.toNat_lt
              omega
            have next_below : 0 < limit →
                (value + 2 ^ shift * (byte.toNat % 128)) % 2 ^ 64 < 2 ^ (shift + 7) := by
              intro _
              have seven_bits : byte.toNat % 128 ≤ 127 := by omega
              have bits := Nat.mul_le_mul_left (2 ^ shift) seven_bits
              rw [Nat.pow_add]
              have reduced := Nat.mod_le (value + 2 ^ shift * (byte.toNat % 128)) (2 ^ 64)
              omega
            have step := ih (pos + 1) (by omega) (show shift + 7 + 7 * limit = 70 by omega)
              next_below
            convert step using 1
            rw [Option.map_map]
            congr 1
            funext read
            simp only [Function.comp_apply, Prod.mk.injEq]
            refine ⟨?_, by omega⟩
            rw [Nat.mod_add_mod, ← seven_more, Nat.mul_add, Nat.pow_add, ← Nat.add_assoc,
              Nat.mul_assoc (2 ^ shift)]

theorem readVarint_agrees (pos : Nat) (room : min buf.length (pos + 10) < 2 ^ 64) :
    Agrees (readVarint buf pos)
      ((varint (buf.drop pos)).map fun read => (read.1, pos + read.2)) := by
  have loop := readVarintLoop_agrees pos room (show 0 + 7 * 10 = 70 by decide)
    (fun _ => show 0 < 2 ^ 0 by decide)
  rw [readVarint, varint, Option.map_map]
  convert loop using 2
  funext read
  simp

theorem readLenPayloadEnd_agrees (short : buf.length < 2 ^ 63) (pos field : Nat) :
    Agrees (readLenPayloadEnd buf pos field)
      ((varint (buf.drop pos)).bind fun read =>
        if read.2 + read.1 ≤ (buf.drop pos).length then
          some (pos + read.2 + read.1, pos + read.2)
        else none) := by
  have first := readVarint_agrees pos (show min buf.length (pos + 10) < 2 ^ 64 by omega)
  cases found : varint (buf.drop pos) with
  | none =>
      rw [found] at first
      rcases first with ⟨message, bailed⟩
      rw [readLenPayloadEnd, bailed]
      exact ⟨message, rfl⟩
  | some read =>
      rw [found] at first
      have returned : readVarint buf pos = .ok (read.1, pos + read.2) := first
      have within := (varint_take found).2.1
      rw [List.length_drop] at within
      have positive := (varint_take found).1
      rw [readLenPayloadEnd, returned, Fallible.ok_bind]
      dsimp only
      rw [checkedAdd_filter short, Option.bind_some, List.length_drop]
      by_cases fits : read.2 + read.1 ≤ buf.length - pos
      · rw [if_pos fits, if_pos (by omega)]
        rfl
      · rw [if_neg fits, if_neg (by omega)]
        exact ⟨_, rfl⟩

theorem advanceFixed_agrees (short : buf.length < 2 ^ 63) {pos : Nat} (within : pos ≤ buf.length)
    (width field : Nat) :
    Agrees (advanceFixed buf pos width field)
      (if width ≤ (buf.drop pos).length then some (pos + width) else none) := by
  rw [advanceFixed, checkedAdd_filter short, List.length_drop]
  by_cases fits : width ≤ buf.length - pos
  · rw [if_pos fits, if_pos (by omega)]
    rfl
  · rw [if_neg fits, if_neg (by omega)]
    exact ⟨_, rfl⟩

theorem key_split (key : Nat) : key >>> 3 = key / 8 ∧ key &&& 7 = key % 8 :=
  ⟨Nat.shiftRight_eq_div_pow key 3, Nat.and_two_pow_sub_one_eq_mod key 3⟩

theorem copyFieldBody_agrees (short : buf.length < 2 ^ 63) {pos : Nat} (within : pos ≤ buf.length)
    (key : Nat) :
    Agrees (copyFieldBody buf pos key)
      ((body (key % 8) (buf.drop pos)).map fun read => pos + read.1) := by
  simp only [copyFieldBody, key_split]
  generalize key % 8 = wire
  split
  · have room : min buf.length (pos + 10) < 2 ^ 64 := by omega
    have read := (readVarint_agrees pos room).map Prod.snd
    rw [body_varint]
    rw [Option.map_map] at read ⊢
    exact read
  · have fixed := advanceFixed_agrees short within 8 (key / 8)
    rw [body_fixed64]
    split at fixed
    · next fits => rwa [if_pos fits]
    · next beyond => rwa [if_neg beyond]
  · have fixed := advanceFixed_agrees short within 4 (key / 8)
    rw [body_fixed32]
    split at fixed
    · next fits => rwa [if_pos fits]
    · next beyond => rwa [if_neg beyond]
  · have read := (readLenPayloadEnd_agrees short pos (key / 8)).map Prod.fst
    rw [body_len]
    convert read using 1
    cases varint (buf.drop pos) with
    | none => rfl
    | some read =>
        rw [Option.bind_some, Option.bind_some]
        split
        · simp [Nat.add_assoc]
        · rfl
  · unfold body
    split
    all_goals first | contradiction | exact ⟨_, rfl⟩

theorem writeVarint_eq (out : Bytes) (v : Nat) : writeVarint out v = out ++ encode v := by
  induction v using Nat.strongRecOn generalizing out with
  | ind v ih =>
      have seven_more : v >>> 7 = v / 128 := Nat.shiftRight_eq_div_pow v 7
      rw [writeVarint, encode, and_7f, seven_more]
      by_cases last : v < 128
      · rw [if_pos (by omega), if_pos last, Nat.mod_eq_of_lt last]
      · rw [if_neg (by omega), if_neg last, ih (v / 128) (by omega),
          or_80 (Nat.mod_lt v (by decide)), List.append_assoc]
        rfl

/-! ## The codec -/

theorem readVarint_cases (usize : buf.length < 2 ^ 64) (pos : Nat) :
    (∃ value size, readVarint buf pos = .ok (value, pos + size) ∧ value < 2 ^ 64 ∧
      1 ≤ size ∧ size ≤ 10 ∧ pos + size ≤ buf.length) ∨
    ∃ message, readVarint buf pos = .error (.bail message) := by
  have agrees := readVarint_agrees pos (show min buf.length (pos + 10) < 2 ^ 64 by omega)
  cases read : varint (buf.drop pos) with
  | none =>
      right
      rw [read] at agrees
      exact agrees
  | some value_size =>
      rcases value_size with ⟨value, size⟩
      left
      rcases varint_take read with ⟨positive, within, fits, -⟩
      rw [List.length_drop] at within
      have result : readVarint buf pos = .ok (value, pos + size) := by
        rw [read] at agrees
        exact agrees
      exact ⟨value, size, result, fits, positive, varint_size_le read, by omega⟩

theorem readVarint_encode {value : Nat} (fits : value < 2 ^ 64) (rest : Bytes) :
    readVarint (encode value ++ rest) 0 = .ok (value, (encode value).length) := by
  have agrees := @readVarint_agrees (encode value ++ rest) 0 (by omega)
  rw [List.drop_zero, varint_encode fits] at agrees
  simpa [Agrees] using agrees

/-- What is written is read back, whatever follows; and no read adds or shifts out of range. -/
theorem readVarint_writeVarint (v : UInt64) (s buf : Bytes) (pos : Nat)
    (usize : buf.length < 2 ^ 64) :
    readVarint (writeVarint [] v.toNat ++ s) 0
        = .ok (v.toNat, (writeVarint [] v.toNat).length) ∧
      1 ≤ (writeVarint [] v.toNat).length ∧ (writeVarint [] v.toNat).length ≤ 10 ∧
      ((∃ value size, readVarint buf pos = .ok (value, pos + size) ∧ value < 2 ^ 64 ∧
          1 ≤ size ∧ size ≤ 10 ∧ pos + size ≤ buf.length) ∨
        ∃ message, readVarint buf pos = .error (.bail message)) := by
  rw [writeVarint_eq, List.nil_append]
  have length := length_encode v.toNat_lt
  exact ⟨readVarint_encode v.toNat_lt s, length.1, length.2, readVarint_cases usize pos⟩

theorem readVarint_writeVarint_max :
    [0xff, 0x01].length < 2 ^ 64 ∧
      readVarint (writeVarint [] (UInt64.ofNat (2 ^ 64 - 1)).toNat ++ [0x80]) 0
        = .ok ((UInt64.ofNat (2 ^ 64 - 1)).toNat,
            (writeVarint [] (UInt64.ofNat (2 ^ 64 - 1)).toNat).length) :=
  ⟨by decide,
    (readVarint_writeVarint (UInt64.ofNat (2 ^ 64 - 1)) [0x80] [0xff, 0x01] 0 (by decide)).1⟩

end OnnxDims

end Ohara
