import Mathlib.Algebra.Ring.Nat
import Mathlib.Data.List.Basic
import Mathlib.Tactic.Ring
import Ohara.Library.Fallible

/-!
# Length-prefixed frames

A frame is a word of bytes after its length, which is written big-endian in a fixed width. A reader
takes the length first, refuses it above a limit, and then takes that many bytes.
-/

namespace Frames

/-- Bytes on a stream. -/
abbrev Bytes := List UInt8

/-! ## Big-endian numbers -/

/-- A number in `width` bytes, the highest first. -/
def bigEndian : Nat → Nat → Bytes
  | 0, _ => []
  | width + 1, n => UInt8.ofNat (n / 256 ^ width) :: bigEndian width n

/-- The number that bytes spell. -/
def ofBigEndian : Bytes → Nat
  | [] => 0
  | byte :: rest => byte.toNat * 256 ^ rest.length + ofBigEndian rest

@[simp]
theorem length_bigEndian (width n : Nat) : (bigEndian width n).length = width := by
  induction width with
  | zero => rfl
  | succ width ih => simp [bigEndian, ih]

theorem ofBigEndian_lt (bytes : Bytes) : ofBigEndian bytes < 256 ^ bytes.length := by
  induction bytes with
  | nil => simp [ofBigEndian]
  | cons byte rest ih =>
      have digit : byte.toNat + 1 ≤ 256 := byte.toNat_lt
      have block := Nat.mul_le_mul_right (256 ^ rest.length) digit
      rw [ofBigEndian, List.length_cons, Nat.pow_succ']
      rw [Nat.succ_mul] at block
      omega

/-- The low digits do not see what is above them. -/
theorem bigEndian_mod (width n : Nat) : bigEndian width (n % 256 ^ width) = bigEndian width n := by
  induction width generalizing n with
  | zero => rfl
  | succ width ih =>
      have digit : n % 256 ^ (width + 1) / 256 ^ width = n / 256 ^ width % 256 := by
        rw [Nat.pow_succ, Nat.mod_mul_right_div_self]
      have low : n % 256 ^ (width + 1) % 256 ^ width = n % 256 ^ width :=
        Nat.mod_mod_of_dvd n (Nat.pow_dvd_pow 256 (Nat.le_succ width))
      rw [bigEndian, bigEndian, digit, ← ih, low, ih]
      congr 1
      exact UInt8.toNat_inj.1 (by simp)

theorem ofBigEndian_bigEndian {width n : Nat} (fits : n < 256 ^ width) :
    ofBigEndian (bigEndian width n) = n := by
  induction width generalizing n with
  | zero =>
      have zero : n = 0 := by simpa using fits
      simp [bigEndian, ofBigEndian, zero]
  | succ width ih =>
      have positive : 0 < 256 ^ width := Nat.pow_pos (by omega)
      have digit : n / 256 ^ width < 256 := by
        apply (Nat.div_lt_iff_lt_mul positive).2
        rwa [← Nat.pow_succ']
      have low := ih (Nat.mod_lt n positive)
      rw [bigEndian_mod] at low
      have split := Nat.div_add_mod' n (256 ^ width)
      simp only [bigEndian, ofBigEndian, length_bigEndian, low, UInt8.toNat_ofNat']
      rw [Nat.mod_eq_of_lt digit]
      exact split

theorem bigEndian_ofBigEndian (bytes : Bytes) :
    bigEndian bytes.length (ofBigEndian bytes) = bytes := by
  induction bytes with
  | nil => rfl
  | cons byte rest ih =>
      have positive : 0 < 256 ^ rest.length := Nat.pow_pos (by omega)
      have below := ofBigEndian_lt rest
      have digit : (byte.toNat * 256 ^ rest.length + ofBigEndian rest) / 256 ^ rest.length =
          byte.toNat := by
        rw [Nat.add_comm, Nat.add_mul_div_right _ _ positive, Nat.div_eq_of_lt below, Nat.zero_add]
      have low : (byte.toNat * 256 ^ rest.length + ofBigEndian rest) % 256 ^ rest.length =
          ofBigEndian rest := by
        rw [Nat.add_comm, Nat.add_mul_mod_self_right, Nat.mod_eq_of_lt below]
      rw [List.length_cons, bigEndian, ofBigEndian, digit, ← bigEndian_mod, low, ih]
      congr 1
      exact UInt8.toNat_inj.1 (by simp)

/-! ## Frames -/

/-- Why a stream does not start with a frame. -/
inductive ReadError where
  | length
  | tooLarge (declared : Nat)
  | body
deriving DecidableEq, Repr

/-- A payload behind its length. -/
def frame (width : Nat) (payload : Bytes) : Bytes :=
    bigEndian width payload.length ++ payload

/-- Read a frame from a stream that has ended. -/
def read (width limit : Nat) (stream : Bytes) : Except ReadError (Bytes × Bytes) :=
    if stream.length < width then .error .length
    else
      let declared := ofBigEndian (stream.take width)
      if limit < declared then .error (.tooLarge declared)
      else if (stream.drop width).length < declared then .error .body
      else .ok ((stream.drop width).take declared, (stream.drop width).drop declared)

/-- How many bytes the reader asks for next, having taken `got`: the rest of the length, then the
rest of the body. -/
def demand (width : Nat) (got : Bytes) : Nat :=
    if got.length < width then width - got.length
    else ofBigEndian (got.take width) - (got.length - width)

variable {width limit : Nat}

@[simp]
theorem length_frame (payload : Bytes) :
    (frame width payload).length = width + payload.length := by
  simp [frame]

theorem take_frame (payload rest : Bytes) :
    (frame width payload ++ rest).take width = bigEndian width payload.length := by
  rw [frame, List.append_assoc]
  exact List.take_left' (length_bigEndian width payload.length)

theorem drop_frame (payload rest : Bytes) :
    (frame width payload ++ rest).drop width = payload ++ rest := by
  rw [frame, List.append_assoc]
  exact List.drop_left' (length_bigEndian width payload.length)

/-- What follows a frame does not matter to its reader. -/
theorem read_frame {payload : Bytes} (fits : payload.length < 256 ^ width)
    (allowed : payload.length ≤ limit) (rest : Bytes) :
    read width limit (frame width payload ++ rest) = .ok (payload, rest) := by
  have long : ¬ (frame width payload ++ rest).length < width := by
    simp only [List.length_append, length_frame]
    omega
  rw [read, if_neg long, take_frame, drop_frame, ofBigEndian_bigEndian fits]
  simp [allowed]

theorem frame_of_read {stream payload rest : Bytes}
    (ran : read width limit stream = .ok (payload, rest)) :
    payload.length ≤ limit ∧ stream = frame width payload ++ rest := by
  unfold read at ran
  split at ran
  · cases ran
  rename_i long
  dsimp only at ran
  split at ran
  · cases ran
  rename_i allowed
  split at ran
  · cases ran
  rename_i whole
  cases ran
  have declared : ((stream.drop width).take (ofBigEndian (stream.take width))).length =
      ofBigEndian (stream.take width) := List.length_take_of_le (by omega)
  have prefix_length : (stream.take width).length = width := List.length_take_of_le (by omega)
  have same := bigEndian_ofBigEndian (stream.take width)
  rw [prefix_length] at same
  refine ⟨by omega, ?_⟩
  rw [frame, declared, same, List.append_assoc, List.take_append_drop, List.take_append_drop]

/-- The reader accepts the frames of the payloads within the limit, and nothing else. -/
theorem read_eq_ok_iff (wide : limit < 256 ^ width) {stream payload rest : Bytes} :
    read width limit stream = .ok (payload, rest) ↔
      payload.length ≤ limit ∧ stream = frame width payload ++ rest := by
  constructor
  · exact frame_of_read
  · rintro ⟨allowed, rfl⟩
    exact read_frame (by omega) allowed rest

/-- A length over the limit is refused before any of the body is read. -/
theorem read_bigEndian {declared : Nat} (fits : declared < 256 ^ width) (large : limit < declared)
    (rest : Bytes) :
    read width limit (bigEndian width declared ++ rest) = .error (.tooLarge declared) := by
  have long : ¬ (bigEndian width declared ++ rest).length < width := by
    simp only [List.length_append, length_bigEndian]
    omega
  have declares : (bigEndian width declared ++ rest).take width = bigEndian width declared :=
    List.take_left' (length_bigEndian width declared)
  rw [read, if_neg long, declares, ofBigEndian_bigEndian fits]
  simp only [large, if_true]

/-- A frame that was cut off is not read: first the length is missing, then the body. -/
theorem read_take {payload : Bytes} (fits : payload.length < 256 ^ width)
    (allowed : payload.length ≤ limit) {n : Nat} (cut : n < (frame width payload).length) :
    read width limit ((frame width payload).take n) =
      .error (if n < width then .length else .body) := by
  have taken : ((frame width payload).take n).length = n := List.length_take_of_le (by omega)
  rw [read, taken]
  by_cases short : n < width
  · rw [if_pos short, if_pos short]
  · have declared : ((frame width payload).take n).take width =
        bigEndian width payload.length := by
      rw [List.take_take, Nat.min_eq_left (by omega)]
      simpa using take_frame payload ([] : Bytes)
    have left : (((frame width payload).take n).drop width).length < payload.length := by
      rw [List.length_drop, taken]
      rw [length_frame] at cut
      omega
    rw [if_neg short, if_neg short, declared, ofBigEndian_bigEndian fits]
    simp only [Nat.not_lt.2 allowed, if_false, left, if_true]

/-- Read several frames one after the other. -/
def readMany (width limit : Nat) : Nat → Bytes → Except ReadError (List Bytes × Bytes)
  | 0, stream => .ok ([], stream)
  | n + 1, stream => do
      let (payload, rest) ← read width limit stream
      let (payloads, left) ← readMany width limit n rest
      return (payload :: payloads, left)

theorem readMany_eq_ok_iff (wide : limit < 256 ^ width) {n : Nat} {stream rest : Bytes}
    {payloads : List Bytes} :
    readMany width limit n stream = .ok (payloads, rest) ↔
      payloads.length = n ∧ (∀ payload ∈ payloads, payload.length ≤ limit) ∧
        stream = (payloads.map (frame width)).flatten ++ rest := by
  induction n generalizing stream payloads with
  | zero =>
      simp only [readMany, Except.ok.injEq, Prod.mk.injEq, List.length_eq_zero_iff]
      constructor
      · rintro ⟨rfl, rfl⟩
        simp
      · rintro ⟨rfl, -, rfl⟩
        simp
  | succ n ih =>
      simp only [readMany, Fallible.bind_eq_ok, Fallible.pure_eq_ok, Except.ok.injEq,
        Prod.mk.injEq, Prod.exists]
      constructor
      · rintro ⟨payload, middle, first, more, left, others, rfl, rfl⟩
        rcases frame_of_read first with ⟨allowed, rfl⟩
        rcases ih.1 others with ⟨count, all_allowed, rfl⟩
        refine ⟨by simp [count], ?_, by simp⟩
        simpa [allowed] using all_allowed
      · rintro ⟨count, all_allowed, rfl⟩
        cases payloads with
        | nil => simp at count
        | cons payload more =>
            have allowed := all_allowed payload (by simp)
            refine ⟨payload, (more.map (frame width)).flatten ++ rest, ?_, more, rest, ?_, rfl, rfl⟩
            · rw [List.map_cons, List.flatten_cons, List.append_assoc]
              exact read_frame (by omega) allowed _
            · refine ih.2 ⟨by simpa using count, ?_, rfl⟩
              intro other other_mem
              exact all_allowed other (by simp [other_mem])

/-! ## A frame that arrives in pieces -/

section Pieces

variable {payload got rest : Bytes} (fits : payload.length < 256 ^ width)
  (arrived : got ++ rest = frame width payload)

include fits arrived

/-- A reader that has taken a part of a frame has the payload once nothing is left. -/
theorem read_part (allowed : payload.length ≤ limit) :
    read width limit got =
      if rest = [] then .ok (payload, [])
      else .error (if got.length < width then .length else .body) := by
  split
  · rename_i whole
    have read_whole := read_frame fits allowed []
    rw [List.append_nil, ← arrived, whole, List.append_nil] at read_whole
    exact read_whole
  · rename_i more
    have cut : got.length < (frame width payload).length := by
      have positive := List.length_pos_of_ne_nil more
      rw [← arrived, List.length_append]
      omega
    have part := read_take fits allowed cut
    rw [← arrived, List.take_left'] at part
    · exact part
    · rfl

/-- It asks for no more than is left of the frame, and for something as long as that is anything. -/
theorem demand_bounds : demand width got ≤ rest.length ∧ (rest ≠ [] → 0 < demand width got) := by
  have total := congrArg List.length arrived
  rw [List.length_append, length_frame] at total
  rw [demand, ← List.length_pos_iff]
  split
  · omega
  · rename_i long
    have declared : got.take width = bigEndian width payload.length := by
      have whole := @take_frame width payload []
      rw [List.append_nil, ← arrived, List.take_append_of_le_length (by omega)] at whole
      exact whole
    rw [declared, ofBigEndian_bigEndian fits]
    omega

end Pieces

end Frames
