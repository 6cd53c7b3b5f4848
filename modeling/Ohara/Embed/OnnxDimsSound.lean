import Ohara.Embed.OnnxDimsReaders

/-!
# Exactly the named dimensions are fixed

The rewriter returns a model exactly where the given one splits into fields along the path to the
dimensions of the graph's inputs and outputs. What it returns splits into the same fields on every
level, but for the listed dimensions.
-/

namespace Ohara

namespace OnnxDims

open Protobuf

/-- The path Model.graph(7) → input(11)/output(12) → ValueInfoProto.type(2) →
TypeProto.tensor_type(1) → shape(2) → dim(1). -/
def dimPath : List Level :=
    [fun field => field == 7, fun field => field == 11 || field == 12, fun field => field == 2,
      fun field => field == 1, fun field => field == 2, fun field => field == 1]

/-- The text of a `dim_param`. -/
def dimParam (field : Field) : Option Bytes :=
    field.submessage fun number => number == 2

/-- The first of the listed dimensions with this name. -/
def listed (dims : List (String × UInt64)) (text : Bytes) : Option (String × UInt64) :=
    dims.find? fun dim => decide (asBytes dim.1 = text)

/-- A `dim_value` in place of a listed `dim_param`. -/
def fixDimension (dims : List (String × UInt64)) (field : Field) : Field :=
    match (dimParam field).bind (listed dims) with
    | some dim => varintField 8 dim.2.toNat
    | none => field

/-- The same fields in the same order on every level of the path, those off the path with the same
bytes, and listed dimensions fixed. -/
def Fixed (dims : List (String × UInt64)) : List Level → Bytes → Bytes → Prop
  | [], before, after => ∃ fields, split before = some fields ∧
      split after = some (fields.map (fixDimension dims))
  | level :: path, before, after => ∃ fields fields', split before = some fields ∧
      split after = some fields' ∧
      List.Forall₂ (fun field field' =>
        match field.submessage level with
        | some payload => ∃ payload', field' = lenField field.key payload' ∧
            Fixed dims path payload payload'
        | none => field' = field) fields fields'

/-- The field is not a `dim_param` of a listed name. -/
def Unlisted (dims : List (String × UInt64)) (field : Field) : Prop :=
    ∀ text, dimParam field = some text → ∀ dim ∈ dims, asBytes dim.1 ≠ text

/-! ## Loops -/

variable {buf : Bytes}

/-- What is written for a field, or the bail-out. -/
abbrev Emit := Field → Result Bytes

/-- A round writes what is emitted for the field at its offset. -/
def Writes (buf : Bytes) (emit : Emit) (round : Bytes → Nat → Result (Bytes × Nat)) : Prop :=
    ∀ out pos, pos < buf.length →
      match readField (buf.drop pos) with
      | some field =>
          round out pos = emit field >>= fun bytes =>
            pure (out ++ bytes, pos + field.bytes.length)
      | none => ∃ message, round out pos = .error (.bail message)

/-- A computation of the code that returns or bails out. -/
def Ends {α : Type} (result : Result α) : Prop :=
    (∃ a, result = .ok a) ∨ ∃ message, result = .error (.bail message)

theorem split_drop {pos : Nat} (within : pos < buf.length) :
    split (buf.drop pos) = (readField (buf.drop pos)).bind fun field =>
      (split (buf.drop (pos + field.bytes.length))).map fun rest => field :: rest := by
  cases read : readField (buf.drop pos) with
  | none =>
      have nonempty : buf.drop pos ≠ [] := by simpa using within
      exact split_eq_none nonempty read
  | some field => rw [split_of_readField read, List.drop_drop, Option.bind_some]

theorem length_of_readField {pos : Nat} {field : Field}
    (read : readField (buf.drop pos) = some field) :
    0 < field.bytes.length ∧ pos + field.bytes.length ≤ buf.length := by
  rcases readField_take read with ⟨reads, front, -⟩
  have within := front.length_le
  have positive := List.length_pos_iff.2 reads.nonempty
  rw [List.length_drop] at within
  omega

theorem split_drop_length {pos : Nat} (beyond : ¬pos < buf.length) :
    split (buf.drop pos) = some [] := by
  rw [List.drop_of_length_le (by omega), split_nil]

/-- The loop writes what is emitted for each field. -/
theorem whileWithin_ok {emit : Emit} {round : Bytes → Nat → Result (Bytes × Nat)}
    (writes : Writes buf emit round) {rounds pos : Nat} (enough : buf.length - pos ≤ rounds)
    {fields : List Field} {parts : List Bytes} (splits : split (buf.drop pos) = some fields)
    (emitted : List.Forall₂ (fun field part => emit field = .ok part) fields parts)
    (out : Bytes) :
    whileWithin buf.length round rounds out pos = .ok (out ++ parts.flatten) := by
  induction rounds generalizing pos fields parts out with
  | zero =>
      have beyond : ¬pos < buf.length := by omega
      rw [split_drop_length beyond] at splits
      cases splits
      cases emitted
      rw [whileWithin, if_neg beyond, List.flatten_nil, List.append_nil]
  | succ rounds ih =>
      rw [whileWithin]
      by_cases within : pos < buf.length
      · rw [if_pos within]
        rw [split_drop within] at splits
        rcases Option.bind_eq_some_iff.1 splits with ⟨field, read, rest_splits⟩
        rcases Option.map_eq_some_iff.1 rest_splits with ⟨rest, rest_split, same⟩
        cases same
        cases emitted with
        | @cons _ part _ rest_parts emits rest_emitted =>
            have round_eq := writes out pos within
            rw [read] at round_eq
            have longer := length_of_readField read
            dsimp only at round_eq
            rw [round_eq, emits, Fallible.ok_bind, Fallible.pure_eq_ok, Fallible.ok_bind]
            dsimp only
            rw [ih (by omega) rest_split rest_emitted, List.flatten_cons, List.append_assoc]
      · rw [if_neg within]
        rw [split_drop_length within] at splits
        cases splits
        cases emitted
        rw [List.flatten_nil, List.append_nil]

/-- The loop ends, and where it returns the bytes split into fields that were emitted. -/
theorem whileWithin_ends {emit : Emit} {round : Bytes → Nat → Result (Bytes × Nat)}
    (writes : Writes buf emit round)
    (ends : ∀ field pos, readField (buf.drop pos) = some field → Ends (emit field))
    {rounds pos : Nat} (enough : buf.length - pos ≤ rounds) (out : Bytes) :
    (∃ fields parts, split (buf.drop pos) = some fields ∧
        List.Forall₂ (fun field part => emit field = .ok part) fields parts) ∨
      ∃ message, whileWithin buf.length round rounds out pos = .error (.bail message) := by
  induction rounds generalizing pos out with
  | zero => exact Or.inl ⟨[], [], split_drop_length (by omega), .nil⟩
  | succ rounds ih =>
      rw [whileWithin]
      by_cases within : pos < buf.length
      · rw [if_pos within]
        have round_eq := writes out pos within
        cases read : readField (buf.drop pos) with
        | none =>
            rw [read] at round_eq
            rcases round_eq with ⟨message, bailed⟩
            rw [bailed]
            exact Or.inr ⟨message, rfl⟩
        | some field =>
            rw [read] at round_eq
            dsimp only at round_eq
            rcases ends field pos read with ⟨part, emits⟩ | ⟨message, bailed⟩
            · have longer := length_of_readField read
              have fewer : buf.length - (pos + field.bytes.length) ≤ rounds := by omega
              rw [round_eq, emits, Fallible.ok_bind, Fallible.pure_eq_ok, Fallible.ok_bind]
              rcases ih fewer (out ++ part) with
                ⟨fields, parts, rest_split, rest_emitted⟩ | bailed
              · refine Or.inl ⟨field :: fields, part :: parts, ?_, .cons emits rest_emitted⟩
                rw [split_drop within, read, Option.bind_some, rest_split]
                rfl
              · exact Or.inr bailed
            · rw [round_eq, bailed]
              exact Or.inr ⟨message, rfl⟩
      · exact Or.inl ⟨[], [], split_drop_length within, .nil⟩

/-! ## Rounds -/

section Rounds

variable {pos key size : Nat}

theorem readField_of_key (key_read : varint (buf.drop pos) = some (key, size)) :
    readField (buf.drop pos) = (body (key % 8) (buf.drop (pos + size))).map fun read =>
      ⟨key, read.2, (buf.drop pos).take (size + read.1)⟩ := by
  rw [readField, key_read, Option.bind_some, List.drop_drop]

theorem slice_field {field : Field} (read : readField (buf.drop pos) = some field) :
    slice buf pos (pos + field.bytes.length) = .ok field.bytes := by
  have longer := length_of_readField read
  rw [slice_ok (by omega) longer.2, Nat.add_sub_cancel_left,
    List.prefix_iff_eq_take.1 (readField_take read).2.1]
  simp

theorem bytes_length (key_read : varint (buf.drop pos) = some (key, size)) {body_size : Nat}
    (within : body_size ≤ (buf.drop (pos + size)).length) :
    ((buf.drop pos).take (size + body_size)).length = size + body_size := by
  have key_within := (varint_take key_read).2.1
  rw [List.length_drop] at key_within within
  rw [List.length_take, List.length_drop]
  omega

theorem readKey_cases (short : buf.length < 2 ^ 63) (pos : Nat) :
    (readField (buf.drop pos) = none ∧
        ∃ message, readVarint buf pos = .error (.bail message)) ∨
      ∃ key size, varint (buf.drop pos) = some (key, size) ∧
        readVarint buf pos = .ok (key, pos + size) := by
  have agrees := readVarint_agrees pos (show min buf.length (pos + 10) < 2 ^ 64 by omega)
  cases key_read : varint (buf.drop pos) with
  | none =>
      rw [key_read] at agrees
      refine Or.inl ⟨?_, agrees⟩
      rw [readField, key_read, Option.bind_none]
  | some read =>
      rw [key_read] at agrees
      exact Or.inr ⟨read.1, read.2, rfl, agrees⟩

theorem copyFieldBody_cases (short : buf.length < 2 ^ 63)
    (key_read : varint (buf.drop pos) = some (key, size)) :
    (readField (buf.drop pos) = none ∧
        ∃ message, copyFieldBody buf (pos + size) key = .error (.bail message)) ∨
      ∃ field, readField (buf.drop pos) = some field ∧ field.key = key ∧
        (key % 8 ≠ 2 → field.payload = none) ∧
        copyFieldBody buf (pos + size) key = .ok (pos + field.bytes.length) := by
  have key_within := (varint_take key_read).2.1
  have positive := (varint_take key_read).1
  rw [List.length_drop] at key_within
  have agrees := copyFieldBody_agrees short (show pos + size ≤ buf.length by omega) key
  rw [readField_of_key key_read]
  cases found : body (key % 8) (buf.drop (pos + size)) with
  | none =>
      rw [found] at agrees
      exact Or.inl ⟨rfl, agrees⟩
  | some read =>
      rw [found] at agrees
      have returned : copyFieldBody buf (pos + size) key = .ok (pos + size + read.1) := agrees
      refine Or.inr ⟨_, rfl, rfl, ?_, ?_⟩
      · exact payload_of_body found
      · rw [returned, bytes_length key_read (body_take found).1, Nat.add_assoc]

theorem readLenPayloadEnd_cases (short : buf.length < 2 ^ 63)
    (key_read : varint (buf.drop pos) = some (key, size)) (wire : key % 8 = 2) (number : Nat) :
    (readField (buf.drop pos) = none ∧
        ∃ message, readLenPayloadEnd buf (pos + size) number = .error (.bail message)) ∨
      ∃ field payload start, readField (buf.drop pos) = some field ∧ field.key = key ∧
        field.payload = some payload ∧
        readLenPayloadEnd buf (pos + size) number = .ok (pos + field.bytes.length, start) ∧
        slice buf start (pos + field.bytes.length) = .ok payload := by
  have agrees := readLenPayloadEnd_agrees short (pos + size) number
  rw [readField_of_key key_read, wire, body_len]
  cases found : varint (buf.drop (pos + size)) with
  | none =>
      rw [found] at agrees
      exact Or.inl ⟨rfl, agrees⟩
  | some read =>
      rw [found, Option.bind_some] at agrees
      rw [Option.bind_some]
      by_cases within : read.2 + read.1 ≤ (buf.drop (pos + size)).length
      · rw [if_pos within] at agrees ⊢
        have returned : readLenPayloadEnd buf (pos + size) number =
            .ok (pos + size + read.2 + read.1, pos + size + read.2) := agrees
        have longer := bytes_length key_read within
        rw [List.length_drop] at within
        have read_within := (varint_take found).2.1
        have read_positive := (varint_take found).1
        rw [List.length_drop] at read_within
        refine Or.inr ⟨_, _, pos + size + read.2, rfl, rfl, rfl, ?_, ?_⟩
        · rw [returned, longer]
          simp [Nat.add_assoc]
        · rw [longer, slice_ok (by omega) (by omega), List.drop_drop]
          congr 2
          omega
      · rw [if_neg within] at agrees ⊢
        exact Or.inl ⟨rfl, agrees⟩

end Rounds

/-- What `rewrite_message` writes for a field. -/
def messageEmit (level : Level) (next : Bytes → Result Bytes) : Emit :=
    fun field =>
      match field.submessage level with
      | some payload => next payload >>= fun new =>
          pure (encode field.key ++ encode (new.length % 2 ^ 64) ++ new)
      | none => .ok field.bytes

theorem rewriteMessageField_writes (short : buf.length < 2 ^ 63) (level : Level)
    (next : Bytes → Result Bytes) :
    Writes buf (messageEmit level next) (rewriteMessageField buf (onField level next)) := by
  intro out pos within
  rw [rewriteMessageField]
  rcases readKey_cases short pos with
    ⟨none_read, message, bailed⟩ | ⟨key, size, key_read, returned⟩
  · rw [none_read, bailed]
    exact ⟨message, rfl⟩
  · rw [returned, Fallible.ok_bind]
    dsimp only
    rw [(key_split key).1, (key_split key).2]
    by_cases wire : key % 8 = 2
    · rw [if_pos wire]
      rcases readLenPayloadEnd_cases short key_read wire (key / 8) with
        ⟨none_read, message, bailed⟩ |
        ⟨field, payload, start, field_read, same_key, holds, stop, sliced⟩
      · rw [none_read, bailed]
        exact ⟨message, rfl⟩
      · rw [field_read, stop, Fallible.ok_bind]
        dsimp only
        rw [sliced, Fallible.ok_bind]
        have number : field.number = key / 8 := by rw [Field.number, same_key]
        simp only [messageEmit, Field.submessage, onField, number, holds]
        cases level (key / 8) with
        | true =>
            rw [if_pos rfl, if_pos rfl]
            dsimp only
            cases next payload with
            | error fault => rfl
            | ok new =>
                rw [Fallible.ok_bind, Fallible.ok_bind, writeVarint_eq, writeVarint_eq, same_key]
                simp [List.append_assoc]
        | false =>
            rw [if_neg (by simp), if_neg (by simp)]
            dsimp only
            rw [slice_field field_read]
    · rw [if_neg wire]
      rcases copyFieldBody_cases short key_read with ⟨none_read, message, bailed⟩ |
        ⟨field, field_read, same_key, holds, stop⟩
      · rw [none_read, bailed]
        exact ⟨message, rfl⟩
      · rw [field_read, stop, Fallible.ok_bind, slice_field field_read]
        simp only [messageEmit, Field.submessage, holds wire, ite_self]

theorem rewriteDimensionField_writes (short : buf.length < 2 ^ 63)
    (dims : List (String × UInt64)) :
    Writes buf (fun field => .ok (fixDimension dims field).bytes)
      (rewriteDimensionField buf dims) := by
  intro out pos within
  rw [rewriteDimensionField]
  rcases readKey_cases short pos with
    ⟨none_read, message, bailed⟩ | ⟨key, size, key_read, returned⟩
  · rw [none_read, bailed]
    exact ⟨message, rfl⟩
  · rw [returned, Fallible.ok_bind]
    dsimp only
    rw [(key_split key).1, (key_split key).2]
    by_cases param : key / 8 = 2 ∧ key % 8 = 2
    · rw [if_pos param]
      rcases readLenPayloadEnd_cases short key_read param.2 (key / 8) with
        ⟨none_read, message, bailed⟩ |
        ⟨field, payload, start, field_read, same_key, holds, stop, sliced⟩
      · rw [none_read, bailed]
        exact ⟨message, rfl⟩
      · rw [field_read, stop, Fallible.ok_bind]
        dsimp only
        rw [sliced, Fallible.ok_bind]
        have text : dimParam field = some payload := by
          rw [dimParam, Field.submessage, Field.number, same_key, param.1, holds]
          rfl
        simp only [fixDimension, text, Option.bind_some, listed]
        cases dims.find? fun dim => decide (asBytes dim.1 = payload) with
        | some dim =>
            dsimp only
            rw [writeVarint_eq, writeVarint_eq]
            simp [varintField, List.append_assoc]
        | none =>
            dsimp only
            rw [slice_field field_read]
    · rw [if_neg param]
      rcases copyFieldBody_cases short key_read with ⟨none_read, message, bailed⟩ |
        ⟨field, field_read, same_key, holds, stop⟩
      · rw [none_read, bailed]
        exact ⟨message, rfl⟩
      · rw [field_read, stop, Fallible.ok_bind, slice_field field_read]
        have no_text : dimParam field = none := by
          rw [dimParam, Field.submessage, Field.number, same_key]
          by_cases two : key / 8 = 2
          · rw [holds fun wire => param ⟨two, wire⟩, ite_self]
          · rw [if_neg (by simpa using two)]
        simp only [fixDimension, no_text]
        rfl

/-! ## Levels -/

/-- The message splits into fields, and these are written as the parts. -/
def Emitted (buf : Bytes) (emit : Emit) (fields : List Field) (parts : List Bytes) : Prop :=
    split buf = some fields ∧ List.Forall₂ (fun field part => emit field = .ok part) fields parts

/-- The loop over a message returns its parts, or bails out where there are none. -/
theorem loop_cases {emit : Emit} {round : Bytes → Nat → Result (Bytes × Nat)}
    (writes : Writes buf emit round)
    (ends : ∀ field pos, readField (buf.drop pos) = some field → Ends (emit field)) :
    (∃ fields parts, Emitted buf emit fields parts ∧
        whileWithin buf.length round buf.length [] 0 = .ok parts.flatten) ∨
      (∃ message, whileWithin buf.length round buf.length [] 0 = .error (.bail message)) ∧
        ∀ fields parts, ¬Emitted buf emit fields parts := by
  have returns : ∀ fields parts, Emitted buf emit fields parts →
      whileWithin buf.length round buf.length [] 0 = .ok parts.flatten := by
    rintro fields parts ⟨splits, emitted⟩
    have from_start : split (buf.drop 0) = some fields := splits
    exact whileWithin_ok writes (Nat.sub_le _ _) from_start emitted []
  rcases whileWithin_ends writes ends (Nat.sub_le buf.length 0) [] with
    ⟨fields, parts, emitted⟩ | ⟨message, bailed⟩
  · exact Or.inl ⟨fields, parts, emitted, returns fields parts emitted⟩
  · refine Or.inr ⟨⟨message, bailed⟩, fun fields parts emitted => ?_⟩
    have returned := returns fields parts emitted
    rw [bailed] at returned
    cases returned

/-- A rewriter of the messages above the end of the path does what it is for. -/
structure Meets (dims : List (String × UInt64)) (path : List Level)
    (rewrite : Bytes → Result Bytes) : Prop where
  ends : ∀ buf, buf.length < 2 ^ 63 → Ends (rewrite buf)
  splits : ∀ buf, buf.length < 2 ^ 63 → ((∃ out, rewrite buf = .ok out) ↔ Splits path buf)
  fixed : ∀ buf out, buf.length < 2 ^ 63 → rewrite buf = .ok out → out.length < 2 ^ 63 →
    Fixed dims path buf out
  same : ∀ buf out, buf.length < 2 ^ 63 → rewrite buf = .ok out →
    AtEnd (Unlisted dims) path buf → Shortest path buf → out = buf

section Levels

variable {dims : List (String × UInt64)}

theorem fixDimension_of_unlisted {field : Field} (unlisted : Unlisted dims field) :
    fixDimension dims field = field := by
  rw [fixDimension]
  cases text : dimParam field with
  | none => rfl
  | some text' =>
      have none_listed : listed dims text' = none := by
        rw [listed, List.find?_eq_none]
        intro dim dim_mem
        simpa using unlisted text' text dim dim_mem
      rw [Option.bind_some, none_listed]

theorem fixDimension_reads {field : Field} (reads : field.Reads) :
    (fixDimension dims field).Reads := by
  rw [fixDimension]
  split
  · next dim _ => exact varintField_reads (by decide) (by decide) dim.2.toNat_lt
  · exact reads

theorem parts_of_map {written : Field → Bytes} {fields : List Field} {parts : List Bytes}
    (emitted : List.Forall₂ (fun field part => (.ok (written field) : Result Bytes) = .ok part)
      fields parts) : parts = fields.map written := by
  induction emitted with
  | nil => rfl
  | cons same _ ih =>
      cases same
      rw [ih, List.map_cons]

theorem forall₂_ok_map (written : Field → Bytes) (fields : List Field) :
    List.Forall₂ (fun field part => (.ok (written field) : Result Bytes) = .ok part) fields
      (fields.map written) := by
  induction fields with
  | nil => exact .nil
  | cons field rest ih => exact .cons rfl ih

/-- `rewrite_dimension` is at the end of the path. -/
theorem rewriteDimension_meets (dims : List (String × UInt64)) :
    Meets dims [] fun buf => rewriteDimension buf dims := by
  have cases_of : ∀ buf : Bytes, buf.length < 2 ^ 63 →
      (∃ fields, split buf = some fields ∧ rewriteDimension buf dims =
          .ok ((fields.map (fixDimension dims)).flatMap Field.bytes)) ∨
        (∃ message, rewriteDimension buf dims = .error (.bail message)) ∧ split buf = none := by
    intro buf short
    rcases loop_cases (rewriteDimensionField_writes short dims)
        (fun field pos _ => Or.inl ⟨_, rfl⟩) with
      ⟨fields, parts, ⟨splits, emitted⟩, returned⟩ | ⟨bailed, none_emitted⟩
    · refine Or.inl ⟨fields, splits, returned.trans ?_⟩
      rw [parts_of_map emitted, List.flatMap_map]
      rfl
    · refine Or.inr ⟨bailed, ?_⟩
      cases splits : split buf with
      | none => rfl
      | some fields => exact absurd ⟨splits, forall₂_ok_map _ fields⟩ (none_emitted fields _)
  constructor
  · intro buf short
    rcases cases_of buf short with ⟨fields, -, returned⟩ | ⟨bailed, -⟩
    · exact Or.inl ⟨_, returned⟩
    · exact Or.inr bailed
  · intro buf short
    rcases cases_of buf short with ⟨fields, splits, returned⟩ | ⟨⟨message, bailed⟩, splits⟩
    · simp [returned, Splits, splits]
    · simp [bailed, Splits, splits]
  · intro buf out short returned _
    rcases cases_of buf short with ⟨fields, splits, returned'⟩ | ⟨⟨message, bailed⟩, -⟩
    · rw [returned] at returned'
      cases returned'
      refine ⟨fields, splits, split_flatMap ?_⟩
      intro field field_mem
      rcases List.mem_map.1 field_mem with ⟨before, before_mem, rfl⟩
      exact fixDimension_reads ((split_eq_some splits).2 before before_mem).1
    · rw [bailed] at returned
      cases returned
  · intro buf out short returned unlisted _
    rcases cases_of buf short with ⟨fields, splits, returned'⟩ | ⟨⟨message, bailed⟩, -⟩
    · rw [returned] at returned'
      cases returned'
      have unchanged : fields.map (fixDimension dims) = fields.map id := by
        apply List.map_congr_left
        intro field field_mem
        exact fixDimension_of_unlisted (unlisted fields splits field field_mem)
      rw [unchanged, List.map_id, (split_eq_some splits).1]
    · rw [bailed] at returned
      cases returned

/-- A message in a field of the buffer is no longer than the buffer. -/
theorem length_submessage_le {level : Level} {field : Field} {payload : Bytes}
    (reads : field.Reads) (holds : field.submessage level = some payload) :
    field.key % 8 = 2 ∧ payload.length ≤ field.bytes.length :=
  reads.payload (Option.ite_none_right_eq_some.1 holds).2

theorem length_field_le {fields : List Field} {field : Field} (splits : split buf = some fields)
    (field_mem : field ∈ fields) : field.bytes.length ≤ buf.length := by
  rw [← (split_eq_some splits).1]
  exact (List.sublist_flatten_of_mem (List.mem_map_of_mem field_mem)).length_le

theorem fields_of_parts {level : Level} {path : List Level} {next : Bytes → Result Bytes}
    (inner : Meets dims path next) {fields : List Field} {parts : List Bytes}
    (reads : ∀ field ∈ fields, field.Reads ∧ field.key < 2 ^ 64 ∧ field.bytes.length < 2 ^ 63)
    (emitted : List.Forall₂ (fun field part => messageEmit level next field = .ok part) fields
      parts)
    (short : parts.flatten.length < 2 ^ 63) :
    ∃ fields', fields'.flatMap Field.bytes = parts.flatten ∧ (∀ field ∈ fields', field.Reads) ∧
      List.Forall₂ (fun field field' =>
        match field.submessage level with
        | some payload => ∃ payload', field' = lenField field.key payload' ∧
            Fixed dims path payload payload'
        | none => field' = field) fields fields' := by
  induction emitted with
  | nil => exact ⟨[], rfl, by simp, .nil⟩
  | @cons field part fields parts emits _ ih =>
      rw [List.forall_mem_cons] at reads
      rw [List.flatten_cons, List.length_append] at short
      rcases ih reads.2 (by omega) with ⟨rest, rest_bytes, rest_reads, related⟩
      rcases reads.1 with ⟨field_reads, key_fits, field_short⟩
      rw [messageEmit] at emits
      cases holds : field.submessage level with
      | none =>
          rw [holds] at emits
          cases emits
          refine ⟨field :: rest, ?_, List.forall_mem_cons.2 ⟨field_reads, rest_reads⟩,
            .cons (by rw [holds]) related⟩
          rw [List.flatMap_cons, rest_bytes, List.flatten_cons]
      | some payload =>
          rw [holds] at emits
          rcases Fallible.bind_eq_ok.1 emits with ⟨new, rewritten, written⟩
          cases written
          rcases length_submessage_le field_reads holds with ⟨wire, payload_short⟩
          rw [List.length_append] at short
          have new_short : new.length < 2 ^ 63 := by omega
          have new_fixed := inner.fixed payload new (by omega) rewritten new_short
          have same_length : new.length % 2 ^ 64 = new.length := Nat.mod_eq_of_lt (by omega)
          refine ⟨lenField field.key new :: rest, ?_, List.forall_mem_cons.2
            ⟨lenField_reads key_fits wire (by omega), rest_reads⟩, .cons ?_ related⟩
          · rw [List.flatMap_cons, rest_bytes, List.flatten_cons, same_length]
            rfl
          · rw [holds]
            exact ⟨new, rfl, new_fixed⟩

theorem emitted_unchanged {level : Level} {path : List Level} {next : Bytes → Result Bytes}
    (inner : Meets dims path next) {fields : List Field} {parts : List Bytes}
    (emitted : List.Forall₂ (fun field part => messageEmit level next field = .ok part) fields
      parts)
    (reads : ∀ field ∈ fields, field.Reads ∧ field.bytes.length < 2 ^ 63)
    (unlisted : ∀ field ∈ fields, ∀ payload, field.submessage level = some payload →
      AtEnd (Unlisted dims) path payload)
    (shortest : ∀ field ∈ fields, ∀ payload, field.submessage level = some payload →
      field = lenField field.key payload ∧ Shortest path payload) :
    parts.flatten = fields.flatMap Field.bytes := by
  induction emitted with
  | nil => rfl
  | @cons field part fields parts emits _ ih =>
      rw [List.forall_mem_cons] at reads unlisted shortest
      rw [List.flatten_cons, List.flatMap_cons, ih reads.2 unlisted.2 shortest.2]
      congr 1
      rw [messageEmit] at emits
      cases holds : field.submessage level with
      | none =>
          rw [holds] at emits
          cases emits
          rfl
      | some payload =>
          rw [holds] at emits
          rcases Fallible.bind_eq_ok.1 emits with ⟨new, rewritten, written⟩
          cases written
          have payload_short := (length_submessage_le reads.1.1 holds).2
          have field_short := reads.1.2
          rcases shortest.1 payload holds with ⟨canonical, payload_shortest⟩
          have unchanged := inner.same payload new (by omega) rewritten
            (unlisted.1 payload holds) payload_shortest
          rw [unchanged, Nat.mod_eq_of_lt (by omega)]
          exact (congrArg Field.bytes canonical).symm

theorem message_field_reads {fields : List Field} (short : buf.length < 2 ^ 63)
    (splits : split buf = some fields) {field : Field} (field_mem : field ∈ fields) :
    field.Reads ∧ field.key < 2 ^ 64 ∧ field.bytes.length < 2 ^ 63 := by
  have read := (split_eq_some splits).2 field field_mem
  exact ⟨read.1, read.2, Nat.lt_of_le_of_lt (length_field_le splits field_mem) short⟩

theorem messageEmit_ends {level : Level} {path : List Level} {next : Bytes → Result Bytes}
    (inner : Meets dims path next) {field : Field} (reads : field.Reads)
    (short : field.bytes.length < 2 ^ 63) : Ends (messageEmit level next field) := by
  rw [messageEmit]
  cases holds : field.submessage level with
  | none => exact Or.inl ⟨_, rfl⟩
  | some payload =>
      have payload_short := (length_submessage_le reads holds).2
      dsimp only
      rcases inner.ends payload (by omega) with ⟨new, rewritten⟩ | ⟨message, bailed⟩
      · exact Or.inl ⟨_, by rw [rewritten]; rfl⟩
      · exact Or.inr ⟨message, by rw [bailed]; rfl⟩

/-- A level returns the parts of its fields, or bails out where one of them has none. -/
theorem rewriteMessage_cases {level : Level} {path : List Level} {next : Bytes → Result Bytes}
    (inner : Meets dims path next) (short : buf.length < 2 ^ 63) :
    (∃ fields parts, Emitted buf (messageEmit level next) fields parts ∧
        rewriteMessage buf (onField level next) = .ok parts.flatten) ∨
      (∃ message, rewriteMessage buf (onField level next) = .error (.bail message)) ∧
        ∀ fields parts, ¬Emitted buf (messageEmit level next) fields parts := by
  apply loop_cases (rewriteMessageField_writes short level next)
  intro field pos read
  rcases readField_take read with ⟨reads, -, -⟩
  have within := length_of_readField read
  exact messageEmit_ends inner reads (by omega)

/-- Where a level returned, it returned the parts of its fields. -/
theorem rewriteMessage_ok {level : Level} {path : List Level} {next : Bytes → Result Bytes}
    (inner : Meets dims path next) (short : buf.length < 2 ^ 63) {out : Bytes}
    (returned : rewriteMessage buf (onField level next) = .ok out) :
    ∃ fields parts, Emitted buf (messageEmit level next) fields parts ∧ out = parts.flatten := by
  rcases rewriteMessage_cases inner short with
    ⟨fields, parts, emitted, returned'⟩ | ⟨⟨message, bailed⟩, -⟩
  · rw [returned] at returned'
    cases returned'
    exact ⟨fields, parts, emitted, rfl⟩
  · rw [bailed] at returned
    cases returned

theorem rewriteMessage_splits {level : Level} {path : List Level} {next : Bytes → Result Bytes}
    (inner : Meets dims path next) (short : buf.length < 2 ^ 63) :
    (∃ out, rewriteMessage buf (onField level next) = .ok out) ↔ Splits (level :: path) buf := by
  constructor
  · rintro ⟨out, returned⟩
    rcases rewriteMessage_ok inner short returned with ⟨fields, parts, ⟨splits, emitted⟩, -⟩
    refine ⟨fields, splits, ?_⟩
    intro field field_mem payload holds
    rcases Fallible.defined_of_forall₂ emitted field field_mem with ⟨part, emits⟩
    rw [messageEmit, holds] at emits
    rcases Fallible.bind_eq_ok.1 emits with ⟨new, rewritten, -⟩
    have reads := message_field_reads short splits field_mem
    have payload_short := (length_submessage_le reads.1 holds).2
    exact (inner.splits payload (by omega)).1 ⟨new, rewritten⟩
  · rintro ⟨fields, splits, below⟩
    have defined : ∀ field ∈ fields, ∃ part, messageEmit level next field = .ok part := by
      intro field field_mem
      rw [messageEmit]
      cases holds : field.submessage level with
      | none => exact ⟨_, rfl⟩
      | some payload =>
          dsimp only
          have reads := message_field_reads short splits field_mem
          have payload_short := (length_submessage_le reads.1 holds).2
          rcases (inner.splits payload (by omega)).2 (below field field_mem payload holds) with
            ⟨new, rewritten⟩
          exact ⟨_, by rw [rewritten]; rfl⟩
    rcases Fallible.mapM_defined defined with ⟨parts, emitted⟩
    rcases rewriteMessage_cases inner short with ⟨_, _, -, returned⟩ | ⟨-, none_emitted⟩
    · exact ⟨_, returned⟩
    · exact absurd ⟨splits, Fallible.mapM_eq_ok.1 emitted⟩ (none_emitted fields parts)

/-- A level above a rewriter that does what it is for does what it is for. -/
theorem rewriteMessage_meets (level : Level) {path : List Level} {next : Bytes → Result Bytes}
    (inner : Meets dims path next) :
    Meets dims (level :: path) fun buf => rewriteMessage buf (onField level next) := by
  constructor
  · intro buf short
    rcases rewriteMessage_cases inner short with ⟨fields, parts, -, returned⟩ | ⟨bailed, -⟩
    · exact Or.inl ⟨_, returned⟩
    · exact Or.inr bailed
  · intro buf short
    exact rewriteMessage_splits inner short
  · intro buf out short returned out_short
    rcases rewriteMessage_ok inner short returned with ⟨fields, parts, ⟨splits, emitted⟩, rfl⟩
    have reads_of : ∀ field ∈ fields, field.Reads ∧ field.key < 2 ^ 64 ∧
        field.bytes.length < 2 ^ 63 :=
      fun field field_mem => message_field_reads short splits field_mem
    rcases fields_of_parts inner reads_of emitted out_short with ⟨fields', bytes, reads, related⟩
    exact ⟨fields, fields', splits, by rw [← bytes, split_flatMap reads], related⟩
  · intro buf out short returned unlisted shortest
    rcases rewriteMessage_ok inner short returned with ⟨fields, parts, ⟨splits, emitted⟩, rfl⟩
    have reads_of : ∀ field ∈ fields, field.Reads ∧ field.bytes.length < 2 ^ 63 := by
      intro field field_mem
      have reads := message_field_reads short splits field_mem
      exact ⟨reads.1, reads.2.2⟩
    rw [emitted_unchanged inner emitted reads_of (unlisted fields splits) (shortest fields splits),
      (split_eq_some splits).1]

/-- The rewriter of a whole model, from the dimensions up to the graph. -/
theorem fixGraphIoDims_meets (dims : List (String × UInt64)) :
    Meets dims dimPath fun model => fixGraphIoDims model dims := by
  have shape := rewriteMessage_meets (fun field => field == 1) (rewriteDimension_meets dims)
  have tensor := rewriteMessage_meets (fun field => field == 2) shape
  have type := rewriteMessage_meets (fun field => field == 1) tensor
  have value_info := rewriteMessage_meets (fun field => field == 2) type
  have graph := rewriteMessage_meets (fun field => field == 11 || field == 12) value_info
  exact rewriteMessage_meets (fun field => field == 7) graph

end Levels

/-- A model that splits into fields on the path is returned with exactly the listed dimensions
fixed, and one that does not is refused; neither a slice nor a vector is longer than
`isize::MAX`. -/
theorem fixGraphIoDims_spec (model : Bytes) (dims : List (String × UInt64))
    (short : model.length < 2 ^ 63) :
    (Splits dimPath model → ∃ out, fixGraphIoDims model dims = .ok out ∧
        (out.length < 2 ^ 63 → Fixed dims dimPath model out) ∧
        (AtEnd (Unlisted dims) dimPath model → Shortest dimPath model → out = model)) ∧
      (¬Splits dimPath model → ∃ message, fixGraphIoDims model dims = .error (.bail message)) := by
  have meets := fixGraphIoDims_meets dims
  constructor
  · intro splits
    rcases (meets.splits model short).2 splits with ⟨out, returned⟩
    exact ⟨out, returned, meets.fixed model out short returned, meets.same model out short returned⟩
  · intro broken
    rcases meets.ends model short with returned | bailed
    · exact absurd ((meets.splits model short).1 returned) broken
    · exact bailed

/-- A model with one input of this one dimension. -/
def modelOf (dim : Field) : Bytes :=
    (lenField 58 (lenField 90 (lenField 18 (lenField 10 (lenField 18 (lenField 10
      dim.bytes).bytes).bytes).bytes).bytes).bytes).bytes

theorem fixGraphIoDims_spec_batch_size :
    Fixed [("batch_size", 32)] dimPath (modelOf (lenField 18 (asBytes "batch_size")))
      (modelOf (varintField 8 32)) := by
  have fixed : fixGraphIoDims (modelOf (lenField 18 (asBytes "batch_size"))) [("batch_size", 32)] =
      .ok (modelOf (varintField 8 32)) := by decide +kernel
  have splits : Splits dimPath (modelOf (lenField 18 (asBytes "batch_size"))) := by
    have dimension : Splits [] (lenField 18 (asBytes "batch_size")).bytes := by
      have alone := split_flatMap (List.forall_mem_singleton.2
        (lenField_reads (show 18 < 2 ^ 64 by decide) (by decide)
          (show (asBytes "batch_size").length < 2 ^ 64 by decide +kernel)))
      rw [List.flatMap_singleton] at alone
      exact ⟨_, alone⟩
    refine splits_lenField (by decide) (by decide) (by decide +kernel) ?_
    refine splits_lenField (by decide) (by decide) (by decide +kernel) ?_
    refine splits_lenField (by decide) (by decide) (by decide +kernel) ?_
    refine splits_lenField (by decide) (by decide) (by decide +kernel) ?_
    refine splits_lenField (by decide) (by decide) (by decide +kernel) ?_
    exact splits_lenField (by decide) (by decide) (by decide +kernel) dimension
  rcases (fixGraphIoDims_spec _ [("batch_size", 32)] (by decide +kernel)).1 splits with
    ⟨out, returned, decodes, -⟩
  rw [fixed] at returned
  cases returned
  exact decodes (by decide +kernel)

end OnnxDims

end Ohara
