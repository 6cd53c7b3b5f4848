import Ohara.Library.Fallible
import Ohara.Library.Protobuf

/-!
# Fixing the dimensions of a model graph

`fix_graph_io_dims` walks the serialised model and replaces named symbolic dimensions of the graph's
inputs and outputs by values. Offsets and lengths are `usize`; reading outside the buffer, adding
past `usize::MAX` and shifting by 64 or more are panics.
-/

namespace Ohara

namespace OnnxDims

open Protobuf (Bytes)

/-- How a rewrite ends without a model. -/
inductive Fault where
  | bail (message : String)
  | panic
  /-- The loop bound of the model was reached; the code would go on. -/
  | unfinished
deriving DecidableEq, Repr

/-- What a rewrite returns. -/
abbrev Result (α : Type) := Except Fault α

/-! ## Bytes and offsets -/

/-- `buf[pos]`. -/
def byteAt (buf : Bytes) (pos : Nat) : Result UInt8 :=
    match buf[pos]? with
    | some byte => .ok byte
    | none => .error .panic

/-- `&buf[start..stop]`. -/
def slice (buf : Bytes) (start stop : Nat) : Result Bytes :=
    if start ≤ stop ∧ stop ≤ buf.length then .ok ((buf.take stop).drop start) else .error .panic

/-- `usize::checked_add`. -/
def checkedAdd (a b : Nat) : Option Nat :=
    if a + b < 2 ^ 64 then some (a + b) else none

/-- `a + b` on `usize`. -/
def add (a b : Nat) : Result Nat :=
    match checkedAdd a b with
    | some sum => .ok sum
    | none => .error .panic

/-- `value << shift` on `u64`. -/
def shiftLeft (value shift : Nat) : Result Nat :=
    if shift < 64 then .ok ((value <<< shift) % 2 ^ 64) else .error .panic

/-! ## Varints -/

/-- The loop of `read_varint`; it ends in the eleventh round at the latest. -/
def readVarintLoop (buf : Bytes) : Nat → Nat → Nat → Nat → Result (Nat × Nat)
  | 0, _, _, _ => .error .unfinished
  | rounds + 1, value, shift, pos =>
      if buf.length ≤ pos then
        .error (.bail ("varint overruns buffer at offset " ++ toString pos))
      else if 64 ≤ shift then
        .error (.bail ("varint longer than 10 bytes at offset " ++ toString pos))
      else do
        let byte ← byteAt buf pos
        let pos ← add pos 1
        let bits ← shiftLeft (byte.toNat &&& 0x7f) shift
        let value := value ||| bits
        if byte.toNat &&& 0x80 = 0 then return (value, pos)
        else readVarintLoop buf rounds value (shift + 7) pos

/-- The value, and the offset after it. -/
def readVarint (buf : Bytes) (pos : Nat) : Result (Nat × Nat) :=
    readVarintLoop buf 11 0 0 pos

/-- Seven bits a byte, the lowest first; all but the last byte have the high bit. -/
def writeVarint (out : Bytes) (v : Nat) : Bytes :=
    let byte := v &&& 0x7f
    if v >>> 7 = 0 then out ++ [UInt8.ofNat byte]
    else writeVarint (out ++ [UInt8.ofNat (byte ||| 0x80)]) (v >>> 7)
termination_by v
decreasing_by
  rename_i more
  rw [Nat.shiftRight_eq_div_pow] at more ⊢
  omega

/-! ## Field bodies -/

/-- The payload's end and start. -/
def readLenPayloadEnd (buf : Bytes) (pos field : Nat) : Result (Nat × Nat) := do
  let (len, pos) ← readVarint buf pos
  match (checkedAdd pos len).filter fun stop => decide (stop ≤ buf.length) with
  | some stop => return (stop, pos)
  | none => .error (.bail ("length-delimited field " ++ toString field ++ " overruns buffer"))

/-- The position after a field of fixed width. -/
def advanceFixed (buf : Bytes) (pos width field : Nat) : Result Nat :=
    match (checkedAdd pos width).filter fun stop => decide (stop ≤ buf.length) with
    | some stop => .ok stop
    | none => .error (.bail ("fixed-width field " ++ toString field ++ " overruns buffer"))

/-- The offset after the body. -/
def copyFieldBody (buf : Bytes) (pos key : Nat) : Result Nat :=
    let field := key >>> 3
    let wire := key &&& 7
    match wire with
    | 0 => do
        let (_, pos) ← readVarint buf pos
        return pos
    | 1 => advanceFixed buf pos 8 field
    | 5 => advanceFixed buf pos 4 field
    | 2 => do
        let (stop, _) ← readLenPayloadEnd buf pos field
        return stop
    | other => .error (.bail ("unsupported protobuf wire type " ++ toString other ++ " on field " ++
        toString field))

/-! ## Rewriting -/

/-- `while pos < buf.len()`, with a bound on the rounds. -/
def whileWithin (length : Nat) (round : Bytes → Nat → Result (Bytes × Nat)) :
    Nat → Bytes → Nat → Result Bytes
  | 0, out, pos => if pos < length then .error .unfinished else .ok out
  | rounds + 1, out, pos =>
      if pos < length then do
        let (out, pos) ← round out pos
        whileWithin length round rounds out pos
      else .ok out

/-- What to write in place of a payload; nothing for a field that is copied. -/
abbrev FieldRewriter := Nat → Bytes → Option (Result Bytes)

/-- One round of `rewrite_message`. -/
def rewriteMessageField (buf : Bytes) (rewrite : FieldRewriter) (out : Bytes) (start : Nat) :
    Result (Bytes × Nat) := do
  let (key, pos) ← readVarint buf start
  let field := key >>> 3
  let wire := key &&& 7
  if wire = 2 then do
    let (stop, pos) ← readLenPayloadEnd buf pos field
    let payload ← slice buf pos stop
    match rewrite field payload with
    | some newPayload => do
        let newPayload ← newPayload
        let out := writeVarint out key
        let out := writeVarint out (newPayload.length % 2 ^ 64)
        return (out ++ newPayload, stop)
    | none => do
        let copied ← slice buf start stop
        return (out ++ copied, stop)
  else do
    let pos ← copyFieldBody buf pos key
    let copied ← slice buf start pos
    return (out ++ copied, pos)

/-- The fields of a message one after another, each as `rewrite` has it. -/
def rewriteMessage (buf : Bytes) (rewrite : FieldRewriter) : Result Bytes :=
    whileWithin buf.length (rewriteMessageField buf rewrite) buf.length [] 0

/-- `name.as_bytes()`. -/
def asBytes (name : String) : Bytes :=
    name.toUTF8.data.toList

/-- One round of `rewrite_dimension`. -/
def rewriteDimensionField (buf : Bytes) (dims : List (String × UInt64)) (out : Bytes)
    (start : Nat) : Result (Bytes × Nat) := do
  let (key, pos) ← readVarint buf start
  let field := key >>> 3
  let wire := key &&& 7
  if field = 2 ∧ wire = 2 then do
    let (stop, pos) ← readLenPayloadEnd buf pos field
    let payload ← slice buf pos stop
    match dims.find? fun dim => decide (asBytes dim.1 = payload) with
    | some (_, value) =>
        let out := writeVarint out (1 <<< 3)
        return (writeVarint out value.toNat, stop)
    | none => do
        let copied ← slice buf start stop
        return (out ++ copied, stop)
  else do
    let pos ← copyFieldBody buf pos key
    let copied ← slice buf start pos
    return (out ++ copied, pos)

/-- `Dimension`: a symbolic size in the table becomes a fixed one. -/
def rewriteDimension (buf : Bytes) (dims : List (String × UInt64)) : Result Bytes :=
    whileWithin buf.length (rewriteDimensionField buf dims) buf.length [] 0

/-- The closures: the payloads of the fields on the path are rewritten by the next level. -/
def onField (claimed : Nat → Bool) (next : Bytes → Result Bytes) : FieldRewriter :=
    fun field payload => if claimed field then some (next payload) else none

/-- `TensorShapeProto`: its dimensions are rewritten. -/
def rewriteShape (buf : Bytes) (dims : List (String × UInt64)) : Result Bytes :=
    rewriteMessage buf (onField (fun field => field == 1) fun payload =>
      rewriteDimension payload dims)

/-- `TypeProto.Tensor`: its shape is rewritten. -/
def rewriteTensor (buf : Bytes) (dims : List (String × UInt64)) : Result Bytes :=
    rewriteMessage buf (onField (fun field => field == 2) fun payload => rewriteShape payload dims)

/-- `TypeProto`: its tensor type is rewritten. -/
def rewriteType (buf : Bytes) (dims : List (String × UInt64)) : Result Bytes :=
    rewriteMessage buf (onField (fun field => field == 1) fun payload => rewriteTensor payload dims)

/-- `ValueInfoProto`: its type is rewritten. -/
def rewriteValueInfo (buf : Bytes) (dims : List (String × UInt64)) : Result Bytes :=
    rewriteMessage buf (onField (fun field => field == 2) fun payload => rewriteType payload dims)

/-- `GraphProto`: its inputs and outputs are rewritten. -/
def rewriteGraph (buf : Bytes) (dims : List (String × UInt64)) : Result Bytes :=
    rewriteMessage buf (onField (fun field => field == 11 || field == 12) fun payload =>
      rewriteValueInfo payload dims)

/-- `ModelProto`: its graph is rewritten. -/
def fixGraphIoDims (model : Bytes) (dims : List (String × UInt64)) : Result Bytes :=
    rewriteMessage model (onField (fun field => field == 7) fun payload =>
      rewriteGraph payload dims)

end OnnxDims

end Ohara
