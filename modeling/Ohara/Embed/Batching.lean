import Mathlib.Logic.Function.Basic
import Ohara.Types

/-!
# The embedding coalescer

`BatchingEmbedder` puts one task between its callers and the inner embedder. The task takes requests
from a bounded channel, queues their rows, and has the front of the queue embedded in batches. A
caller can send at any moment, also while a batch is at the inner embedder.
-/

namespace Ohara

namespace Batching

/-- A request by the number under which its caller waits. -/
structure Request where
  texts : List String
  reply : Nat
deriving DecidableEq

/-- What the `oneshot` of a request carries. -/
abbrev Reply := Except OhraError (List Vector)

/-- A request that waits for some of its vectors. -/
structure ReqState where
  reply : Nat
  slots : List (Option Vector)
  remaining : Nat

/-- A row that is not embedded yet: `(req_id, idx_in_req, text)`. -/
structure Row where
  id : Nat
  idx : Nat
  text : String
deriving DecidableEq

/-- The requests in flight, and the replies sent. -/
structure Desk where
  reqs : Nat → Option ReqState
  replies : List (Nat × Reply)

/-- A batch and what the inner embedder made of it; an error by its text. -/
structure Batch where
  rows : List Row
  answer : Except String (List Vector)

/-- The rows of a request. -/
def rowsOf (id : Nat) (texts : List String) : List Row :=
    texts.mapIdx fun idx text => ⟨id, idx, text⟩

namespace Desk

/-- Take a request off the desk and reply to it. -/
def reply (desk : Desk) (id : Nat) (state : ReqState) (result : Reply) : Desk where
  reqs := Function.update desk.reqs id none
  replies := desk.replies ++ [(state.reply, result)]

/-- `complete`; none is the panic for an empty slot. -/
def complete (desk : Desk) (id : Nat) : Option Desk :=
    match desk.reqs id with
    | none => some desk
    | some state =>
        match state.slots.mapM fun slot => slot with
        | some vectors => some (desk.reply id state (.ok vectors))
        | none => none

/-- Fill a slot that is empty; none is the panic for an index out of range. -/
def fillSlot (state : ReqState) (idx : Nat) (vector : Vector) : Option ReqState :=
    match state.slots[idx]? with
    | none => none
    | some (some _) => some state
    | some none => some
        { state with
          slots := state.slots.set idx (some vector)
          remaining := state.remaining - 1 }

/-- One pass of the loop of `dispatch` over the rows of a batch. -/
def scatter (desk : Desk) (row : Row) (vector : Vector) : Option Desk :=
    match desk.reqs row.id with
    | none => some desk
    | some state =>
        match fillSlot state row.idx vector with
        | none => none
        | some filled =>
            if filled.remaining = 0 then
              complete { desk with reqs := Function.update desk.reqs row.id (some filled) } row.id
            else some { desk with reqs := Function.update desk.reqs row.id (some filled) }

/-- `fail_owners`, from the ids it has seen. -/
def failOwners (message : String) : List Nat → List Row → Desk → Desk
  | _, [], desk => desk
  | seen, row :: rest, desk =>
      if row.id ∈ seen then failOwners message seen rest desk
      else
        match desk.reqs row.id with
        | some state =>
            failOwners message (row.id :: seen) rest
              (desk.reply row.id state (.error (.embedding message)))
        | none => failOwners message (row.id :: seen) rest desk

/-- The end of `dispatch`, with the inner embedder's answer. -/
def settle (desk : Desk) (batch : Batch) : Option Desk :=
    match batch.answer with
    | .error e => some (failOwners e [] batch.rows desk)
    | .ok vectors =>
        if vectors.length ≠ batch.rows.length then
          some (failOwners ("inner embed_batch returned " ++ toString vectors.length ++
            " vectors for " ++ toString batch.rows.length ++ " inputs") [] batch.rows desk)
        else
          (batch.rows.zip vectors).foldlM (fun desk owner => desk.scatter owner.1 owner.2) desk

/-- `enqueue`, as far as it concerns the desk. -/
def enqueue (desk : Desk) (id : Nat) (request : Request) : Desk where
  reqs := Function.update desk.reqs id (some
    { reply := request.reply
      slots := List.replicate request.texts.length none
      remaining := request.texts.length })
  replies := desk.replies

end Desk

/-- What the coalescing task is doing. -/
inductive Phase where
  | looping
  /-- A batch is at the inner embedder; after the last one the task ends. -/
  | embedding (rows : List Row) (last : Bool)
  | stopped
  | panicked
deriving DecidableEq

/-- The channel and the task, and a record of what was received and dispatched. -/
structure Coalescer where
  channel : List Request
  closed : Bool
  pending : List Row
  desk : Desk
  nextId : Nat
  phase : Phase
  received : List (List String)
  batches : List Batch

namespace Coalescer

/-- The texts of every request that the channel took, in the order of their numbers. -/
def accepted (s : Coalescer) : List (List String) :=
    s.received ++ s.channel.map Request.texts

/-- Requests the channel holds. -/
def channelCapacity : Nat := 256

/-- The task before the first request. -/
def start : Coalescer where
  channel := []
  closed := false
  pending := []
  desk := ⟨fun _ => none, []⟩
  nextId := 0
  phase := .looping
  received := []
  batches := []

/-- The rows that are at the inner embedder. -/
def inFlight (s : Coalescer) : List Row :=
    match s.phase with
    | .embedding rows _ => rows
    | _ => []

end Coalescer

/-- The steps of the task and of its callers. -/
inductive Label where
  /-- A caller's `send` goes through. -/
  | send (texts : List String)
  /-- The last sender drops. -/
  | close
  /-- `recv` or `try_recv` returns a request. -/
  | receive
  /-- The front rows go to the inner embedder. -/
  | dispatch
  /-- The inner embedder returns. -/
  | answer (result : Except String (List Vector))
  /-- `recv` returns nothing. -/
  | stop

namespace Coalescer

/-- `embed_batch` up to the await of the reply. An empty request is not sent. -/
def send (s : Coalescer) (texts : List String) : Option Coalescer :=
    if texts.isEmpty || s.closed || decide (channelCapacity ≤ s.channel.length) then none
    else some { s with channel := s.channel ++ [⟨texts, s.accepted.length⟩] }

/-- A request off the channel is queued. -/
def receive (s : Coalescer) (batchRows : Nat) : Option Coalescer :=
    if max batchRows 1 ≤ s.pending.length then none
    else
      match s.channel with
      | [] => none
      | request :: channel => some
          { s with
            channel := channel
            pending := s.pending ++ rowsOf s.nextId request.texts
            desk := s.desk.enqueue s.nextId request
            nextId := s.nextId + 1
            received := s.received ++ [request.texts] }

/-- A full batch is dispatched at once; a partial one when the channel is found empty. -/
def dispatch (s : Coalescer) (batchRows : Nat) : Option Coalescer :=
    if max batchRows 1 ≤ s.pending.length then some
      { s with
        pending := s.pending.drop (max batchRows 1)
        phase := .embedding (s.pending.take (max batchRows 1)) false }
    else if s.pending.isEmpty || !s.channel.isEmpty then none
    else some
      { s with
        pending := []
        phase := .embedding s.pending s.closed }

/-- The answer to a batch is given out. -/
def answer (s : Coalescer) (rows : List Row) (last : Bool) (result : Except String (List Vector)) :
    Coalescer :=
    match s.desk.settle ⟨rows, result⟩ with
    | none => { s with phase := .panicked }
    | some desk =>
        { s with
          desk := desk
          phase := if last then .stopped else .looping
          batches := s.batches ++ [⟨rows, result⟩] }

/-- `coalescer` and its callers, one step at a time. -/
def next (batchRows : Nat) (s : Coalescer) (label : Label) : Option Coalescer :=
    match label, s.phase with
    | .send texts, _ => s.send texts
    | .close, _ => if s.closed then none else some { s with closed := true }
    | .receive, .looping => s.receive batchRows
    | .dispatch, .looping => s.dispatch batchRows
    | .stop, .looping =>
        if s.pending.isEmpty && s.channel.isEmpty && s.closed then some { s with phase := .stopped }
        else none
    | .answer result, .embedding rows last => some (s.answer rows last result)
    | _, _ => none

end Coalescer

end Batching

end Ohara
