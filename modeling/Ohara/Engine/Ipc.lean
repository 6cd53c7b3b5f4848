import Ohara.Explain.Hydrator
import Ohara.Library.Frames
import Ohara.Retriever.Coordinator

/-!
# Requests and responses of the daemon

The envelopes that the daemon and its clients exchange, one length-prefixed frame each, and the
dispatch of a request to the engine. `serde_json` is a parameter.
-/

namespace Ohara

namespace Ipc

open Frames (Bytes)

/-- All errors of the engine; the caches and the registry meet four of them. -/
inductive EngineError where
  | noIndex (path : String)
  | needsRebuild (reason : String)
  | notImplemented (method : String)
  | core (error : OhraError)
  | storage (message : String)
  | git (message : String)
  | embed (message : String)
  | internal (message : String)
deriving DecidableEq, Repr

/-- The text of an error of the core. -/
def coreText : OhraError → String
  | .storage message => "storage error: " ++ message
  | .embedding message => "embedding error: " ++ message
  | .git message => "git error: " ++ message

/-- `to_string`. -/
def EngineError.text : EngineError → String
  | .noIndex path => "repo not indexed: " ++ path
  | .needsRebuild reason => "index needs rebuild: " ++ reason
  | .notImplemented method => "not implemented: " ++ method
  | .core error => "ohara-core: " ++ coreText error
  | .storage message => "ohara-storage: " ++ message
  | .git message => "ohara-git: " ++ message
  | .embed message => "ohara-embed: " ++ message
  | .internal message => "internal: " ++ message

/-- What a client asks for. -/
inductive RequestMethod where
  | ping
  | shutdown
  | findPattern (query : Retriever.PatternQuery)
  | explainChange (query : ExplainQuery)
  | invalidateRepo
  | indexStatus
  | metrics
deriving DecidableEq, Repr

/-- A request, as a frame carries it. -/
structure Request where
  id : UInt64
  repoPath : Option String
  method : RequestMethod
deriving DecidableEq, Repr

/-- The kinds of errors a response tells apart. -/
inductive ErrorCode where
  | notIndexed
  | needsRebuild
  | internal
  | invalidRequest
  | notImplemented
deriving DecidableEq, Repr

/-- The error of a response. -/
structure ErrorPayload where
  code : ErrorCode
  message : String
deriving DecidableEq, Repr

/-- `Value` stands for the objects among the JSON values; every result of the daemon is one. -/
structure Response (Value : Type) where
  id : UInt64
  result : Option Value
  error : Option ErrorPayload
deriving DecidableEq, Repr

/-! ## Frames -/

/-- The longest payload either side takes. -/
def maxFrameBytes : Nat := 16 * 1024 * 1024

/-- What `read_frame` reports. -/
def frameError (eof : String) : Frames.ReadError → EngineError
  | .length => .internal ("ipc read length: " ++ eof)
  | .tooLarge declared =>
      .internal s!"ipc frame too large: {declared} bytes (max {maxFrameBytes})"
  | .body => .internal ("ipc read body: " ++ eof)

/-- Read from a stream that has ended; `eof` is what the system says of the end. -/
def readFrame (eof : String) (stream : Bytes) : Except EngineError (Bytes × Bytes) :=
    (Frames.read 4 maxFrameBytes stream).mapError (frameError eof)

/-- The conversion of the length to `u32` cannot fail after the test. -/
def writeFrame (payload : Bytes) : Except EngineError Bytes :=
    if maxFrameBytes < payload.length then
      .error (.internal
        s!"ipc frame body too large: {payload.length} bytes (max {maxFrameBytes})")
    else .ok (Frames.frame 4 payload)

/-- Read `n` frames. -/
def readFrames (eof : String) : Nat → Bytes → Except EngineError (List Bytes × Bytes)
  | 0, stream => .ok ([], stream)
  | n + 1, stream => do
      let (payload, rest) ← readFrame eof stream
      let (payloads, left) ← readFrames eof n rest
      return (payload :: payloads, left)

/-- Write one frame after the other. -/
def writeFrames : List Bytes → Except EngineError Bytes
  | [] => .ok []
  | payload :: more => do
      let wire ← writeFrame payload
      let wires ← writeFrames more
      return wire ++ wires

theorem writeFrame_eq_ok {payload wire : Bytes} :
    writeFrame payload = .ok wire ↔
      payload.length ≤ maxFrameBytes ∧ wire = Frames.frame 4 payload := by
  unfold writeFrame
  split
  · rename_i large
    simp only [reduceCtorEq, false_iff]
    omega
  · rename_i allowed
    simp only [Except.ok.injEq, Nat.not_lt.1 allowed, true_and]
    exact eq_comm

theorem writeFrames_eq_ok {payloads : List Bytes} {wire : Bytes} :
    writeFrames payloads = .ok wire ↔
      (∀ payload ∈ payloads, payload.length ≤ maxFrameBytes) ∧
        wire = (payloads.map (Frames.frame 4)).flatten := by
  induction payloads generalizing wire with
  | nil =>
      simp only [writeFrames, Except.ok.injEq]
      simp [eq_comm]
  | cons payload more ih =>
      simp only [writeFrames, Fallible.bind_eq_ok, writeFrame_eq_ok, ih, Fallible.pure_eq_ok,
        Except.ok.injEq, List.forall_mem_cons, List.map_cons, List.flatten_cons]
      constructor
      · rintro ⟨_, ⟨allowed, rfl⟩, _, ⟨others, rfl⟩, rfl⟩
        exact ⟨⟨allowed, others⟩, rfl⟩
      · rintro ⟨⟨allowed, others⟩, rfl⟩
        exact ⟨_, ⟨allowed, rfl⟩, _, ⟨others, rfl⟩, rfl⟩

theorem readFrames_eq_ok {eof : String} {n : Nat} {stream rest : Bytes} {payloads : List Bytes} :
    readFrames eof n stream = .ok (payloads, rest) ↔
      Frames.readMany 4 maxFrameBytes n stream = .ok (payloads, rest) := by
  induction n generalizing stream payloads rest with
  | zero => simp [readFrames, Frames.readMany]
  | succ n ih =>
      simp only [readFrames, Frames.readMany, readFrame, Fallible.bind_eq_ok,
        Fallible.mapError_eq_ok, Fallible.pure_eq_ok, Except.ok.injEq, Prod.exists, ih]

theorem readFrames_written (eof : String) {payloads : List Bytes} {wire : Bytes}
    (written : writeFrames payloads = .ok wire) (rest : Bytes) :
    readFrames eof payloads.length (wire ++ rest) = .ok (payloads, rest) := by
  rcases writeFrames_eq_ok.1 written with ⟨allowed, rfl⟩
  rw [readFrames_eq_ok, Frames.readMany_eq_ok_iff (by decide)]
  exact ⟨rfl, allowed, rfl⟩

theorem readFrame_too_large (eof : String) {declared : Nat} (large : maxFrameBytes < declared)
    (fits : declared < 256 ^ 4) (rest : Bytes) :
    readFrame eof (Frames.bigEndian 4 declared ++ rest) =
      .error (frameError eof (.tooLarge declared)) := by
  rw [readFrame, Frames.read_bigEndian fits large rest]
  rfl

/-- Reading and writing of frames are each other's inverse, over any number of frames on a stream
and whatever follows them; and a stream that was cut off anywhere is refused. Neither side takes a
payload of more than 16 MiB. -/
theorem frames_exact (eof : String) (payloads : List Bytes) :
    (∀ stream rest, readFrames eof payloads.length stream = .ok (payloads, rest) ↔
      ∃ wire, writeFrames payloads = .ok wire ∧ stream = wire ++ rest) ∧
    (∀ wire, writeFrames payloads = .ok wire → ∀ m, m < wire.length →
      ∃ e, readFrames eof payloads.length (wire.take m) = .error e) ∧
    (∀ payload : Bytes, (∃ wire, writeFrame payload = .ok wire) ↔
      payload.length ≤ 16 * 1024 * 1024) ∧
    ∀ declared rest, 16 * 1024 * 1024 < declared → declared < 256 ^ 4 →
      readFrame eof (Frames.bigEndian 4 declared ++ rest) =
        .error (frameError eof (.tooLarge declared)) := by
  refine ⟨?_, ?_, ?_, ?_⟩
  · intro stream rest
    constructor
    · intro ran
      rw [readFrames_eq_ok, Frames.readMany_eq_ok_iff (by decide)] at ran
      rcases ran with ⟨-, allowed, rfl⟩
      exact ⟨_, writeFrames_eq_ok.2 ⟨allowed, rfl⟩, rfl⟩
    · rintro ⟨wire, written, rfl⟩
      exact readFrames_written eof written rest
  · intro wire written m cut
    cases ran : readFrames eof payloads.length (wire.take m) with
    | error e => exact ⟨e, rfl⟩
    | ok read =>
        rcases read with ⟨others, left⟩
        rw [readFrames_eq_ok, Frames.readMany_eq_ok_iff (by decide)] at ran
        rcases ran with ⟨count, allowed, part⟩
        -- The rest of the wire would only add to what is left over.
        have again := readFrames_written eof (writeFrames_eq_ok.2 ⟨allowed, rfl⟩)
          (left ++ wire.drop m)
        rw [count, ← List.append_assoc, ← part, List.take_append_drop] at again
        have whole := readFrames_written eof written []
        rw [List.append_nil, again] at whole
        simp only [Except.ok.injEq, Prod.mk.injEq, List.append_eq_nil_iff,
          List.drop_eq_nil_iff] at whole
        omega
  · intro payload
    simp only [writeFrame_eq_ok, exists_and_left, exists_eq, and_true, maxFrameBytes]
  · intro declared rest large fits
    exact readFrame_too_large eof (by rwa [maxFrameBytes]) fits rest

/-! ## Dispatch -/

/-- `serde_json` on the envelopes and on what they carry. -/
structure Json (Value Found Explained ResponseMeta : Type) where
  requestToVec : Request → Except String Bytes
  requestFromSlice : Bytes → Except String Request
  responseToVec : Response Value → Except String Bytes
  responseFromSlice : Bytes → Except String (Response Value)
  foundToValue : Found → Except String Value
  foundFromValue : Value → Except String Found
  explainedToValue : Explained → Except String Value
  explainedFromValue : Value → Except String Explained
  metaToValue : ResponseMeta → Except String Value
  metaFromValue : Value → Except String ResponseMeta
  /-- An object with one field that is true. -/
  flag : String → Value
  /-- A value after it was written and read; a float need not be the same number. -/
  reparse : Value → Value
  requestFromSlice_toVec : ∀ req body, requestToVec req = .ok body → requestFromSlice body = .ok req
  responseFromSlice_toVec : ∀ resp body, responseToVec resp = .ok body →
    responseFromSlice body = .ok { resp with result := resp.result.map reparse }
  foundFromValue_reparse : ∀ found value, foundToValue found = .ok value →
    foundFromValue (reparse value) = .ok found
  explainedFromValue_reparse : ∀ explained value, explainedToValue explained = .ok value →
    explainedFromValue (reparse value) = .ok explained
  metaFromValue_reparse : ∀ responseMeta value, metaToValue responseMeta = .ok value →
    metaFromValue (reparse value) = .ok responseMeta

/-- What the engine answers when it is asked. -/
structure Engine (Found Explained ResponseMeta : Type) where
  findPattern : String → Retriever.PatternQuery → Except EngineError Found
  explainChange : String → ExplainQuery → Except EngineError Explained
  invalidateRepo : String → Except EngineError Unit
  indexStatus : String → Except EngineError ResponseMeta

variable {Value Found Explained ResponseMeta : Type}

/-- The engine's error, as a response carries it. -/
def engineErrorToPayload (e : EngineError) : ErrorPayload :=
    match e with
    | .noIndex _ => ⟨.notIndexed, e.text⟩
    | .needsRebuild _ => ⟨.needsRebuild, e.text⟩
    | .notImplemented _ => ⟨.notImplemented, e.text⟩
    | _ => ⟨.internal, e.text⟩

/-- A response that refuses a request. -/
def errorResponse (id : UInt64) (code : ErrorCode) (message : String) : Response Value where
  id := id
  result := none
  error := some ⟨code, message⟩

/-- The engine's answer under the id of the request. -/
def respond (id : UInt64) : Except EngineError Value → Response Value
  | .ok value => ⟨id, some value, none⟩
  | .error e => ⟨id, none, some (engineErrorToPayload e)⟩

/-- The answer as a JSON value. -/
def toValue {α : Type} (write : α → Except String Value) (answer : Except EngineError α) :
    Except EngineError Value := do
  let result ← answer
  (write result).mapError EngineError.internal

/-- The methods that are about a repository. -/
def withRepoPath (req : Request) (method : String) (serve : String → Except EngineError Value) :
    Response Value :=
    match req.repoPath with
    | some path => respond req.id (serve path)
    | none => errorResponse req.id .internal (method ++ " requires repo_path")

/-- The answer to a request: its own, or that of the engine. -/
def dispatch (json : Json Value Found Explained ResponseMeta)
    (engine : Engine Found Explained ResponseMeta) (req : Request) : Response Value :=
    match req.method with
    | .ping => respond req.id (.ok (json.flag "pong"))
    | .shutdown => respond req.id (.ok (json.flag "shutting_down"))
    | .findPattern q =>
        withRepoPath req "find_pattern" fun path =>
          toValue json.foundToValue (engine.findPattern path q)
    | .explainChange q =>
        withRepoPath req "explain_change" fun path =>
          toValue json.explainedToValue (engine.explainChange path q)
    | .invalidateRepo =>
        withRepoPath req "invalidate_repo" fun path =>
          (engine.invalidateRepo path).map fun () => json.flag "invalidated"
    | .indexStatus =>
        withRepoPath req "index_status" fun path =>
          toValue json.metaToValue (engine.indexStatus path)
    | .metrics => respond req.id (.error (.notImplemented "metrics"))

@[simp]
theorem respond_id (id : UInt64) (answer : Except EngineError Value) :
    (respond id answer).id = id := by
  cases answer <;> rfl

/-- The correlation id is echoed. -/
@[simp]
theorem dispatch_id (json : Json Value Found Explained ResponseMeta)
    (engine : Engine Found Explained ResponseMeta) (req : Request) :
    (dispatch json engine req).id = req.id := by
  unfold dispatch
  split
  case h_1 | h_2 | h_7 => simp
  all_goals
    unfold withRepoPath
    split <;> simp [errorResponse]

/-! ## The two ends of a connection -/

section Ends

variable (json : Json Value Found Explained ResponseMeta)

/-- What the client writes. -/
def requestWire (req : Request) : Except EngineError Bytes := do
  let body ← (json.requestToVec req).mapError fun e => .internal ("encode: " ++ e)
  writeFrame body

/-- The request in a payload. -/
def decodeRequest (body : Bytes) : Except EngineError Request :=
    (json.requestFromSlice body).mapError fun e => .internal ("decode request: " ++ e)

/-- What the daemon writes. -/
def replyWire (resp : Response Value) : Except EngineError Bytes := do
  let body ← (json.responseToVec resp).mapError fun e => .internal ("encode response: " ++ e)
  writeFrame body

/-- The response in a payload. -/
def decodeResponse (body : Bytes) : Except EngineError (Response Value) :=
    (json.responseFromSlice body).mapError fun e => .internal ("decode response: " ++ e)

/-- A response as its reader has it. -/
def received (resp : Response Value) : Response Value :=
    { resp with result := resp.result.map json.reparse }

variable {json}

theorem requestWire_eq_ok {req : Request} {wire : Bytes}
    (written : requestWire json req = .ok wire) :
    ∃ body, body.length ≤ maxFrameBytes ∧ wire = Frames.frame 4 body ∧
      decodeRequest json body = .ok req := by
  simp only [requestWire, Fallible.bind_eq_ok, Fallible.mapError_eq_ok, writeFrame_eq_ok] at written
  rcases written with ⟨body, encoded, allowed, rfl⟩
  refine ⟨body, allowed, rfl, ?_⟩
  rw [decodeRequest, json.requestFromSlice_toVec req body encoded]
  rfl

theorem replyWire_eq_ok {resp : Response Value} {wire : Bytes}
    (written : replyWire json resp = .ok wire) :
    ∃ body, body.length ≤ maxFrameBytes ∧ wire = Frames.frame 4 body ∧
      decodeResponse json body = .ok (received json resp) := by
  simp only [replyWire, Fallible.bind_eq_ok, Fallible.mapError_eq_ok, writeFrame_eq_ok] at written
  rcases written with ⟨body, encoded, allowed, rfl⟩
  refine ⟨body, allowed, rfl, ?_⟩
  rw [decodeResponse, json.responseFromSlice_toVec resp body encoded]
  rfl

end Ends

end Ipc

end Ohara
