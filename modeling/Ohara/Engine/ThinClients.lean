import Ohara.Engine.IpcSound
import Ohara.Engine.Registry

/-!
# Commands that ask the daemon first

The command line and the MCP server route a request through the daemon and fall back to an engine
of their own whenever the daemon does not answer. Where the two engines agree, the user cannot tell
which one answered.
-/

namespace Ohara

namespace Ipc

variable {Value Found Explained ResponseMeta : Type}

/-- Any failure is `none`. -/
def tryDaemonCall {ε : Type} (discovered : Except ε (Option Registry.DaemonHandle))
    (call : Registry.DaemonHandle → Except EngineError (Response Value)) :
    Option (Response Value) :=
    match discovered with
    | .ok (some h) =>
        match call h with
        | .ok r => some r
        | .error _ => none
    | .ok none => none
    | .error _ => none

/-! ## The command line -/

namespace Cli

/-- The refusal with its hint. -/
def rebuildRefusal (message : String) : String :=
    message ++ "\nRun `ohara index --rebuild` in this repo first."

/-- The text of an error, with a hint where a rebuild is needed. -/
def rebuildAware (e : EngineError) : String :=
    match e with
    | .needsRebuild _ => rebuildRefusal e.text
    | _ => e.text

/-- What the CLI does about an error of the daemon. -/
inductive ErrorAction where
  | surface (message : String)
  | fallback
deriving DecidableEq, Repr

/-- Only the need of a rebuild is shown; any other error falls back. -/
def classifyDaemonError (err : ErrorPayload) : ErrorAction :=
    match err.code with
    | .needsRebuild => .surface (rebuildRefusal err.message)
    | _ => .fallback

/-- What is printed for a response, or the answer without the daemon. -/
def handleDaemonResponse (json : Json Value Found Explained ResponseMeta) (resp : Response Value)
    (standalone : Except String Found) : Except String Found :=
    match resp.error with
    | some err =>
        match classifyDaemonError err with
        | .surface message => .error message
        | .fallback => standalone
    | none =>
        match resp.result with
        | some value =>
            (json.foundFromValue value).mapError fun e => "decode FindPatternResult: " ++ e
        | none => .error "daemon response missing result"

/-- `ohara query`, with what its own engine would answer. -/
def query (json : Json Value Found Explained ResponseMeta) (daemonResp : Option (Response Value))
    (inProcess : Except EngineError Found) : Except String Found :=
    match daemonResp with
    | some resp => handleDaemonResponse json resp (inProcess.mapError rebuildAware)
    | none => inProcess.mapError rebuildAware

/-- `ohara explain`, whose own path goes to the storage and the blamer directly. -/
def explain (json : Json Value Found Explained ResponseMeta) (daemonResp : Option (Response Value))
    (standalone : Except String Explained) : Except String Explained :=
    match daemonResp with
    | some resp =>
        match resp.error with
        | some _ => standalone
        | none =>
            match resp.result with
            | some value =>
                (json.explainedFromValue value).mapError fun e => "decode ExplainResult: " ++ e
            | none => .error "daemon response missing result"
    | none => standalone

end Cli

/-! ## The MCP server -/

namespace Mcp

/-- The errors of an MCP tool. -/
inductive RmcpError where
  | invalidParams (message : String)
  | internalError (message : String)
deriving DecidableEq, Repr

/-- The refusal, as the tool words it. -/
def rebuildRefusal (detail : String) : RmcpError :=
    .invalidParams ("find_pattern refuses to run: " ++ detail ++
      ". Run `ohara index --rebuild` in this repo first.")

/-- The engine's error, as the tool reports it. -/
def mapEngineError (e : EngineError) : RmcpError :=
    match e with
    | .needsRebuild reason => rebuildRefusal ("index needs rebuild (" ++ reason ++ ")")
    | _ => .internalError e.text

/-- What the tool answers for a response of the daemon. -/
def decodeFindPattern (json : Json Value Found Explained ResponseMeta) (resp : Response Value) :
    Except RmcpError Found :=
    match resp.error with
    | some err =>
        if err.code = .needsRebuild then .error (rebuildRefusal err.message)
        else .error (.internalError err.message)
    | none =>
        match resp.result with
        | some value =>
            (json.foundFromValue value).mapError fun e =>
              .internalError ("decode FindPatternResult: " ++ e)
        | none => .error (.internalError "daemon response missing result")

/-- The result of a response without an error. -/
def decodeOk {α : Type} (fromValue : Value → Except String α) (resp : Response Value) : Option α :=
    match resp.error with
    | some _ => none
    | none => resp.result.bind fun value => (fromValue value).toOption

/-- A method the daemon does not know counts for no response. -/
def filterNotImplemented (resp : Option (Response Value)) : Option (Response Value) :=
    match resp with
    | some r =>
        match r.error with
        | some e => if e.code = .notImplemented then none else some r
        | none => some r
    | none => none

/-- The response to a call, when a daemon is to be used. -/
def daemonCall (useDaemon : Bool) (resp : Option (Response Value)) : Option (Response Value) :=
    if useDaemon then filterNotImplemented resp else none

/-- The tool `find_pattern`, up to the envelope that it makes of a result. -/
def findPattern (json : Json Value Found Explained ResponseMeta) (daemon : Option (Response Value))
    (inProcess : Except EngineError Found) : Except RmcpError Found :=
    match daemon with
    | some resp => decodeFindPattern json resp
    | none => inProcess.mapError mapEngineError

/-- The answers of the server's own engine. -/
def explainInProcess (explained : Except EngineError Explained)
    (status : Except EngineError ResponseMeta) : Except RmcpError (Explained × ResponseMeta) := do
  let explainResult ← explained.mapError fun e => .internalError e.text
  let responseMeta ← status.mapError fun e => .internalError e.text
  return (explainResult, responseMeta)

/-- The tool `explain_change`: two calls, and the daemon's answers only when it gives both. -/
def explainChange (json : Json Value Found Explained ResponseMeta)
    (daemonExplain daemonStatus : Option (Response Value))
    (explained : Except EngineError Explained) (status : Except EngineError ResponseMeta) :
    Except RmcpError (Explained × ResponseMeta) :=
    match daemonExplain with
    | some resp =>
        match decodeOk json.explainedFromValue resp,
          daemonStatus.bind (decodeOk json.metaFromValue) with
        | some explainResult, some responseMeta => .ok (explainResult, responseMeta)
        | _, _ => explainInProcess explained status
    | none => explainInProcess explained status

end Mcp

/-! ## Transparency -/

/-- What the caller has when its call came back: nothing, or the answer to its request. -/
def AnswerOf (json : Json Value Found Explained ResponseMeta) (req : Request)
    (engines : List (Engine Found Explained ResponseMeta)) (resp : Option (Response Value)) : Prop :=
    resp = none ∨ ∃ engine ∈ engines, resp = some (received json (dispatch json engine req))

section Answers

variable {json : Json Value Found Explained ResponseMeta}
  {engines : List (Engine Found Explained ResponseMeta)} {req : Request}
  {resp : Option (Response Value)} {path : String}

/-- What arrives of an answer: its value as it was read again, or the error. -/
theorem received_respond {α : Type} (id : UInt64) (write : α → Except String Value)
    (answer : Except EngineError α) :
    (∃ a value, answer = .ok a ∧ write a = .ok value ∧
        received json (respond id (toValue write answer)) = ⟨id, some (json.reparse value), none⟩) ∨
      (∃ a e, answer = .ok a ∧ write a = .error e ∧
        received json (respond id (toValue write answer)) =
          ⟨id, none, some (engineErrorToPayload (.internal e))⟩) ∨
      ∃ e, answer = .error e ∧
        received json (respond id (toValue write answer)) =
          ⟨id, none, some (engineErrorToPayload e)⟩ := by
  cases answer with
  | error e => exact Or.inr (Or.inr ⟨e, rfl, rfl⟩)
  | ok a =>
      cases written : write a with
      | ok value =>
          left
          refine ⟨a, value, rfl, written, ?_⟩
          simp [toValue, respond, received, written]
      | error e =>
          right
          left
          refine ⟨a, e, rfl, written, ?_⟩
          simp [toValue, respond, received, written]

theorem dispatch_findPattern {engine : Engine Found Explained ResponseMeta}
    {q : Retriever.PatternQuery} (method : req.method = .findPattern q)
    (repoPath : req.repoPath = some path) :
    dispatch json engine req =
      respond req.id (toValue json.foundToValue (engine.findPattern path q)) := by
  simp [dispatch, method, withRepoPath, repoPath]

theorem dispatch_explainChange {engine : Engine Found Explained ResponseMeta} {q : ExplainQuery}
    (method : req.method = .explainChange q) (repoPath : req.repoPath = some path) :
    dispatch json engine req =
      respond req.id (toValue json.explainedToValue (engine.explainChange path q)) := by
  simp [dispatch, method, withRepoPath, repoPath]

theorem dispatch_indexStatus {engine : Engine Found Explained ResponseMeta}
    (method : req.method = .indexStatus) (repoPath : req.repoPath = some path) :
    dispatch json engine req =
      respond req.id (toValue json.metaToValue (engine.indexStatus path)) := by
  simp [dispatch, method, withRepoPath, repoPath]

theorem message_payload (e : EngineError) : (engineErrorToPayload e).message = e.text := by
  cases e <;> rfl

theorem Cli.query_transparent {q : Retriever.PatternQuery} {inProcess : Except EngineError Found}
    (method : req.method = .findPattern q) (repoPath : req.repoPath = some path)
    (agree : ∀ engine ∈ engines, engine.findPattern path q = inProcess)
    (answer : AnswerOf json req engines resp) :
    Cli.query json resp inProcess = Cli.query json none inProcess := by
  rcases answer with rfl | ⟨engine, engine_mem, rfl⟩
  · rfl
  rw [dispatch_findPattern method repoPath, agree engine engine_mem]
  rcases @received_respond _ _ _ _ json _ req.id json.foundToValue inProcess with
    ⟨found, value, rfl, written, arrives⟩ | ⟨found, e, rfl, -, arrives⟩ | ⟨e, rfl, arrives⟩
  · simp [query, arrives, handleDaemonResponse, json.foundFromValue_reparse found value written]
  · simp [query, arrives, handleDaemonResponse, classifyDaemonError, engineErrorToPayload]
  · cases e <;>
      simp [query, arrives, handleDaemonResponse, classifyDaemonError, engineErrorToPayload,
        rebuildAware]

theorem Cli.explain_transparent {q : ExplainQuery} {standalone : Except String Explained}
    (method : req.method = .explainChange q) (repoPath : req.repoPath = some path)
    (agree : ∀ engine ∈ engines, ∀ explained, engine.explainChange path q = .ok explained →
      standalone = .ok explained)
    (answer : AnswerOf json req engines resp) :
    Cli.explain json resp standalone = standalone := by
  rcases answer with rfl | ⟨engine, engine_mem, rfl⟩
  · rfl
  rw [dispatch_explainChange method repoPath]
  rcases @received_respond _ _ _ _ json _ req.id json.explainedToValue
    (engine.explainChange path q) with
    ⟨explained, value, answered, written, arrives⟩ | ⟨-, e, -, -, arrives⟩ | ⟨e, -, arrives⟩
  · rw [agree engine engine_mem explained answered]
    simp [explain, arrives, json.explainedFromValue_reparse explained value written]
  · simp [explain, arrives]
  · simp [explain, arrives]

namespace Mcp

theorem daemonCall_cases (useDaemon : Bool) (resp : Option (Response Value)) :
    daemonCall useDaemon resp = none ∨ daemonCall useDaemon resp = resp := by
  unfold daemonCall filterNotImplemented
  split
  · split
    · split
      · split
        · exact Or.inl rfl
        · exact Or.inr rfl
      · exact Or.inr rfl
    · exact Or.inl rfl
  · exact Or.inl rfl

/-- The same outcome; a refusal is worded differently by the daemon. -/
def SameUpToRefusal (inProcess : Except EngineError Found) (viaDaemon own : Except RmcpError Found) :
    Prop :=
    viaDaemon = own ∨ ∃ reason, inProcess = .error (.needsRebuild reason) ∧
      viaDaemon = .error (rebuildRefusal ("index needs rebuild: " ++ reason)) ∧
      own = .error (rebuildRefusal ("index needs rebuild (" ++ reason ++ ")"))

theorem findPattern_transparent {q : Retriever.PatternQuery}
    {inProcess : Except EngineError Found} (method : req.method = .findPattern q)
    (repoPath : req.repoPath = some path)
    (agree : ∀ engine ∈ engines, engine.findPattern path q = inProcess)
    (serialises : ∀ found, inProcess = .ok found → ∃ value, json.foundToValue found = .ok value)
    (useDaemon : Bool) (answer : AnswerOf json req engines resp) :
    SameUpToRefusal inProcess (findPattern json (daemonCall useDaemon resp) inProcess)
      (findPattern json none inProcess) := by
  rcases daemonCall_cases useDaemon resp with none_left | same
  · exact Or.inl (by rw [none_left])
  rw [same]
  rcases answer with rfl | ⟨engine, engine_mem, rfl⟩
  · exact Or.inl rfl
  rw [dispatch_findPattern method repoPath, agree engine engine_mem]
  rcases @received_respond _ _ _ _ json _ req.id json.foundToValue inProcess with
    ⟨found, value, rfl, written, arrives⟩ | ⟨found, e, rfl, unwritten, -⟩ | ⟨e, rfl, arrives⟩
  · left
    simp [findPattern, arrives, decodeFindPattern, json.foundFromValue_reparse found value written]
  · rcases serialises found rfl with ⟨value, written⟩
    rw [unwritten] at written
    cases written
  · cases e with
    | needsRebuild reason =>
        have code : (engineErrorToPayload (.needsRebuild reason)).code = .needsRebuild := rfl
        have refused : decodeFindPattern json
            ⟨req.id, none, some (engineErrorToPayload (.needsRebuild reason))⟩ =
            .error (rebuildRefusal ("index needs rebuild: " ++ reason)) := by
          rw [decodeFindPattern]
          simp only [code, if_true, message_payload]
          exact congrArg (fun text => Except.error (rebuildRefusal text)) rfl
        refine Or.inr ⟨reason, rfl, ?_, ?_⟩
        · rw [findPattern, arrives, refused]
        · rw [findPattern, Fallible.mapError_error, mapEngineError]
    | _ =>
        left
        simp [findPattern, arrives, decodeFindPattern, engineErrorToPayload, mapEngineError]

/-- What is decoded of an answer is the answer. -/
theorem decodeOk_received {α : Type} {write : α → Except String Value}
    {fromValue : Value → Except String α}
    (law : ∀ a value, write a = .ok value → fromValue (json.reparse value) = .ok a)
    {id : UInt64} {answer : Except EngineError α} {a : α}
    (decoded : decodeOk fromValue (received json (respond id (toValue write answer))) = some a) :
    answer = .ok a := by
  rcases @received_respond _ _ _ _ json _ id write answer with
    ⟨b, value, rfl, written, arrives⟩ | ⟨b, e, -, -, arrives⟩ | ⟨e, -, arrives⟩
  · simp only [decodeOk, arrives, Option.bind_some, law b value written] at decoded
    cases decoded
    rfl
  · simp [decodeOk, arrives] at decoded
  · simp [decodeOk, arrives] at decoded

theorem explainChange_transparent {q : ExplainQuery} {statusReq : Request}
    {statusEngines : List (Engine Found Explained ResponseMeta)}
    {statusResp : Option (Response Value)} {explained : Except EngineError Explained}
    {status : Except EngineError ResponseMeta} (method : req.method = .explainChange q)
    (repoPath : req.repoPath = some path) (statusMethod : statusReq.method = .indexStatus)
    (statusPath : statusReq.repoPath = some path)
    (agree : ∀ engine ∈ engines, engine.explainChange path q = explained)
    (statusAgree : ∀ engine ∈ statusEngines, engine.indexStatus path = status) (useDaemon : Bool)
    (answer : AnswerOf json req engines resp)
    (statusAnswer : AnswerOf json statusReq statusEngines statusResp) :
    explainChange json (daemonCall useDaemon resp) (daemonCall useDaemon statusResp) explained
      status = explainInProcess explained status := by
  unfold explainChange
  split
  · rename_i r found
    split
    · rename_i explainResult responseMeta decoded decodedMeta
      have explained_eq : explained = .ok explainResult := by
        rcases daemonCall_cases useDaemon resp with none_left | same
        · rw [none_left] at found
          cases found
        · rw [same] at found
          subst found
          rcases answer with absent | ⟨engine, engine_mem, arrives⟩
          · cases absent
          cases arrives
          rw [dispatch_explainChange method repoPath] at decoded
          rw [← agree engine engine_mem]
          exact decodeOk_received json.explainedFromValue_reparse decoded
      have status_eq : status = .ok responseMeta := by
        rcases Option.bind_eq_some_iff.1 decodedMeta with ⟨m, found_meta, decoded_m⟩
        rcases daemonCall_cases useDaemon statusResp with none_left | same
        · rw [none_left] at found_meta
          cases found_meta
        · rw [same] at found_meta
          subst found_meta
          rcases statusAnswer with absent | ⟨engine, engine_mem, arrives⟩
          · cases absent
          cases arrives
          rw [dispatch_indexStatus statusMethod statusPath] at decoded_m
          rw [← statusAgree engine engine_mem]
          exact decodeOk_received json.metaFromValue_reparse decoded_m
      rw [explained_eq, status_eq]
      rfl
    · rfl
  · rfl

end Mcp

end Answers

/-! ## Whole runs -/

section Runs

variable {json : Json Value Found Explained ResponseMeta}
  {events : List (Event Found Explained ResponseMeta)}
  {s : System Value Found Explained ResponseMeta}
  {conn statusConn : Conn Value Found Explained ResponseMeta}
  {result statusResult : Except EngineError (Response Value)} {path : String} {ε : Type}

/-- A call that came back has the answer to its request or none. -/
theorem System.Served.answerOf (served : System.Served json conn)
    (returned : conn.client = .returned result)
    (discovered : Except ε (Option Registry.DaemonHandle)) :
    AnswerOf json conn.request conn.answered (tryDaemonCall discovered fun _ => result) := by
  unfold tryDaemonCall
  split
  · cases result with
    | error e => exact Or.inl rfl
    | ok reply =>
        rcases served.correlated reply returned with ⟨engine, answered, rfl, -⟩
        exact Or.inr ⟨engine, by simp [answered], rfl⟩
  · exact Or.inl rfl
  · exact Or.inl rfl

/-- In every run of the daemon, when its engine answers this query as the caller's own engine would,
`ohara query` prints what it would print without a daemon, and so does the MCP tool, up to the
wording of a refusal: whatever happens to the daemon, the connection and the other clients. -/
theorem find_pattern_transparent
    (ran : Execution.run (System.next json) System.bound events = some s)
    (conn_mem : conn ∈ s.conns) (returned : conn.client = .returned result)
    {q : Retriever.PatternQuery} (method : conn.request.method = .findPattern q)
    (repoPath : conn.request.repoPath = some path) {inProcess : Except EngineError Found}
    (agree : ∀ engine ∈ conn.answered, engine.findPattern path q = inProcess)
    (serialises : ∀ found, inProcess = .ok found → ∃ value, json.foundToValue found = .ok value)
    (discovered : Except ε (Option Registry.DaemonHandle)) (useDaemon : Bool) :
    Cli.query json (tryDaemonCall discovered fun _ => result) inProcess =
        Cli.query json none inProcess ∧
      Mcp.SameUpToRefusal inProcess
        (Mcp.findPattern json (Mcp.daemonCall useDaemon (tryDaemonCall discovered fun _ => result))
          inProcess)
        (Mcp.findPattern json none inProcess) := by
  have served := (System.runs_served ran) conn conn_mem
  have answer := served.answerOf returned discovered
  exact ⟨Cli.query_transparent method repoPath agree answer,
    Mcp.findPattern_transparent method repoPath agree serialises useDaemon answer⟩

/-- The same of `ohara explain` and of the MCP tool `explain_change`, which makes two calls. -/
theorem explain_change_transparent
    (ran : Execution.run (System.next json) System.bound events = some s)
    (conn_mem : conn ∈ s.conns) (returned : conn.client = .returned result)
    (status_mem : statusConn ∈ s.conns) (statusReturned : statusConn.client = .returned statusResult)
    {q : ExplainQuery} (method : conn.request.method = .explainChange q)
    (repoPath : conn.request.repoPath = some path)
    (statusMethod : statusConn.request.method = .indexStatus)
    (statusPath : statusConn.request.repoPath = some path)
    {explained : Except EngineError Explained} {status : Except EngineError ResponseMeta}
    {standalone : Except String Explained}
    (agree : ∀ engine ∈ conn.answered, engine.explainChange path q = explained)
    (statusAgree : ∀ engine ∈ statusConn.answered, engine.indexStatus path = status)
    (own : ∀ answer, explained = .ok answer → standalone = .ok answer)
    (discovered : Except ε (Option Registry.DaemonHandle)) (useDaemon : Bool) :
    Cli.explain json (tryDaemonCall discovered fun _ => result) standalone = standalone ∧
      Mcp.explainChange json
        (Mcp.daemonCall useDaemon (tryDaemonCall discovered fun _ => result))
        (Mcp.daemonCall useDaemon (tryDaemonCall discovered fun _ => statusResult))
        explained status = Mcp.explainInProcess explained status := by
  have answer := (System.runs_served ran conn conn_mem).answerOf returned discovered
  have statusAnswer :=
    (System.runs_served ran statusConn status_mem).answerOf statusReturned discovered
  constructor
  · refine Cli.explain_transparent method repoPath ?_ answer
    intro engine engine_mem answered explained_eq
    exact own answered (by rw [← agree engine engine_mem, explained_eq])
  · exact Mcp.explainChange_transparent method repoPath statusMethod statusPath agree statusAgree
      useDaemon answer statusAnswer

end Runs

/-! ### An index and a stale one, a repository and one that is gone -/

namespace Json

/-- A query in the repository. -/
def searched (path : String) : Request :=
    ⟨1, some path, .findPattern ⟨"retry", 5, none, none, false⟩⟩

/-- The hits of the query. -/
def hits : String := "\x7b\"hits\":[\"retry\"]\x7d"

/-- The texts of the query, of its answer and of its refusal. -/
def searching : Json String String String String :=
    exchange
      [(searched "/repo", ("\x7b\"id\":1,\"repo_path\":\"/repo\"," ++
          "\"method\":\"find_pattern\"," ++
          "\"params\":\x7b\"query\":\"retry\",\"k\":5,\"language\":null," ++
          "\"since_unix\":null,\"no_rerank\":false\x7d\x7d").toUTF8.data.toList),
        (searched "/old", ("\x7b\"id\":1,\"repo_path\":\"/old\"," ++
          "\"method\":\"find_pattern\"," ++
          "\"params\":\x7b\"query\":\"retry\",\"k\":5,\"language\":null," ++
          "\"since_unix\":null,\"no_rerank\":false\x7d\x7d").toUTF8.data.toList)]
      [(⟨1, some hits, none⟩,
          "\x7b\"id\":1,\"result\":\x7b\"hits\":[\"retry\"]\x7d\x7d".toUTF8.data.toList),
        (⟨1, none, some ⟨.needsRebuild, "index needs rebuild: embedding_model mismatch"⟩⟩,
          ("\x7b\"id\":1,\"error\":\x7b\"code\":\"needs_rebuild\"," ++
          "\"message\":\"index needs rebuild: embedding_model mismatch\"\x7d\x7d"
            ).toUTF8.data.toList)]
      flagged (by decide +kernel) (by decide +kernel)

/-- The request for an explanation. -/
def blamed (path : String) : Request :=
    ⟨1, some path, .explainChange ⟨"a.rs", 1, 9, 5, true, false⟩⟩

/-- The request for the index status. -/
def asked (path : String) : Request := ⟨1, some path, .indexStatus⟩

/-- The explanation. -/
def commits : String := "\x7b\"hits\":[\"one\",\"two\"]\x7d"

/-- The index status. -/
def current : String := "\x7b\"status\":\"compatible\"\x7d"

/-- The texts of the requests, of their answers and of their failures. -/
def explaining : Json String String String String :=
    exchange
      [(blamed "/repo", ("\x7b\"id\":1,\"repo_path\":\"/repo\"," ++
          "\"method\":\"explain_change\"," ++
          "\"params\":\x7b\"file\":\"a.rs\",\"line_start\":1," ++
          "\"line_end\":9,\"k\":5,\"include_diff\":true," ++
          "\"include_related\":false\x7d\x7d").toUTF8.data.toList),
        (asked "/repo", ("\x7b\"id\":1,\"repo_path\":\"/repo\"," ++
          "\"method\":\"index_status\"\x7d").toUTF8.data.toList),
        (blamed "/gone", ("\x7b\"id\":1,\"repo_path\":\"/gone\"," ++
          "\"method\":\"explain_change\"," ++
          "\"params\":\x7b\"file\":\"a.rs\",\"line_start\":1," ++
          "\"line_end\":9,\"k\":5,\"include_diff\":true," ++
          "\"include_related\":false\x7d\x7d").toUTF8.data.toList),
        (asked "/gone", ("\x7b\"id\":1,\"repo_path\":\"/gone\"," ++
          "\"method\":\"index_status\"\x7d").toUTF8.data.toList)]
      [(⟨1, some commits, none⟩,
          "\x7b\"id\":1,\"result\":\x7b\"hits\":[\"one\",\"two\"]\x7d\x7d".toUTF8.data.toList),
        (⟨1, some current, none⟩,
          "\x7b\"id\":1,\"result\":\x7b\"status\":\"compatible\"\x7d\x7d".toUTF8.data.toList),
        (⟨1, none, some ⟨.internal, "ohara-git: blamer open: gone"⟩⟩,
          ("\x7b\"id\":1,\"error\":\x7b\"code\":\"internal\"," ++
          "\"message\":\"ohara-git: blamer open: gone\"\x7d\x7d").toUTF8.data.toList),
        (⟨1, none, some ⟨.internal, "ohara-git: commits_behind open: gone"⟩⟩,
          ("\x7b\"id\":1,\"error\":\x7b\"code\":\"internal\"," ++
          "\"message\":\"ohara-git: commits_behind open: gone\"\x7d\x7d").toUTF8.data.toList)]
      flagged (by decide +kernel) (by decide +kernel)

end Json

/-- An engine with a current index, a stale one, and a repository that was removed. -/
def threeRepos : Engine String String String where
  findPattern path _ :=
    if path = "/repo" then .ok Json.hits else .error (.needsRebuild "embedding_model mismatch")
  explainChange path _ :=
    if path = "/repo" then .ok Json.commits else .error (.git "blamer open: gone")
  invalidateRepo _ := .ok ()
  indexStatus path :=
    if path = "/repo" then .ok Json.current else .error (.git "commits_behind open: gone")

namespace System

/-- The events of a call, by the lengths of its frames. -/
def roundTrip (id requestLength replyLength : Nat) : List (Event String String String) :=
    [.conn id (.clientWrite requestLength), .conn id (.handlerRead 4),
      .conn id (.handlerRead (requestLength - 4)), .conn id (.dispatch threeRepos),
      .conn id (.handlerWrite replyLength), .conn id (.clientRead 4),
      .conn id (.clientRead (replyLength - 4))]

/-- The second client has its answer before the first. -/
def searchRun : List (Event String String String) :=
    [.connect (Json.searched "/repo"), .connect (Json.searched "/old"), .accept 0, .accept 1] ++
      roundTrip 1 140 103 ++ roundTrip 0 141 40

/-- Two pairs of calls; those of a missing repository fail. -/
def explainRun : List (Event String String String) :=
    [.connect (Json.blamed "/repo"), .connect (Json.asked "/repo"), .accept 0, .accept 1,
        .connect (Json.blamed "/gone"), .accept 2] ++
      roundTrip 1 56 45 ++ roundTrip 2 161 81 ++ roundTrip 0 161 44 ++
      (.connect (Json.asked "/gone") :: .accept 3 :: roundTrip 3 56 89)

end System

/-- What the engine answers a request. -/
def Engine.answer (engine : Engine String String String) (req : Request) :
    Except EngineError String :=
    match req.method with
    | .findPattern q => engine.findPattern (req.repoPath.getD "") q
    | .explainChange q => engine.explainChange (req.repoPath.getD "") q
    | _ => engine.indexStatus (req.repoPath.getD "")

/-- The request of a connection, the response that came back, and what the engine answered. -/
structure Outcome where
  request : Request
  reply : Option (Response String)
  answers : List (Except EngineError String)
deriving DecidableEq

/-- What a connection has come to. -/
def Conn.outcome (conn : Conn String String String String) : Outcome where
  request := conn.request
  reply :=
    match conn.client with
    | .returned (.ok reply) => some reply
    | _ => none
  answers := conn.answered.map fun engine => engine.answer conn.request

theorem Conn.of_outcome {conn : Conn String String String String} {req : Request}
    {reply : Response String} {answer : Except EngineError String}
    (outcome : conn.outcome = ⟨req, some reply, [answer]⟩) :
    conn.request = req ∧ conn.client = .returned (.ok reply) ∧
      ∀ engine ∈ conn.answered, engine.answer req = answer := by
  rcases Outcome.mk.inj outcome with ⟨request, came_back, answers⟩
  refine ⟨request, ?_, ?_⟩
  · split at came_back
    · rename_i returned
      rw [returned, Option.some.inj came_back]
    · cases came_back
  · intro engine engine_mem
    have mem := List.mem_map_of_mem (f := fun engine => engine.answer conn.request) engine_mem
    rw [answers] at mem
    rw [← request]
    exact List.mem_singleton.1 mem

/-- A daemon was found. -/
def handle : Except String (Option Registry.DaemonHandle) :=
    .ok (some ⟨"/tmp/o.sock", 7, false⟩)

theorem query_answered_and_refused :
    ∃ s answered refused found refusal,
      Execution.run (System.next Json.searching) System.bound System.searchRun = some s ∧
      answered ∈ s.conns ∧ answered.client = .returned (.ok found) ∧
      refused ∈ s.conns ∧ refused.client = .returned (.ok refusal) ∧
      Cli.query Json.searching (tryDaemonCall handle fun _ => .ok found) (.ok Json.hits) =
        .ok Json.hits ∧
      Cli.query Json.searching (tryDaemonCall handle fun _ => .ok refusal)
        (.error (.needsRebuild "embedding_model mismatch")) =
        .error ("index needs rebuild: embedding_model mismatch\n" ++
          "Run `ohara index --rebuild` in this repo first.") := by
  have outcome : ((Execution.run (System.next Json.searching) System.bound System.searchRun).map
      fun s => s.conns.map Conn.outcome) =
      some [⟨Json.searched "/repo", some ⟨1, some Json.hits, none⟩, [.ok Json.hits]⟩,
        ⟨Json.searched "/old",
          some ⟨1, none, some ⟨.needsRebuild, "index needs rebuild: embedding_model mismatch"⟩⟩,
          [.error (.needsRebuild "embedding_model mismatch")]⟩] := by
    decide +kernel
  rcases Option.map_eq_some_iff.1 outcome with ⟨s, ran, conns_eq⟩
  rcases List.map_eq_cons_iff.1 conns_eq with ⟨answered, more, conns, answered_outcome, more_eq⟩
  rcases List.map_eq_cons_iff.1 more_eq with ⟨refused, none_left, more_conns, refused_outcome, -⟩
  have answered_mem : answered ∈ s.conns := by simp [conns]
  have refused_mem : refused ∈ s.conns := by simp [conns, more_conns]
  rcases Conn.of_outcome answered_outcome with ⟨request, returned, agree⟩
  rcases Conn.of_outcome refused_outcome with ⟨refusedRequest, refusedReturned, refusedAgree⟩
  have transparent := find_pattern_transparent ran answered_mem returned (by rw [request]; rfl)
    (by rw [request]; rfl) agree (fun found _ => ⟨found, rfl⟩) handle true
  have refusedTransparent := find_pattern_transparent ran refused_mem refusedReturned
    (by rw [refusedRequest]; rfl) (by rw [refusedRequest]; rfl) refusedAgree
    (fun found _ => ⟨found, rfl⟩) handle true
  exact ⟨s, answered, refused, _, _, ran, answered_mem, returned, refused_mem, refusedReturned,
    transparent.1, refusedTransparent.1⟩

theorem explain_answered_and_fell_back :
    ∃ s conn statusConn goneConn goneStatus result statusResult goneResult goneStatusResult,
      Execution.run (System.next Json.explaining) System.bound System.explainRun = some s ∧
      s.conns = [conn, statusConn, goneConn, goneStatus] ∧
      conn.client = .returned (.ok result) ∧ statusConn.client = .returned (.ok statusResult) ∧
      goneConn.client = .returned (.ok goneResult) ∧
      goneStatus.client = .returned (.ok goneStatusResult) ∧
      Mcp.explainChange Json.explaining
        (Mcp.daemonCall true (tryDaemonCall handle fun _ => .ok result))
        (Mcp.daemonCall true (tryDaemonCall handle fun _ => .ok statusResult))
        (.ok Json.commits) (.ok Json.current) = .ok (Json.commits, Json.current) ∧
      Mcp.explainChange Json.explaining
        (Mcp.daemonCall true (tryDaemonCall handle fun _ => .ok goneResult))
        (Mcp.daemonCall true (tryDaemonCall handle fun _ => .ok goneStatusResult))
        (.error (.git "blamer open: gone")) (.error (.git "commits_behind open: gone")) =
        .error (.internalError "ohara-git: blamer open: gone") := by
  have outcome : ((Execution.run (System.next Json.explaining) System.bound System.explainRun).map
      fun s => s.conns.map Conn.outcome) =
      some [⟨Json.blamed "/repo", some ⟨1, some Json.commits, none⟩, [.ok Json.commits]⟩,
        ⟨Json.asked "/repo", some ⟨1, some Json.current, none⟩, [.ok Json.current]⟩,
        ⟨Json.blamed "/gone", some ⟨1, none, some ⟨.internal, "ohara-git: blamer open: gone"⟩⟩,
          [.error (.git "blamer open: gone")]⟩,
        ⟨Json.asked "/gone",
          some ⟨1, none, some ⟨.internal, "ohara-git: commits_behind open: gone"⟩⟩,
          [.error (.git "commits_behind open: gone")]⟩] := by
    decide +kernel
  rcases Option.map_eq_some_iff.1 outcome with ⟨s, ran, conns_eq⟩
  rcases List.map_eq_cons_iff.1 conns_eq with ⟨conn, _, conns, conn_outcome, rest_eq⟩
  rcases List.map_eq_cons_iff.1 rest_eq with ⟨statusConn, _, rfl, status_outcome, rest_eq⟩
  rcases List.map_eq_cons_iff.1 rest_eq with ⟨goneConn, _, rfl, gone_outcome, rest_eq⟩
  rcases List.map_eq_cons_iff.1 rest_eq with ⟨goneStatus, _, rfl, goneStatus_outcome, none_left⟩
  rw [List.map_eq_nil_iff.1 none_left] at conns
  rcases Conn.of_outcome conn_outcome with ⟨request, returned, agree⟩
  rcases Conn.of_outcome status_outcome with ⟨statusRequest, statusReturned, statusAgree⟩
  rcases Conn.of_outcome gone_outcome with ⟨goneRequest, goneReturned, goneAgree⟩
  rcases Conn.of_outcome goneStatus_outcome with
    ⟨goneStatusRequest, goneStatusReturned, goneStatusAgree⟩
  have own : ∀ answer, (.ok Json.commits : Except EngineError String) = .ok answer →
      (.ok Json.commits : Except String String) = .ok answer := by
    rintro answer ⟨⟩
    rfl
  have goneOwn : ∀ answer, (.error (.git "blamer open: gone") : Except EngineError String) =
      .ok answer → (.error "blamer open: gone" : Except String String) = .ok answer := by
    rintro answer ⟨⟩
  have transparent := explain_change_transparent ran (by simp [conns]) returned (by simp [conns])
    statusReturned (by rw [request]; rfl) (by rw [request]; rfl) (by rw [statusRequest]; rfl)
    (by rw [statusRequest]; rfl) agree statusAgree own handle true
  have goneTransparent := explain_change_transparent ran (by simp [conns]) goneReturned
    (by simp [conns]) goneStatusReturned (by rw [goneRequest]; rfl) (by rw [goneRequest]; rfl)
    (by rw [goneStatusRequest]; rfl) (by rw [goneStatusRequest]; rfl) goneAgree goneStatusAgree
    goneOwn handle true
  exact ⟨s, conn, statusConn, goneConn, goneStatus, _, _, _, _, ran, conns, returned,
    statusReturned, goneReturned, goneStatusReturned, transparent.2, goneTransparent.2⟩

end Ipc

end Ohara
