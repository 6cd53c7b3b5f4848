import Ohara.Engine.Ipc
import Ohara.Library.Execution

/-!
# Connections of the daemon

The daemon accepts connections until its stop token is cancelled and serves one request on each, in
a task of its own. Bytes arrive in pieces of any size, a client may give up at any time, and the
tasks that are left when the grace period is over are aborted.
-/

namespace Ohara

namespace Ipc

open Frames (Bytes)

variable {Value Found Explained ResponseMeta : Type}

/-- `round_trip` after it has connected. -/
inductive ClientPhase (Value : Type) where
  | writing (left : Bytes)
  | reading (got : Bytes)
  | returned (result : Except EngineError (Response Value))

/-- `handle_connection`; before it, the connection waits to be accepted. -/
inductive HandlerPhase where
  | queued
  | reading (got : Bytes)
  | dispatching (req : Request)
  | replying (left : Bytes) (isShutdown : Bool)
  | finished (result : Except EngineError Unit)
  | dropped

/-- The call has not returned. -/
def ClientPhase.isOpen : ClientPhase Value → Bool
  | .returned _ => false
  | _ => true

/-- The task still holds the connection. -/
def HandlerPhase.isOpen : HandlerPhase → Bool
  | .finished _ => false
  | .dropped => false
  | _ => true

/-- The two ends and the bytes between them. Nothing reads the last field: how the engine answered,
each time that the request was dispatched. -/
structure Conn (Value Found Explained ResponseMeta : Type) where
  request : Request
  client : ClientPhase Value
  handler : HandlerPhase
  toServer : Bytes
  toClient : Bytes
  answered : List (Engine Found Explained ResponseMeta)

/-- Either end may fail: with an error of the socket, or, on the side of the client, because of the
timeout. -/
inductive ConnEvent (Found Explained ResponseMeta : Type) where
  | clientWrite (n : Nat)
  | clientRead (n : Nat)
  | clientFail (e : EngineError)
  | handlerRead (n : Nat)
  | handlerFail (e : EngineError)
  | dispatch (engine : Engine Found Explained ResponseMeta)
  | handlerWrite (n : Nat)

/-- What `read_frame` makes of the bytes it has taken; `none` while it waits for more. -/
def arrived (got : Bytes) : Option (Except EngineError Bytes) :=
    match Frames.read 4 maxFrameBytes got with
    | .ok (payload, _) => some (.ok payload)
    | .error (.tooLarge declared) => some (.error (frameError "" (.tooLarge declared)))
    | .error _ => none

section Steps

variable (json : Json Value Found Explained ResponseMeta)

/-- The client after more bytes of its response. -/
def ClientPhase.afterRead (got : Bytes) : ClientPhase Value :=
    match arrived got with
    | some frame => .returned (frame >>= decodeResponse json)
    | none => .reading got

/-- The handler after more bytes of its request. -/
def HandlerPhase.afterRead (got : Bytes) : HandlerPhase :=
    match arrived got with
    | some frame =>
        match frame >>= decodeRequest json with
        | .ok req => .dispatching req
        | .error e => .finished (.error e)
    | none => .reading got

/-- The handler with the response; one that does not fit ends it. -/
def HandlerPhase.afterDispatch (req : Request) (resp : Response Value) : HandlerPhase :=
    match replyWire json resp with
    | .ok wire => .replying wire (decide (req.method = .shutdown))
    | .error e => .finished (.error e)

namespace Conn

/-- A client that has connected; it gives up when its request cannot be written. -/
def start (req : Request) : Conn Value Found Explained ResponseMeta where
  request := req
  client :=
    match requestWire json req with
    | .ok wire => .writing wire
    | .error e => .returned (.error e)
  handler := .queued
  toServer := []
  toClient := []
  answered := []

/-- One step of a client or of its handler. -/
def next (conn : Conn Value Found Explained ResponseMeta) :
    ConnEvent Found Explained ResponseMeta → Option (Conn Value Found Explained ResponseMeta)
  | .clientWrite n =>
      match conn.client with
      | .writing left =>
          if 0 < n ∧ n ≤ left.length ∧ conn.handler.isOpen then
            some { conn with
              client := if n < left.length then .writing (left.drop n) else .reading []
              toServer := conn.toServer ++ left.take n }
          else none
      | _ => none
  | .clientRead n =>
      match conn.client with
      | .reading got =>
          if 0 < n ∧ n ≤ conn.toClient.length ∧ n ≤ Frames.demand 4 got then
            some { conn with
              client := ClientPhase.afterRead json (got ++ conn.toClient.take n)
              toClient := conn.toClient.drop n }
          else none
      | _ => none
  | .clientFail e =>
      if conn.client.isOpen then some { conn with client := .returned (.error e) } else none
  | .handlerRead n =>
      match conn.handler with
      | .reading got =>
          if 0 < n ∧ n ≤ conn.toServer.length ∧ n ≤ Frames.demand 4 got then
            some { conn with
              handler := HandlerPhase.afterRead json (got ++ conn.toServer.take n)
              toServer := conn.toServer.drop n }
          else none
      | _ => none
  | .handlerFail e =>
      match conn.handler with
      | .reading _ => some { conn with handler := .finished (.error e) }
      | .replying _ _ => some { conn with handler := .finished (.error e) }
      | _ => none
  | .dispatch engine =>
      match conn.handler with
      | .dispatching req =>
          some { conn with
            handler := HandlerPhase.afterDispatch json req (Ipc.dispatch json engine req)
            answered := conn.answered ++ [engine] }
      | _ => none
  | .handlerWrite n =>
      match conn.handler with
      | .replying left isShutdown =>
          if 0 < n ∧ n ≤ left.length ∧ conn.client.isOpen then
            some { conn with
              handler :=
                if n < left.length then .replying (left.drop n) isShutdown else .finished (.ok ())
              toClient := conn.toClient ++ left.take n }
          else none
      | _ => none

/-- The listener and the set of tasks are gone. -/
def drop (conn : Conn Value Found Explained ResponseMeta) :
    Conn Value Found Explained ResponseMeta :=
    if conn.handler.isOpen then { conn with handler := .dropped } else conn

end Conn

end Steps

/-! ## The serving task -/

/-- `serve_unix` after the socket was bound: its loop, then the drain. -/
inductive ServeLoop where
  | accepting
  | draining
  | returned
deriving DecidableEq, Repr

/-- `socket` is the bound listener and `socketFile` its path in the file system; the connections
stand in the order in which they were made. Nothing reads the last field: the connections whose
handlers have cancelled the token. -/
structure System (Value Found Explained ResponseMeta : Type) where
  loop : ServeLoop
  stop : Bool
  socket : Bool
  socketFile : Bool
  conns : List (Conn Value Found Explained ResponseMeta)
  shutdowns : List Nat

/-- `cancel` is the watchdog's; the loop may accept a connection even when the token is cancelled,
until it takes the other branch. `removed` tells whether the file of the socket could be removed;
an error is ignored. -/
inductive Event (Found Explained ResponseMeta : Type) where
  | connect (req : Request)
  | accept (id : Nat)
  | conn (id : Nat) (event : ConnEvent Found Explained ResponseMeta)
  | cancel
  | leaveLoop
  | returnServe (graceOver removed : Bool)

/-- The reply to a shutdown was written in full. -/
def cancels (before after : HandlerPhase) : Bool :=
    match before, after with
    | .replying _ true, .finished (.ok ()) => true
    | _, _ => false

/-- The connection has not been accepted. -/
def HandlerPhase.isQueued : HandlerPhase → Bool
  | .queued => true
  | _ => false

namespace System

/-- The socket is bound and nobody has connected. -/
def bound : System Value Found Explained ResponseMeta where
  loop := .accepting
  stop := false
  socket := true
  socketFile := true
  conns := []
  shutdowns := []

/-- A connection moves on; a shutdown that was answered stops the loop. -/
def setConn (s : System Value Found Explained ResponseMeta) (id : Nat)
    (before after : Conn Value Found Explained ResponseMeta) :
    System Value Found Explained ResponseMeta :=
    { s with
      conns := s.conns.set id after
      stop := s.stop || cancels before.handler after.handler
      shutdowns :=
        if cancels before.handler after.handler then s.shutdowns ++ [id] else s.shutdowns }

/-- No connection was made before this one and still waits: `accept` takes them in turn. -/
def firstInLine (s : System Value Found Explained ResponseMeta) (id : Nat) : Bool :=
    (s.conns.take id).all fun conn => !conn.handler.isQueued

/-- No accepted connection has a task that runs. -/
def drained (s : System Value Found Explained ResponseMeta) : Bool :=
    s.conns.all fun conn => conn.handler.isQueued || !conn.handler.isOpen

/-- One step of a connection, of the accept loop or of the watchdog. -/
def next (json : Json Value Found Explained ResponseMeta)
    (s : System Value Found Explained ResponseMeta) :
    Event Found Explained ResponseMeta → Option (System Value Found Explained ResponseMeta)
  | .connect req =>
      if s.socket then some { s with conns := s.conns ++ [Conn.start json req] } else none
  | .accept id =>
      match s.conns[id]? with
      | some conn =>
          if s.loop = .accepting ∧ conn.handler.isQueued ∧ s.firstInLine id then
            some (s.setConn id conn { conn with handler := .reading [] })
          else none
      | none => none
  | .conn id event =>
      match s.conns[id]? with
      | some conn => (conn.next json event).map (s.setConn id conn)
      | none => none
  | .cancel => some { s with stop := true }
  | .leaveLoop =>
      if s.loop = .accepting ∧ s.stop then some { s with loop := .draining } else none
  | .returnServe graceOver removed =>
      if s.loop = .draining ∧ (graceOver || s.drained) then
        some { s with
          loop := .returned
          socket := false
          socketFile := s.socketFile && !removed
          conns := s.conns.map Conn.drop }
      else none

end System

/-! ## What a step does -/

variable {json : Json Value Found Explained ResponseMeta}

namespace Conn

/-- One step of a connection, by what it does. -/
inductive Step (json : Json Value Found Explained ResponseMeta)
    (conn : Conn Value Found Explained ResponseMeta) :
    ConnEvent Found Explained ResponseMeta → Conn Value Found Explained ResponseMeta → Prop
  | clientWrite {n : Nat} {left : Bytes} (writing : conn.client = .writing left)
      (positive : 0 < n) (available : n ≤ left.length) (attended : conn.handler.isOpen = true) :
      Step json conn (.clientWrite n) { conn with
        client := if n < left.length then .writing (left.drop n) else .reading []
        toServer := conn.toServer ++ left.take n }
  | clientRead {n : Nat} {got : Bytes} (reading : conn.client = .reading got)
      (positive : 0 < n) (available : n ≤ conn.toClient.length)
      (asked : n ≤ Frames.demand 4 got) :
      Step json conn (.clientRead n) { conn with
        client := ClientPhase.afterRead json (got ++ conn.toClient.take n)
        toClient := conn.toClient.drop n }
  | clientFail {e : EngineError} (waiting : conn.client.isOpen = true) :
      Step json conn (.clientFail e) { conn with client := .returned (.error e) }
  | handlerRead {n : Nat} {got : Bytes} (reading : conn.handler = .reading got)
      (positive : 0 < n) (available : n ≤ conn.toServer.length)
      (asked : n ≤ Frames.demand 4 got) :
      Step json conn (.handlerRead n) { conn with
        handler := HandlerPhase.afterRead json (got ++ conn.toServer.take n)
        toServer := conn.toServer.drop n }
  | failReading {e : EngineError} {got : Bytes} (reading : conn.handler = .reading got) :
      Step json conn (.handlerFail e) { conn with handler := .finished (.error e) }
  | failReplying {e : EngineError} {left : Bytes} {isShutdown : Bool}
      (replying : conn.handler = .replying left isShutdown) :
      Step json conn (.handlerFail e) { conn with handler := .finished (.error e) }
  | dispatch {engine : Engine Found Explained ResponseMeta} {req : Request}
      (dispatching : conn.handler = .dispatching req) :
      Step json conn (.dispatch engine) { conn with
        handler := HandlerPhase.afterDispatch json req (Ipc.dispatch json engine req)
        answered := conn.answered ++ [engine] }
  | handlerWrite {n : Nat} {left : Bytes} {isShutdown : Bool}
      (replying : conn.handler = .replying left isShutdown) (positive : 0 < n)
      (available : n ≤ left.length) (waiting : conn.client.isOpen = true) :
      Step json conn (.handlerWrite n) { conn with
        handler :=
          if n < left.length then .replying (left.drop n) isShutdown else .finished (.ok ())
        toClient := conn.toClient ++ left.take n }

theorem step_of_next {conn conn' : Conn Value Found Explained ResponseMeta}
    {event : ConnEvent Found Explained ResponseMeta}
    (stepped : conn.next json event = some conn') : Step json conn event conn' := by
  cases event with
  | clientWrite n =>
      cases phase : conn.client with
      | writing left =>
          simp only [next, phase, Option.ite_none_right_eq_some, Option.some.injEq] at stepped
          rcases stepped with ⟨⟨positive, available, attended⟩, rfl⟩
          exact .clientWrite phase positive available attended
      | _ => simp [next, phase] at stepped
  | clientRead n =>
      cases phase : conn.client with
      | reading got =>
          simp only [next, phase, Option.ite_none_right_eq_some, Option.some.injEq] at stepped
          rcases stepped with ⟨⟨positive, available, asked⟩, rfl⟩
          exact .clientRead phase positive available asked
      | _ => simp [next, phase] at stepped
  | clientFail e =>
      simp only [next, Option.ite_none_right_eq_some, Option.some.injEq] at stepped
      rcases stepped with ⟨waiting, rfl⟩
      exact .clientFail waiting
  | handlerRead n =>
      cases phase : conn.handler with
      | reading got =>
          simp only [next, phase, Option.ite_none_right_eq_some, Option.some.injEq] at stepped
          rcases stepped with ⟨⟨positive, available, asked⟩, rfl⟩
          exact .handlerRead phase positive available asked
      | _ => simp [next, phase] at stepped
  | handlerFail e =>
      cases phase : conn.handler with
      | reading got =>
          simp only [next, phase, Option.some.injEq] at stepped
          subst stepped
          exact .failReading phase
      | replying left isShutdown =>
          simp only [next, phase, Option.some.injEq] at stepped
          subst stepped
          exact .failReplying phase
      | _ => simp [next, phase] at stepped
  | dispatch engine =>
      cases phase : conn.handler with
      | dispatching req =>
          simp only [next, phase, Option.some.injEq] at stepped
          subst stepped
          exact .dispatch phase
      | _ => simp [next, phase] at stepped
  | handlerWrite n =>
      cases phase : conn.handler with
      | replying left isShutdown =>
          simp only [next, phase, Option.ite_none_right_eq_some, Option.some.injEq] at stepped
          rcases stepped with ⟨⟨positive, available, waiting⟩, rfl⟩
          exact .handlerWrite phase positive available waiting
      | _ => simp [next, phase] at stepped

end Conn

namespace System

/-- One step of the daemon with its connections, by what it does. -/
inductive Step (json : Json Value Found Explained ResponseMeta)
    (s : System Value Found Explained ResponseMeta) :
    Event Found Explained ResponseMeta → System Value Found Explained ResponseMeta → Prop
  | connect {req : Request} (listening : s.socket = true) :
      Step json s (.connect req) { s with conns := s.conns ++ [Conn.start json req] }
  | accept {id : Nat} {conn : Conn Value Found Explained ResponseMeta}
      (found : s.conns[id]? = some conn) (accepting : s.loop = .accepting)
      (queued : conn.handler.isQueued = true) (first : s.firstInLine id = true) :
      Step json s (.accept id) (s.setConn id conn { conn with handler := .reading [] })
  | conn {id : Nat} {event : ConnEvent Found Explained ResponseMeta}
      {before after : Conn Value Found Explained ResponseMeta}
      (found : s.conns[id]? = some before) (moved : before.next json event = some after) :
      Step json s (.conn id event) (s.setConn id before after)
  | cancel : Step json s .cancel { s with stop := true }
  | leaveLoop (accepting : s.loop = .accepting) (stopped : s.stop = true) :
      Step json s .leaveLoop { s with loop := .draining }
  | returnServe {graceOver removed : Bool} (draining : s.loop = .draining)
      (noneLeft : (graceOver || s.drained) = true) :
      Step json s (.returnServe graceOver removed) { s with
        loop := .returned
        socket := false
        socketFile := s.socketFile && !removed
        conns := s.conns.map Conn.drop }

theorem step_of_next {s s' : System Value Found Explained ResponseMeta}
    {event : Event Found Explained ResponseMeta} (stepped : s.next json event = some s') :
    Step json s event s' := by
  cases event with
  | connect req =>
      simp only [next, Option.ite_none_right_eq_some, Option.some.injEq] at stepped
      rcases stepped with ⟨listening, rfl⟩
      exact .connect listening
  | accept id =>
      cases found : s.conns[id]? with
      | none => simp [next, found] at stepped
      | some conn =>
          simp only [next, found, Option.ite_none_right_eq_some, Option.some.injEq] at stepped
          rcases stepped with ⟨⟨accepting, queued, first⟩, rfl⟩
          exact .accept found accepting queued first
  | conn id event =>
      cases found : s.conns[id]? with
      | none => simp [next, found] at stepped
      | some conn =>
          simp only [next, found, Option.map_eq_some_iff] at stepped
          rcases stepped with ⟨conn', moved, rfl⟩
          exact .conn found moved
  | cancel =>
      cases stepped
      exact .cancel
  | leaveLoop =>
      simp only [next, Option.ite_none_right_eq_some, Option.some.injEq] at stepped
      rcases stepped with ⟨⟨accepting, stopped⟩, rfl⟩
      exact .leaveLoop accepting stopped
  | returnServe graceOver removed =>
      simp only [next, Option.ite_none_right_eq_some, Option.some.injEq] at stepped
      rcases stepped with ⟨⟨draining, none_left⟩, rfl⟩
      exact .returnServe draining none_left

end System

end Ipc

end Ohara
