import Ohara.Engine.IpcSound

/-!
# The daemon never wedges a client

A client that waits on a connection that the daemon attends can be served from every state that a
run reaches, by events of this connection once it has its turn: nothing that other clients do stands
in the way.
-/

namespace Ohara

namespace Ipc

open Frames (Bytes)

variable {Value Found Explained ResponseMeta : Type}
  {json : Json Value Found Explained ResponseMeta}

namespace Conn

variable {conn conn' : Conn Value Found Explained ResponseMeta}

/-- Whoever writes has something left to write, and whoever reads waits for more. -/
structure Busy (conn : Conn Value Found Explained ResponseMeta) : Prop where
  unsent : ∀ left, conn.client = .writing left → left ≠ []
  unread : ∀ got, conn.client = .reading got → arrived got = none
  untaken : ∀ got, conn.handler = .reading got → arrived got = none
  unreplied : ∀ left isShutdown, conn.handler = .replying left isShutdown → left ≠ []

theorem frame_ne_nil (body : Bytes) : Frames.frame 4 body ≠ [] := by
  intro empty
  have total := congrArg List.length empty
  simp at total

theorem arrived_nil : arrived [] = none := by
  simp [arrived, Frames.read]

theorem busy_start (req : Request) : (start json req).Busy where
  unsent left writing := by
    cases written : requestWire json req with
    | error e => simp [start, written] at writing
    | ok wire =>
        rcases requestWire_eq_ok written with ⟨body, -, rfl, -⟩
        simp only [start, written, ClientPhase.writing.injEq] at writing
        rw [← writing]
        exact frame_ne_nil body
  unread got reading := by
    cases written : requestWire json req <;> simp [start, written] at reading
  untaken got reading := by simp [start] at reading
  unreplied left isShutdown replying := by simp [start] at replying

theorem client_afterRead {got more : Bytes}
    (reading : ClientPhase.afterRead json got = .reading more) : arrived more = none := by
  unfold ClientPhase.afterRead at reading
  split at reading
  · cases reading
  · rename_i waiting
    cases reading
    exact waiting

theorem handler_afterRead {got more : Bytes}
    (reading : HandlerPhase.afterRead json got = .reading more) : arrived more = none := by
  unfold HandlerPhase.afterRead at reading
  split at reading
  · split at reading <;> cases reading
  · rename_i waiting
    cases reading
    exact waiting

theorem afterRead_ne_replying {got left : Bytes} {isShutdown : Bool} :
    HandlerPhase.afterRead json got ≠ .replying left isShutdown := by
  unfold HandlerPhase.afterRead
  split
  · split <;> simp
  · simp

theorem afterDispatch_cases (req : Request) (resp : Response Value) :
    (∃ wire, wire ≠ [] ∧ replyWire json resp = .ok wire ∧
        HandlerPhase.afterDispatch json req resp =
          .replying wire (decide (req.method = .shutdown))) ∨
      ∃ e, replyWire json resp = .error e ∧
        HandlerPhase.afterDispatch json req resp = .finished (.error e) := by
  cases written : replyWire json resp with
  | error e => exact Or.inr ⟨e, rfl, by simp [HandlerPhase.afterDispatch, written]⟩
  | ok wire =>
      rcases replyWire_eq_ok written with ⟨body, -, rfl, -⟩
      exact Or.inl ⟨_, frame_ne_nil body, rfl, by simp [HandlerPhase.afterDispatch, written]⟩

theorem busy_next (busy : conn.Busy) {event : ConnEvent Found Explained ResponseMeta}
    (stepped : conn.next json event = some conn') : conn'.Busy := by
  rcases busy with ⟨unsent, unread, untaken, unreplied⟩
  cases step_of_next stepped with
  | clientWrite =>
      refine ⟨?_, ?_, untaken, unreplied⟩
      · intro more writing
        split at writing
        · rename_i shorter
          cases writing
          simpa [List.drop_eq_nil_iff] using shorter
        · cases writing
      · intro got reading
        split at reading
        · cases reading
        · cases reading
          exact arrived_nil
  | clientRead =>
      refine ⟨?_, fun more reading => client_afterRead reading, untaken, unreplied⟩
      intro left writing
      unfold ClientPhase.afterRead at writing
      split at writing <;> cases writing
  | clientFail => exact ⟨by simp, by simp, untaken, unreplied⟩
  | handlerRead =>
      exact ⟨unsent, unread, fun more reading => handler_afterRead reading,
        fun left isShutdown replying => absurd replying afterRead_ne_replying⟩
  | failReading | failReplying => exact ⟨unsent, unread, by simp, by simp⟩
  | @dispatch engine req =>
      refine ⟨unsent, unread, ?_, ?_⟩
      · intro got reading
        rcases @afterDispatch_cases _ _ _ _ json req (Ipc.dispatch json engine req) with
          ⟨wire, -, -, after⟩ | ⟨e, -, after⟩ <;> simp [after] at reading
      · intro left isShutdown replying
        rcases @afterDispatch_cases _ _ _ _ json req (Ipc.dispatch json engine req) with
          ⟨wire, some_bytes, -, after⟩ | ⟨e, -, after⟩
        · simp only [after, HandlerPhase.replying.injEq] at replying
          rw [← replying.1]
          exact some_bytes
        · simp [after] at replying
  | handlerWrite =>
      refine ⟨unsent, unread, ?_, ?_⟩
      · intro got reading
        split at reading <;> cases reading
      · intro more isShutdown' replying
        split at replying
        · rename_i shorter
          cases replying
          simpa [List.drop_eq_nil_iff] using shorter
        · cases replying

/-! ## One connection to its end -/

theorem run_kept {events : List (ConnEvent Found Explained ResponseMeta)}
    (sound : conn.Sound json) (busy : conn.Busy)
    (ran : Execution.run (next json) conn events = some conn') :
    conn'.Sound json ∧ conn'.Busy ∧ conn'.request = conn.request := by
  have kept := Execution.invariant
    (fun c => c.Sound json ∧ c.Busy ∧ c.request = conn.request)
    (fun _ _ _ before stepped => ⟨next_sound before.1 stepped, busy_next before.2.1 stepped,
      (next_frame stepped).1.trans before.2.2⟩) ⟨sound, busy, rfl⟩ ran
  exact kept

/-- A client that still writes can write all. -/
theorem finish_writing (busy : conn.Busy) (waiting : conn.client.isOpen = true)
    (attended : conn.handler.isOpen = true) :
    ∃ events conn' got, Execution.run (next json) conn events = some conn' ∧
      conn'.client = .reading got ∧ conn'.handler = conn.handler := by
  cases phase : conn.client with
  | writing left =>
      have positive := List.length_pos_of_ne_nil (busy.unsent left phase)
      refine ⟨[.clientWrite left.length], { conn with
        client := .reading []
        toServer := conn.toServer ++ left.take left.length }, [], ?_, rfl, rfl⟩
      simp [Execution.run, next, phase, positive, attended]
  | reading got => exact ⟨[], conn, got, rfl, phase, rfl⟩
  | returned result => simp [ClientPhase.isOpen, phase] at waiting

/-- The next read of a frame that waits takes a part of it, and takes its end only with the frame. -/
theorem take_asked {body got waiting : Bytes} (allowed : body.length ≤ maxFrameBytes)
    (part : got ++ waiting = Frames.frame 4 body) (unread : arrived got = none) :
    0 < Frames.demand 4 got ∧ Frames.demand 4 got ≤ waiting.length ∧
      arrived (got ++ waiting.take (Frames.demand 4 got)) =
        if waiting.drop (Frames.demand 4 got) = [] then some (.ok body) else none := by
  have fits : body.length < 256 ^ 4 := Nat.lt_of_le_of_lt allowed (by decide)
  have more : waiting ≠ [] := by
    intro nothing
    simp [arrived_part allowed part, nothing] at unread
  rcases Frames.demand_bounds fits part with ⟨available, positive⟩
  have part' : (got ++ waiting.take (Frames.demand 4 got)) ++
      waiting.drop (Frames.demand 4 got) = Frames.frame 4 body := by
    rw [List.append_assoc, List.take_append_drop, part]
  exact ⟨positive more, available, arrived_part allowed part'⟩

/-- The handler's next read, from a client that has written all. -/
theorem request_asked (sound : conn.Sound json) (busy : conn.Busy) {taken got : Bytes}
    (client : conn.client = .reading taken) (handler : conn.handler = .reading got) :
    ∃ body, decodeRequest json body = .ok conn.request ∧ 0 < Frames.demand 4 got ∧
      Frames.demand 4 got ≤ conn.toServer.length ∧
      arrived (got ++ conn.toServer.take (Frames.demand 4 got)) =
        if conn.toServer.drop (Frames.demand 4 got) = [] then some (.ok body) else none := by
  have incoming := sound.handler
  simp only [HandlerSound, handler] at incoming
  rcases incoming.1 with ⟨lost, owes, sent⟩ | ⟨-, none_owed⟩
  · cases owes [] (by simp [owed, client])
    rcases requestWire_eq_ok sent with ⟨body, allowed, part, decoded⟩
    rw [List.append_nil] at part
    exact ⟨body, decoded, take_asked allowed part (busy.untaken got handler)⟩
  · simp [owed, client] at none_owed

/-- The client's next read, from a handler that has written all. -/
theorem response_asked (sound : conn.Sound json) (busy : conn.Busy) {got : Bytes}
    (client : conn.client = .reading got) (handler : conn.handler = .finished (.ok ())) :
    ∃ body reply, decodeResponse json body = .ok reply ∧ 0 < Frames.demand 4 got ∧
      Frames.demand 4 got ≤ conn.toClient.length ∧
      arrived (got ++ conn.toClient.take (Frames.demand 4 got)) =
        if conn.toClient.drop (Frames.demand 4 got) = [] then some (.ok body) else none := by
  have outgoing := sound.handler
  simp only [HandlerSound, handler] at outgoing
  rcases outgoing with ⟨engine, wire, -, written, back⟩
  rcases replyWire_eq_ok written with ⟨body, allowed, rfl, decoded⟩
  have part : got ++ conn.toClient = Frames.frame 4 body := by
    have all := back (got ++ conn.toClient) (by simp [delivered, client])
    simpa using all
  exact ⟨body, _, decoded, take_asked allowed part (busy.unread got client)⟩

/-- The handler takes what it asks for until it has the request. -/
theorem finish_request {n : Nat} (short : conn.toServer.length ≤ n) (sound : conn.Sound json)
    (busy : conn.Busy) {taken got : Bytes} (client : conn.client = .reading taken)
    (handler : conn.handler = .reading got) :
    ∃ events conn', Execution.run (next json) conn events = some conn' ∧
      conn'.client = .reading taken ∧ conn'.handler = .dispatching conn.request := by
  induction n generalizing conn got with
  | zero =>
      rcases request_asked sound busy client handler with ⟨body, -, asked, available, -⟩
      omega
  | succ n ih =>
      rcases request_asked sound busy client handler with ⟨body, decoded, asked, available, frame⟩
      let after : Conn Value Found Explained ResponseMeta := { conn with
        handler := HandlerPhase.afterRead json
          (got ++ conn.toServer.take (Frames.demand 4 got))
        toServer := conn.toServer.drop (Frames.demand 4 got) }
      have stepped : conn.next json (.handlerRead (Frames.demand 4 got)) = some after := by
        simp [next, handler, asked, available, after]
      by_cases whole : conn.toServer.drop (Frames.demand 4 got) = []
      · rw [if_pos whole] at frame
        refine ⟨[.handlerRead (Frames.demand 4 got)], after, ?_, client, ?_⟩
        · simp [Execution.run, stepped]
        · simp [after, HandlerPhase.afterRead, frame, decoded]
      · rw [if_neg whole] at frame
        have shorter : after.toServer.length ≤ n := by
          simp only [after, List.length_drop]
          omega
        have reading : after.handler =
            .reading (got ++ conn.toServer.take (Frames.demand 4 got)) := by
          simp [after, HandlerPhase.afterRead, frame]
        rcases ih shorter (next_sound sound stepped) (busy_next busy stepped) client reading with
          ⟨events, conn', ran, still, dispatching⟩
        refine ⟨.handlerRead (Frames.demand 4 got) :: events, conn', ?_, still, dispatching⟩
        exact Execution.run_cons.2 ⟨after, stepped, ran⟩

/-- The client takes what it asks for until it has the response. -/
theorem finish_response {n : Nat} (short : conn.toClient.length ≤ n) (sound : conn.Sound json)
    (busy : conn.Busy) {got : Bytes} (client : conn.client = .reading got)
    (handler : conn.handler = .finished (.ok ())) :
    ∃ events conn' reply, Execution.run (next json) conn events = some conn' ∧
      conn'.client = .returned (.ok reply) := by
  induction n generalizing conn got with
  | zero =>
      rcases response_asked sound busy client handler with ⟨body, reply, -, asked, available, -⟩
      omega
  | succ n ih =>
      rcases response_asked sound busy client handler with
        ⟨body, reply, decoded, asked, available, frame⟩
      let after : Conn Value Found Explained ResponseMeta := { conn with
        client := ClientPhase.afterRead json (got ++ conn.toClient.take (Frames.demand 4 got))
        toClient := conn.toClient.drop (Frames.demand 4 got) }
      have stepped : conn.next json (.clientRead (Frames.demand 4 got)) = some after := by
        simp [next, client, asked, available, after]
      by_cases whole : conn.toClient.drop (Frames.demand 4 got) = []
      · rw [if_pos whole] at frame
        refine ⟨[.clientRead (Frames.demand 4 got)], after, reply, ?_, ?_⟩
        · simp [Execution.run, stepped]
        · simp only [after, ClientPhase.afterRead, frame]
          exact congrArg ClientPhase.returned decoded
      · rw [if_neg whole] at frame
        have shorter : after.toClient.length ≤ n := by
          simp only [after, List.length_drop]
          omega
        have reading : after.client =
            .reading (got ++ conn.toClient.take (Frames.demand 4 got)) := by
          simp [after, ClientPhase.afterRead, frame]
        rcases ih shorter (next_sound sound stepped) (busy_next busy stepped) reading handler with
          ⟨events, conn', reply, ran, returned⟩
        refine ⟨.clientRead (Frames.demand 4 got) :: events, conn', reply, ?_, returned⟩
        exact Execution.run_cons.2 ⟨after, stepped, ran⟩

/-- The engine's answer to the request fits a frame. -/
def Fits (json : Json Value Found Explained ResponseMeta)
    (engine : Engine Found Explained ResponseMeta)
    (conn : Conn Value Found Explained ResponseMeta) : Prop :=
    ∃ wire, replyWire json (Ipc.dispatch json engine conn.request) = .ok wire

/-- The handler finishes its reply while the client waits for it. -/
theorem finish_handling {engine : Engine Found Explained ResponseMeta} (sound : conn.Sound json)
    (busy : conn.Busy) (fits : conn.Fits json engine) {taken : Bytes}
    (client : conn.client = .reading taken) (handling : conn.handler.isOpen = true)
    (accepted : conn.handler.isQueued = false) :
    ∃ events conn', Execution.run (next json) conn events = some conn' ∧
      conn'.client = .reading taken ∧ conn'.handler = .finished (.ok ()) := by
  have replied : ∀ {c : Conn Value Found Explained ResponseMeta}, c.client = .reading taken →
      c.handler = .dispatching c.request → c.Fits json engine →
      ∃ events c', Execution.run (next json) c events = some c' ∧
        c'.client = .reading taken ∧ c'.handler = .finished (.ok ()) := by
    rintro c waiting dispatching ⟨wire, written⟩
    rcases replyWire_eq_ok written with ⟨body, -, rfl, -⟩
    have positive := List.length_pos_of_ne_nil (frame_ne_nil body)
    refine ⟨[.dispatch engine, .handlerWrite (Frames.frame 4 body).length], { c with
      handler := .finished (.ok ())
      toClient := c.toClient ++ Frames.frame 4 body
      answered := c.answered ++ [engine] }, ?_, waiting, rfl⟩
    simp only [Execution.run, next, dispatching, waiting, HandlerPhase.afterDispatch, written,
      positive, ClientPhase.isOpen, le_refl, and_self, if_true, lt_irrefl, if_false,
      List.take_length]
  cases phase : conn.handler with
  | queued => simp [HandlerPhase.isQueued, phase] at accepted
  | reading got =>
      rcases finish_request (le_refl _) sound busy client phase with
        ⟨reads, asked, ran, still, dispatching⟩
      have request := (run_kept sound busy ran).2.2
      rcases replied still (by rw [dispatching, request])
        (by rwa [Fits, request]) with ⟨events, conn', ran', waiting, finished⟩
      exact ⟨reads ++ events, conn', Execution.run_append.2 ⟨asked, ran, ran'⟩, waiting, finished⟩
  | dispatching req =>
      have handlerSound := sound.handler
      simp only [HandlerSound, phase] at handlerSound
      rw [handlerSound.1] at phase
      exact replied client phase fits
  | replying left isShutdown =>
      have positive := List.length_pos_of_ne_nil (busy.unreplied left isShutdown phase)
      refine ⟨[.handlerWrite left.length], { conn with
        handler := .finished (.ok ())
        toClient := conn.toClient ++ left }, ?_, client, rfl⟩
      simp [Execution.run, next, phase, client, positive, ClientPhase.isOpen]
  | finished result => simp [HandlerPhase.isOpen, phase] at handling
  | dropped => simp [HandlerPhase.isOpen, phase] at handling

/-- The handler is at work for the client, or has done its work. -/
def Attended (conn : Conn Value Found Explained ResponseMeta) : Prop :=
    match conn.handler with
    | .queued => False
    | .finished (.ok ()) => ∃ got, conn.client = .reading got
    | .finished (.error _) => False
    | .dropped => False
    | _ => True

/-- A client that is attended to can be served. -/
theorem can_be_served {engine : Engine Found Explained ResponseMeta} (sound : conn.Sound json)
    (busy : conn.Busy) (fits : conn.Fits json engine) (waiting : conn.client.isOpen = true)
    (attended : conn.Attended) :
    ∃ events conn' reply, Execution.run (next json) conn events = some conn' ∧
      conn'.client = .returned (.ok reply) := by
  have at_work : conn.handler.isOpen = true → conn.handler.isQueued = false →
      ∃ events conn' reply, Execution.run (next json) conn events = some conn' ∧
        conn'.client = .returned (.ok reply) := by
    intro handling accepted
    have writing : ∃ events conn' got, Execution.run (next json) conn events = some conn' ∧
        conn'.client = .reading got ∧ conn'.handler = conn.handler :=
      finish_writing busy waiting handling
    rcases writing with ⟨writes, written, taken, wrote, client, handler⟩
    rcases run_kept sound busy wrote with ⟨sound₁, busy₁, request₁⟩
    rcases finish_handling sound₁ busy₁ (by rwa [Fits, request₁]) client (by rwa [handler])
      (by rwa [handler]) with ⟨handles, handled, ran, still, finished⟩
    rcases run_kept sound₁ busy₁ ran with ⟨sound₂, busy₂, -⟩
    rcases finish_response (le_refl _) sound₂ busy₂ still finished with
      ⟨reads, conn', reply, ran', returned⟩
    exact ⟨writes ++ (handles ++ reads), conn', reply, Execution.run_append.2 ⟨written, wrote,
      Execution.run_append.2 ⟨handled, ran, ran'⟩⟩, returned⟩
  unfold Attended at attended
  split at attended
  · exact attended.elim
  · rename_i finished
    rcases attended with ⟨got, client⟩
    exact finish_response (le_refl _) sound busy client finished
  · exact attended.elim
  · exact attended.elim
  · cases phase : conn.handler with
    | finished result => cases result <;> simp_all
    | _ => simp_all [HandlerPhase.isOpen, HandlerPhase.isQueued]

end Conn

/-! ## Among the other connections -/

namespace System

variable {s s' : System Value Found Explained ResponseMeta}

theorem busy_bound :
    ∀ conn ∈ (bound : System Value Found Explained ResponseMeta).conns, conn.Busy := by
  simp [bound]

theorem busy_next (busy : ∀ conn ∈ s.conns, conn.Busy)
    {event : Event Found Explained ResponseMeta} (stepped : s.next json event = some s') :
    ∀ conn ∈ s'.conns, conn.Busy := by
  cases step_of_next stepped with
  | @connect req =>
      intro conn conn_mem
      rcases List.mem_append.1 conn_mem with old | new
      · exact busy conn old
      · rw [List.mem_singleton.1 new]
        exact Conn.busy_start req
  | @accept id conn found =>
      intro other other_mem
      rcases List.mem_or_eq_of_mem_set other_mem with old | rfl
      · exact busy other old
      · rcases busy conn (List.mem_of_getElem? found) with ⟨unsent, unread, -, -⟩
        refine ⟨unsent, unread, ?_, by simp⟩
        rintro got ⟨⟩
        exact Conn.arrived_nil
  | @conn id _ before after found moved =>
      intro other other_mem
      rcases List.mem_or_eq_of_mem_set other_mem with old | rfl
      · exact busy other old
      · exact Conn.busy_next (busy before (List.mem_of_getElem? found)) moved
  | cancel | leaveLoop => exact busy
  | returnServe =>
      intro conn conn_mem
      rcases List.mem_map.1 conn_mem with ⟨before, before_mem, rfl⟩
      unfold Conn.drop
      split
      · rcases busy before before_mem with ⟨unsent, unread, -, -⟩
        exact ⟨unsent, unread, by simp, by simp⟩
      · exact busy before before_mem

theorem run_busy {events : List (Event Found Explained ResponseMeta)}
    (ran : Execution.run (next json) bound events = some s) : ∀ conn ∈ s.conns, conn.Busy :=
  Execution.invariant (fun s => ∀ conn ∈ s.conns, conn.Busy)
    (fun _ _ _ busy stepped => busy_next busy stepped) busy_bound ran

/-- What one connection can do alone, it can do among the others. -/
theorem run_conn {id : Nat} {conn conn' : Conn Value Found Explained ResponseMeta}
    {events : List (ConnEvent Found Explained ResponseMeta)} (found : s.conns[id]? = some conn)
    (ran : Execution.run (Conn.next json) conn events = some conn') :
    ∃ s', Execution.run (next json) s (events.map (Event.conn id)) = some s' ∧
      s'.loop = s.loop ∧ s'.conns = s.conns.set id conn' := by
  induction events generalizing s conn with
  | nil =>
      cases ran
      rcases List.getElem?_eq_some_iff.1 found with ⟨within, rfl⟩
      exact ⟨s, rfl, rfl, (List.set_getElem_self within).symm⟩
  | cons event events ih =>
      rcases Execution.run_cons.1 ran with ⟨middle, stepped, ran_rest⟩
      have within : id < s.conns.length := (List.getElem?_eq_some_iff.1 found).1
      have moved : s.next json (.conn id event) = some (s.setConn id conn middle) := by
        simp [next, found, stepped]
      have found' : (s.setConn id conn middle).conns[id]? = some middle := by
        simp [setConn, within]
      rcases ih found' ran_rest with ⟨s', ran', loop, conns⟩
      refine ⟨s', Execution.run_cons.2 ⟨_, moved, ran'⟩, loop, ?_⟩
      simp [conns, setConn]

theorem attended_can_be_served (sound : s.Sound json) (busy : ∀ conn ∈ s.conns, conn.Busy)
    {id : Nat} {conn : Conn Value Found Explained ResponseMeta} (found : s.conns[id]? = some conn)
    (waiting : conn.client.isOpen = true) (attended : conn.Attended)
    {engine : Engine Found Explained ResponseMeta} (fits : conn.Fits json engine) :
    ∃ (own : List (ConnEvent Found Explained ResponseMeta)) (s' : System _ _ _ _) (conn' : _)
        (answerer : _), Execution.run (next json) s (own.map (Event.conn id)) = some s' ∧
      s'.loop = s.loop ∧ s'.conns = s.conns.set id conn' ∧
      conn'.client = .returned (.ok (received json (dispatch json answerer conn.request))) := by
  have mem := List.mem_of_getElem? found
  rcases Conn.can_be_served (sound.conns conn mem) (busy conn mem) fits waiting attended with
    ⟨own, conn', reply, ran_own, returned⟩
  rcases Conn.run_kept (sound.conns conn mem) (busy conn mem) ran_own with ⟨sound', -, request⟩
  rcases sound'.client reply returned with ⟨answerer, -, rfl⟩
  rcases run_conn found ran_own with ⟨s', ran', loop, conns⟩
  exact ⟨own, s', conn', answerer, ran', loop, conns, by rw [returned, request]⟩

/-- The handler attends to the connection, or the loop still accepts it. -/
def Attends (s : System Value Found Explained ResponseMeta)
    (conn : Conn Value Found Explained ResponseMeta) : Prop :=
    conn.Attended ∨ conn.handler.isQueued = true ∧ s.loop = .accepting

end System

/-- The connection once the loop has taken it from the line, where it stands in it. -/
def Conn.accepted (conn : Conn Value Found Explained ResponseMeta) :
    Conn Value Found Explained ResponseMeta :=
    if conn.handler.isQueued then { conn with handler := .reading [] } else conn

@[simp]
theorem Conn.accepted_not_queued (conn : Conn Value Found Explained ResponseMeta) :
    conn.accepted.handler.isQueued = false := by
  unfold accepted
  split
  · rfl
  · rename_i served
    exact Bool.eq_false_of_not_eq_true served

namespace System

/-- The loop has taken the first `n` connections of a state, those that were queued. -/
structure Took (s : System Value Found Explained ResponseMeta) (n : Nat)
    (s' : System Value Found Explained ResponseMeta) : Prop where
  loop : s'.loop = .accepting
  conns : ∀ other, s'.conns[other]? =
    if other < n then s.conns[other]?.map Conn.accepted else s.conns[other]?

section Line

variable {n : Nat} {middle : System Value Found Explained ResponseMeta}
  {conn : Conn Value Found Explained ResponseMeta}

theorem Took.next_conn (took : Took s n middle) : middle.conns[n]? = s.conns[n]? := by
  simp [took.conns]

/-- Whoever stood before the next connection has been taken. -/
theorem Took.firstInLine (took : Took s n middle) : middle.firstInLine n = true := by
  simp only [System.firstInLine, List.all_eq_true]
  intro other other_mem
  rcases List.mem_iff_getElem?.1 other_mem with ⟨place, found⟩
  rw [List.getElem?_take] at found
  split at found
  · next below =>
      rw [took.conns, if_pos below] at found
      rcases Option.map_eq_some_iff.1 found with ⟨before, -, rfl⟩
      simp
  · cases found

/-- There is nothing to take where no connection is queued. -/
theorem Took.skip (took : Took s n middle)
    (same : s.conns[n]?.map Conn.accepted = s.conns[n]?) : Took s (n + 1) middle where
  loop := took.loop
  conns := by
    intro other
    rcases Nat.lt_trichotomy other n with below | rfl | above
    · rw [took.conns, if_pos below, if_pos (by omega)]
    · rw [took.next_conn, if_pos (by omega), same]
    · rw [took.conns, if_neg (by omega), if_neg (by omega)]

theorem Took.accept (took : Took s n middle)
    (json : Json Value Found Explained ResponseMeta) (found : s.conns[n]? = some conn)
    (queued : conn.handler.isQueued = true) :
    ∃ after, middle.next json (.accept n) = some after ∧ Took s (n + 1) after := by
  have found' : middle.conns[n]? = some conn := took.next_conn.trans found
  refine ⟨middle.setConn n conn { conn with handler := .reading [] },
    by simp [next, found', took.loop, queued, took.firstInLine], took.loop, ?_⟩
  intro other
  have moved : (middle.setConn n conn { conn with handler := .reading [] }).conns =
      middle.conns.set n { conn with handler := .reading [] } := rfl
  rcases Nat.lt_trichotomy other n with below | rfl | above
  · rw [moved, List.getElem?_set_ne (by omega), took.conns, if_pos below, if_pos (by omega)]
  · rw [moved, List.getElem?_set_self (List.getElem?_eq_some_iff.1 found').1, if_pos (by omega),
      found]
    simp [Conn.accepted, queued]
  · rw [moved, List.getElem?_set_ne (by omega), took.conns, if_neg (by omega), if_neg (by omega)]

/-- The loop can take the first `n` connections, one after the other. -/
theorem accept_line (json : Json Value Found Explained ResponseMeta)
    (accepting : s.loop = .accepting) (n : Nat) :
    ∃ more s', Execution.run (next json) s more = some s' ∧
      (∀ event ∈ more, ∃ other, other < n ∧ event = .accept other) ∧ Took s n s' := by
  induction n with
  | zero => exact ⟨[], s, rfl, by simp, accepting, by simp⟩
  | succ n ih =>
      rcases ih with ⟨more, middle, ran, accepts, took⟩
      have within : ∀ event ∈ more, ∃ other, other < n + 1 ∧ event = .accept other := by
        intro event event_mem
        rcases accepts event event_mem with ⟨other, below, rfl⟩
        exact ⟨other, by omega, rfl⟩
      cases found : s.conns[n]? with
      | none => exact ⟨more, middle, ran, within, took.skip (by simp [found])⟩
      | some conn =>
          by_cases queued : conn.handler.isQueued = true
          · rcases took.accept json found queued with ⟨after, taken, took'⟩
            have ran_one : Execution.run (next json) middle [.accept n] = some after :=
              Execution.run_cons.2 ⟨after, taken, rfl⟩
            refine ⟨more ++ [.accept n], after, Execution.run_append.2 ⟨middle, ran, ran_one⟩, ?_,
              took'⟩
            intro event event_mem
            rcases List.mem_append.1 event_mem with old | new
            · exact within event old
            · exact ⟨n, by omega, List.mem_singleton.1 new⟩
          · refine ⟨more, middle, ran, within, took.skip ?_⟩
            rw [found]
            simp [Conn.accepted, queued]

end Line

/-- However many other connections there are and whatever they wait for, a client is brought its
answer by events of its own connection, after those in front of it in the line were accepted. No
other connection moves. -/
theorem waiting_can_be_served (json : Json Value Found Explained ResponseMeta)
    {events : List (Event Found Explained ResponseMeta)}
    {s : System Value Found Explained ResponseMeta}
    (ran : Execution.run (next json) bound events = some s) {id : Nat}
    {conn : Conn Value Found Explained ResponseMeta} (found : s.conns[id]? = some conn)
    (waiting : conn.client.isOpen = true) (attends : s.Attends conn)
    {engine : Engine Found Explained ResponseMeta} (fits : conn.Fits json engine) :
    ∃ more s' conn' answerer, Execution.run (next json) s more = some s' ∧
      (∀ event ∈ more, (∃ own, event = .conn id own) ∨
        conn.handler.isQueued = true ∧ ∃ other, other ≤ id ∧ event = .accept other) ∧
      s'.loop = s.loop ∧ s'.conns[id]? = some conn' ∧
      (∀ other, other ≠ id → s'.conns[other]? =
        if conn.handler.isQueued = true ∧ other < id then s.conns[other]?.map Conn.accepted
        else s.conns[other]?) ∧
      conn'.client = .returned (.ok (received json (dispatch json answerer conn.request))) := by
  have within : id < s.conns.length := (List.getElem?_eq_some_iff.1 found).1
  rcases attends with attended | ⟨queued, accepting⟩
  · have not_queued : conn.handler.isQueued = false := by
      cases phase : conn.handler <;>
        simp_all [Conn.Attended, HandlerPhase.isQueued]
    rcases attended_can_be_served (run_sound ran) (run_busy ran) found waiting attended fits with
      ⟨own, s', conn', answerer, ran', loop, conns, returned⟩
    refine ⟨own.map (Event.conn id), s', conn', answerer, ran', ?_, loop, ?_, ?_, returned⟩
    · intro event event_mem
      rcases List.mem_map.1 event_mem with ⟨e, -, rfl⟩
      exact Or.inl ⟨e, rfl⟩
    · rw [conns, List.getElem?_set_self within]
    · intro other different
      rw [conns, List.getElem?_set_ne (Ne.symm different)]
      simp [not_queued]
  · rcases accept_line json accepting (id + 1) with
      ⟨accepts, middle, ran_line, line_events, still, line⟩
    have ran_both := Execution.run_append.2 ⟨s, ran, ran_line⟩
    have taken : middle.conns[id]? = some conn.accepted := by
      rw [line, if_pos (by omega), found]
      rfl
    have same_client : conn.accepted.client = conn.client := by simp [Conn.accepted, queued]
    have same_request : conn.accepted.request = conn.request := by simp [Conn.accepted, queued]
    have attended : conn.accepted.Attended := by simp [Conn.accepted, queued, Conn.Attended]
    rcases attended_can_be_served (run_sound ran_both) (run_busy ran_both) taken
      (by rwa [same_client]) attended (by rwa [Conn.Fits, same_request]) with
      ⟨own, s', conn', answerer, ran', loop, conns, returned⟩
    refine ⟨accepts ++ own.map (Event.conn id), s', conn', answerer,
      Execution.run_append.2 ⟨middle, ran_line, ran'⟩, ?_, by rw [loop, still, accepting], ?_, ?_,
      by rw [returned, same_request]⟩
    · intro event event_mem
      rcases List.mem_append.1 event_mem with line_mem | own_mem
      · rcases line_events event line_mem with ⟨other, below, rfl⟩
        exact Or.inr ⟨queued, other, by omega, rfl⟩
      · rcases List.mem_map.1 own_mem with ⟨e, -, rfl⟩
        exact Or.inl ⟨e, rfl⟩
    · rw [conns, List.getElem?_set_self (List.getElem?_eq_some_iff.1 taken).1]
    · intro other different
      rw [conns, List.getElem?_set_ne (Ne.symm different), line]
      by_cases below : other < id
      · rw [if_pos (by omega), if_pos ⟨queued, below⟩]
      · rw [if_neg (by omega), if_neg (by simp [below])]

/-- Three clients ask for a shutdown: the first was accepted and is silent, and so may be the
second, which stands in front of the third. -/
def silentRun : List (Event String String String) :=
    [.connect ⟨1, none, .shutdown⟩, .connect ⟨1, none, .shutdown⟩, .accept 0,
      .connect ⟨1, none, .shutdown⟩]

theorem shutdown_can_be_served :
    ∃ s conn, Execution.run (next Json.shutdown) bound silentRun = some s ∧
      s.conns[2]? = some conn ∧ conn.handler.isQueued = true ∧
      ∃ more s' conn' answerer, Execution.run (next Json.shutdown) s more = some s' ∧
        (∀ event ∈ more, (∃ own, event = .conn 2 own) ∨
          conn.handler.isQueued = true ∧ ∃ other, other ≤ 2 ∧ event = .accept other) ∧
        s'.loop = s.loop ∧ s'.conns[2]? = some conn' ∧
        (∀ other, other ≠ 2 → s'.conns[other]? =
          if conn.handler.isQueued = true ∧ other < 2 then s.conns[other]?.map Conn.accepted
          else s.conns[other]?) ∧
        conn'.client =
          .returned (.ok (received Json.shutdown
            (dispatch Json.shutdown answerer conn.request))) := by
  refine ⟨_, _, rfl, rfl, rfl, ?_⟩
  have ran : Execution.run (next Json.shutdown) bound silentRun = some _ := rfl
  exact waiting_can_be_served Json.shutdown ran rfl (by decide) (Or.inr ⟨rfl, rfl⟩)
    (show Conn.Fits Json.shutdown absent _ from ⟨_, rfl⟩)

end System

end Ipc

end Ohara
