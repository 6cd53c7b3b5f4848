import Ohara.Engine.IpcRuns

/-!
# What clients of the daemon can rely on

The bytes on a connection are at any time a cut of the request's frame on the way there and of one
reply's frame on the way back. Hence a client that gets a response gets the answer to its own
request, which was dispatched once, and a shutdown is acknowledged before the daemon stops.
-/

namespace Ohara

namespace Ipc

open Frames (Bytes)

variable {Value Found Explained ResponseMeta : Type}
  {json : Json Value Found Explained ResponseMeta}

theorem arrived_part {body got rest : Bytes} (allowed : body.length ≤ maxFrameBytes)
    (part : got ++ rest = Frames.frame 4 body) :
    arrived got = if rest = [] then some (.ok body) else none := by
  have fits : body.length < 256 ^ 4 := Nat.lt_of_le_of_lt allowed (by decide)
  rw [arrived, Frames.read_part fits part allowed]
  by_cases whole : rest = []
  · simp [whole]
  · by_cases short : got.length < 4 <;> simp [whole, short]

/-! ## One connection -/

namespace Conn

variable {conn conn' : Conn Value Found Explained ResponseMeta}

/-- What an open client has not written yet of its request. -/
def owed (conn : Conn Value Found Explained ResponseMeta) : Option Bytes :=
    match conn.client with
    | .writing left => some left
    | .reading _ => some []
    | .returned _ => none

/-- What has been written to an open client, taken or not. -/
def delivered (conn : Conn Value Found Explained ResponseMeta) : Option Bytes :=
    match conn.client with
    | .writing _ => some conn.toClient
    | .reading got => some (got ++ conn.toClient)
    | .returned _ => none

/-- The handler has taken `got` of the request; a client that is gone may have owed anything. -/
def Incoming (json : Json Value Found Explained ResponseMeta)
    (conn : Conn Value Found Explained ResponseMeta) (got : Bytes) : Prop :=
    (∃ lost, (∀ left, conn.owed = some left → lost = left) ∧
        requestWire json conn.request = .ok (got ++ conn.toServer ++ lost)) ∨
      got ++ conn.toServer = [] ∧ conn.owed = none

/-- Nothing was written to the client. -/
def Silent (conn : Conn Value Found Explained ResponseMeta) : Prop :=
    ∀ bytes, conn.delivered = some bytes → bytes = []

/-- The engine's answer goes to the client, up to the part that is left. -/
def Outgoing (json : Json Value Found Explained ResponseMeta)
    (conn : Conn Value Found Explained ResponseMeta) (left : Bytes) : Prop :=
    ∃ engine wire, conn.answered = [engine] ∧
      replyWire json (dispatch json engine conn.request) = .ok wire ∧
      ∀ bytes, conn.delivered = some bytes → bytes ++ left = wire

/-- The handler is gone, with or without a part of its reply. -/
def Gone (json : Json Value Found Explained ResponseMeta)
    (conn : Conn Value Found Explained ResponseMeta) : Prop :=
    conn.answered.length ≤ 1 ∧ conn.Silent ∨ ∃ left, conn.Outgoing json left

/-- What the handler holds is of its own client. -/
def HandlerSound (json : Json Value Found Explained ResponseMeta)
    (conn : Conn Value Found Explained ResponseMeta) : Prop :=
    match conn.handler with
    | .queued => conn.Incoming json [] ∧ conn.answered = [] ∧ conn.Silent
    | .reading got => conn.Incoming json got ∧ conn.answered = [] ∧ conn.Silent
    | .dispatching req => req = conn.request ∧ conn.answered = [] ∧ conn.Silent
    | .replying left isShutdown =>
        isShutdown = decide (conn.request.method = .shutdown) ∧ conn.Outgoing json left
    | .finished (.ok ()) => conn.Outgoing json []
    | .finished (.error _) => conn.Gone json
    | .dropped => conn.Gone json

/-- A response that was returned is the answer. -/
def ClientSound (json : Json Value Found Explained ResponseMeta)
    (conn : Conn Value Found Explained ResponseMeta) : Prop :=
    ∀ reply, conn.client = .returned (.ok reply) →
      ∃ engine, conn.answered = [engine] ∧
        reply = received json (dispatch json engine conn.request)

/-- Handler and client of a connection are about one request. -/
structure Sound (json : Json Value Found Explained ResponseMeta)
    (conn : Conn Value Found Explained ResponseMeta) : Prop where
  handler : conn.HandlerSound json
  client : conn.ClientSound json

theorem sound_start (req : Request) : (start json req).Sound json := by
  constructor
  · cases written : requestWire json req with
    | ok wire => simp [HandlerSound, start, written, Incoming, Silent, owed, delivered]
    | error e => simp [HandlerSound, start, written, Incoming, Silent, owed, delivered]
  · intro reply returned
    cases written : requestWire json req <;> simp [start, written] at returned

/-! ### Moves of the client -/

/-- The other end sees of the client only what is on the way. -/
structure ClientMoved (json : Json Value Found Explained ResponseMeta)
    (conn conn' : Conn Value Found Explained ResponseMeta) : Prop where
  request : conn'.request = conn.request
  handler : conn'.handler = conn.handler
  answered : conn'.answered = conn.answered
  delivered : ∀ bytes, conn'.delivered = some bytes → conn.delivered = some bytes
  incoming : ∀ got, conn.Incoming json got → conn'.Incoming json got

theorem ClientMoved.silent (moved : ClientMoved json conn conn') (silent : conn.Silent) :
    conn'.Silent :=
  fun bytes back => silent bytes (moved.delivered bytes back)

theorem ClientMoved.outgoing (moved : ClientMoved json conn conn') {left : Bytes}
    (outgoing : conn.Outgoing json left) : conn'.Outgoing json left := by
  rcases outgoing with ⟨engine, wire, answered, written, back⟩
  refine ⟨engine, wire, by rw [moved.answered, answered], by rw [moved.request, written], ?_⟩
  intro bytes delivered
  exact back bytes (moved.delivered bytes delivered)

theorem ClientMoved.gone (moved : ClientMoved json conn conn') (gone : conn.Gone json) :
    conn'.Gone json := by
  rcases gone with ⟨once, silent⟩ | ⟨left, outgoing⟩
  · exact Or.inl ⟨by rw [moved.answered]; exact once, moved.silent silent⟩
  · exact Or.inr ⟨left, moved.outgoing outgoing⟩

theorem HandlerSound.moved (sound : conn.HandlerSound json)
    (moved : ClientMoved json conn conn') : conn'.HandlerSound json := by
  unfold HandlerSound at sound ⊢
  rw [moved.handler]
  split at sound
  · exact ⟨moved.incoming _ sound.1, by rw [moved.answered, sound.2.1], moved.silent sound.2.2⟩
  · exact ⟨moved.incoming _ sound.1, by rw [moved.answered, sound.2.1], moved.silent sound.2.2⟩
  · exact ⟨by rw [moved.request, sound.1], by rw [moved.answered, sound.2.1],
      moved.silent sound.2.2⟩
  · exact ⟨by rw [moved.request, sound.1], moved.outgoing sound.2⟩
  · exact moved.outgoing sound
  · exact moved.gone sound
  · exact moved.gone sound

/-- Bytes that came back are a part of the reply. -/
theorem HandlerSound.reply_of_delivered (sound : conn.HandlerSound json) {bytes : Bytes}
    (delivered : conn.delivered = some bytes) (some_bytes : bytes ≠ []) :
    ∃ left, conn.Outgoing json left := by
  have gone_case : conn.Gone json → ∃ left, conn.Outgoing json left := by
    rintro (⟨-, silent⟩ | outgoing)
    · exact absurd (silent bytes delivered) some_bytes
    · exact outgoing
  unfold HandlerSound at sound
  split at sound
  · exact absurd (sound.2.2 bytes delivered) some_bytes
  · exact absurd (sound.2.2 bytes delivered) some_bytes
  · exact absurd (sound.2.2 bytes delivered) some_bytes
  · exact ⟨_, sound.2⟩
  · exact ⟨_, sound⟩
  · exact gone_case sound
  · exact gone_case sound

theorem clientWrite_sound (sound : conn.Sound json) {n : Nat}
    (stepped : conn.next json (.clientWrite n) = some conn') : conn'.Sound json := by
  rcases conn with ⟨request, client, handler, toServer, toClient, answered⟩
  cases client with
  | reading got => cases stepped
  | returned result => cases stepped
  | writing left =>
      simp only [next, Option.ite_none_right_eq_some, Option.some.injEq] at stepped
      rcases stepped with ⟨⟨-, le, -⟩, rfl⟩
      refine ⟨sound.handler.moved ⟨rfl, rfl, rfl, ?_, ?_⟩, ?_⟩
      · intro bytes back
        by_cases more : n < left.length <;> simpa [delivered, more] using back
      · rintro got (⟨lost, owes, wire⟩ | ⟨-, none_owed⟩)
        · cases owes left rfl
          refine Or.inl ⟨left.drop n, ?_, ?_⟩
          · by_cases more : n < left.length
            · simp [owed, more]
            · simp [owed, more, List.drop_eq_nil_iff, Nat.not_lt.1 more]
          · simpa using wire
        · cases none_owed
      · intro reply returned
        by_cases more : n < left.length <;> simp [more] at returned

theorem clientFail_sound (sound : conn.Sound json) {e : EngineError}
    (stepped : conn.next json (.clientFail e) = some conn') : conn'.Sound json := by
  cases step_of_next stepped
  refine ⟨sound.handler.moved ⟨rfl, rfl, rfl, ?_, ?_⟩, ?_⟩
  · rintro bytes ⟨⟩
  · rintro got (⟨lost, -, wire⟩ | ⟨nothing, -⟩)
    · exact Or.inl ⟨lost, by rintro left ⟨⟩, wire⟩
    · exact Or.inr ⟨nothing, rfl⟩
  · rintro reply ⟨⟩

theorem clientRead_sound (sound : conn.Sound json) {n : Nat}
    (stepped : conn.next json (.clientRead n) = some conn') : conn'.Sound json := by
  rcases conn with ⟨request, client, handler, toServer, toClient, answered⟩
  cases client with
  | writing left => cases stepped
  | returned result => cases stepped
  | reading got =>
      simp only [next, Option.ite_none_right_eq_some, Option.some.injEq] at stepped
      rcases stepped with ⟨⟨positive, available, -⟩, rfl⟩
      have some_bytes : got ++ toClient ≠ [] := by
        intro nothing
        have short := congrArg List.length nothing
        simp only [List.length_append, List.length_nil] at short
        omega
      rcases sound.handler.reply_of_delivered rfl some_bytes with
        ⟨left, engine, wire, once, written, back⟩
      rcases replyWire_eq_ok written with ⟨body, allowed, rfl, decoded⟩
      have part : (got ++ toClient.take n) ++ (toClient.drop n ++ left) =
          Frames.frame 4 body := by
        rw [List.append_assoc, ← List.append_assoc (toClient.take n), List.take_append_drop,
          ← List.append_assoc]
        exact back _ rfl
      have frame := arrived_part allowed part
      refine ⟨sound.handler.moved ⟨rfl, rfl, rfl, ?_, ?_⟩, ?_⟩
      · intro bytes delivered
        by_cases whole : toClient.drop n ++ left = []
        · rw [if_pos whole] at frame
          simp [Conn.delivered, ClientPhase.afterRead, frame] at delivered
        · rw [if_neg whole] at frame
          simpa [Conn.delivered, ClientPhase.afterRead, frame] using delivered
      · rintro taken (⟨lost, owes, sent⟩ | ⟨-, none_owed⟩)
        · cases owes [] rfl
          refine Or.inl ⟨[], ?_, sent⟩
          by_cases whole : toClient.drop n ++ left = []
          · rw [if_pos whole] at frame
            simp [owed, ClientPhase.afterRead, frame]
          · rw [if_neg whole] at frame
            simp [owed, ClientPhase.afterRead, frame]
        · cases none_owed
      · intro reply returned
        by_cases whole : toClient.drop n ++ left = []
        · rw [if_pos whole] at frame
          refine ⟨engine, once, ?_⟩
          simp [ClientPhase.afterRead, frame, decoded] at returned
          exact returned.symm
        · rw [if_neg whole] at frame
          simp [ClientPhase.afterRead, frame] at returned

/-! ### Moves of the handler -/

theorem Silent.gone (silent : conn.Silent) (none_answered : conn.answered = []) :
    conn.Gone json :=
  Or.inl ⟨by simp [none_answered], silent⟩

theorem handlerRead_sound (sound : conn.Sound json) {n : Nat}
    (stepped : conn.next json (.handlerRead n) = some conn') : conn'.Sound json := by
  rcases sound with ⟨handlerSound, clientSound⟩
  cases step_of_next stepped with
  | @handlerRead _ got phase positive available _ =>
      simp only [HandlerSound, phase] at handlerSound
      rcases handlerSound with ⟨incoming, none_answered, silent⟩
      refine ⟨?_, clientSound⟩
      rcases incoming with ⟨lost, owes, sent⟩ | ⟨nothing, -⟩
      · rcases requestWire_eq_ok sent with ⟨body, allowed, frame_eq, decoded⟩
        have part : (got ++ conn.toServer.take n) ++ (conn.toServer.drop n ++ lost) =
            Frames.frame 4 body := by
          rw [← frame_eq, List.append_assoc, ← List.append_assoc (conn.toServer.take n),
            List.take_append_drop, ← List.append_assoc]
        have frame := arrived_part allowed part
        by_cases whole : conn.toServer.drop n ++ lost = []
        · rw [if_pos whole] at frame
          have after : HandlerPhase.afterRead json (got ++ conn.toServer.take n) =
              .dispatching conn.request := by
            simp [HandlerPhase.afterRead, frame, decoded]
          simp only [HandlerSound, after]
          exact ⟨trivial, none_answered, silent⟩
        · rw [if_neg whole] at frame
          have after : HandlerPhase.afterRead json (got ++ conn.toServer.take n) =
              .reading (got ++ conn.toServer.take n) := by
            simp [HandlerPhase.afterRead, frame]
          simp only [HandlerSound, after]
          refine ⟨Or.inl ⟨lost, owes, ?_⟩, none_answered, silent⟩
          rw [sent, frame_eq, ← part, List.append_assoc _ _ lost]
      · have short := congrArg List.length nothing
        simp only [List.length_append, List.length_nil] at short
        omega

theorem handlerFail_sound (sound : conn.Sound json) {e : EngineError}
    (stepped : conn.next json (.handlerFail e) = some conn') : conn'.Sound json := by
  rcases sound with ⟨handlerSound, clientSound⟩
  cases step_of_next stepped with
  | failReading phase =>
      simp only [HandlerSound, phase] at handlerSound
      exact ⟨Silent.gone handlerSound.2.2 handlerSound.2.1, clientSound⟩
  | failReplying phase =>
      simp only [HandlerSound, phase] at handlerSound
      exact ⟨Or.inr ⟨_, handlerSound.2⟩, clientSound⟩

theorem dispatch_sound (sound : conn.Sound json) {engine : Engine Found Explained ResponseMeta}
    (stepped : conn.next json (.dispatch engine) = some conn') : conn'.Sound json := by
  rcases sound with ⟨handlerSound, clientSound⟩
  cases step_of_next stepped with
  | dispatch phase =>
      simp only [HandlerSound, phase] at handlerSound
      rcases handlerSound with ⟨rfl, none_answered, silent⟩
      constructor
      · cases written : replyWire json (Ipc.dispatch json engine conn.request) with
        | ok wire =>
            simp only [HandlerSound, HandlerPhase.afterDispatch, written]
            refine ⟨trivial, engine, wire, by simp [none_answered], written, ?_⟩
            intro bytes back
            rw [silent bytes back, List.nil_append]
        | error e =>
            simp only [HandlerSound, HandlerPhase.afterDispatch, written]
            exact Or.inl ⟨by simp [none_answered], silent⟩
      · intro reply returned
        rcases clientSound reply returned with ⟨before, answered, -⟩
        rw [none_answered] at answered
        cases answered

theorem handlerWrite_sound (sound : conn.Sound json) {n : Nat}
    (stepped : conn.next json (.handlerWrite n) = some conn') : conn'.Sound json := by
  rcases sound with ⟨handlerSound, clientSound⟩
  cases step_of_next stepped with
  | @handlerWrite _ left isShutdown phase _ le _ =>
      simp only [HandlerSound, phase] at handlerSound
      rcases handlerSound with ⟨same, engine, wire, answered, written, back⟩
      refine ⟨?_, clientSound⟩
      have further : Outgoing json
          { conn with
            handler :=
              if n < left.length then .replying (left.drop n) isShutdown else .finished (.ok ())
            toClient := conn.toClient ++ left.take n } (left.drop n) := by
        refine ⟨engine, wire, answered, written, fun bytes delivered => ?_⟩
        rcases conn with ⟨request, client, handler, toServer, toClient, answered⟩
        cases client with
        | writing unsent =>
            cases delivered
            have before := back _ rfl
            rw [List.append_assoc, List.take_append_drop]
            exact before
        | reading got =>
            cases delivered
            have before := back _ rfl
            rw [List.append_assoc, List.append_assoc, List.take_append_drop, ← List.append_assoc]
            exact before
        | returned result => cases delivered
      by_cases more : n < left.length
      · simp only [HandlerSound, more, if_true] at further ⊢
        exact ⟨same, further⟩
      · have nothing_left : left.drop n = [] := List.drop_eq_nil_iff.2 (by omega)
        simp only [HandlerSound, more, if_false] at further ⊢
        rwa [nothing_left] at further

theorem next_sound (sound : conn.Sound json) {event : ConnEvent Found Explained ResponseMeta}
    (stepped : conn.next json event = some conn') : conn'.Sound json := by
  cases event with
  | clientWrite n => exact clientWrite_sound sound stepped
  | clientRead n => exact clientRead_sound sound stepped
  | clientFail e => exact clientFail_sound sound stepped
  | handlerRead n => exact handlerRead_sound sound stepped
  | handlerFail e => exact handlerFail_sound sound stepped
  | dispatch engine => exact dispatch_sound sound stepped
  | handlerWrite n => exact handlerWrite_sound sound stepped

theorem accept_sound (sound : conn.Sound json) (queued : conn.handler.isQueued = true) :
    Sound json { conn with handler := .reading [] } := by
  rcases sound with ⟨handlerSound, clientSound⟩
  cases phase : conn.handler with
  | queued =>
      simp only [HandlerSound, phase] at handlerSound
      exact ⟨handlerSound, clientSound⟩
  | _ => simp [HandlerPhase.isQueued, phase] at queued

theorem drop_sound (sound : conn.Sound json) : conn.drop.Sound json := by
  rcases sound with ⟨handlerSound, clientSound⟩
  unfold drop
  split
  · rename_i running
    refine ⟨?_, clientSound⟩
    unfold HandlerSound at handlerSound
    split at handlerSound
    · exact Silent.gone handlerSound.2.2 handlerSound.2.1
    · exact Silent.gone handlerSound.2.2 handlerSound.2.1
    · exact Silent.gone handlerSound.2.2 handlerSound.2.1
    · exact Or.inr ⟨_, handlerSound.2⟩
    · exact Or.inr ⟨_, handlerSound⟩
    · exact handlerSound
    · exact handlerSound
  · exact ⟨handlerSound, clientSound⟩

/-- The request stays, and a handler that is gone does nothing any more. -/
theorem next_frame {event : ConnEvent Found Explained ResponseMeta}
    (stepped : conn.next json event = some conn') :
    conn'.request = conn.request ∧ (conn.handler.isOpen = false →
      conn'.handler = conn.handler ∧ conn'.answered = conn.answered) := by
  cases step_of_next stepped with
  | clientWrite | clientRead | clientFail => exact ⟨rfl, fun _ => ⟨rfl, rfl⟩⟩
  | handlerRead reading | failReading reading =>
      rw [reading]
      exact ⟨rfl, by rintro ⟨⟩⟩
  | failReplying replying | handlerWrite replying =>
      rw [replying]
      exact ⟨rfl, by rintro ⟨⟩⟩
  | dispatch dispatching =>
      rw [dispatching]
      exact ⟨rfl, by rintro ⟨⟩⟩

theorem cancels_eq_true {before after : HandlerPhase} (cancel : cancels before after = true) :
    (∃ left, before = .replying left true) ∧ after = .finished (.ok ()) := by
  unfold cancels at cancel
  split at cancel
  · exact ⟨⟨_, rfl⟩, rfl⟩
  · cases cancel

theorem method_of_cancels (sound : conn.Sound json)
    (cancel : cancels conn.handler conn'.handler = true) : conn.request.method = .shutdown := by
  rcases cancels_eq_true cancel with ⟨⟨left, phase⟩, -⟩
  have handlerSound := sound.handler
  simp only [HandlerSound, phase] at handlerSound
  exact of_decide_eq_true handlerSound.1.symm

theorem drop_closed (conn : Conn Value Found Explained ResponseMeta) :
    conn.drop.handler.isOpen = false := by
  unfold drop
  split
  · rfl
  · rename_i closed
    exact Bool.eq_false_iff.2 closed

theorem drop_of_closed (closed : conn.handler.isOpen = false) : conn.drop = conn := by
  simp [drop, closed]

end Conn

/-! ## The daemon -/

namespace System

variable {s s' : System Value Found Explained ResponseMeta}

/-- The invariant of the daemon. -/
structure Sound (json : Json Value Found Explained ResponseMeta)
    (s : System Value Found Explained ResponseMeta) : Prop where
  conns : ∀ conn ∈ s.conns, conn.Sound json
  shutdowns : ∀ id ∈ s.shutdowns, ∃ conn, s.conns[id]? = some conn ∧
    conn.request.method = .shutdown ∧ conn.handler = .finished (.ok ())
  returned : s.loop = .returned →
    s.socket = false ∧ ∀ conn ∈ s.conns, conn.handler.isOpen = false

theorem sound_bound : (bound : System Value Found Explained ResponseMeta).Sound json where
  conns := by simp [bound]
  shutdowns := by simp [bound]
  returned := by simp [bound]

/-- One connection moves. -/
theorem setConn_sound (sound : s.Sound json) {id : Nat}
    {conn conn' : Conn Value Found Explained ResponseMeta} (found : s.conns[id]? = some conn)
    (moved : conn'.Sound json) (request : conn'.request = conn.request)
    (closed : conn.handler.isOpen = false → conn'.handler = conn.handler) :
    (s.setConn id conn conn').Sound json := by
  have conn_mem : conn ∈ s.conns := List.mem_of_getElem? found
  have within : id < s.conns.length := (List.getElem?_eq_some_iff.1 found).1
  refine ⟨?_, ?_, ?_⟩
  · intro other other_mem
    rcases List.mem_or_eq_of_mem_set other_mem with old | rfl
    · exact sound.conns other old
    · exact moved
  · intro other other_mem
    have cases_mem : other ∈ s.shutdowns ∨
        other = id ∧ cancels conn.handler conn'.handler = true := by
      simp only [setConn] at other_mem
      split at other_mem
      · rename_i cancel
        rcases List.mem_append.1 other_mem with old | new
        · exact Or.inl old
        · exact Or.inr ⟨by simpa using new, cancel⟩
      · exact Or.inl other_mem
    simp only [setConn, List.getElem?_set]
    by_cases same : id = other
    · subst same
      refine ⟨conn', by simp [within], ?_⟩
      rcases cases_mem with old | ⟨-, cancel⟩
      · rcases sound.shutdowns id old with ⟨before, before_found, method, finished⟩
        rw [found] at before_found
        cases before_found
        exact ⟨by rw [request, method], by rw [closed (by rw [finished]; rfl), finished]⟩
      · refine ⟨?_, (Conn.cancels_eq_true cancel).2⟩
        rw [request]
        exact Conn.method_of_cancels (sound.conns conn conn_mem) cancel
    · rcases cases_mem with old | ⟨rfl, -⟩
      · rcases sound.shutdowns other old with ⟨before, before_found, kept⟩
        exact ⟨before, by simp [same, before_found], kept⟩
      · exact absurd rfl same
  · intro returned
    rcases sound.returned returned with ⟨no_socket, all_closed⟩
    refine ⟨no_socket, fun other other_mem => ?_⟩
    rcases List.mem_or_eq_of_mem_set other_mem with old | rfl
    · exact all_closed other old
    · have was_closed := all_closed conn conn_mem
      rw [closed was_closed]
      exact was_closed

theorem next_sound (sound : s.Sound json) {event : Event Found Explained ResponseMeta}
    (stepped : s.next json event = some s') : s'.Sound json := by
  cases step_of_next stepped with
  | @connect req listening =>
      refine ⟨?_, ?_, ?_⟩
      · intro conn conn_mem
        rcases List.mem_append.1 conn_mem with old | new
        · exact sound.conns conn old
        · rw [List.mem_singleton.1 new]
          exact Conn.sound_start req
      · intro id id_mem
        rcases sound.shutdowns id id_mem with ⟨conn, found, kept⟩
        have within : id < s.conns.length := (List.getElem?_eq_some_iff.1 found).1
        exact ⟨conn, by rw [List.getElem?_append_left within, found], kept⟩
      · intro returned
        rw [(sound.returned returned).1] at listening
        cases listening
  | @accept id conn found accepting queued =>
      have conn_sound := sound.conns conn (List.mem_of_getElem? found)
      refine setConn_sound sound found (Conn.accept_sound conn_sound queued) rfl ?_
      intro closed
      cases phase : conn.handler <;> simp_all [HandlerPhase.isQueued, HandlerPhase.isOpen]
  | conn found moved =>
      have conn_sound := sound.conns _ (List.mem_of_getElem? found)
      refine setConn_sound sound found (Conn.next_sound conn_sound moved)
        (Conn.next_frame moved).1 ?_
      intro closed
      exact ((Conn.next_frame moved).2 closed).1
  | cancel => exact ⟨sound.conns, sound.shutdowns, sound.returned⟩
  | leaveLoop => exact ⟨sound.conns, sound.shutdowns, by rintro ⟨⟩⟩
  | returnServe =>
      refine ⟨?_, ?_, ?_⟩
      · intro conn conn_mem
        rcases List.mem_map.1 conn_mem with ⟨before, before_mem, rfl⟩
        exact Conn.drop_sound (sound.conns before before_mem)
      · intro id id_mem
        rcases sound.shutdowns id id_mem with ⟨conn, found, method, finished⟩
        refine ⟨conn, ?_, method, finished⟩
        have kept : conn.drop = conn := Conn.drop_of_closed (by rw [finished]; rfl)
        simp [found, kept]
      · intro _
        refine ⟨rfl, fun conn conn_mem => ?_⟩
        rcases List.mem_map.1 conn_mem with ⟨before, -, rfl⟩
        exact before.drop_closed

theorem run_sound {events : List (Event Found Explained ResponseMeta)}
    (ran : Execution.run (next json) bound events = some s) : s.Sound json :=
  Execution.invariant (Sound json) (fun _ _ _ sound stepped => next_sound sound stepped)
    sound_bound ran

/-! ### What holds in every run -/

/-- What a client has of the connection: the request ran at most once, and a response that came
back is the answer to it, under its id. -/
structure Served (json : Json Value Found Explained ResponseMeta)
    (conn : Conn Value Found Explained ResponseMeta) : Prop where
  once : conn.answered.length ≤ 1
  correlated : ∀ reply, conn.client = .returned (.ok reply) →
    ∃ engine, conn.answered = [engine] ∧
      reply = received json (dispatch json engine conn.request) ∧ reply.id = conn.request.id

/-- The reply to the shutdown is on its way in full, and stays there for a client that reads on. -/
def Acknowledged (json : Json Value Found Explained ResponseMeta)
    (conn : Conn Value Found Explained ResponseMeta) : Prop :=
    conn.request.method = .shutdown ∧
      ∃ engine wire, conn.answered = [engine] ∧
        replyWire json (dispatch json engine conn.request) = .ok wire ∧
        ∀ got, conn.client = .reading got → got ++ conn.toClient = wire

theorem served_of_sound {conn : Conn Value Found Explained ResponseMeta}
    (sound : conn.Sound json) : Served json conn := by
  constructor
  · have gone_once : conn.Gone json → conn.answered.length ≤ 1 := by
      rintro (⟨once, -⟩ | ⟨left, engine, wire, answered, -⟩)
      · exact once
      · simp [answered]
    have handlerSound := sound.handler
    unfold Conn.HandlerSound at handlerSound
    split at handlerSound
    · simp [handlerSound.2.1]
    · simp [handlerSound.2.1]
    · simp [handlerSound.2.1]
    · exact gone_once (Or.inr ⟨_, handlerSound.2⟩)
    · exact gone_once (Or.inr ⟨_, handlerSound⟩)
    · exact gone_once handlerSound
    · exact gone_once handlerSound
  · intro reply returned
    rcases sound.client reply returned with ⟨engine, answered, rfl⟩
    exact ⟨engine, answered, rfl, by simp [received]⟩

theorem acknowledged_of_sound {conn : Conn Value Found Explained ResponseMeta}
    (sound : conn.Sound json) (method : conn.request.method = .shutdown)
    (finished : conn.handler = .finished (.ok ())) : Acknowledged json conn := by
  have handlerSound := sound.handler
  simp only [Conn.HandlerSound, finished] at handlerSound
  rcases handlerSound with ⟨engine, wire, answered, written, back⟩
  refine ⟨method, engine, wire, answered, written, fun got reading => ?_⟩
  have all := back (got ++ conn.toClient) (by simp [Conn.delivered, reading])
  rwa [List.append_nil] at all

/-- Nothing is dispatched any more. -/
theorem answered_after_return (sound : s.Sound json) (returned : s.loop = .returned)
    {event : Event Found Explained ResponseMeta} (stepped : s.next json event = some s') :
    s'.conns.map Conn.answered = s.conns.map Conn.answered := by
  rcases sound.returned returned with ⟨no_socket, all_closed⟩
  cases step_of_next stepped with
  | connect listening => simp [no_socket] at listening
  | accept _ accepting => simp [returned] at accepting
  | @conn id _ before after found moved =>
      have closed := all_closed before (List.mem_of_getElem? found)
      have same := ((Conn.next_frame moved).2 closed).2
      have there : (s.conns.map Conn.answered)[id]? = some after.answered := by
        simp [found, same]
      rcases List.getElem?_eq_some_iff.1 there with ⟨within, at_id⟩
      rw [setConn, List.map_set, ← at_id]
      exact List.set_getElem_self within
  | cancel => rfl
  | leaveLoop accepting => simp [returned] at accepting
  | returnServe draining => simp [returned] at draining

/-- Without the watchdog, only a shutdown cancels the token. -/
theorem next_stop {event : Event Found Explained ResponseMeta} (not_watchdog : event ≠ .cancel)
    (shutdown : s.stop = true → s.shutdowns ≠ []) (stepped : s.next json event = some s') :
    s'.stop = true → s'.shutdowns ≠ [] := by
  have moved : ∀ id conn conn', (s.setConn id conn conn').stop = true →
      (s.setConn id conn conn').shutdowns ≠ [] := by
    intro id conn conn' stop
    cases cancel : cancels conn.handler conn'.handler with
    | true => simp [setConn, cancel]
    | false =>
        simp only [setConn, cancel, Bool.or_false, Bool.false_eq_true, if_false] at stop ⊢
        exact shutdown stop
  cases step_of_next stepped with
  | connect | leaveLoop | returnServe => exact shutdown
  | accept | conn => exact moved _ _ _
  | cancel => exact absurd rfl not_watchdog

/-- When it can be removed, the file of the socket is gone with the daemon. -/
theorem next_removed {event : Event Found Explained ResponseMeta}
    (removal : ∀ graceOver, event ≠ .returnServe graceOver false)
    (gone : s.loop = .returned → s.socketFile = false) (stepped : s.next json event = some s') :
    s'.loop = .returned → s'.socketFile = false := by
  cases step_of_next stepped with
  | connect | accept | conn | cancel => exact gone
  | leaveLoop => rintro ⟨⟩
  | @returnServe graceOver removed =>
      cases removed with
      | false => exact absurd rfl (removal graceOver)
      | true => simp

/-- What the clients and the daemon of a run can rely on. -/
structure Reliable (json : Json Value Found Explained ResponseMeta)
    (events : List (Event Found Explained ResponseMeta))
    (s : System Value Found Explained ResponseMeta) : Prop where
  served : ∀ conn ∈ s.conns, Served json conn
  acknowledged : ∀ id ∈ s.shutdowns, ∃ conn, s.conns[id]? = some conn ∧ Acknowledged json conn
  stopped : (∀ event ∈ events, event ≠ .cancel) → s.stop = true → s.shutdowns ≠ []
  returned : s.loop = .returned → s.socket = false ∧ ∀ event s', s.next json event = some s' →
    s'.conns.map Conn.answered = s.conns.map Conn.answered
  removed : s.loop = .returned → (∀ graceOver, .returnServe graceOver false ∉ events) →
    s.socketFile = false

theorem runs_served {events : List (Event Found Explained ResponseMeta)}
    (ran : Execution.run (next json) bound events = some s) : ∀ conn ∈ s.conns, Served json conn :=
  fun conn conn_mem => served_of_sound ((run_sound ran).conns conn conn_mem)

/-- Any number of clients may come and go, send and take their bytes in any pieces and give up at
any time. -/
theorem runs_reliable (json : Json Value Found Explained ResponseMeta)
    {events : List (Event Found Explained ResponseMeta)}
    {s : System Value Found Explained ResponseMeta}
    (ran : Execution.run (next json) bound events = some s) : Reliable json events s where
  served := runs_served ran
  acknowledged id id_mem := by
    rcases (run_sound ran).shutdowns id id_mem with ⟨conn, found, method, finished⟩
    have sound := (run_sound ran).conns conn (List.mem_of_getElem? found)
    exact ⟨conn, found, acknowledged_of_sound sound method finished⟩
  stopped no_watchdog :=
    Execution.invariant_along (fun s => s.stop = true → s.shutdowns ≠ [])
      (fun _ _ _ shutdown not_watchdog stepped => next_stop not_watchdog shutdown stepped)
      (by simp [bound]) (Execution.along_of_labels no_watchdog _) ran
  returned returned :=
    ⟨((run_sound ran).returned returned).1,
      fun _ _ stepped => answered_after_return (run_sound ran) returned stepped⟩
  removed returned removals := by
    have removal : ∀ event ∈ events, ∀ graceOver, event ≠ .returnServe graceOver false := by
      rintro event event_mem graceOver rfl
      exact removals graceOver event_mem
    exact Execution.invariant_along (fun s => s.loop = .returned → s.socketFile = false)
      (fun _ _ _ gone removal stepped => next_removed removal gone stepped) (by simp [bound])
      (Execution.along_of_labels removal _) ran returned

end System

/-! ### A shutdown -/

namespace Json

section Exchange

variable {α β : Type} [DecidableEq α] [DecidableEq β]

/-- The text of a value, from a table of texts. -/
def write (table : List (α × β)) (a : α) : Except String β :=
    match table.find? fun entry => decide (entry.1 = a) with
    | some entry => .ok entry.2
    | none => .error "not in the exchange"

/-- The entry of a value in the table. -/
def read (table : List (α × β)) (b : β) : Except String α :=
    match table.find? fun entry => decide (entry.2 = b) with
    | some entry => .ok entry.1
    | none => .error "not in the exchange"

theorem read_write {table : List (α × β)} (apart : (table.map Prod.snd).Nodup) {a : α} {b : β}
    (written : write table a = .ok b) : read table b = .ok a := by
  unfold write at written
  split at written
  · rename_i entry found
    cases written
    have entry_mem := List.mem_of_find?_eq_some found
    have same : entry.1 = a := by simpa using List.find?_some found
    cases back : table.find? fun other => decide (other.2 = entry.2) with
    | none =>
        have differ := List.find?_eq_none.1 back entry entry_mem
        simp at differ
    | some other =>
        have other_mem := List.mem_of_find?_eq_some back
        have alike : other.2 = entry.2 := by simpa using List.find?_some back
        have one := List.inj_on_of_nodup_map apart other_mem entry_mem alike
        simp [read, back, one, same]
  · cases written

end Exchange

/-- `serde_json` on some requests and the responses to them; the results are texts. -/
def exchange (requests : List (Request × Bytes)) (responses : List (Response String × Bytes))
    (flag : String → String) (requests_apart : (requests.map Prod.snd).Nodup)
    (responses_apart : (responses.map Prod.snd).Nodup) : Json String String String String where
  requestToVec := write requests
  requestFromSlice := read requests
  responseToVec := write responses
  responseFromSlice := read responses
  foundToValue := .ok
  foundFromValue := .ok
  explainedToValue := .ok
  explainedFromValue := .ok
  metaToValue := .ok
  metaFromValue := .ok
  flag := flag
  reparse value := value
  requestFromSlice_toVec _ _ written := read_write requests_apart written
  responseFromSlice_toVec r b written := by
    rw [read_write responses_apart written]
    simp
  foundFromValue_reparse _ _ written := written.symm
  explainedFromValue_reparse _ _ written := written.symm
  metaFromValue_reparse _ _ written := written.symm

/-- An object with one flag. -/
def flagged (name : String) : String := "\x7b\"" ++ name ++ "\":true\x7d"

/-- The texts of a shutdown. -/
def shutdown : Json String String String String :=
    exchange
      [(⟨1, none, .shutdown⟩,
        "\x7b\"id\":1,\"method\":\"shutdown\"\x7d".toUTF8.data.toList)]
      [(⟨1, some (flagged "shutting_down"), none⟩,
        "\x7b\"id\":1,\"result\":\x7b\"shutting_down\":true\x7d\x7d".toUTF8.data.toList)]
      flagged (List.nodup_singleton _) (List.nodup_singleton _)

end Json

namespace System

/-- An engine that is asked for nothing. -/
def absent : Engine String String String where
  findPattern _ _ := .error (.internal "not asked")
  explainChange _ _ := .error (.internal "not asked")
  invalidateRepo _ := .error (.internal "not asked")
  indexStatus _ := .error (.internal "not asked")

/-- The client takes the reply in two pieces, after the daemon has left its loop. -/
def shutdownRun : List (Event String String String) :=
    [.connect ⟨1, none, .shutdown⟩, .conn 0 (.clientWrite 32), .accept 0,
      .conn 0 (.handlerRead 4), .conn 0 (.handlerRead 28), .conn 0 (.dispatch absent),
      .conn 0 (.handlerWrite 44), .leaveLoop, .conn 0 (.clientRead 4), .returnServe false true,
      .conn 0 (.clientRead 40)]

theorem shutdown_reliable :
    ∃ s, Execution.run (next Json.shutdown) bound shutdownRun = some s ∧
      s.loop = .returned ∧ s.shutdowns = [0] ∧ Reliable Json.shutdown shutdownRun s := by
  have outcome : ((Execution.run (next Json.shutdown) bound shutdownRun).map fun s =>
      (s.loop, s.shutdowns)) = some (.returned, [0]) := by
    decide +kernel
  rcases Option.map_eq_some_iff.1 outcome with ⟨s, ran, ended⟩
  rcases Prod.mk.inj ended with ⟨returned, shutdowns⟩
  exact ⟨s, ran, returned, shutdowns, runs_reliable Json.shutdown ran⟩

end System

end Ipc

end Ohara
