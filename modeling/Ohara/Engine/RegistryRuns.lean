import Ohara.Engine.RegistryJson
import Ohara.Library.Execution

/-!
# Many clients of one registry

Clients create the file, and then take turns under the lock. The records in the file are at any
time what the locked sections leave behind when they run one after the other, and every call is
answered as it is answered there.
-/

namespace Ohara

namespace Registry

/-! ## What a locked section does to the records -/

theorem fromStr_nil (json : Json) : ∃ e, json.fromStr [] = .error e := by
  have cut := json.fromStr_take ⟨[]⟩ 0 (by rw [json.toVec_empty]; decide)
  rwa [List.take_zero] at cut

theorem seedIfEmpty_nil : seedIfEmpty [] = seed := by decide

theorem seedIfEmpty_of_fromStr {json : Json} {contents : Bytes} {rf : RegistryFile}
    (parsed : json.fromStr contents = .ok rf) : seedIfEmpty contents = contents := by
  refine if_neg fun empty => ?_
  rcases fromStr_nil json with ⟨e, unreadable⟩
  rw [List.length_eq_zero_iff.1 empty, unreadable] at parsed
  cases parsed

theorem fromStr_seed (json : Json) : json.fromStr seed = .ok ⟨[]⟩ := by
  rw [← json.toVec_empty, json.fromStr_toVec]

theorem contents_rewrite (contents serialised : Bytes) :
    ((OpenFile.afterRead contents).applyAll (rewrite [serialised])).contents = serialised := by
  simp [OpenFile.afterRead, OpenFile.applyAll, rewrite, OpenFile.apply, OpenFile.write]

theorem mutate_ok {T : Type} {json : Json} {f : RegistryFile → RegistryFile × T}
    {contents : Bytes} {rf : RegistryFile} (parsed : json.fromStr contents = .ok rf) :
    mutate json f contents = (.ok (f rf).2, json.toVec (f rf).1) := by
  rw [mutate, parsed]
  simp only [contents_rewrite]

/-- Whether pruning keeps a record. -/
def pruned (moment : Moment) (d : DaemonRecord) : Option DaemonRecord :=
    if moment.pidAlive d.pid && decide (moment.now - d.lastHealthUnix ≤ 5 * 60) then some d else none

/-- The record, unless it is of the pid. -/
def forget (pid : Nat) (d : DaemonRecord) : Option DaemonRecord :=
    if d.pid ≠ pid then some d else none

/-- What `find_or_spawn_daemon` pushes onto the records it found. -/
def spawnedFor (oharaVersion oharaGitSha : String) (spawning : Spawning)
    (daemons : List DaemonRecord) : List DaemonRecord :=
    match daemons.find? fun d => decide (d.oharaVersion = oharaVersion) with
    | some _ => []
    | none =>
        match spawning.result with
        | .ok sd => [spawnedRecord sd oharaVersion oharaGitSha spawning]
        | .error _ => []

namespace Operation

/-- The locked section as an edit of the records. -/
def edit (moment : Moment) : Operation → RosterEdit DaemonRecord
  | .list => ⟨some, fun _ => []⟩
  | .register rec => ⟨forget rec.pid, fun _ => [rec]⟩
  | .unregister pid => ⟨forget pid, fun _ => []⟩
  | .touchHealth pid now => ⟨fun d => some (touch pid now d), fun _ => []⟩
  | .listAlive => ⟨pruned moment, fun _ => []⟩
  | .findOrSpawn oharaVersion oharaGitSha spawning =>
      ⟨pruned moment, spawnedFor oharaVersion oharaGitSha spawning⟩

/-- The answer of the call, from the records. -/
def reply (moment : Moment) (daemons : List DaemonRecord) : Operation → Reply
  | .list => .records (.ok daemons)
  | .register _ => .done (.ok ())
  | .unregister _ => .done (.ok ())
  | .touchHealth _ _ => .done (.ok ())
  | .listAlive => .records (.ok (daemons.filterMap (pruned moment)))
  | .findOrSpawn oharaVersion oharaGitSha spawning =>
      .handle (Pick.result (.ok
        (pickDaemon oharaVersion oharaGitSha spawning (daemons.filterMap (pruned moment))).2))

end Operation

theorem pruneDead_daemons (moment : Moment) (rf : RegistryFile) :
    (pruneDead moment rf).daemons = rf.daemons.filterMap (pruned moment) := by
  rw [pruneDead, ← List.filterMap_eq_filter]
  congr 1

theorem filter_forget (pid : Nat) (daemons : List DaemonRecord) :
    daemons.filter (fun r => decide (r.pid ≠ pid)) = daemons.filterMap (forget pid) := by
  rw [← List.filterMap_eq_filter]
  congr 1
  funext d
  simp [forget, Option.guard]

theorem registerRecord_eq (rec : DaemonRecord) (rf : RegistryFile) :
    registerRecord rec rf = ⟨rf.daemons.filterMap (forget rec.pid) ++ [rec]⟩ := by
  rw [registerRecord, filter_forget]

theorem unregisterPid_eq (pid : Nat) (rf : RegistryFile) :
    unregisterPid pid rf = ⟨rf.daemons.filterMap (forget pid)⟩ := by
  rw [unregisterPid, filter_forget]

theorem pickDaemon_fst (oharaVersion oharaGitSha : String) (spawning : Spawning)
    (daemons : List DaemonRecord) :
    (pickDaemon oharaVersion oharaGitSha spawning daemons).1 =
      daemons ++ spawnedFor oharaVersion oharaGitSha spawning daemons := by
  unfold pickDaemon spawnedFor
  cases daemons.find? fun d => decide (d.oharaVersion = oharaVersion) with
  | some existing => simp
  | none =>
      cases spawning.result with
      | ok sd => rfl
      | error e => simp

/-- On a readable file a locked section answers from the records and leaves the edited ones. -/
theorem Operation.run_spec {json : Json} {contents : Bytes} {rf : RegistryFile}
    (parsed : json.fromStr contents = .ok rf) (op : Operation) (moment : Moment) :
    (op.run json moment contents).1 = op.reply moment rf.daemons ∧
      json.fromStr (op.run json moment contents).2 =
        .ok ⟨(op.edit moment).apply rf.daemons⟩ := by
  cases op with
  | list => simp [run, withLocked, parsed, reply, edit, RosterEdit.apply, RosterEdit.kept]
  | register rec =>
      simp [run, mutate_ok parsed, json.fromStr_toVec, reply, edit, registerRecord_eq,
        RosterEdit.apply, RosterEdit.kept]
  | unregister pid =>
      simp [run, mutate_ok parsed, json.fromStr_toVec, reply, edit, unregisterPid_eq,
        RosterEdit.apply, RosterEdit.kept]
  | touchHealth pid now =>
      simp [run, mutate_ok parsed, json.fromStr_toVec, reply, edit, Registry.touchHealth,
        RosterEdit.apply, RosterEdit.kept, List.filterMap_eq_map']
  | listAlive =>
      simp [run, lockedUpdate, mutate_ok parsed, json.fromStr_toVec, reply, edit, pruneThen,
        RosterEdit.apply, RosterEdit.kept, pruneDead_daemons]
  | findOrSpawn oharaVersion oharaGitSha spawning =>
      simp [run, lockedUpdate, mutate_ok parsed, json.fromStr_toVec, reply, edit, pruneThen,
        RosterEdit.apply, RosterEdit.kept, pruneDead_daemons, pickDaemon_fst]

/-- A record that stays is as it was, or was touched by a heartbeat. -/
theorem Operation.fate_cases {op : Operation} {moment : Moment} {a b : DaemonRecord}
    (stays : (op.edit moment).fate a = some b) :
    b = a ∨ ∃ pid now, op = .touchHealth pid now ∧ b = touch pid now a := by
  cases op with
  | list => exact Or.inl (Option.some.inj stays).symm
  | register rec =>
      rcases Option.ite_none_right_eq_some.1 stays with ⟨-, same⟩
      exact Or.inl (Option.some.inj same).symm
  | unregister pid =>
      rcases Option.ite_none_right_eq_some.1 stays with ⟨-, same⟩
      exact Or.inl (Option.some.inj same).symm
  | touchHealth pid now => exact Or.inr ⟨pid, now, rfl, (Option.some.inj stays).symm⟩
  | listAlive =>
      rcases Option.ite_none_right_eq_some.1 stays with ⟨-, same⟩
      exact Or.inl (Option.some.inj same).symm
  | findOrSpawn oharaVersion oharaGitSha spawning =>
      rcases Option.ite_none_right_eq_some.1 stays with ⟨-, same⟩
      exact Or.inl (Option.some.inj same).symm

theorem Operation.fate_same {op : Operation} {moment : Moment} {a b : DaemonRecord}
    (stays : (op.edit moment).fate a = some b) :
    b.pid = a.pid ∧ b.socketPath = a.socketPath ∧ b.oharaVersion = a.oharaVersion := by
  rcases Operation.fate_cases stays with rfl | ⟨pid, now, -, rfl⟩
  · exact ⟨rfl, rfl, rfl⟩
  · simp only [touch]
    split
    · exact ⟨rfl, rfl, rfl⟩
    · exact ⟨rfl, rfl, rfl⟩

/-! ## Clients -/

/-- Where a client is between its locked sections. -/
inductive Client where
  /-- Inside `open`: the file was created if it was missing. -/
  | opening
  /-- Inside the `open` of `find_or_spawn_daemon`. -/
  | openingFor (oharaVersion oharaGitSha : String)
  /-- Holds an open registry. -/
  | ready
  | waiting (op : Operation)
  | finding (oharaVersion oharaGitSha : String)

/-- The client is inside `open`. -/
def Client.Opening : Client → Prop
  | .opening => True
  | .openingFor _ _ => True
  | _ => False

/-- A call on an open registry. -/
inductive Request where
  | list
  | register (rec : DaemonRecord)
  | unregister (pid : Nat)
  | touchHealth (pid : Nat)
  | listAlive

/-- The locked section of a call made at a moment: `touch_health` reads the clock before it. -/
def Request.operation (now : Nat) : Request → Operation
  | .list => .list
  | .register rec => .register rec
  | .unregister pid => .unregister pid
  | .touchHealth pid => .touchHealth pid now
  | .listAlive => .listAlive

/-- A locked section that was run, with its answer. -/
structure Served where
  client : Nat
  op : Operation
  moment : Moment
  reply : Reply

/-- What the section does to the records. -/
def Served.edit (served : Served) : RosterEdit DaemonRecord := served.op.edit served.moment

/-- The file, the clock and the clients. -/
structure State where
  file : Option Bytes
  clock : Nat
  clients : Nat → Option Client
  /-- Not in the code: the locked sections so far, in lock order. -/
  performed : List Served

/-- One step of the clock or of a client. -/
inductive Event where
  | tick (time : Nat)
  | open (id : Nat)
  | call (id : Nat) (request : Request)
  | findOrSpawnDaemon (id : Nat) (oharaVersion oharaGitSha : String) (noDaemon : Bool)
      (ci : Option String) (forceDaemon : Bool)
  /-- A client gets the lock; the section ends before it is released. -/
  | lock (id : Nat) (pidAlive : Nat → Bool) (spawning : Spawning)

namespace State

/-- A file, and nobody using it. -/
def new (file : Option Bytes) : State where
  file := file
  clock := 0
  clients := fun _ => none
  performed := []

/-- Open the file of the registry, creating it if it is missing. -/
def create (s : State) (id : Nat) (client : Client) : State :=
    { s with
      file := some (s.file.getD [])
      clients := Function.update s.clients id (some client) }

/-- The locked section of `open`. -/
def seeded (s : State) (id : Nat) (client : Client) (contents : Bytes) : State :=
    { s with
      file := some (seedIfEmpty contents)
      clients := Function.update s.clients id (some client) }

/-- The locked section of a call. -/
def serve (json : Json) (s : State) (id : Nat) (op : Operation) (pidAlive : Nat → Bool)
    (contents : Bytes) (after : Option Client) (time : Nat) : State :=
    let locked := op.run json ⟨s.clock, pidAlive⟩ contents
    { file := some locked.2
      clock := time
      clients := Function.update s.clients id after
      performed := s.performed ++ [⟨id, op, ⟨s.clock, pidAlive⟩, locked.1⟩] }

/-- A client's locked section. -/
def lock (json : Json) (s : State) (id : Nat) (pidAlive : Nat → Bool) (spawning : Spawning)
    (client : Client) (contents : Bytes) : Option State :=
    match client with
    | .opening => some (s.seeded id .ready contents)
    | .openingFor oharaVersion oharaGitSha =>
        some (s.seeded id (.finding oharaVersion oharaGitSha) contents)
    | .ready => none
    | .waiting op => some (s.serve json id op pidAlive contents (some .ready) s.clock)
    | .finding oharaVersion oharaGitSha =>
        if s.clock ≤ spawning.startedAt ∧ spawning.startedAt ≤ spawning.healthAt then
          some (s.serve json id (.findOrSpawn oharaVersion oharaGitSha spawning) pidAlive contents
            none spawning.healthAt)
        else none

/-- One step of the system. -/
def next (json : Json) (s : State) : Event → Option State
  | .tick time => if s.clock ≤ time then some { s with clock := time } else none
  | .open id =>
      match s.clients id with
      | none => some (s.create id .opening)
      | some _ => none
  | .call id request =>
      match s.clients id with
      | some .ready =>
          some { s with
            clients := Function.update s.clients id (some (.waiting (request.operation s.clock))) }
      | _ => none
  | .findOrSpawnDaemon id oharaVersion oharaGitSha noDaemon ci forceDaemon =>
      match s.clients id with
      | none =>
          if daemonDisabled noDaemon ci forceDaemon then some s
          else some (s.create id (.openingFor oharaVersion oharaGitSha))
      | some _ => none
  | .lock id pidAlive spawning =>
      match s.clients id, s.file with
      | some client, some contents => s.lock json id pidAlive spawning client contents
      | _, _ => none

end State

/-! ## The serial order -/

/-- The records after these locked sections have run one after the other. -/
def recordsAfter (start : List DaemonRecord) (performed : List Served) : List DaemonRecord :=
    RosterEdit.applyAll (performed.map Served.edit) start

/-- The records a file stands for; a missing and an empty file stand for none. -/
def Holds (json : Json) (file : Option Bytes) (records : List DaemonRecord) : Prop :=
    match file with
    | none => records = []
    | some contents =>
        (contents = [] ∧ records = []) ∨ json.fromStr contents = .ok ⟨records⟩

/-- Every locked section was answered as it is in the serial order. -/
def Answered (start : List DaemonRecord) (performed : List Served) : Prop :=
    ∀ before served after, performed = before ++ served :: after →
      served.reply = served.op.reply served.moment (recordsAfter start before)

/-- Nobody has been under the lock yet: who is there is still opening the registry. -/
structure Unseeded (s : State) : Prop where
  empty : s.file = none ∨ s.file = some []
  opening : ∀ id client, s.clients id = some client → client.Opening
  missing : s.file = none → ∀ id, s.clients id = none
  performed : s.performed = []

/-- The file can be read, and holds the records of the serial order. -/
def Readable (json : Json) (records : List DaemonRecord) (s : State) : Prop :=
    ∃ contents, s.file = some contents ∧ json.fromStr contents = .ok ⟨records⟩

/-- The file and the answers are those of the sections in lock order. -/
structure Serial (json : Json) (start : List DaemonRecord) (s : State) : Prop where
  stored : (Unseeded s ∧ start = []) ∨ Readable json (recordsAfter start s.performed) s
  answered : Answered start s.performed

section Steps

variable {json : Json} {start : List DaemonRecord} {s s' : State} {id : Nat}

theorem recordsAfter_snoc (performed : List Served) (served : Served) :
    recordsAfter start (performed ++ [served]) =
      served.edit.apply (recordsAfter start performed) := by
  rw [recordsAfter, List.map_append]
  exact RosterEdit.applyAll_snoc _ _ _

theorem Answered.snoc {performed : List Served} {served : Served}
    (answered : Answered start performed)
    (reply : served.reply = served.op.reply served.moment (recordsAfter start performed)) :
    Answered start (performed ++ [served]) := by
  intro before other after split
  rcases List.eq_nil_or_concat after with rfl | ⟨rest, last, rfl⟩
  · rcases List.append_inj' split rfl with ⟨rfl, same⟩
    cases same
    exact reply
  · rw [List.concat_eq_append, ← List.cons_append, ← List.append_assoc] at split
    exact answered before other rest (List.append_inj' split rfl).1

theorem serial_new {file : Option Bytes} (holds : Holds json file start) :
    Serial json start (State.new file) := by
  refine ⟨?_, ?_⟩
  · cases file with
    | none => exact Or.inl ⟨⟨Or.inl rfl, by simp [State.new], by simp [State.new], rfl⟩, holds⟩
    | some contents =>
        rcases holds with ⟨rfl, rfl⟩ | parsed
        · exact Or.inl ⟨⟨Or.inr rfl, by simp [State.new], by simp [State.new], rfl⟩, rfl⟩
        · exact Or.inr ⟨contents, rfl, parsed⟩
  · intro before served after split
    cases before with
    | nil => cases split
    | cons => cases split

theorem Serial.create (serial : Serial json start s) {client : Client} (opening : client.Opening) :
    Serial json start (s.create id client) := by
  refine ⟨?_, serial.answered⟩
  rcases serial.stored with ⟨unseeded, rfl⟩ | ⟨contents, file_eq, parsed⟩
  · refine Or.inl ⟨⟨Or.inr ?_, ?_, by simp [State.create], unseeded.performed⟩, rfl⟩
    · rcases unseeded.empty with missing | empty
      · simp [State.create, missing]
      · simp [State.create, empty]
    · intro other phase found
      simp only [State.create, Function.update_apply] at found
      split at found
      · cases found
        exact opening
      · exact unseeded.opening other phase found
  · exact Or.inr ⟨contents, by simp [State.create, file_eq], parsed⟩

theorem Serial.seeded (serial : Serial json start s) {client : Client} {contents : Bytes}
    (file_eq : s.file = some contents) : Serial json start (s.seeded id client contents) := by
  refine ⟨Or.inr ?_, serial.answered⟩
  rcases serial.stored with ⟨unseeded, rfl⟩ | ⟨stored, stored_eq, parsed⟩
  · have empty : contents = [] := by
      rcases unseeded.empty with missing | empty
      · rw [missing] at file_eq
        cases file_eq
      · rw [empty] at file_eq
        cases file_eq
        rfl
    refine ⟨seed, by simp [State.seeded, empty, seedIfEmpty_nil], ?_⟩
    rw [fromStr_seed, State.seeded, unseeded.performed]
    rfl
  · rw [file_eq] at stored_eq
    cases stored_eq
    exact ⟨contents, by simp [State.seeded, seedIfEmpty_of_fromStr parsed], parsed⟩

theorem Serial.serve (answered : Answered start s.performed) {op : Operation}
    {pidAlive : Nat → Bool} {contents : Bytes} {after : Option Client} {time : Nat}
    (parsed : json.fromStr contents = .ok ⟨recordsAfter start s.performed⟩) :
    Serial json start (s.serve json id op pidAlive contents after time) := by
  rcases op.run_spec parsed ⟨s.clock, pidAlive⟩ with ⟨reply, stored⟩
  refine ⟨Or.inr ⟨_, rfl, ?_⟩, answered.snoc reply⟩
  rw [stored, State.serve, recordsAfter_snoc]
  rfl

/-- Whoever has an open registry finds a readable file. -/
theorem Serial.readable (serial : Serial json start s) {client : Client}
    (found : s.clients id = some client) (past : ¬ client.Opening) {contents : Bytes}
    (file_eq : s.file = some contents) :
    json.fromStr contents = .ok ⟨recordsAfter start s.performed⟩ := by
  rcases serial.stored with ⟨unseeded, -⟩ | ⟨stored, stored_eq, parsed⟩
  · exact absurd (unseeded.opening id client found) past
  · rw [file_eq] at stored_eq
    cases stored_eq
    exact parsed

theorem Serial.lock (serial : Serial json start s) {pidAlive : Nat → Bool} {spawning : Spawning}
    {client : Client} {contents : Bytes} (found : s.clients id = some client)
    (file_eq : s.file = some contents)
    (locked : s.lock json id pidAlive spawning client contents = some s') :
    Serial json start s' := by
  cases client with
  | opening =>
      cases locked
      exact serial.seeded file_eq
  | openingFor oharaVersion oharaGitSha =>
      cases locked
      exact serial.seeded file_eq
  | ready => cases locked
  | waiting op =>
      cases locked
      exact Serial.serve serial.answered (serial.readable found (fun opening => opening) file_eq)
  | finding oharaVersion oharaGitSha =>
      rcases Option.ite_none_right_eq_some.1 locked with ⟨-, same⟩
      cases same
      exact Serial.serve serial.answered (serial.readable found (fun opening => opening) file_eq)

theorem Serial.step (serial : Serial json start s) {event : Event}
    (stepped : s.next json event = some s') : Serial json start s' := by
  cases event with
  | tick time =>
      rcases Option.ite_none_right_eq_some.1 stepped with ⟨-, same⟩
      cases same
      refine ⟨serial.stored.imp_left ?_, serial.answered⟩
      exact fun unseeded => ⟨⟨unseeded.1.1, unseeded.1.2, unseeded.1.3, unseeded.1.4⟩, unseeded.2⟩
  | «open» id =>
      simp only [State.next] at stepped
      split at stepped
      · cases stepped
        exact serial.create trivial
      · cases stepped
  | call id request =>
      simp only [State.next] at stepped
      split at stepped
      · rename_i found
        cases stepped
        rcases serial.stored with ⟨unseeded, -⟩ | readable
        · exact absurd (unseeded.opening id _ found) (fun opening => opening)
        · exact ⟨Or.inr readable, serial.answered⟩
      · cases stepped
  | findOrSpawnDaemon id oharaVersion oharaGitSha noDaemon ci forceDaemon =>
      simp only [State.next] at stepped
      split at stepped
      · split at stepped
        · cases stepped
          exact serial
        · cases stepped
          exact serial.create trivial
      · cases stepped
  | lock id pidAlive spawning =>
      simp only [State.next] at stepped
      split at stepped
      · rename_i client contents found file_eq
        exact serial.lock found file_eq stepped
      · cases stepped

theorem serial_run {file : Option Bytes} (holds : Holds json file start) {events : List Event}
    (ran : Execution.run (State.next json) (State.new file) events = some s) :
    Serial json start s := by
  apply Execution.invariant (Serial json start) _ (serial_new holds) ran
  intro before event after serial stepped
  exact serial.step stepped

end Steps

end Registry

end Ohara
