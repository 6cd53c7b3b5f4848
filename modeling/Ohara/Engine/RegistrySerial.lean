import Ohara.Engine.RegistryRuns

/-!
# Registry calls are serializable

No registration, removal or heartbeat is lost in the serial order of the locked sections, and of
the cold starts of one version only one spawns a daemon while its record is there.
-/

namespace Ohara

namespace Registry

/-! ## What becomes of a record -/

/-- What later locked sections do to a record; nothing is left of one that was removed. -/
def fatesOf (later : List Served) : DaemonRecord → Option DaemonRecord :=
    RosterEdit.fates (later.map Served.edit)

/-- The records a locked section adds. -/
def Served.added (served : Served) (daemons : List DaemonRecord) : List DaemonRecord :=
    served.edit.pushed (served.edit.kept daemons)

section Fates

variable {start : List DaemonRecord} {before after : List Served} {served : Served}

theorem recordsAfter_split :
    recordsAfter start (before ++ served :: after) =
      RosterEdit.applyAll (after.map Served.edit)
        (served.edit.apply (recordsAfter start before)) := by
  rw [recordsAfter, List.map_append, RosterEdit.applyAll_append]
  rfl

/-- A record that was added is there until a later section removes it. -/
theorem mem_of_added {added d : DaemonRecord}
    (added_mem : added ∈ served.added (recordsAfter start before))
    (survives : fatesOf after added = some d) :
    d ∈ recordsAfter start (before ++ served :: after) := by
  rw [recordsAfter_split]
  exact RosterEdit.mem_applyAll (List.mem_append_right _ added_mem) survives

theorem mem_of_kept {d d' d'' : DaemonRecord} (d_mem : d ∈ recordsAfter start before)
    (stays : served.edit.fate d = some d') (survives : fatesOf after d' = some d'') :
    d'' ∈ recordsAfter start (before ++ served :: after) := by
  rw [recordsAfter_split]
  apply RosterEdit.mem_applyAll _ survives
  exact List.mem_append_left _ (List.mem_filterMap.2 ⟨d, d_mem, stays⟩)

theorem fatesOf_same {d d' : DaemonRecord} (survives : fatesOf after d = some d') :
    d'.pid = d.pid ∧ d'.socketPath = d.socketPath ∧ d'.oharaVersion = d.oharaVersion := by
  apply (RosterEdit.fates_invariant (p := fun x => x.pid = d.pid ∧ x.socketPath = d.socketPath ∧
    x.oharaVersion = d.oharaVersion) _ survives).2 ⟨rfl, rfl, rfl⟩
  intro edit edit_mem a b stays
  rcases List.mem_map.1 edit_mem with ⟨served, -, rfl⟩
  rcases Operation.fate_same stays with ⟨same_pid, same_socket, same_version⟩
  rw [same_pid, same_socket, same_version]

/-- Only a heartbeat of its pid changes the health of a record. -/
theorem Operation.fate_health {op : Operation} {moment : Moment} {a b : DaemonRecord}
    (stays : (op.edit moment).fate a = some b)
    (other : ∀ time, op ≠ .touchHealth a.pid time) : b.lastHealthUnix = a.lastHealthUnix := by
  rcases Operation.fate_cases stays with rfl | ⟨pid, now, rfl, rfl⟩
  · rfl
  · have other_pid : a.pid ≠ pid := by
      rintro rfl
      exact other now rfl
    rw [touch, if_neg other_pid]

theorem fatesOf_health {d d' : DaemonRecord} (survives : fatesOf after d = some d')
    (untouched : ∀ later ∈ after, ∀ time, later.op ≠ .touchHealth d.pid time) :
    d'.lastHealthUnix = d.lastHealthUnix := by
  have both : d'.pid = d.pid ∧ d'.lastHealthUnix = d.lastHealthUnix := by
    apply (RosterEdit.fates_invariant (p := fun x => x.pid = d.pid ∧
      x.lastHealthUnix = d.lastHealthUnix) _ survives).2 ⟨rfl, rfl⟩
    intro edit edit_mem a b stays
    rcases List.mem_map.1 edit_mem with ⟨later, later_mem, rfl⟩
    rw [(Operation.fate_same stays).1]
    refine and_congr_right fun same_pid => ?_
    rw [Operation.fate_health stays]
    rw [same_pid]
    exact untouched later later_mem
  exact both.2

/-- After an `unregister`, a record of the pid was added by a later section. -/
theorem added_after_unregister {pid : Nat} {d : DaemonRecord}
    (unregister : served.op = .unregister pid)
    (d_mem : d ∈ recordsAfter start (before ++ served :: after)) (same_pid : d.pid = pid) :
    ∃ between pusher rest, after = between ++ pusher :: rest ∧
      ∃ added ∈ pusher.added (recordsAfter start (before ++ served :: between)),
        fatesOf rest added = some d := by
  rw [recordsAfter_split] at d_mem
  rcases RosterEdit.origin d_mem with ⟨old, old_mem, survives⟩ |
    ⟨edits, edit, rest, split, added, added_mem, survives⟩
  · exfalso
    have old_pid : old.pid = pid := by
      rw [← (fatesOf_same survives).1]
      exact same_pid
    have forgotten : old ∈ (recordsAfter start before).filterMap (forget pid) := by
      simpa [RosterEdit.apply, RosterEdit.kept, Served.edit, unregister, Operation.edit]
        using old_mem
    rcases List.mem_filterMap.1 forgotten with ⟨older, -, stays⟩
    rcases Option.ite_none_right_eq_some.1 stays with ⟨other, same⟩
    cases same
    exact other old_pid
  · rcases List.map_eq_append_iff.1 split with ⟨between, tail, rfl, rfl, tail_eq⟩
    rcases List.map_eq_cons_iff.1 tail_eq with ⟨pusher, last, rfl, rfl, rfl⟩
    refine ⟨between, pusher, last, rfl, added, ?_, survives⟩
    rw [recordsAfter_split]
    exact added_mem

theorem mem_spawnedFor {oharaVersion oharaGitSha : String} {spawning : Spawning}
    {daemons : List DaemonRecord} {d : DaemonRecord} :
    d ∈ spawnedFor oharaVersion oharaGitSha spawning daemons ↔
      (daemons.find? fun d => decide (d.oharaVersion = oharaVersion)) = none ∧
        ∃ sd, spawning.result = .ok sd ∧ d = spawnedRecord sd oharaVersion oharaGitSha spawning := by
  unfold spawnedFor
  cases daemons.find? fun d => decide (d.oharaVersion = oharaVersion) with
  | some existing => simp
  | none =>
      cases spawning.result with
      | ok sd => simp
      | error e => simp

/-- A `find_or_spawn_daemon` that finds no record of its version and spawns a daemon returns it. -/
theorem reply_of_spawned {moment : Moment} {oharaVersion oharaGitSha : String} {spawning : Spawning}
    {daemons : List DaemonRecord} {d : DaemonRecord}
    (spawned : d ∈ spawnedFor oharaVersion oharaGitSha spawning
      (daemons.filterMap (pruned moment))) :
    (Operation.findOrSpawn oharaVersion oharaGitSha spawning).reply moment daemons =
      .handle (.ok (some ⟨d.socketPath, d.pid, true⟩)) := by
  rcases mem_spawnedFor.1 spawned with ⟨not_found, sd, result, rfl⟩
  simp [Operation.reply, pickDaemon, not_found, result, Pick.result]

/-- One that finds a record returns this record, and adds none. -/
theorem reply_of_found {moment : Moment} {oharaVersion : String} {daemons : List DaemonRecord}
    {d : DaemonRecord} (oharaGitSha : String) (spawning : Spawning)
    (found : ((daemons.filterMap (pruned moment)).find?
      fun d => decide (d.oharaVersion = oharaVersion)) = some d) :
    (Operation.findOrSpawn oharaVersion oharaGitSha spawning).reply moment daemons =
        .handle (.ok (some ⟨d.socketPath, d.pid, false⟩)) ∧
      spawnedFor oharaVersion oharaGitSha spawning (daemons.filterMap (pruned moment)) = [] := by
  simp [Operation.reply, pickDaemon, spawnedFor, found, Pick.result]

/-- While the record a cold start added survives, it is the first one of its version. -/
theorem find?_of_spawned {oharaVersion oharaGitSha : String} {spawning : Spawning} {moment : Moment}
    {d d' : DaemonRecord} (op_eq : served.op = .findOrSpawn oharaVersion oharaGitSha spawning)
    (added : d ∈ served.added (recordsAfter start before)) (survives : fatesOf after d = some d')
    (kept : pruned moment d' = some d') :
    ((recordsAfter start (before ++ served :: after)).filterMap (pruned moment)).find?
      (fun d => decide (d.oharaVersion = oharaVersion)) = some d' := by
  have pushed : d ∈ spawnedFor oharaVersion oharaGitSha spawning
      ((recordsAfter start before).filterMap (pruned served.moment)) := by
    simpa [Served.added, Served.edit, op_eq, Operation.edit, RosterEdit.kept] using added
  rcases mem_spawnedFor.1 pushed with ⟨not_found, sd, result, rfl⟩
  have applied : served.edit.apply (recordsAfter start before) =
      (recordsAfter start before).filterMap (pruned served.moment) ++
        [spawnedRecord sd oharaVersion oharaGitSha spawning] := by
    simp [RosterEdit.apply, Served.edit, op_eq, Operation.edit, RosterEdit.kept, spawnedFor,
      not_found, result]
  -- pruning is the last edit, after those of the sections in between
  have pruning : (recordsAfter start (before ++ served :: after)).filterMap (pruned moment) =
      RosterEdit.applyAll (after.map Served.edit ++ [Operation.listAlive.edit moment])
        (served.edit.apply (recordsAfter start before)) := by
    rw [recordsAfter_split, RosterEdit.applyAll_snoc]
    simp [RosterEdit.apply, RosterEdit.kept, Operation.edit]
  rw [pruning, applied]
  apply RosterEdit.find?_applyAll
  · intro edit edit_mem a b stays
    have same_version : b.oharaVersion = a.oharaVersion := by
      rcases List.mem_append.1 edit_mem with mem | mem
      · rcases List.mem_map.1 mem with ⟨later, -, rfl⟩
        exact (Operation.fate_same stays).2.2
      · rw [List.mem_singleton.1 mem] at stays
        exact (Operation.fate_same stays).2.2
    rw [same_version]
  · exact List.find?_eq_none.1 not_found
  · exact decide_eq_true rfl
  · rw [RosterEdit.fates_append]
    have survived : RosterEdit.fates (after.map Served.edit)
        (spawnedRecord sd oharaVersion oharaGitSha spawning) = some d' := survives
    rw [survived]
    simp [RosterEdit.fates, Operation.edit, kept]

end Fates

/-- What holds of the registry whatever its clients do. -/
structure Serializable (json : Json) (start : List DaemonRecord) (s : State) : Prop where
  readable : Unseeded s ∨ Readable json (recordsAfter start s.performed) s
  answered : Answered start s.performed
  registered : ∀ before served after d d', s.performed = before ++ served :: after →
    served.op = .register d → fatesOf after d = some d' → d' ∈ recordsAfter start s.performed
  unregistered : ∀ before served after pid d, s.performed = before ++ served :: after →
    served.op = .unregister pid → d ∈ recordsAfter start s.performed → d.pid = pid →
    ∃ between pusher rest, after = between ++ pusher :: rest ∧
      ∃ added ∈ pusher.added (recordsAfter start (before ++ served :: between)),
        fatesOf rest added = some d
  touched : ∀ before served after pid time d d', s.performed = before ++ served :: after →
    served.op = .touchHealth pid time → d ∈ recordsAfter start before → d.pid = pid →
    fatesOf after { d with lastHealthUnix := time } = some d' →
    d' ∈ recordsAfter start s.performed ∧
      ((∀ later ∈ after, ∀ other, later.op ≠ .touchHealth pid other) → d'.lastHealthUnix = time)
  spawnedOnce : ∀ before first between second after version sha sha' spawning spawning' d d',
    s.performed = before ++ first :: (between ++ second :: after) →
    first.op = .findOrSpawn version sha spawning →
    second.op = .findOrSpawn version sha' spawning' →
    d ∈ first.added (recordsAfter start before) → fatesOf between d = some d' →
    pruned second.moment d' = some d' →
    first.reply = .handle (.ok (some ⟨d.socketPath, d.pid, true⟩)) ∧
      second.reply = .handle (.ok (some ⟨d.socketPath, d.pid, false⟩)) ∧
      second.added (recordsAfter start (before ++ first :: between)) = []

/-- Whatever the clients do, the registry is as the serial order of the locked sections says. -/
theorem run_serializable (json : Json) {file : Option Bytes} {start : List DaemonRecord}
    (holds : Holds json file start) {events : List Event} {s : State}
    (ran : Execution.run (State.next json) (State.new file) events = some s) :
    Serializable json start s := by
  have serial := serial_run holds ran
  refine ⟨serial.stored.imp_left And.left, serial.answered, ?_, ?_, ?_, ?_⟩
  · intro before served after d d' split register survives
    rw [split]
    apply mem_of_added _ survives
    simp [Served.added, Served.edit, register, Operation.edit]
  · intro before served after pid d split unregister d_mem same_pid
    rw [split] at d_mem
    exact added_after_unregister unregister d_mem same_pid
  · rintro before served after pid time d d' split heartbeat d_mem rfl survives
    refine ⟨?_, fun untouched => fatesOf_health survives untouched⟩
    rw [split]
    apply mem_of_kept d_mem _ survives
    simp [Served.edit, heartbeat, Operation.edit, touch]
  · intro before first between second after version sha sha' spawning spawning' d d' split first_op
      second_op added survives kept
    have first_reply := serial.answered before first (between ++ second :: after) split
    have second_reply := serial.answered (before ++ first :: between) second after (by simp [split])
    have found := find?_of_spawned first_op added survives kept
    have same := fatesOf_same survives
    rw [first_op] at first_reply
    rw [second_op] at second_reply
    have answer := reply_of_found sha' spawning' found
    rw [answer.1, same.1, same.2.1] at second_reply
    refine ⟨first_reply.trans (reply_of_spawned ?_), second_reply, ?_⟩
    · simpa [Served.added, Served.edit, first_op, Operation.edit, RosterEdit.kept] using added
    · simpa [Served.added, Served.edit, second_op, Operation.edit, RosterEdit.kept] using answer.2

namespace TwoClients

/-- The daemon that is spawned. -/
def daemon : DaemonRecord := ⟨7, "/tmp/ohara-7.sock", "0.7.4", some "abc", 0, 0⟩

/-- A spawn that succeeds. -/
def spawning : Spawning := ⟨.ok ⟨7, "/tmp/ohara-7.sock"⟩, 1, 2⟩

/-- Every process lives. -/
def allAlive (_ : Nat) : Bool := true

/-- Two clients start cold: both are past `open` before the first one spawns a daemon. -/
def coldStarts : List Event :=
    [.findOrSpawnDaemon 0 "0.7.4" "abc" false none false,
      .findOrSpawnDaemon 1 "0.7.4" "abc" false none false,
      .lock 0 allAlive spawning, .lock 1 allAlive spawning, .lock 0 allAlive spawning,
      .tick 5, .lock 1 allAlive ⟨.ok ⟨8, "/tmp/ohara-8.sock"⟩, 6, 7⟩]

/-- The second client reads the clock for a heartbeat, and writes it after a later heartbeat. -/
def heartbeats : List Event :=
    [.open 0, .lock 0 allAlive spawning, .call 0 (.register daemon), .lock 0 allAlive spawning,
      .open 1, .lock 1 allAlive spawning, .call 1 (.touchHealth 7), .tick 9,
      .call 0 (.touchHealth 7), .lock 0 allAlive spawning, .lock 1 allAlive spawning]

end TwoClients

theorem run_serializable_coldStarts :
    ∃ s, Execution.run (State.next compactJson) (State.new none) TwoClients.coldStarts = some s ∧
      Serializable compactJson [] s := by
  refine ⟨_, rfl, ?_⟩
  have ran : Execution.run (State.next compactJson) (State.new none) TwoClients.coldStarts =
      some _ := rfl
  exact run_serializable compactJson (show Holds compactJson none [] from rfl) ran

/-- Until the first client has seeded the file it is empty, and of two heartbeats the one that is
written last stays, not the one of the later time. -/
theorem older_heartbeat_stays :
    (∃ s, Execution.run (State.next compactJson) (State.new none) [.open 0] = some s ∧
        s.file = some [] ∧ ∃ e, compactJson.fromStr [] = .error e) ∧
      ∃ s, Execution.run (State.next compactJson) (State.new none) TwoClients.heartbeats = some s ∧
        s.performed.map Served.op = [.register TwoClients.daemon, .touchHealth 7 9,
          .touchHealth 7 0] ∧
        Readable compactJson [{ TwoClients.daemon with lastHealthUnix := 0 }] s := by
  refine ⟨⟨_, rfl, rfl, fromStr_nil compactJson⟩, _, rfl, rfl, ?_⟩
  have ran : Execution.run (State.next compactJson) (State.new none) TwoClients.heartbeats =
      some _ := rfl
  have serial := serial_run (show Holds compactJson none [] from rfl) ran
  rcases serial.stored with ⟨unseeded, -⟩ | readable
  · cases unseeded.performed
  · exact readable

end Registry

end Ohara
