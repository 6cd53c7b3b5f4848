import Ohara.Engine.RegistrySerial

/-!
# Live daemons stay discoverable

A pruning section drops every record without a heartbeat in the last five minutes, also that of a
daemon that is alive and was only suspended; the heartbeats that follow find no record to renew.
While no pruning section meets a live daemon with an old heartbeat, a daemon that was registered
is found, and no client spawns a second one of its version.
-/

namespace Ohara

namespace Registry

/-- The sections that prune before they run. -/
def Operation.Prunes : Operation → Prop
  | .listAlive => True
  | .findOrSpawn _ _ _ => True
  | _ => False

/-- The section finds the daemon alive, and neither unregisters it nor registers its pid under
another version. -/
structure Served.Leaves (pid : Nat) (version : String) (served : Served) : Prop where
  alive : served.moment.pidAlive pid = true
  registered : served.op ≠ .unregister pid
  version : ∀ rec, served.op = .register rec → rec.pid = pid → rec.oharaVersion = version

/-- A record of the daemon under its version. -/
def IsRecordOf (pid : Nat) (version : String) (d : DaemonRecord) : Prop :=
    d.pid = pid ∧ d.oharaVersion = version

/-- The daemon was registered, has lived and was not unregistered since, and performed a heartbeat
less than five minutes ago. -/
def Beating (start : List DaemonRecord) (performed : List Served) (now pid : Nat)
    (version : String) : Prop :=
    ∃ before after, performed = before ++ after ∧
      (∃ d ∈ recordsAfter start before, IsRecordOf pid version d) ∧
      (∀ later ∈ after, later.Leaves pid version) ∧
      ∃ beat ∈ after, ∃ time, beat.op = .touchHealth pid time ∧ now - beat.moment.now < 5 * 60

/-- A beating daemon is in the registry, and none of its version was spawned beside it. -/
structure Discoverable (json : Json) (start : List DaemonRecord) (pid : Nat) (s : State) :
    Prop where
  present : ∀ version, Beating start s.performed s.clock pid version →
    ∃ records, Readable json records s ∧ ∃ d ∈ records, IsRecordOf pid version d
  alone : ∀ before served after version sha spawning, s.performed = before ++ served :: after →
    served.op = .findOrSpawn version sha spawning → served.moment.pidAlive pid = true →
    Beating start before served.moment.now pid version →
    served.added (recordsAfter start before) = []

/-- The client is about to prune. -/
def State.Pruning (s : State) (id : Nat) : Prop :=
    (∃ op, s.clients id = some (.waiting op) ∧ op.Prunes) ∨
      ∃ version sha, s.clients id = some (.finding version sha)

/-- A pruning section that finds the daemon alive finds no heartbeat of it that is older than five
minutes. -/
def SparesLive (json : Json) (pid : Nat) (s : State) : Event → Prop
  | .lock id pidAlive _ => s.Pruning id → pidAlive pid = true →
      ∀ records, Readable json records s → ∀ d ∈ records, d.pid = pid →
        s.clock - d.lastHealthUnix ≤ 5 * 60
  | _ => True

/-! ## The sections of a run -/

/-- The pruning sections so far have kept the records of the daemon while it was alive. -/
def Spared (start : List DaemonRecord) (pid : Nat) (performed : List Served) : Prop :=
    ∀ before served after, performed = before ++ served :: after → served.op.Prunes →
      served.moment.pidAlive pid = true → ∀ d ∈ recordsAfter start before, d.pid = pid →
        served.moment.now - d.lastHealthUnix ≤ 5 * 60

section Sections

variable {start : List DaemonRecord} {pid : Nat} {version : String}

theorem pruned_of_spared {moment : Moment} {d : DaemonRecord} (same_pid : d.pid = pid)
    (alive : moment.pidAlive pid = true) (fresh : moment.now - d.lastHealthUnix ≤ 5 * 60) :
    pruned moment d = some d := by
  subst same_pid
  rw [pruned, if_pos (by simp [alive, fresh])]

/-- A section that leaves the daemon and spares it keeps a record of it. -/
theorem Served.Leaves.keeps {served : Served} (leaves : served.Leaves pid version)
    {daemons : List DaemonRecord}
    (spares : served.op.Prunes → ∀ d ∈ daemons, d.pid = pid →
      served.moment.now - d.lastHealthUnix ≤ 5 * 60)
    {d : DaemonRecord} (d_mem : d ∈ daemons) (recorded : IsRecordOf pid version d) :
    ∃ d' ∈ served.edit.apply daemons, IsRecordOf pid version d' := by
  have of_fate : ∀ d', served.edit.fate d = some d' → IsRecordOf pid version d' →
      ∃ d' ∈ served.edit.apply daemons, IsRecordOf pid version d' := by
    intro d' stays recorded'
    exact ⟨d', List.mem_append_left _ (List.mem_filterMap.2 ⟨d, d_mem, stays⟩), recorded'⟩
  rcases served with ⟨client, op, moment, reply⟩
  cases op with
  | list => exact of_fate d rfl recorded
  | register rec =>
      by_cases same_pid : rec.pid = pid
      · refine ⟨rec, List.mem_append_right _ ?_, same_pid, leaves.version rec rfl same_pid⟩
        exact List.mem_singleton.2 rfl
      · have other : d.pid ≠ rec.pid := fun same => same_pid (same ▸ recorded.1)
        exact of_fate d (if_pos other) recorded
  | unregister other =>
      have distinct : d.pid ≠ other := by
        rintro rfl
        exact leaves.registered (by rw [recorded.1])
      exact of_fate d (if_pos distinct) recorded
  | touchHealth other now =>
      refine of_fate (touch other now d) rfl ?_
      unfold touch
      split
      · exact recorded
      · exact recorded
  | listAlive =>
      exact of_fate d (pruned_of_spared recorded.1 leaves.alive (spares trivial d d_mem recorded.1))
        recorded
  | findOrSpawn oharaVersion oharaGitSha spawning =>
      exact of_fate d (pruned_of_spared recorded.1 leaves.alive (spares trivial d d_mem recorded.1))
        recorded

theorem Spared.of_append {before after : List Served} (spared : Spared start pid (before ++ after)) :
    Spared start pid before := by
  intro first served rest split
  exact spared first served (rest ++ after) (by simp [split])

/-- A daemon that was in the registry is there while sections leave it and spare it. -/
theorem Spared.present {before after : List Served} (spared : Spared start pid (before ++ after))
    (registered : ∃ d ∈ recordsAfter start before, IsRecordOf pid version d)
    (leaves : ∀ later ∈ after, later.Leaves pid version) :
    ∃ d ∈ recordsAfter start (before ++ after), IsRecordOf pid version d := by
  induction after using List.reverseRecOn with
  | nil =>
      rw [List.append_nil]
      exact registered
  | append_singleton after served ih =>
      rw [← List.append_assoc] at spared ⊢
      rcases ih spared.of_append (fun later later_mem => leaves later (by simp [later_mem])) with
        ⟨d, d_mem, recorded⟩
      have served_leaves := leaves served (by simp)
      rw [recordsAfter_snoc]
      apply served_leaves.keeps _ d_mem recorded
      intro prunes
      exact spared (before ++ after) served [] rfl prunes served_leaves.alive

/-- A section that would spawn a daemon finds the one that is there. -/
theorem added_eq_nil_of_present {served : Served} {daemons : List DaemonRecord} {sha : String}
    {spawning : Spawning} (op_eq : served.op = .findOrSpawn version sha spawning)
    (alive : served.moment.pidAlive pid = true) {d : DaemonRecord} (d_mem : d ∈ daemons)
    (recorded : IsRecordOf pid version d)
    (fresh : served.moment.now - d.lastHealthUnix ≤ 5 * 60) : served.added daemons = [] := by
  have kept : d ∈ daemons.filterMap (pruned served.moment) :=
    List.mem_filterMap.2 ⟨d, d_mem, pruned_of_spared recorded.1 alive fresh⟩
  have pushed : served.added daemons =
      spawnedFor version sha spawning (daemons.filterMap (pruned served.moment)) := by
    rw [Served.added, Served.edit, op_eq]
    rfl
  rw [pushed, spawnedFor]
  cases found : (daemons.filterMap (pruned served.moment)).find?
      fun d => decide (d.oharaVersion = version) with
  | some existing => rfl
  | none => exact absurd (decide_eq_true recorded.2) (List.find?_eq_none.1 found d kept)

end Sections

/-! ## Runs -/

section Runs

variable {json : Json} {start : List DaemonRecord} {pid : Nat} {s s' : State}

/-- A step runs at most one locked section of a call. -/
theorem performed_next {event : Event} (stepped : s.next json event = some s') :
    s'.performed = s.performed ∨
      ∃ id pidAlive spawning served, event = .lock id pidAlive spawning ∧
        s'.performed = s.performed ++ [served] ∧ served.moment = ⟨s.clock, pidAlive⟩ ∧
        (served.op.Prunes → s.Pruning id) := by
  cases event with
  | tick time =>
      rcases Option.ite_none_right_eq_some.1 stepped with ⟨-, same⟩
      cases same
      exact Or.inl rfl
  | «open» id =>
      simp only [State.next] at stepped
      split at stepped
      · cases stepped
        exact Or.inl rfl
      · cases stepped
  | call id request =>
      simp only [State.next] at stepped
      split at stepped
      · cases stepped
        exact Or.inl rfl
      · cases stepped
  | findOrSpawnDaemon id oharaVersion oharaGitSha noDaemon ci forceDaemon =>
      simp only [State.next] at stepped
      split at stepped
      · split at stepped
        · cases stepped
          exact Or.inl rfl
        · cases stepped
          exact Or.inl rfl
      · cases stepped
  | lock id pidAlive spawning =>
      simp only [State.next] at stepped
      split at stepped
      · rename_i client contents found file_eq
        cases client with
        | opening =>
            cases stepped
            exact Or.inl rfl
        | openingFor oharaVersion oharaGitSha =>
            cases stepped
            exact Or.inl rfl
        | ready => cases stepped
        | waiting op =>
            cases stepped
            exact Or.inr ⟨id, pidAlive, spawning, _, rfl, rfl, rfl,
              fun prunes => Or.inl ⟨op, found, prunes⟩⟩
        | finding oharaVersion oharaGitSha =>
            rcases Option.ite_none_right_eq_some.1 stepped with ⟨-, same⟩
            cases same
            exact Or.inr ⟨id, pidAlive, spawning, _, rfl, rfl, rfl,
              fun _ => Or.inr ⟨oharaVersion, oharaGitSha, found⟩⟩
      · cases stepped

/-- Whoever prunes finds the records of the serial order. -/
theorem Serial.readable_of_pruning (serial : Serial json start s) {id : Nat}
    (pruning : s.Pruning id) : Readable json (recordsAfter start s.performed) s := by
  rcases serial.stored with ⟨unseeded, -⟩ | readable
  · rcases pruning with ⟨op, found, -⟩ | ⟨version, sha, found⟩
    · exact absurd (unseeded.opening id _ found) (fun opening => opening)
    · exact absurd (unseeded.opening id _ found) (fun opening => opening)
  · exact readable

theorem Spared.snoc {performed : List Served} {served : Served}
    (spared : Spared start pid performed)
    (spares : served.op.Prunes → served.moment.pidAlive pid = true →
      ∀ d ∈ recordsAfter start performed, d.pid = pid →
        served.moment.now - d.lastHealthUnix ≤ 5 * 60) :
    Spared start pid (performed ++ [served]) := by
  intro before other after split
  rcases List.eq_nil_or_concat after with rfl | ⟨rest, last, rfl⟩
  · rcases List.append_inj' split rfl with ⟨rfl, same⟩
    cases same
    exact spares
  · rw [List.concat_eq_append, ← List.cons_append, ← List.append_assoc] at split
    exact spared before other rest (List.append_inj' split rfl).1

theorem spared_step (serial : Serial json start s) (spared : Spared start pid s.performed)
    {event : Event} (condition : SparesLive json pid s event)
    (stepped : s.next json event = some s') : Spared start pid s'.performed := by
  rcases performed_next stepped with
    same | ⟨id, pidAlive, spawning, served, rfl, snoc, moment, pruning⟩
  · rw [same]
    exact spared
  · rw [snoc]
    apply spared.snoc
    intro prunes alive
    rw [moment] at alive ⊢
    exact condition (pruning prunes) alive _ (serial.readable_of_pruning (pruning prunes))

/-- A beating daemon had a section run, so somebody seeded the file. -/
theorem Serial.readable_of_performed (serial : Serial json start s) {served : Served}
    (served_mem : served ∈ s.performed) : Readable json (recordsAfter start s.performed) s := by
  rcases serial.stored with ⟨unseeded, -⟩ | readable
  · rw [unseeded.performed] at served_mem
    cases served_mem
  · exact readable

theorem discoverable_of_spared (serial : Serial json start s)
    (spared : Spared start pid s.performed) : Discoverable json start pid s := by
  refine ⟨?_, ?_⟩
  · rintro version ⟨before, after, split, registered, leaves, beat, beat_mem, -⟩
    have performed : beat ∈ s.performed := by simp [split, beat_mem]
    refine ⟨_, serial.readable_of_performed performed, ?_⟩
    rw [split] at spared ⊢
    exact spared.present registered leaves
  · rintro before served after version sha spawning split op_eq alive
      ⟨earlier, later, rfl, registered, leaves, -⟩
    rw [split] at spared
    rcases spared.of_append.present registered leaves with ⟨d, d_mem, recorded⟩
    have fresh := spared _ served after rfl (by rw [op_eq]; trivial) alive d d_mem recorded.1
    exact added_eq_nil_of_present op_eq alive d_mem recorded fresh

/-- In every run whose pruning sections spare the daemon while it is alive it is discoverable in
every state. -/
theorem run_discoverable (json : Json) {file : Option Bytes} {start : List DaemonRecord}
    (pid : Nat) (holds : Holds json file start) {events : List Event} {s : State}
    (spares : Execution.Along (State.next json) (SparesLive json pid) (State.new file) events)
    (ran : Execution.run (State.next json) (State.new file) events = some s) :
    Discoverable json start pid s := by
  have both : Serial json start s ∧ Spared start pid s.performed := by
    apply Execution.invariant_along
      (fun s => Serial json start s ∧ Spared start pid s.performed) _ _ spares ran
    · rintro before event after ⟨serial, spared⟩ condition stepped
      exact ⟨serial.step stepped, spared_step serial spared condition stepped⟩
    · refine ⟨serial_new holds, ?_⟩
      intro before served after split
      cases before with
      | nil => cases split
      | cons => cases split
  exact discoverable_of_spared both.1 both.2

end Runs

/-- In the first five minutes every heartbeat is fresh. -/
theorem sparesLive_of_clock {json : Json} {pid : Nat} {s : State} (early : s.clock ≤ 5 * 60)
    (event : Event) : SparesLive json pid s event := by
  cases event with
  | lock id pidAlive spawning =>
      intro _ _ records _ d _ _
      exact le_trans (Nat.sub_le _ _) early
  | _ => trivial

namespace TwoClients

/-- A daemon is spawned, performs a heartbeat, and another client looks for daemons. -/
def steady : List Event :=
    [.findOrSpawnDaemon 0 "0.7.4" "abc" false none false, .lock 0 allAlive spawning,
      .lock 0 allAlive spawning, .open 1, .lock 1 allAlive spawning, .tick 200,
      .call 1 (.touchHealth 7), .lock 1 allAlive spawning, .call 1 .listAlive,
      .lock 1 allAlive spawning]

/-- After the daemon was spawned the machine is suspended, and then the other client looks for
daemons just before the daemon performs a heartbeat. -/
def suspended : List Event :=
    [.findOrSpawnDaemon 0 "0.7.4" "abc" false none false, .lock 0 allAlive spawning,
      .lock 0 allAlive spawning, .open 1, .lock 1 allAlive spawning, .tick 1000,
      .call 1 .listAlive, .lock 1 allAlive spawning, .call 1 (.touchHealth 7),
      .lock 1 allAlive spawning]

end TwoClients

theorem run_discoverable_steady :
    ∃ s, Execution.run (State.next compactJson) (State.new none) TwoClients.steady = some s ∧
      Discoverable compactJson [] 7 s := by
  refine ⟨_, rfl, ?_⟩
  have ran : Execution.run (State.next compactJson) (State.new none) TwoClients.steady =
      some _ := rfl
  refine run_discoverable compactJson 7 (show Holds compactJson none [] from rfl) ?_ ran
  unfold TwoClients.steady
  iterate 10
    refine (Execution.along_cons rfl).2 ⟨sparesLive_of_clock (by decide) _, ?_⟩
  exact True.intro

/-- The locked sections of the run with the suspension. -/
def TwoClients.suspendedSections : List Served :=
    [⟨0, .findOrSpawn "0.7.4" "abc" spawning, ⟨0, allAlive⟩,
        .handle (.ok (some ⟨"/tmp/ohara-7.sock", 7, true⟩))⟩,
      ⟨1, .listAlive, ⟨1000, allAlive⟩, .records (.ok [])⟩,
      ⟨1, .touchHealth 7 1000, ⟨1000, allAlive⟩, .done (.ok ())⟩]

theorem beating_suspended : Beating [] TwoClients.suspendedSections 1000 7 "0.7.4" := by
  refine ⟨TwoClients.suspendedSections.take 1, TwoClients.suspendedSections.drop 1, rfl, ?_, ?_,
    ?_⟩
  · exact ⟨_, List.mem_singleton.2 rfl, rfl, rfl⟩
  · intro later later_mem
    rcases List.mem_pair.1 later_mem with rfl | rfl
    · exact ⟨rfl, by simp, by simp⟩
    · exact ⟨rfl, by simp, by simp⟩
  · exact ⟨_, List.mem_pair.2 (Or.inr rfl), 1000, rfl, by decide⟩

set_option maxRecDepth 4000 in
/-- The heartbeat after the suspension finds no record to renew. -/
theorem not_discoverable_suspended :
    ¬∀ (events : List Event) (s : State),
      Execution.run (State.next compactJson) (State.new none) events = some s →
        ∀ pid, Discoverable compactJson [] pid s := by
  intro always
  have suspended : ∃ s, Execution.run (State.next compactJson) (State.new none)
      TwoClients.suspended = some s ∧ s.performed = TwoClients.suspendedSections ∧
        s.clock = 1000 := ⟨_, rfl, rfl, rfl⟩
  rcases suspended with ⟨s, ran, performed, clock⟩
  have beating : Beating [] s.performed s.clock 7 "0.7.4" := by
    rw [performed, clock]
    exact beating_suspended
  rcases (always _ s ran 7).present "0.7.4" beating with
    ⟨records, ⟨contents, file_eq, parsed⟩, d, d_mem, -⟩
  have serial := serial_run (show Holds compactJson none [] from rfl) ran
  have first_mem : TwoClients.suspendedSections.head (by decide) ∈ s.performed := by
    rw [performed]
    exact List.head_mem _
  rcases serial.readable_of_performed first_mem with ⟨contents', file_eq', parsed'⟩
  rw [file_eq] at file_eq'
  cases file_eq'
  rw [parsed, performed] at parsed'
  have empty : recordsAfter [] TwoClients.suspendedSections = [] := rfl
  rw [empty] at parsed'
  cases parsed'
  cases d_mem

end Registry

end Ohara
