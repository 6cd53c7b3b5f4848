import Ohara.Engine.Notify
import Ohara.Library.Execution

/-!
# No daemon keeps a deleted index

A handle of a deleted generation stays covered while a command has yet to notify its daemon or a
notification waits there. Where no step takes the last cover away, nothing deleted is left in a
cache once all commands have ended and all notifications are processed.
-/

namespace Ohara

namespace Notify

/-- The command is going to notify the daemon if it succeeds. -/
def Command.Tells (command : Command) (pid : Nat) : Prop :=
    match command.phase with
    | .notifying pending => ∃ d ∈ pending, d.pid = pid
    | _ => True

/-- A notification about the repository waits at the daemon, or a command is to send one. -/
def Covered (inbox : List RepoId) (commands : Nat → Option Command) (pid : Nat) (repo : RepoId) :
    Prop :=
    repo ∈ inbox ∨
      ∃ id command, commands id = some command ∧ command.repo = repo ∧ command.Tells pid

/-- The daemon has a handle that does not refer to the database on disk. -/
def Stale (db : RepoId → Option Nat) (daemon : Daemon) (repo : RepoId) : Prop :=
    ∃ generation, daemon.repos repo = some generation ∧ db repo ≠ some generation

namespace State

/-- The commands but one. -/
def others (s : State) (id : Nat) : Nat → Option Command := Function.update s.commands id none

/-- Every handle of another generation than the one on disk is covered. -/
def Told (s : State) : Prop :=
    ∀ pid daemon, s.daemons pid = some daemon → ∀ repo, Stale s.db daemon repo →
      Covered daemon.inbox s.commands pid repo

/-- A command that stops before it has notified everybody leaves no such handle uncovered. -/
def CommandHarmless (s : State) (id : Nat) (command : Command) : CommandStep → Prop
  | .endEarly =>
      ∀ pid daemon, s.daemons pid = some daemon → Stale s.db daemon command.repo →
        Covered daemon.inbox (s.others id) pid command.repo
  | .listAlive reused =>
      ∀ pid daemon, s.daemons pid = some daemon → Stale s.db daemon command.repo →
        (∃ d ∈ s.alive reused, d.pid = pid) ∨ Covered daemon.inbox (s.others id) pid command.repo
  | .callNext false =>
      ∀ d rest, command.phase = .notifying (d :: rest) →
        ∀ daemon, s.daemons d.pid = some daemon → Stale s.db daemon command.repo →
          (∃ later ∈ rest, later.pid = d.pid) ∨
            Covered daemon.inbox (s.others id) d.pid command.repo
  | _ => True

/-- A daemon inserts no uncovered handle of another generation, and fails to drop none. -/
def DaemonHarmless (s : State) (pid : Nat) (daemon : Daemon) : DaemonStep → Prop
  | .insertHandle request =>
      ∀ repo generation, daemon.requests request = some (.opened repo generation) →
        daemon.repos repo = none →
          s.db repo = some generation ∨ Covered daemon.inbox s.commands pid repo
  | .invalidateRepo repo false =>
      Stale s.db daemon repo → Covered (daemon.inbox.erase repo) s.commands pid repo
  | _ => True

/-- The step takes the last cover from no handle of a deleted generation. -/
def Harmless (s : State) : Event → Prop
  | .command id step => ∀ command, s.commands id = some command → s.CommandHarmless id command step
  | .daemon pid step => ∀ daemon, s.daemons pid = some daemon → s.DaemonHarmless pid daemon step
  | _ => True

/-- No command runs, and every notification was processed. -/
def Quiescent (s : State) : Prop :=
    (∀ id, s.commands id = none) ∧ ∀ pid daemon, s.daemons pid = some daemon → daemon.inbox = []

/-- Every cached handle refers to the database on disk. -/
def Current (s : State) : Prop :=
    ∀ pid daemon, s.daemons pid = some daemon → ∀ repo generation,
      daemon.repos repo = some generation → s.db repo = some generation

variable {s s' : State} {id pid : Nat} {command : Command} {daemon : Daemon}

/-! ## Cover -/

theorem covered_mono {inbox inbox' : List RepoId} {commands : Nat → Option Command} {repo : RepoId}
    (covered : Covered inbox commands pid repo) (kept : repo ∈ inbox → repo ∈ inbox') :
    Covered inbox' commands pid repo :=
  covered.imp_left kept

theorem covered_of_others {inbox : List RepoId} {repo : RepoId}
    (covered : Covered inbox (s.others id) pid repo) (after : Option Command) :
    Covered inbox (Function.update s.commands id after) pid repo := by
  rcases covered with waits | ⟨other, teller, found, same_repo, tells⟩
  · exact Or.inl waits
  · by_cases same : other = id
    · subst same
      simp [others] at found
    · rw [others, Function.update_of_ne same] at found
      refine Or.inr ⟨other, teller, ?_, same_repo, tells⟩
      rw [Function.update_of_ne same, found]

/-- What covers is one of the other commands, or the command itself. -/
theorem covered_cases {inbox : List RepoId} {repo : RepoId}
    (covered : Covered inbox s.commands pid repo) (found : s.commands id = some command) :
    Covered inbox (s.others id) pid repo ∨ (command.repo = repo ∧ command.Tells pid) := by
  rcases covered with waits | ⟨other, teller, other_found, same_repo, tells⟩
  · exact Or.inl (Or.inl waits)
  · by_cases same : other = id
    · subst same
      rw [found] at other_found
      cases other_found
      exact Or.inr ⟨same_repo, tells⟩
    · refine Or.inl (Or.inr ⟨other, teller, ?_, same_repo, tells⟩)
      rw [others, Function.update_of_ne same, other_found]

/-! ## One step -/

/-- A step of a command concerns its own repository only. -/
theorem Told.of_command (told : s.Told) (found : s.commands id = some command)
    (after : Option Command) (daemons : s'.daemons = s.daemons)
    (commands : s'.commands = Function.update s.commands id after)
    (db : ∀ repo, repo ≠ command.repo → s'.db repo = s.db repo)
    (tells : ∀ pid daemon, s.daemons pid = some daemon → Stale s'.db daemon command.repo →
      Covered daemon.inbox (Function.update s.commands id after) pid command.repo) :
    s'.Told := by
  intro pid daemon running repo stale
  rw [daemons] at running
  rw [commands]
  by_cases same : repo = command.repo
  · subst same
    exact tells pid daemon running stale
  · rcases stale with ⟨generation, cached, differs⟩
    rw [db repo same] at differs
    rcases covered_cases (told pid daemon running repo ⟨generation, cached, differs⟩) found with
      by_others | ⟨same_repo, -⟩
    · exact covered_of_others by_others after
    · exact absurd same_repo.symm same

/-- A command that has not asked for the list of daemons covers all of them. -/
theorem covered_by_phase {inbox : List RepoId} {phase : Phase}
    (before : ∀ pending, phase ≠ .notifying pending) :
    Covered inbox (Function.update s.commands id (some { command with phase := phase })) pid
      command.repo := by
  refine Or.inr ⟨id, _, Function.update_self _ _ _, rfl, ?_⟩
  cases phase with
  | notifying pending => exact absurd rfl (before pending)
  | _ => trivial

theorem Told.setDaemon (told : s.Told)
    (covers : ∀ repo, Stale s.db daemon repo → Covered daemon.inbox s.commands pid repo) :
    (s.setDaemon pid daemon).Told := by
  intro other running_daemon running repo stale
  simp only [State.setDaemon, Function.update_apply] at running
  split at running
  · rename_i same
    cases running
    subst same
    exact covers repo stale
  · exact told other running_daemon running repo stale

theorem Told.setRequest (told : s.Told) (running : s.daemons pid = some daemon) (request : Nat)
    (opening : Option Opening) : (s.setRequest pid request daemon opening).Told :=
  told.setDaemon fun repo stale => told pid daemon running repo stale

/-- A daemon that changes its handle of one repository only is covered for the others. -/
theorem Told.setHandle (told : s.Told) (running : s.daemons pid = some daemon) {after : Daemon}
    (repo : RepoId) (handles : ∀ other, other ≠ repo → after.repos other = daemon.repos other)
    (waits : ∀ other, other ≠ repo → other ∈ daemon.inbox → other ∈ after.inbox)
    (covers : Stale s.db after repo → Covered after.inbox s.commands pid repo) :
    (s.setDaemon pid after).Told := by
  apply told.setDaemon
  intro other stale
  by_cases same : other = repo
  · subst same
    exact covers stale
  · rcases stale with ⟨generation, cached, differs⟩
    rw [handles other same] at cached
    exact covered_mono (told pid daemon running other ⟨generation, cached, differs⟩)
      (waits other same)

@[simp]
theorem openDb_daemons (repo : RepoId) : (s.openDb repo).daemons = s.daemons := by
  unfold openDb
  split
  · rfl
  · rfl

@[simp]
theorem openDb_commands (repo : RepoId) : (s.openDb repo).commands = s.commands := by
  unfold openDb
  split
  · rfl
  · rfl

/-- An open changes no generation that is there. -/
theorem openDb_db {repo other : RepoId} {generation : Nat} (there : s.db other = some generation) :
    (s.openDb repo).db other = some generation := by
  unfold openDb
  split
  · exact there
  · rename_i missing
    by_cases same : other = repo
    · rw [same, missing] at there
      cases there
    · simp [Function.update_of_ne same, there]

theorem openDb_db_of_ne {repo other : RepoId} (differs : other ≠ repo) :
    (s.openDb repo).db other = s.db other := by
  unfold openDb
  split
  · rfl
  · simp [Function.update_of_ne differs]

theorem Told.openDb (told : s.Told) (repo : RepoId) : (s.openDb repo).Told := by
  intro pid daemon running other stale
  rw [openDb_daemons] at running
  rw [openDb_commands]
  rcases stale with ⟨generation, cached, differs⟩
  exact told pid daemon running other
    ⟨generation, cached, fun there => differs (openDb_db there)⟩

/-- Of the daemons to call only the first one is struck off. -/
theorem covered_after_call (told : s.Told) (found : s.commands id = some command)
    {d : Registry.DaemonRecord} {rest : List Registry.DaemonRecord}
    (phase_eq : command.phase = .notifying (d :: rest))
    (running : s.daemons pid = some daemon) (other : pid ≠ d.pid)
    (stale : Stale s.db daemon command.repo) :
    Covered daemon.inbox (Function.update s.commands id
      (some { command with phase := .notifying rest })) pid command.repo := by
  rcases covered_cases (told pid daemon running _ stale) found with by_others | ⟨-, tells⟩
  · exact covered_of_others by_others _
  · simp only [Command.Tells, phase_eq, List.mem_cons] at tells
    rcases tells with ⟨listed, rfl | later, same_pid⟩
    · exact absurd same_pid.symm other
    · exact Or.inr ⟨id, _, Function.update_self _ _ _, rfl, listed, later, same_pid⟩

theorem Told.callNext (told : s.Told) (found : s.commands id = some command)
    {d : Registry.DaemonRecord} {rest : List Registry.DaemonRecord}
    (phase_eq : command.phase = .notifying (d :: rest)) {reached : Bool}
    (harmless : s.CommandHarmless id command (.callNext reached))
    (called : s.callNext id command d rest reached = some s') : s'.Told := by
  cases reached with
  | true =>
      simp only [State.callNext, if_true] at called
      split at called
      · rename_i daemon daemon_running
        split at called
        · cases called
          have delivered : (s.deliver d command.repo daemon).Told := by
            apply told.setDaemon
            intro repo stale
            apply covered_mono (told d.pid daemon daemon_running repo stale)
            exact List.mem_cons_of_mem _
          refine delivered.of_command found _ rfl rfl (fun _ _ => rfl) ?_
          intro pid daemon running stale
          simp only [State.deliver, State.setDaemon, Function.update_apply] at running
          split at running
          · cases running
            exact Or.inl List.mem_cons_self
          · rename_i other
            exact covered_after_call told found phase_eq running other stale
        · cases called
      · cases called
  | false =>
      cases called
      refine told.of_command found _ rfl rfl (fun _ _ => rfl) ?_
      intro pid daemon running stale
      by_cases same : pid = d.pid
      · subst same
        rcases harmless d rest phase_eq daemon running stale with later | by_others
        · exact Or.inr ⟨id, _, Function.update_self _ _ _, rfl, later⟩
        · exact covered_of_others by_others _
      · exact covered_after_call told found phase_eq running same stale

theorem Told.stepCommand (told : s.Told) (found : s.commands id = some command)
    {step : CommandStep} (harmless : s.CommandHarmless id command step)
    (stepped : s.stepCommand id command step = some s') : s'.Told := by
  cases step with
  | deleteIndexFiles =>
      rcases Option.ite_none_right_eq_some.1 stepped with ⟨-, same⟩
      cases same
      have elsewhere : ∀ repo, repo ≠ command.repo →
          Function.update s.db command.repo none repo = s.db repo := by
        intro repo other
        exact Function.update_of_ne other _ _
      refine told.of_command found _ rfl rfl elsewhere ?_
      intro pid daemon running stale
      exact covered_by_phase (by simp)
  | openStorage =>
      rcases Option.ite_none_right_eq_some.1 stepped with ⟨-, same⟩
      cases same
      apply told.of_command found (some { command with phase := .opened })
      · exact openDb_daemons _
      · rw [State.setPhase, openDb_commands]
      · intro repo other
        exact openDb_db_of_ne other
      · intro pid daemon running stale
        exact covered_by_phase (by simp)
  | finishIndexing =>
      rcases Option.ite_none_right_eq_some.1 stepped with ⟨-, same⟩
      cases same
      refine told.of_command found _ rfl rfl (fun _ _ => rfl) ?_
      intro pid daemon running stale
      exact covered_by_phase (by simp)
  | endEarly =>
      simp only [State.stepCommand] at stepped
      split at stepped
      · cases stepped
      · cases stepped
        refine told.of_command found none rfl rfl (fun _ _ => rfl) ?_
        intro pid daemon running stale
        exact harmless pid daemon running stale
  | listAlive reused =>
      rcases Option.ite_none_right_eq_some.1 stepped with ⟨-, same⟩
      cases same
      refine told.of_command found _ rfl rfl (fun _ _ => rfl) ?_
      intro pid daemon running stale
      rcases harmless pid daemon running stale with listed | by_others
      · exact Or.inr ⟨id, _, Function.update_self _ _ _, rfl, listed⟩
      · exact covered_of_others by_others _
  | callNext reached =>
      simp only [State.stepCommand] at stepped
      split at stepped
      · rename_i phase_eq
        exact told.callNext found phase_eq harmless stepped
      · cases stepped
  | endNotifying =>
      rcases Option.ite_none_right_eq_some.1 stepped with ⟨phase_eq, same⟩
      cases same
      refine told.of_command found none rfl rfl (fun _ _ => rfl) ?_
      intro pid daemon running stale
      rcases covered_cases (told pid daemon running _ stale) found with by_others | ⟨-, tells⟩
      · exact by_others
      · simp [Command.Tells, phase_eq] at tells

theorem Told.stepDaemon (told : s.Told) (running : s.daemons pid = some daemon)
    {step : DaemonStep} (harmless : s.DaemonHarmless pid daemon step)
    (stepped : s.stepDaemon pid daemon step = some s') : s'.Told := by
  cases step with
  | exit =>
      cases stepped
      intro other left left_running repo stale
      simp only [Function.update_apply] at left_running
      split at left_running
      · cases left_running
      · exact told other left left_running repo stale
  | lookup request repo =>
      simp only [State.stepDaemon] at stepped
      split at stepped
      · cases stepped
        exact told.setRequest running request _
      · cases stepped
        exact told
      · cases stepped
  | openHandle request =>
      simp only [State.stepDaemon] at stepped
      split at stepped
      · rename_i repo _
        cases stepped
        exact (told.openDb repo).setRequest (by rw [openDb_daemons, running]) request _
      · cases stepped
  | insertHandle request =>
      simp only [State.stepDaemon] at stepped
      split at stepped
      · rename_i repo generation opened
        cases stepped
        unfold State.insertHandle
        split
        · exact told.setRequest running request none
        · rename_i missing
          refine told.setHandle running repo (fun other differs => Function.update_of_ne differs _ _)
            (fun _ _ waits => waits) ?_
          rintro ⟨cached, cached_eq, differs⟩
          simp only [Function.update_self, Option.some.injEq] at cached_eq
          subst cached_eq
          exact (harmless repo generation opened missing).resolve_left differs
      · cases stepped
  | dropRequest request =>
      cases stepped
      exact told.setRequest running request none
  | invalidateRepo repo succeeds =>
      rcases Option.ite_none_right_eq_some.1 stepped with ⟨-, same⟩
      cases same
      have others_wait : ∀ other, other ≠ repo → other ∈ daemon.inbox →
          other ∈ daemon.inbox.erase repo := by
        intro other differs waits
        exact (List.mem_erase_of_ne differs).2 waits
      cases succeeds with
      | true =>
          refine told.setHandle running repo (fun other differs => Function.update_of_ne differs _ _)
            others_wait ?_
          rintro ⟨cached, cached_eq, -⟩
          simp at cached_eq
      | false => exact told.setHandle running repo (fun _ _ => rfl) others_wait harmless

theorem Told.step (told : s.Told) {event : Event} (harmless : s.Harmless event)
    (stepped : s.next event = some s') : s'.Told := by
  cases event with
  | tick time =>
      rcases Option.ite_none_right_eq_some.1 stepped with ⟨-, same⟩
      cases same
      exact told
  | startCommand id repo rebuild =>
      simp only [State.next] at stepped
      split at stepped
      · rename_i free
        cases stepped
        intro pid daemon running other stale
        have by_others : Covered daemon.inbox (s.others id) pid other := by
          rw [others, Function.update_eq_self_iff.2 free.symm]
          exact told pid daemon running other stale
        exact covered_of_others by_others _
      · cases stepped
  | command id step =>
      simp only [State.next] at stepped
      split at stepped
      · rename_i command found
        exact told.stepCommand found (harmless command found) stepped
      · cases stepped
  | daemon pid step =>
      simp only [State.next] at stepped
      split at stepped
      · rename_i daemon running
        exact told.stepDaemon running (harmless daemon running) stepped
      · cases stepped
  | registry op reused =>
      rcases Option.ite_none_right_eq_some.1 stepped with ⟨-, same⟩
      cases same
      intro pid daemon running repo stale
      simp only [State.useRegistry] at running
      split at running
      · cases running
        rcases stale with ⟨generation, cached, -⟩
        cases cached
      · exact told pid daemon running repo stale

theorem told_new : State.new.Told := by
  intro pid daemon running
  cases running

/-- In every run that never takes the last cover from a handle of a deleted generation, once the
commands have ended and the notifications are processed, every cached handle refers to the
database on disk. -/
theorem run_current {events : List Event} (ran : Execution.run State.next State.new events = some s)
    (harmless : Execution.Along State.next State.Harmless State.new events)
    (quiescent : s.Quiescent) : s.Current := by
  have told : s.Told := by
    apply Execution.invariant_along State.Told _ told_new harmless ran
    intro before event after told harmless stepped
    exact told.step harmless stepped
  intro pid daemon running repo generation cached
  by_contra differs
  rcases told pid daemon running repo ⟨generation, cached, differs⟩ with
    waits | ⟨id, command, found, -⟩
  · rw [quiescent.2 pid daemon running] at waits
    cases waits
  · rw [quiescent.1 id] at found
    cases found

end State

namespace OneRepo

/-- The repository of the example. -/
def repo : RepoId := ⟨"repo"⟩

/-- No pid is in use again. -/
def nobody (_ : Nat) : Bool := false

/-- The repository is indexed, and a daemon serves it. -/
def served : List Event :=
    [.startCommand 0 repo false, .command 0 .openStorage, .command 0 .finishIndexing,
      .command 0 (.listAlive nobody), .command 0 .endNotifying,
      .registry (.findOrSpawn "0.7.4" "abc" ⟨.ok ⟨7, "/tmp/ohara-7.sock"⟩, 0, 0⟩) nobody,
      .daemon 7 (.lookup 0 repo), .daemon 7 (.openHandle 0), .daemon 7 (.insertHandle 0)]

/-- A rebuild that fails after the deletion. -/
def failedRebuild : List Event :=
    [.startCommand 1 repo true, .command 1 .deleteIndexFiles, .command 1 .endEarly]

/-- A rebuild that tells the daemon. -/
def rebuild : List Event :=
    [.startCommand 1 repo true, .command 1 .deleteIndexFiles, .command 1 .openStorage,
      .command 1 .finishIndexing, .command 1 (.listAlive nobody), .command 1 (.callNext true),
      .command 1 .endNotifying, .daemon 7 (.invalidateRepo repo true)]

/-- The state after `served`. -/
def afterServed : State := (Execution.run State.next State.new served).getD State.new

theorem State.daemons_useRegistry {s : State} {op : Registry.Operation} {reused : Nat → Bool}
    {pid : Nat}
    (not_spawned : (s.spawned reused op).find? (fun d => decide (d.pid = pid)) = none) :
    (s.useRegistry op reused).daemons pid = s.daemons pid := by
  simp [State.useRegistry, not_spawned]

theorem afterServed_daemons {pid : Nat} (other : pid ≠ 7) : afterServed.daemons pid = none := by
  have not_seven : ¬ 7 = pid := fun seven => other seven.symm
  change (Function.update _ 7 _ : Nat → Option Daemon) pid = none
  rw [Function.update_of_ne other]
  change (Function.update _ 7 _ : Nat → Option Daemon) pid = none
  rw [Function.update_of_ne other]
  change (Function.update _ 7 _ : Nat → Option Daemon) pid = none
  rw [Function.update_of_ne other]
  refine (State.daemons_useRegistry ?_).trans rfl
  change List.find? (fun d => decide (d.pid = pid)) [Registry.spawnedRecord _ _ _ _] = none
  simp [Registry.spawnedRecord, not_seven]

theorem along_step {s s' : State} {event : Event} {rest : List Event}
    (stepped : State.next s event = some s') (harmless : s.Harmless event)
    (along : Execution.Along State.next State.Harmless s' rest) :
    Execution.Along State.next State.Harmless s (event :: rest) :=
  (Execution.along_cons stepped).2 ⟨harmless, along⟩

theorem harmless_rebuild :
    Execution.Along State.next State.Harmless State.new (served ++ rebuild) := by
  refine along_step rfl trivial ?_
  refine along_step rfl (fun _ _ => trivial) ?_
  refine along_step rfl (fun _ _ => trivial) ?_
  -- no daemon runs when the first command asks for the list
  refine along_step rfl (fun _ _ pid daemon running => nomatch running) ?_
  refine along_step rfl (fun _ _ => trivial) ?_
  refine along_step rfl trivial ?_
  refine along_step rfl (fun _ _ => trivial) ?_
  refine along_step rfl (fun _ _ => trivial) ?_
  -- the handle that is inserted refers to the database on disk
  refine along_step rfl ?_ ?_
  · intro daemon running repo generation opened missing
    cases running
    cases opened
    exact Or.inl rfl
  refine along_step rfl trivial ?_
  refine along_step rfl (fun _ _ => trivial) ?_
  refine along_step rfl (fun _ _ => trivial) ?_
  refine along_step rfl (fun _ _ => trivial) ?_
  -- the only daemon is on the list
  refine along_step rfl ?_ ?_
  · intro command found pid daemon running stale
    by_cases same : pid = 7
    · exact Or.inl ⟨_, List.mem_cons_self, same.symm⟩
    · change afterServed.daemons pid = _ at running
      rw [afterServed_daemons same] at running
      cases running
  refine along_step rfl (fun _ _ => trivial) ?_
  refine along_step rfl (fun _ _ => trivial) ?_
  exact along_step rfl (fun _ _ => trivial) trivial

end OneRepo

theorem State.run_current_rebuild :
    ∃ s, Execution.run State.next State.new (OneRepo.served ++ OneRepo.rebuild) = some s ∧
      s.Current := by
  refine ⟨_, rfl, ?_⟩
  have ran : Execution.run State.next State.new (OneRepo.served ++ OneRepo.rebuild) = some _ := rfl
  refine State.run_current ran OneRepo.harmless_rebuild ⟨?_, ?_⟩
  · intro id
    match id with
    | 0 => rfl
    | 1 => rfl
    | n + 2 => rfl
  · intro pid daemon running
    by_cases same : pid = 7
    · subst same
      cases running
      rfl
    · change Function.update (Function.update OneRepo.afterServed.daemons 7 _) 7 _ pid = _ at running
      rw [Function.update_of_ne same, Function.update_of_ne same,
        OneRepo.afterServed_daemons same] at running
      cases running

theorem failed_rebuild_leaves_handle :
    ∃ s, Execution.run State.next State.new (OneRepo.served ++ OneRepo.failedRebuild) = some s ∧
      s.Quiescent ∧ ¬ s.Current := by
  refine ⟨_, rfl, ⟨?_, ?_⟩, ?_⟩
  · intro id
    match id with
    | 0 => rfl
    | 1 => rfl
    | n + 2 => rfl
  · intro pid daemon running
    by_cases same : pid = 7
    · subst same
      cases running
      rfl
    · change OneRepo.afterServed.daemons pid = _ at running
      rw [OneRepo.afterServed_daemons same] at running
      cases running
  · intro current
    have stale := current 7 _ rfl OneRepo.repo 0 rfl
    cases stale

end Notify

end Ohara
