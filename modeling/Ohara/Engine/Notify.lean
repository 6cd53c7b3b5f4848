import Ohara.Engine.RegistryRuns

/-!
# Index commands and the daemons they notify

`ohara index --rebuild` deletes the database of a repository first and notifies the daemons last.
A daemon keeps a handle of the database it opened; the notification makes it drop the handle.
Each file created anew is a generation of its own.
-/

namespace Ohara

namespace Notify

open Registry (DaemonRecord Moment Operation)

/-- A request of a daemon that is opening a repository. -/
inductive Opening where
  | missed (repo : RepoId)
  /-- The handle of a generation was opened and is about to be inserted. -/
  | opened (repo : RepoId) (generation : Nat)
deriving DecidableEq, Repr

/-- A daemon and the handles it has cached. -/
structure Daemon where
  socketPath : String
  /-- The generation each cached handle refers to. -/
  repos : RepoId → Option Nat
  requests : Nat → Option Opening
  /-- The repositories of the notifications that have arrived and are not processed yet. -/
  inbox : List RepoId

/-- A daemon that has opened nothing. -/
def Daemon.new (socketPath : String) : Daemon where
  socketPath := socketPath
  repos := fun _ => none
  requests := fun _ => none
  inbox := []

/-- Where `ohara index` is. -/
inductive Phase where
  | started
  /-- The database files were deleted. -/
  | deleted
  | opened
  /-- The indexer has succeeded. -/
  | finished
  | notifying (pending : List DaemonRecord)
deriving DecidableEq, Repr

/-- An `ohara index` on its way. -/
structure Command where
  repo : RepoId
  rebuild : Bool
  phase : Phase
deriving DecidableEq, Repr

/-- The index files, the registry, the daemons and the commands. -/
structure State where
  clock : Nat
  /-- Generations created so far. -/
  generations : Nat
  /-- The generation of each database on disk. -/
  db : RepoId → Option Nat
  commands : Nat → Option Command
  /-- The running daemons by pid. -/
  daemons : Nat → Option Daemon
  records : List DaemonRecord

/-- What an index command does next. -/
inductive CommandStep where
  | deleteIndexFiles
  | openStorage
  | finishIndexing
  /-- The command returns before it notifies anyone: with an error, because the index is up to
  date, or because the registry cannot be read. -/
  | endEarly
  /-- `reused` are the pids that belong to other processes. -/
  | listAlive (reused : Nat → Bool)
  /-- Call the next daemon of the list; `reached` is whether the request arrives. -/
  | callNext (reached : Bool)
  | endNotifying

/-- What a daemon does next. -/
inductive DaemonStep where
  | exit
  /-- `open_repo` reads the map of handles. -/
  | lookup (request : Nat) (repo : RepoId)
  | openHandle (request : Nat)
  | insertHandle (request : Nat)
  | dropRequest (request : Nat)
  /-- Process a notification; `succeeds` is whether the repository can still be identified. -/
  | invalidateRepo (repo : RepoId) (succeeds : Bool)

/-- One step of the clock, a command or a daemon. -/
inductive Event where
  | tick (time : Nat)
  | startCommand (id : Nat) (repo : RepoId) (rebuild : Bool)
  | command (id : Nat) (step : CommandStep)
  | daemon (pid : Nat) (step : DaemonStep)
  /-- Somebody else uses the registry, maybe to spawn a daemon. -/
  | registry (op : Operation) (reused : Nat → Bool)

namespace State

/-- No daemon, no index, no command. -/
def new : State where
  clock := 0
  generations := 0
  db := fun _ => none
  commands := fun _ => none
  daemons := fun _ => none
  records := []

/-- A command moves on. -/
def setPhase (s : State) (id : Nat) (command : Command) (phase : Phase) : State :=
    { s with commands := Function.update s.commands id (some { command with phase := phase }) }

/-- A daemon's state. -/
def setDaemon (s : State) (pid : Nat) (daemon : Daemon) : State :=
    { s with daemons := Function.update s.daemons pid (some daemon) }

/-- A request of a daemon moves on. -/
def setRequest (s : State) (pid request : Nat) (daemon : Daemon) (opening : Option Opening) :
    State :=
    s.setDaemon pid { daemon with requests := Function.update daemon.requests request opening }

/-- The generation an open finds, which it creates where there is no file. -/
def generation (s : State) (repo : RepoId) : Nat := (s.db repo).getD s.generations

/-- The files after the database of a repository was opened. -/
def openDb (s : State) (repo : RepoId) : State :=
    match s.db repo with
    | some _ => s
    | none =>
        { s with
          db := Function.update s.db repo (some s.generations)
          generations := s.generations + 1 }

/-- What a locked section sees of the clock and of the processes. -/
def moment (s : State) (reused : Nat → Bool) : Moment where
  now := s.clock
  pidAlive := fun pid => (s.daemons pid).isSome || reused pid

/-- The daemons a use of the registry spawns. -/
def spawned (s : State) (reused : Nat → Bool) : Operation → List DaemonRecord
  | .findOrSpawn oharaVersion oharaGitSha spawning =>
      Registry.spawnedFor oharaVersion oharaGitSha spawning
        (s.records.filterMap (Registry.pruned (s.moment reused)))
  | _ => []

/-- A locked section, as an edit of the records. -/
def useRegistry (s : State) (op : Operation) (reused : Nat → Bool) : State :=
    { s with
      records := (op.edit (s.moment reused)).apply s.records
      daemons := fun pid =>
        match (s.spawned reused op).find? fun d => decide (d.pid = pid) with
        | some d => some (Daemon.new d.socketPath)
        | none => s.daemons pid }

/-- `list_alive` prunes the registry and returns what is left. -/
def alive (s : State) (reused : Nat → Bool) : List DaemonRecord :=
    (Operation.listAlive.edit (s.moment reused)).apply s.records

/-- The request to drop the handle of a repository arrives at a daemon. -/
def deliver (s : State) (d : DaemonRecord) (repo : RepoId) (daemon : Daemon) : State :=
    s.setDaemon d.pid { daemon with inbox := repo :: daemon.inbox }

/-- The call to the next listed daemon reaches it or fails. -/
def callNext (s : State) (id : Nat) (command : Command) (d : DaemonRecord)
    (rest : List DaemonRecord) (reached : Bool) : Option State :=
    if reached then
      match s.daemons d.pid with
      | some daemon =>
          if daemon.socketPath = d.socketPath then
            some ((s.deliver d command.repo daemon).setPhase id command (.notifying rest))
          else none
      | none => none
    else some (s.setPhase id command (.notifying rest))

/-- The map is read again under the lock: a handle that is there stays. -/
def insertHandle (s : State) (pid request : Nat) (daemon : Daemon) (repo : RepoId)
    (generation : Nat) : State :=
    match daemon.repos repo with
    | some _ => s.setRequest pid request daemon none
    | none =>
        s.setRequest pid request
          { daemon with repos := Function.update daemon.repos repo (some generation) } none

/-- The daemon drops its handle of the repository. -/
def invalidateRepo (s : State) (pid : Nat) (daemon : Daemon) (repo : RepoId) (succeeds : Bool) :
    State :=
    if succeeds then
      s.setDaemon pid { daemon with
        repos := Function.update daemon.repos repo none
        inbox := daemon.inbox.erase repo }
    else s.setDaemon pid { daemon with inbox := daemon.inbox.erase repo }

/-- The command has returned. -/
def endCommand (s : State) (id : Nat) : State :=
    { s with commands := Function.update s.commands id none }

/-- One step of a command. -/
def stepCommand (s : State) (id : Nat) (command : Command) : CommandStep → Option State
  | .deleteIndexFiles =>
      if command.rebuild = true ∧ command.phase = .started then
        some ({ s with db := Function.update s.db command.repo none }.setPhase id command .deleted)
      else none
  | .openStorage =>
      if command.phase = .deleted ∨ (command.phase = .started ∧ command.rebuild = false) then
        some ((s.openDb command.repo).setPhase id command .opened)
      else none
  | .finishIndexing =>
      if command.phase = .opened then some (s.setPhase id command .finished) else none
  | .endEarly =>
      match command.phase with
      | .notifying _ => none
      | _ => some (s.endCommand id)
  | .listAlive reused =>
      if command.phase = .finished then
        some ({ s with records := s.alive reused }.setPhase id command
          (.notifying (s.alive reused)))
      else none
  | .callNext reached =>
      match command.phase with
      | .notifying (d :: rest) => s.callNext id command d rest reached
      | _ => none
  | .endNotifying => if command.phase = .notifying [] then some (s.endCommand id) else none

/-- One step of a daemon. -/
def stepDaemon (s : State) (pid : Nat) (daemon : Daemon) : DaemonStep → Option State
  | .exit => some { s with daemons := Function.update s.daemons pid none }
  | .lookup request repo =>
      match daemon.requests request, daemon.repos repo with
      | none, none => some (s.setRequest pid request daemon (some (.missed repo)))
      | none, some _ => some s
      | some _, _ => none
  | .openHandle request =>
      match daemon.requests request with
      | some (.missed repo) =>
          some ((s.openDb repo).setRequest pid request daemon
            (some (.opened repo (s.generation repo))))
      | _ => none
  | .insertHandle request =>
      match daemon.requests request with
      | some (.opened repo generation) => some (s.insertHandle pid request daemon repo generation)
      | _ => none
  | .dropRequest request => some (s.setRequest pid request daemon none)
  | .invalidateRepo repo succeeds =>
      if repo ∈ daemon.inbox then some (s.invalidateRepo pid daemon repo succeeds) else none

/-- One step of the system. -/
def next (s : State) : Event → Option State
  | .tick time => if s.clock ≤ time then some { s with clock := time } else none
  | .startCommand id repo rebuild =>
      match s.commands id with
      | none =>
          some { s with
            commands := Function.update s.commands id (some ⟨repo, rebuild, .started⟩) }
      | some _ => none
  | .command id step =>
      match s.commands id with
      | some command => s.stepCommand id command step
      | none => none
  | .daemon pid step =>
      match s.daemons pid with
      | some daemon => s.stepDaemon pid daemon step
      | none => none
  | .registry op reused =>
      if ∀ d ∈ s.spawned reused op, s.daemons d.pid = none then some (s.useRegistry op reused)
      else none

end State

end Notify

end Ohara
