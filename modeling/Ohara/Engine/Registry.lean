import Ohara.Engine.Explain
import Ohara.Library.Roster
import Ohara.Library.WireFormat

/-!
# The registry of running daemons

A JSON file lists the daemons. Every access happens under an exclusive lock on the file; an update
reads the whole file, changes the list, and rewrites the file in place.
-/

namespace Ohara

namespace Registry

/-- The errors of the registry. -/
inductive RegistryError where
  | io (message : String)
  | json (message : String)
deriving DecidableEq, Repr

namespace RegistryError

/-- The text of an error. -/
def display : RegistryError → String
  | .io message => "registry I/O: " ++ message
  | .json message => "registry JSON: " ++ message

end RegistryError

/-- A daemon in the registry file. -/
structure DaemonRecord where
  pid : Nat
  socketPath : String
  oharaVersion : String
  oharaGitSha : Option String
  startedAtUnix : Nat
  lastHealthUnix : Nat
deriving DecidableEq, Repr

/-- The contents of `registry.json`. -/
structure RegistryFile where
  daemons : List DaemonRecord
deriving DecidableEq, Repr

/-- The bytes of a file. -/
abbrev Bytes := List UInt8

/-- What `open` writes into an empty file. -/
def seed : Bytes := WireFormat.ascii "\x7b\"daemons\":[]\x7d".toList

/-- The JSON library on registry files: it reads back what it writes, and no text that was cut
off. -/
structure Json where
  toVec : RegistryFile → Bytes
  fromStr : Bytes → Except RegistryError RegistryFile
  fromStr_toVec : ∀ rf, fromStr (toVec rf) = .ok rf
  toVec_empty : toVec ⟨[]⟩ = seed
  fromStr_take : ∀ rf n, n < (toVec rf).length → ∃ e, fromStr ((toVec rf).take n) = .error e

/-! ## The file -/

/-- A file that was opened for reading and writing. -/
structure OpenFile where
  contents : Bytes
  cursor : Nat
deriving DecidableEq, Repr

/-- What is done to an open file. -/
inductive FileOp where
  | setLen0
  | seekStart
  | write (chunk : Bytes)
deriving DecidableEq, Repr

namespace OpenFile

/-- Write at the cursor; a gap before it is filled with zeros. -/
def write (file : OpenFile) (chunk : Bytes) : OpenFile where
  contents := file.contents.take file.cursor ++
    List.replicate (file.cursor - file.contents.length) 0 ++ chunk ++
    file.contents.drop (file.cursor + chunk.length)
  cursor := file.cursor + chunk.length

/-- One operation on the file. -/
def apply (file : OpenFile) : FileOp → OpenFile
  | .setLen0 => { file with contents := [] }
  | .seekStart => { file with cursor := 0 }
  | .write chunk => file.write chunk

/-- The operations in turn. -/
def applyAll (file : OpenFile) (ops : List FileOp) : OpenFile := ops.foldl apply file

/-- The file after `read_to_string`. -/
def afterRead (contents : Bytes) : OpenFile := ⟨contents, contents.length⟩

end OpenFile

/-- The file operations of an update that writes the given chunks. -/
def rewrite (chunks : List Bytes) : List FileOp :=
    .setLen0 :: .seekStart :: chunks.map FileOp.write

/-! ## Operations under the lock -/

/-- The locked section of `open`. -/
def seedIfEmpty (contents : Bytes) : Bytes :=
    if contents.length = 0 then ((OpenFile.mk contents 0).write seed).contents else contents

/-- Reading under the lock. -/
def withLocked {T : Type} (json : Json) (f : RegistryFile → T) (contents : Bytes) :
    Except RegistryError T × Bytes :=
    (match json.fromStr contents with
     | .ok rf => .ok (f rf)
     | .error e => .error e, contents)

/-- Reading, changing and writing under the lock. -/
def mutate {T : Type} (json : Json) (f : RegistryFile → RegistryFile × T) (contents : Bytes) :
    Except RegistryError T × Bytes :=
    match json.fromStr contents with
    | .ok rf =>
        (.ok (f rf).2,
          ((OpenFile.afterRead contents).applyAll (rewrite [json.toVec (f rf).1])).contents)
    | .error e => (.error e, contents)

/-- What a locked section finds outside the file. -/
structure Moment where
  now : Nat
  pidAlive : Nat → Bool

/-- Records of dead processes, and those without a heartbeat for five minutes, go. -/
def pruneDead (moment : Moment) (rf : RegistryFile) : RegistryFile where
  daemons := rf.daemons.filter fun d =>
    moment.pidAlive d.pid && decide (moment.now - d.lastHealthUnix ≤ 5 * 60)

/-- The closure of `locked_update`: prune, then let `f` change the list. -/
def pruneThen {T : Type} (moment : Moment) (f : List DaemonRecord → List DaemonRecord × T)
    (rf : RegistryFile) : RegistryFile × T :=
    let updated := f (pruneDead moment rf).daemons
    (⟨updated.1⟩, updated.2)

/-- A change of the live records. -/
def lockedUpdate {T : Type} (json : Json) (moment : Moment)
    (f : List DaemonRecord → List DaemonRecord × T) (contents : Bytes) :
    Except RegistryError T × Bytes :=
    mutate json (pruneThen moment f) contents

/-- The record takes the place of any of its pid. -/
def registerRecord (rec : DaemonRecord) (rf : RegistryFile) : RegistryFile where
  daemons := rf.daemons.filter (fun r => decide (r.pid ≠ rec.pid)) ++ [rec]

/-- The records of the pid go. -/
def unregisterPid (pid : Nat) (rf : RegistryFile) : RegistryFile where
  daemons := rf.daemons.filter fun r => decide (r.pid ≠ pid)

/-- Set the health of the daemon with this pid. -/
def touch (pid now : Nat) (d : DaemonRecord) : DaemonRecord :=
    if d.pid = pid then { d with lastHealthUnix := now } else d

/-- A heartbeat of the pid. -/
def touchHealth (pid now : Nat) (rf : RegistryFile) : RegistryFile where
  daemons := rf.daemons.map (touch pid now)

/-! ## Finding or spawning a daemon -/

/-- What a caller gets to know of a daemon. -/
structure DaemonHandle where
  socketPath : String
  pid : Nat
  spawned : Bool
deriving DecidableEq, Repr

/-- A child that is ready. -/
structure SpawnedDaemon where
  pid : Nat
  socketPath : String
deriving DecidableEq, Repr

/-- A daemon found, a daemon spawned, or neither. -/
inductive Pick where
  | existing (rec : DaemonRecord)
  | spawned (rec : DaemonRecord)
  | spawnFailed (message : String)
deriving DecidableEq, Repr

/-- What `spawn_daemon` returns, and the clock readings after it. -/
structure Spawning where
  result : Except String SpawnedDaemon
  startedAt : Nat
  healthAt : Nat

/-- The record of a child. -/
def spawnedRecord (sd : SpawnedDaemon) (oharaVersion oharaGitSha : String) (spawning : Spawning) :
    DaemonRecord where
  pid := sd.pid
  socketPath := sd.socketPath
  oharaVersion := oharaVersion
  oharaGitSha := some oharaGitSha
  startedAtUnix := spawning.startedAt
  lastHealthUnix := spawning.healthAt

/-- The closure `find_or_spawn_daemon` runs under the lock. -/
def pickDaemon (oharaVersion oharaGitSha : String) (spawning : Spawning)
    (daemons : List DaemonRecord) : List DaemonRecord × Pick :=
    match daemons.find? fun d => decide (d.oharaVersion = oharaVersion) with
    | some existing => (daemons, .existing existing)
    | none =>
        match spawning.result with
        | .ok sd =>
            let spawned := spawnedRecord sd oharaVersion oharaGitSha spawning
            (daemons ++ [spawned], .spawned spawned)
        | .error e => (daemons, .spawnFailed e)

/-- What `find_or_spawn_daemon` returns after the locked section. -/
def Pick.result : Except RegistryError Pick → Except EngineError (Option DaemonHandle)
  | .ok (.existing d) => .ok (some ⟨d.socketPath, d.pid, false⟩)
  | .ok (.spawned d) => .ok (some ⟨d.socketPath, d.pid, true⟩)
  | .ok (.spawnFailed e) => .error (.internal ("spawn daemon: " ++ e))
  | .error e => .error (.internal ("registry locked_update: " ++ e.display))

/-- Daemons are not used: the caller or the environment says so. -/
def daemonDisabled (noDaemon : Bool) (ci : Option String) (forceDaemon : Bool) : Bool :=
    noDaemon ||
      ((match ci with
        | some v => decide (v ∈ ["1", "true", "TRUE", "True"])
        | none => false) && !forceDaemon)

/-! ## Calls -/

/-- The locked section of a call after `open`. -/
inductive Operation where
  | list
  | register (rec : DaemonRecord)
  | unregister (pid : Nat)
  | touchHealth (pid now : Nat)
  | listAlive
  | findOrSpawn (oharaVersion oharaGitSha : String) (spawning : Spawning)

/-- What a call returns. -/
inductive Reply where
  | records (result : Except RegistryError (List DaemonRecord))
  | done (result : Except RegistryError Unit)
  | handle (result : Except EngineError (Option DaemonHandle))

namespace Operation

/-- Run the locked section on the contents of the file. -/
def run (json : Json) (moment : Moment) (contents : Bytes) : Operation → Reply × Bytes
  | .list =>
      let locked := withLocked json RegistryFile.daemons contents
      (.records locked.1, locked.2)
  | .register rec =>
      let locked := mutate json (fun rf => (registerRecord rec rf, ())) contents
      (.done locked.1, locked.2)
  | .unregister pid =>
      let locked := mutate json (fun rf => (unregisterPid pid rf, ())) contents
      (.done locked.1, locked.2)
  | .touchHealth pid now =>
      let locked := mutate json (fun rf => (Registry.touchHealth pid now rf, ())) contents
      (.done locked.1, locked.2)
  | .listAlive =>
      let locked := lockedUpdate json moment (fun daemons => (daemons, daemons)) contents
      (.records locked.1, locked.2)
  | .findOrSpawn oharaVersion oharaGitSha spawning =>
      let locked := lockedUpdate json moment (pickDaemon oharaVersion oharaGitSha spawning)
        contents
      (.handle (Pick.result locked.1), locked.2)

end Operation

end Registry

end Ohara
