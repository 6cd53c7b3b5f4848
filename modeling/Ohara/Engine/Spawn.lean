import Ohara.Engine.Ipc
import Ohara.Engine.Registry
import Ohara.Library.Execution
import Ohara.Storage.MatchQuery

/-!
# Spawning a daemon

The spawner starts a child and polls the files by which the child says that it is ready; a child
that is not ready in time is terminated. Both run side by side on the files of a fresh token, and
the child may die at any time.
-/

namespace Ohara

namespace Spawn

/-- What is at the path of the socket. -/
inductive SocketFile where
  | socket
  | other
deriving DecidableEq, Repr

/-- The files of the token, with their contents. -/
structure Files where
  socket : Option SocketFile
  pid : Option (List Char)
  ready : Option (List Char)
deriving DecidableEq, Repr

/-- What is fixed when the child is forked: its pid and the path of its socket. -/
structure Setup where
  pid : Nat
  socketPath : String
  pid_fits : pid < 2 ^ 32

/-- `std::process::id().to_string()`. -/
def Setup.pidText (setup : Setup) : List Char :=
    Nat.toDigits 10 setup.pid

/-- One more digit of a `u32`. -/
def takeDigit (value : Nat) (c : Char) : Except String Nat :=
    if c.isDigit then
      if 10 * value + (c.toNat - '0'.toNat) < 2 ^ 32 then
        .ok (10 * value + (c.toNat - '0'.toNat))
      else .error "number too large to fit in target type"
    else .error "invalid digit found in string"

/-- `str::parse` at `u32`. -/
def parseU32 : List Char → Except String Nat
  | [] => .error "cannot parse integer from empty string"
  | ['+'] => .error "invalid digit found in string"
  | '+' :: digits => digits.foldlM takeDigit 0
  | digits => digits.foldlM takeDigit 0

/-! ## The child -/

/-- `serve_unix`, in a task of its own. -/
inductive Listener where
  | starting
  | free
  | bound
  | accepting
  | drained
  | finished (result : Except Ipc.EngineError Unit)
  | panicked

/-- `run_daemon_with_engine`. -/
inductive Main where
  | waiting
  | createPid
  | writePid (left : List Char)
  | createReady
  | writeReady (left : List Char)
  | serving
  | removePid (result : Except Ipc.EngineError Unit)
  | removeReady (result : Except Ipc.EngineError Unit)
  | returned (result : Except Ipc.EngineError Unit)

/-- The child process. -/
inductive Life where
  | unborn
  | running
  | dead
deriving DecidableEq, Repr

namespace Listener

/-- It serves, or may come to serve. -/
def serves : Listener → Bool
  | .starting => true
  | .free => true
  | .bound => true
  | .accepting => true
  | _ => false

/-- The task is over. -/
def isOver : Listener → Bool
  | .finished _ => true
  | .panicked => true
  | _ => false

end Listener

/-- What `select!` returns early with, when the listener is over. -/
def startupError : Listener → Option Ipc.EngineError
  | .finished (.ok ()) => some (.internal "listener exited before socket was ready")
  | .finished (.error e) => some (.internal ("serve_unix failed at startup: " ++ e.text))
  | .panicked => some (.internal "listener task join: task panicked")
  | _ => none

/-! ## The spawner -/

/-- `spawn_daemon_inner`; the last state is the timeout. -/
inductive Spawner where
  | preparing
  | polling
  | sawReady
  | sawBoth
  | terminating
  | unlinkSocket
  | unlinkPid
  | unlinkReady
  | returned (result : Except Ipc.EngineError Registry.SpawnedDaemon)
  | timedOut

/-- What the spawner has returned. -/
def Spawner.result : Spawner → Option (Except Ipc.EngineError Registry.SpawnedDaemon)
  | .returned result => some result
  | .timedOut => some (.error (.internal "daemon did not become ready in 10s"))
  | _ => none

/-- Nothing reads the last field: the child has bound its socket. -/
structure State where
  files : Files
  life : Life
  listener : Listener
  main : Main
  spawner : Spawner
  everBound : Bool

namespace State

/-- Before the child is forked. -/
def init : State where
  files := ⟨none, none, none⟩
  life := .unborn
  listener := .starting
  main := .waiting
  spawner := .preparing
  everBound := false

end State

/-- `leaveLoop` is a cancelled token. -/
inductive ListenerEvent where
  | check
  | bind
  | chmod
  | fail (e : Ipc.EngineError)
  | panic
  | leaveLoop
  | unlinkSocket (failed : Bool)

/-- The steps of the child's main task. -/
inductive MainEvent where
  | select
  | socketTimeout (shown : String)
  | createPid
  | writePid (n : Nat)
  | createReady
  | writeReady (n : Nat)
  | fail (message : String)
  | join
  | removePid (failed : Bool)
  | removeReady (failed : Bool)
  | exit

/-- The steps of the spawner. -/
inductive SpawnerEvent where
  | mkdirFail (message : String)
  | forkFail (message : String)
  | fork
  | pollReady
  | pollPid
  | readPid (fault : Option String)
  | timeOut
  | forceKill
  | reap
  | unlink (failed : Bool)

/-- One step of the listener, the main task or the spawner, or the death of the child. -/
inductive Event where
  | listener (event : ListenerEvent)
  | main (event : MainEvent)
  | die
  | spawner (event : SpawnerEvent)

namespace State

/-- A file after its removal, which ignores its failure. -/
def removed {α : Type} (failed : Bool) (file : Option α) : Option α :=
    if failed then file else none

/-- One step of the listener. -/
def listenerNext (s : State) : ListenerEvent → Option State
  | .check =>
      match s.listener, s.files.socket with
      | .starting, none => some { s with listener := .free }
      | .starting, some .socket =>
          some { s with listener := .free, files := { s.files with socket := none } }
      | .starting, some .other =>
          some { s with
            listener := .finished (.error (.internal "refusing to unlink non-socket path")) }
      | _, _ => none
  | .bind =>
      match s.listener, s.files.socket with
      | .free, none =>
          some { s with
            listener := .bound
            files := { s.files with socket := some .socket }
            everBound := true }
      | _, _ => none
  | .chmod =>
      match s.listener with
      | .bound => some { s with listener := .accepting }
      | _ => none
  | .fail e =>
      match s.listener with
      | .starting => some { s with listener := .finished (.error e) }
      | .free => some { s with listener := .finished (.error e) }
      | .bound => some { s with listener := .finished (.error e) }
      | _ => none
  | .panic => if s.listener.isOver then none else some { s with listener := .panicked }
  | .leaveLoop =>
      match s.listener with
      | .accepting => some { s with listener := .drained }
      | _ => none
  | .unlinkSocket failed =>
      match s.listener with
      | .drained =>
          some { s with
            listener := .finished (.ok ())
            files := { s.files with socket := removed failed s.files.socket } }
      | _ => none

/-- One step of the main task. -/
def mainNext (setup : Setup) (s : State) : MainEvent → Option State
  | .select =>
      match s.main with
      | .waiting =>
          match startupError s.listener with
          | some e => some { s with main := .returned (.error e) }
          | none => if s.files.socket.isSome then some { s with main := .createPid } else some s
      | _ => none
  | .socketTimeout shown =>
      match s.main, startupError s.listener with
      | .waiting, none =>
          some { s with
            main := .returned
              (.error (.internal ("socket " ++ shown ++ " did not appear within 10s"))) }
      | _, _ => none
  | .createPid =>
      match s.main with
      | .createPid =>
          some { s with main := .writePid setup.pidText, files := { s.files with pid := some [] } }
      | _ => none
  | .writePid n =>
      match s.main with
      | .writePid left =>
          if 0 < n ∧ n ≤ left.length then
            some { s with
              main := if n < left.length then .writePid (left.drop n) else .createReady
              files := { s.files with pid := s.files.pid.map fun done => done ++ left.take n } }
          else none
      | _ => none
  | .createReady =>
      match s.main with
      | .createReady =>
          some { s with
            main := .writeReady "ready".toList
            files := { s.files with ready := some [] } }
      | _ => none
  | .writeReady n =>
      match s.main with
      | .writeReady left =>
          if 0 < n ∧ n ≤ left.length then
            some { s with
              main := if n < left.length then .writeReady (left.drop n) else .serving
              files :=
                { s.files with ready := s.files.ready.map fun done => done ++ left.take n } }
          else none
      | _ => none
  | .fail message =>
      let pidError := Ipc.EngineError.internal ("write pid file: " ++ message)
      let readyError := Ipc.EngineError.internal ("write readiness file: " ++ message)
      match s.main with
      | .createPid => some { s with main := .returned (.error pidError) }
      | .writePid _ => some { s with main := .returned (.error pidError) }
      | .createReady => some { s with main := .returned (.error readyError) }
      | .writeReady _ => some { s with main := .returned (.error readyError) }
      | _ => none
  | .join =>
      match s.main, s.listener with
      | .serving, .finished result => some { s with main := .removePid result }
      | .serving, .panicked =>
          some { s with main := .returned (.error (.internal "listener join: task panicked")) }
      | _, _ => none
  | .removePid failed =>
      match s.main with
      | .removePid result =>
          some { s with
            main := .removeReady result
            files := { s.files with pid := removed failed s.files.pid } }
      | _ => none
  | .removeReady failed =>
      match s.main with
      | .removeReady result =>
          some { s with
            main := .returned result
            files := { s.files with ready := removed failed s.files.ready } }
      | _ => none
  | .exit =>
      match s.main with
      | .returned _ => some { s with life := .dead }
      | _ => none

/-- What `spawn_daemon_inner` makes of the pid file; reading may fail although the file is there. -/
def readPid (setup : Setup) (fault : Option String) (file : Option (List Char)) :
    Except Ipc.EngineError Registry.SpawnedDaemon :=
    match fault, file with
    | some message, _ => .error (.internal ("read pid: " ++ message))
    | none, none => .error (.internal "read pid: No such file or directory (os error 2)")
    | none, some text =>
        match parseU32 (trim text) with
        | .ok pid => .ok ⟨pid, setup.socketPath⟩
        | .error e => .error (.internal ("parse pid: " ++ e))

/-- One step of the spawner. -/
def spawnerNext (setup : Setup) (s : State) : SpawnerEvent → Option State
  | .mkdirFail message =>
      match s.spawner with
      | .preparing =>
          some { s with spawner := .returned (.error (.internal ("mkdir runtime: " ++ message))) }
      | _ => none
  | .forkFail message =>
      match s.spawner with
      | .preparing =>
          some { s with
            spawner := .returned (.error (.internal ("spawn ohara serve: " ++ message))) }
      | _ => none
  | .fork =>
      match s.spawner with
      | .preparing => some { s with spawner := .polling, life := .running }
      | _ => none
  | .pollReady =>
      match s.spawner with
      | .polling => some { s with spawner := if s.files.ready.isSome then .sawReady else .polling }
      | _ => none
  | .pollPid =>
      match s.spawner with
      | .sawReady => some { s with spawner := if s.files.pid.isSome then .sawBoth else .polling }
      | _ => none
  | .readPid fault =>
      match s.spawner with
      | .sawBoth => some { s with spawner := .returned (readPid setup fault s.files.pid) }
      | _ => none
  | .timeOut =>
      match s.spawner with
      | .polling => some { s with spawner := .terminating }
      | _ => none
  | .forceKill =>
      match s.spawner with
      | .terminating => some { s with life := .dead }
      | _ => none
  | .reap =>
      match s.spawner, s.life with
      | .terminating, .dead => some { s with spawner := .unlinkSocket }
      | _, _ => none
  | .unlink failed =>
      match s.spawner with
      | .unlinkSocket =>
          some { s with
            spawner := .unlinkPid
            files := { s.files with socket := removed failed s.files.socket } }
      | .unlinkPid =>
          some { s with
            spawner := .unlinkReady
            files := { s.files with pid := removed failed s.files.pid } }
      | .unlinkReady =>
          some { s with
            spawner := .timedOut
            files := { s.files with ready := removed failed s.files.ready } }
      | _ => none

/-- The child moves while it runs, and may die at any time, of the signal too. -/
def next (setup : Setup) (s : State) : Event → Option State
  | .listener event => if s.life = .running then s.listenerNext event else none
  | .main event => if s.life = .running then s.mainNext setup event else none
  | .die => if s.life = .running then some { s with life := .dead } else none
  | .spawner event => s.spawnerNext setup event

/-- The child runs, and serves or may come to serve. -/
def childServes (s : State) : Bool :=
    decide (s.life = .running) && s.listener.serves

/-- One step of the spawner, by what it does. -/
inductive SpawnerStep (setup : Setup) (s : State) : SpawnerEvent → State → Prop
  | mkdirFail {message : String} (preparing : s.spawner = .preparing) :
      SpawnerStep setup s (.mkdirFail message)
        { s with spawner := .returned (.error (.internal ("mkdir runtime: " ++ message))) }
  | forkFail {message : String} (preparing : s.spawner = .preparing) :
      SpawnerStep setup s (.forkFail message)
        { s with spawner := .returned (.error (.internal ("spawn ohara serve: " ++ message))) }
  | fork (preparing : s.spawner = .preparing) :
      SpawnerStep setup s .fork { s with spawner := .polling, life := .running }
  | noReady (polling : s.spawner = .polling) (absent : s.files.ready = none) :
      SpawnerStep setup s .pollReady { s with spawner := .polling }
  | seesReady (polling : s.spawner = .polling) (there : s.files.ready ≠ none) :
      SpawnerStep setup s .pollReady { s with spawner := .sawReady }
  | noPid (ready : s.spawner = .sawReady) (absent : s.files.pid = none) :
      SpawnerStep setup s .pollPid { s with spawner := .polling }
  | seesPid (ready : s.spawner = .sawReady) (there : s.files.pid ≠ none) :
      SpawnerStep setup s .pollPid { s with spawner := .sawBoth }
  | readPid {fault : Option String} (both : s.spawner = .sawBoth) :
      SpawnerStep setup s (.readPid fault)
        { s with spawner := .returned (readPid setup fault s.files.pid) }
  | timeOut (polling : s.spawner = .polling) :
      SpawnerStep setup s .timeOut { s with spawner := .terminating }
  | forceKill (terminating : s.spawner = .terminating) :
      SpawnerStep setup s .forceKill { s with life := .dead }
  | reap (terminating : s.spawner = .terminating) (dead : s.life = .dead) :
      SpawnerStep setup s .reap { s with spawner := .unlinkSocket }
  | unlinkSocket {failed : Bool} (reaped : s.spawner = .unlinkSocket) :
      SpawnerStep setup s (.unlink failed) { s with
        spawner := .unlinkPid
        files := { s.files with socket := removed failed s.files.socket } }
  | unlinkPid {failed : Bool} (reaped : s.spawner = .unlinkPid) :
      SpawnerStep setup s (.unlink failed) { s with
        spawner := .unlinkReady
        files := { s.files with pid := removed failed s.files.pid } }
  | unlinkReady {failed : Bool} (reaped : s.spawner = .unlinkReady) :
      SpawnerStep setup s (.unlink failed) { s with
        spawner := .timedOut
        files := { s.files with ready := removed failed s.files.ready } }

theorem spawnerStep_of_next {setup : Setup} {s s' : State} {event : SpawnerEvent}
    (stepped : s.spawnerNext setup event = some s') : SpawnerStep setup s event s' := by
  cases event with
  | mkdirFail message =>
      cases phase : s.spawner <;>
        simp only [spawnerNext, phase, reduceCtorEq, Option.some.injEq] at stepped
      subst stepped
      exact .mkdirFail phase
  | forkFail message =>
      cases phase : s.spawner <;>
        simp only [spawnerNext, phase, reduceCtorEq, Option.some.injEq] at stepped
      subst stepped
      exact .forkFail phase
  | fork =>
      cases phase : s.spawner <;>
        simp only [spawnerNext, phase, reduceCtorEq, Option.some.injEq] at stepped
      subst stepped
      exact .fork phase
  | pollReady =>
      cases phase : s.spawner <;>
        simp only [spawnerNext, phase, reduceCtorEq, Option.some.injEq] at stepped
      subst stepped
      cases ready : s.files.ready with
      | none => exact .noReady phase ready
      | some text => exact .seesReady phase (by simp [ready])
  | pollPid =>
      cases phase : s.spawner <;>
        simp only [spawnerNext, phase, reduceCtorEq, Option.some.injEq] at stepped
      subst stepped
      cases pid : s.files.pid with
      | none => exact .noPid phase pid
      | some text => exact .seesPid phase (by simp [pid])
  | readPid fault =>
      cases phase : s.spawner <;>
        simp only [spawnerNext, phase, reduceCtorEq, Option.some.injEq] at stepped
      subst stepped
      exact .readPid phase
  | timeOut =>
      cases phase : s.spawner <;>
        simp only [spawnerNext, phase, reduceCtorEq, Option.some.injEq] at stepped
      subst stepped
      exact .timeOut phase
  | forceKill =>
      cases phase : s.spawner <;>
        simp only [spawnerNext, phase, reduceCtorEq, Option.some.injEq] at stepped
      rw [← stepped, ← phase]
      exact .forceKill phase
  | reap =>
      cases phase : s.spawner <;> cases life : s.life <;>
        simp only [spawnerNext, phase, life, reduceCtorEq, Option.some.injEq] at stepped
      rw [← stepped, ← life]
      exact .reap phase life
  | unlink failed =>
      cases phase : s.spawner <;>
        simp only [spawnerNext, phase, reduceCtorEq, Option.some.injEq] at stepped <;>
        subst stepped
      · exact .unlinkSocket phase
      · exact .unlinkPid phase
      · exact .unlinkReady phase

end State

end Spawn

end Ohara
