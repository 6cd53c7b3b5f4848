import Ohara.Engine.RegistryJson
import Ohara.Engine.RegistryRuns
import Ohara.Engine.SpawnSound

/-!
# What the spawner can rely on

The pid that is returned is the child's, and a child that could still serve is returned, unless the
pid file is there and cannot be read. A child that is not ready in time is dead when the spawner
returns, and the spawner returns whatever the child does. Hence every daemon that may serve after
its cold start is registered.
-/

namespace Ohara

namespace Spawn

/-- The pid file is there and cannot be read. -/
def Event.isFault : Event → Bool
  | .spawner (.readPid (some _)) => true
  | _ => false

namespace State

variable {setup : Setup} {s s' : State}

/-! ## A child that is not returned -/

/-- Without a fork, the child stays as it is or comes to its end. -/
structure ChildMoved (s s' : State) : Prop where
  spawner : s'.spawner = s.spawner
  running : s'.life = .running → s.life = .running
  serves : s.listener.serves = false → s'.listener.serves = false

theorem child_moved (inv : s.Inv setup) {event : Event} (not_own : ∀ own, event ≠ .spawner own)
    (stepped : s.next setup event = some s') : ChildMoved s s' := by
  cases event with
  | listener event =>
      simp only [next, Option.ite_none_right_eq_some] at stepped
      have moved := listener_moved stepped.2
      exact ⟨moved.spawner, by rw [moved.life]; exact id, moved.serves⟩
  | main event =>
      simp only [next, Option.ite_none_right_eq_some] at stepped
      rcases main_moved inv stepped.1 stepped.2 with moved | rfl
      · exact ⟨moved.spawner, by rw [moved.life]; exact id, by rw [moved.listener]; exact id⟩
      · exact ⟨rfl, by simp, id⟩
  | die =>
      simp only [next, Option.ite_none_right_eq_some, Option.some.injEq] at stepped
      rcases stepped with ⟨-, rfl⟩
      exact ⟨rfl, by simp, id⟩
  | spawner own => exact absurd rfl (not_own own)

theorem ChildMoved.not_childServes (moved : ChildMoved s s')
    (stopped : s.childServes = false) : s'.childServes = false := by
  rw [childServes, Bool.and_eq_false_iff, decide_eq_false_iff_not] at stopped ⊢
  rcases stopped with ended | settled
  · exact Or.inl fun running => ended (moved.running running)
  · exact Or.inr (moved.serves settled)

theorem Listener.not_serves_of_isOver {listener : Listener} (settled : listener.isOver = true) :
    listener.serves = false := by
  cases listener <;> simp_all [Listener.isOver, Listener.serves]

/-- An error of the spawner before the timeout. -/
def Refused (s : State) : Prop :=
    ∃ e, s.spawner = .returned (.error e)

theorem refused_next (inv : s.Inv setup) (stopped : s.Refused → s.childServes = false)
    {event : Event} (no_fault : event.isFault = false)
    (stepped : s.next setup event = some s') : s'.Refused → s'.childServes = false := by
  rintro ⟨e, refused⟩
  cases event with
  | spawner own =>
      cases spawnerStep_of_next stepped with
      | mkdirFail preparing | forkFail preparing => simp [childServes, inv.unborn preparing]
      | @readPid fault both =>
          cases fault with
          | some message => cases no_fault
          | none =>
              rcases inv.seen (by simp [both, Spawner.hasSeen]) with ⟨gone | there, -, -⟩
              · have settled := inv.seen_both both gone
                simp [childServes, Listener.not_serves_of_isOver settled]
              · simp [there, readPid_pidText] at refused
      | forceKill => simp [childServes]
      | _ => cases refused
  | _ =>
      have moved := child_moved inv (by simp) stepped
      exact moved.not_childServes (stopped ⟨e, by rw [← moved.spawner, refused]⟩)

/-! ## What is left of a child that was terminated -/

/-- The files that were removed so far are gone. -/
def Cleaned (s : State) : Prop :=
    match s.spawner with
    | .unlinkPid => s.files.socket = none
    | .unlinkReady => s.files.socket = none ∧ s.files.pid = none
    | .timedOut => s.files = ⟨none, none, none⟩
    | _ => True

theorem cleaned_of_not_reaped (early : s.spawner.hasReaped = false) : s.Cleaned := by
  unfold Cleaned
  split <;> simp_all [Spawner.hasReaped]

theorem hasReaped_next {own : SpawnerEvent} (not_unlink : ∀ failed, own ≠ .unlink failed)
    (stepped : s.spawnerNext setup own = some s') : s'.Cleaned := by
  cases spawnerStep_of_next stepped with
  | unlinkSocket | unlinkPid | unlinkReady => exact absurd rfl (not_unlink _)
  | forceKill terminating => simp [Cleaned, terminating]
  | _ => trivial

theorem cleaned_next (inv : s.Inv setup) (cleaned : s.Cleaned) {event : Event}
    (no_failure : event ≠ .spawner (.unlink true)) (stepped : s.next setup event = some s') :
    s'.Cleaned := by
  by_cases own_event : ∃ own, event = .spawner own
  · rcases own_event with ⟨own, rfl⟩
    by_cases unlinks : ∃ failed, own = .unlink failed
    · rcases unlinks with ⟨failed, rfl⟩
      cases failed with
      | true => exact absurd rfl no_failure
      | false =>
          have step : SpawnerStep setup s (.unlink false) s' := spawnerStep_of_next stepped
          cases step with
          | unlinkSocket => rfl
          | unlinkPid phase =>
              simp only [Cleaned, phase] at cleaned
              exact ⟨cleaned, rfl⟩
          | unlinkReady phase =>
              simp only [Cleaned, phase] at cleaned
              simp [Cleaned, removed, cleaned]
    · exact hasReaped_next (fun failed same => unlinks ⟨failed, same⟩) stepped
  · -- the child moves, so it was not reaped
    have running : s.life = .running := by
      cases event with
      | spawner own => exact absurd ⟨own, rfl⟩ own_event
      | _ => exact ((Option.ite_none_right_eq_some.1 stepped)).1
    have moved := child_moved inv (fun own same => own_event ⟨own, same⟩) stepped
    apply cleaned_of_not_reaped
    rw [moved.spawner]
    cases reaped : s.spawner.hasReaped with
    | false => rfl
    | true => simp [inv.reaped reaped] at running

/-! ## Whatever the child does -/

/-- The spawner alone comes to an end from here. -/
def CanReturn (setup : Setup) (s : State) (bound : Nat) : Prop :=
    ∃ (own : List SpawnerEvent) (s' : State), own.length ≤ bound ∧
      Execution.run (next setup) s (own.map Event.spawner) = some s' ∧
      s'.spawner.result.isSome = true

theorem CanReturn.after {bound : Nat} {own : SpawnerEvent}
    (stepped : s.spawnerNext setup own = some s') (returns : s'.CanReturn setup bound) :
    s.CanReturn setup (bound + 1) := by
  rcases returns with ⟨more, last, short, ran, settled⟩
  refine ⟨own :: more, last, by simpa using short, ?_, settled⟩
  exact Execution.run_cons.2 ⟨s', stepped, ran⟩

theorem CanReturn.mono {bound bound' : Nat} (le : bound ≤ bound')
    (returns : s.CanReturn setup bound) : s.CanReturn setup bound' := by
  rcases returns with ⟨more, last, short, ran, settled⟩
  exact ⟨more, last, le_trans short le, ran, settled⟩

theorem canReturn_of_result (settled : s.spawner.result.isSome = true) : s.CanReturn setup 0 :=
  ⟨[], s, le_refl _, rfl, settled⟩

theorem canReturn_unlinkReady (phase : s.spawner = .unlinkReady) : s.CanReturn setup 1 := by
  have stepped : s.spawnerNext setup (.unlink false) =
      some { s with spawner := .timedOut, files := { s.files with ready := none } } := by
    simp [spawnerNext, phase, removed]
  exact CanReturn.after stepped (canReturn_of_result rfl)

theorem canReturn_unlinkPid (phase : s.spawner = .unlinkPid) : s.CanReturn setup 2 := by
  have stepped : s.spawnerNext setup (.unlink false) =
      some { s with spawner := .unlinkReady, files := { s.files with pid := none } } := by
    simp [spawnerNext, phase, removed]
  exact CanReturn.after stepped (canReturn_unlinkReady rfl)

theorem canReturn_unlinkSocket (phase : s.spawner = .unlinkSocket) : s.CanReturn setup 3 := by
  have stepped : s.spawnerNext setup (.unlink false) =
      some { s with spawner := .unlinkPid, files := { s.files with socket := none } } := by
    simp [spawnerNext, phase, removed]
  exact CanReturn.after stepped (canReturn_unlinkPid rfl)

/-- A child that does not heed the signal is killed. -/
theorem canReturn_terminating (phase : s.spawner = .terminating) : s.CanReturn setup 5 := by
  have killed : s.spawnerNext setup .forceKill = some { s with life := .dead } := by
    simp only [spawnerNext, phase]
  have reaped : spawnerNext setup { s with life := .dead } .reap =
      some { s with life := .dead, spawner := .unlinkSocket } := by
    simp only [spawnerNext, phase]
  exact CanReturn.after killed (CanReturn.after reaped (canReturn_unlinkSocket rfl))

theorem canReturn_polling (phase : s.spawner = .polling) : s.CanReturn setup 6 := by
  have stepped : s.spawnerNext setup .timeOut = some { s with spawner := .terminating } := by
    simp only [spawnerNext, phase]
  exact CanReturn.after stepped (canReturn_terminating rfl)

theorem canReturn_sawBoth (phase : s.spawner = .sawBoth) : s.CanReturn setup 1 := by
  have stepped : s.spawnerNext setup (.readPid none) =
      some { s with spawner := .returned (readPid setup none s.files.pid) } := by
    simp only [spawnerNext, phase]
  exact CanReturn.after stepped (canReturn_of_result rfl)

theorem canReturn_sawReady (phase : s.spawner = .sawReady) : s.CanReturn setup 7 := by
  cases pid : s.files.pid with
  | none =>
      have stepped : s.spawnerNext setup .pollPid = some { s with spawner := .polling } := by
        simp [spawnerNext, phase, pid]
      exact CanReturn.after stepped (canReturn_polling rfl)
  | some text =>
      have stepped : s.spawnerNext setup .pollPid = some { s with spawner := .sawBoth } := by
        simp [spawnerNext, phase, pid]
      exact (CanReturn.after stepped (canReturn_sawBoth rfl)).mono (by omega)

theorem canReturn (s : State) : s.CanReturn setup 7 := by
  cases phase : s.spawner with
  | preparing =>
      have stepped : s.spawnerNext setup (.mkdirFail "") = some { s with
          spawner := .returned (.error (.internal ("mkdir runtime: " ++ ""))) } := by
        simp only [spawnerNext, phase]
      exact (CanReturn.after stepped (canReturn_of_result rfl)).mono (by omega)
  | polling => exact (canReturn_polling phase).mono (by omega)
  | sawReady => exact canReturn_sawReady phase
  | sawBoth => exact (canReturn_sawBoth phase).mono (by omega)
  | terminating => exact (canReturn_terminating phase).mono (by omega)
  | unlinkSocket => exact (canReturn_unlinkSocket phase).mono (by omega)
  | unlinkPid => exact (canReturn_unlinkPid phase).mono (by omega)
  | unlinkReady => exact (canReturn_unlinkReady phase).mono (by omega)
  | returned result => exact (canReturn_of_result (by simp [phase, Spawner.result])).mono (by omega)
  | timedOut => exact (canReturn_of_result (by simp [phase, Spawner.result])).mono (by omega)

/-! ## Runs -/

theorem run_refused {events : List Event}
    (ran : Execution.run (next setup) init events = some s)
    (no_fault : ∀ event ∈ events, event.isFault = false) (refused : s.Refused) :
    s.childServes = false := by
  have kept := Execution.invariant_along
    (fun s => s.Inv setup ∧ (s.Refused → s.childServes = false))
    (fun _ _ _ held no_fault stepped => ⟨next_inv held.1 stepped,
      refused_next held.1 held.2 no_fault stepped⟩)
    ⟨inv_init, fun _ => rfl⟩ (Execution.along_of_labels no_fault _) ran
  exact kept.2 refused

theorem run_cleaned {events : List Event}
    (ran : Execution.run (next setup) init events = some s)
    (no_failure : ∀ event ∈ events, event ≠ .spawner (.unlink true)) : s.Cleaned := by
  have kept := Execution.invariant_along (fun s => s.Inv setup ∧ s.Cleaned)
    (fun _ _ _ held no_failure stepped => ⟨next_inv held.1 stepped,
      cleaned_next held.1 held.2 no_failure stepped⟩)
    ⟨inv_init, trivial⟩ (Execution.along_of_labels no_failure _) ran
  exact kept.2

/-- What the spawner of a run can rely on, whatever the child does. -/
structure Reliable (setup : Setup) (events : List Event) (s : State) : Prop where
  ready : ∀ sd, s.spawner.result = some (.ok sd) →
    sd = ⟨setup.pid, setup.socketPath⟩ ∧ s.everBound = true
  refused : (∀ event ∈ events, event.isFault = false) →
    ∀ e, s.spawner.result = some (.error e) → s.childServes = false
  timedOut : s.spawner = .timedOut → s.life = .dead ∧
    ((∀ event ∈ events, event ≠ .spawner (.unlink true)) → s.files = ⟨none, none, none⟩)
  returns : s.CanReturn setup 7

theorem ready_of_result {events : List Event}
    (ran : Execution.run (next setup) init events = some s) {sd : Registry.SpawnedDaemon}
    (result : s.spawner.result = some (.ok sd)) :
    sd = ⟨setup.pid, setup.socketPath⟩ ∧ s.everBound = true := by
  cases phase : s.spawner <;> simp only [phase, Spawner.result, reduceCtorEq,
    Option.some.injEq] at result
  exact (run_inv ran).returned sd (by rw [phase, result])

/-- Whoever sees an error sees a child that will not serve. -/
theorem stopped_of_result {events : List Event}
    (ran : Execution.run (next setup) init events = some s)
    (no_fault : ∀ event ∈ events, event.isFault = false) {e : Ipc.EngineError}
    (result : s.spawner.result = some (.error e)) : s.childServes = false := by
  cases phase : s.spawner <;> simp only [phase, Spawner.result, reduceCtorEq,
    Option.some.injEq] at result
  · exact run_refused ran no_fault ⟨e, by rw [phase, result]⟩
  · have dead := (run_inv ran).reaped (by simp [phase, Spawner.hasReaped])
    simp [childServes, dead]

/-- In every interleaving with the child's tasks, whatever dies or cannot be written, the spawner's
answer can be relied on. -/
theorem runs_spawn_reliable (setup : Setup) {events : List Event} {s : State}
    (ran : Execution.run (next setup) init events = some s) : Reliable setup events s where
  ready _ result := ready_of_result ran result
  refused no_fault _ result := stopped_of_result ran no_fault result
  timedOut timed_out := by
    refine ⟨(run_inv ran).reaped (by simp [timed_out, Spawner.hasReaped]), fun no_failure => ?_⟩
    have cleaned := run_cleaned ran no_failure
    simpa [Cleaned, timed_out] using cleaned
  returns := canReturn s

/-- The child announces itself before its socket has its permissions. -/
def bootRun : List Event :=
    [.spawner .fork, .listener .check, .spawner .pollReady, .listener .bind, .main .select,
      .main .createPid, .main (.writePid 1), .main .createReady, .spawner .pollReady,
      .main (.writeReady 5), .spawner .pollPid, .listener .chmod, .spawner (.readPid none)]

/-- The child of the examples. -/
def child : Setup := ⟨7, "/tmp/ohara-7.sock", by decide⟩

theorem bootRun_reliable :
    ∃ s, Execution.run (next child) init bootRun = some s ∧
      s.spawner.result = some (.ok ⟨7, "/tmp/ohara-7.sock"⟩) ∧ Reliable child bootRun s := by
  refine ⟨_, rfl, by decide, ?_⟩
  have ran : Execution.run (next child) init bootRun = some _ := rfl
  exact runs_spawn_reliable child ran

/-! ## The registry -/

/-- Under the lock, a cold start that leaves a child that may serve leaves its record too. -/
theorem serving_child_registered (json : Registry.Json) (setup : Setup) {events : List Event}
    {s : State} (ran : Execution.run (next setup) init events = some s)
    (no_fault : ∀ event ∈ events, event.isFault = false)
    {result : Except Ipc.EngineError Registry.SpawnedDaemon}
    (returned : s.spawner.result = some result) (serves : s.childServes = true)
    {spawning : Registry.Spawning} (spawned : spawning.result = result.mapError Ipc.EngineError.text)
    {moment : Registry.Moment} {contents : Registry.Bytes} {rf : Registry.RegistryFile}
    (parsed : json.fromStr contents = .ok rf) (oharaVersion oharaGitSha : String)
    (absent : ∀ d ∈ (Registry.pruneDead moment rf).daemons, d.oharaVersion ≠ oharaVersion) :
    ∃ daemons, Registry.Operation.run json moment contents
          (.findOrSpawn oharaVersion oharaGitSha spawning) =
        (.handle (.ok (some ⟨setup.socketPath, setup.pid, true⟩)), json.toVec ⟨daemons⟩) ∧
      Registry.spawnedRecord ⟨setup.pid, setup.socketPath⟩ oharaVersion oharaGitSha spawning ∈
        daemons := by
  cases result with
  | error e =>
      rw [stopped_of_result ran no_fault returned] at serves
      cases serves
  | ok sd =>
      rcases ready_of_result ran returned with ⟨rfl, -⟩
      have not_found : (Registry.pruneDead moment rf).daemons.find?
          (fun d => decide (d.oharaVersion = oharaVersion)) = none := by
        rw [List.find?_eq_none]
        intro d d_mem
        simpa using absent d d_mem
      refine ⟨(Registry.pruneDead moment rf).daemons ++ [Registry.spawnedRecord
        ⟨setup.pid, setup.socketPath⟩ oharaVersion oharaGitSha spawning], ?_, by simp⟩
      · simp only [Registry.Operation.run, Registry.lockedUpdate, Registry.mutate_ok parsed,
          Registry.pruneThen, Registry.pickDaemon, not_found, spawned, Except.mapError,
          Registry.Pick.result, Registry.spawnedRecord]

theorem bootRun_registered :
    ∃ daemons, Registry.Operation.run Registry.compactJson ⟨0, fun _ => true⟩ Registry.seed
          (.findOrSpawn "0.7.4" "abc" ⟨.ok ⟨7, "/tmp/ohara-7.sock"⟩, 1, 2⟩) =
        (.handle (.ok (some ⟨"/tmp/ohara-7.sock", 7, true⟩)),
          Registry.compactJson.toVec ⟨daemons⟩) ∧
      Registry.spawnedRecord ⟨7, "/tmp/ohara-7.sock"⟩ "0.7.4" "abc"
        ⟨.ok ⟨7, "/tmp/ohara-7.sock"⟩, 1, 2⟩ ∈ daemons := by
  have ran : Execution.run (next child) init bootRun = some _ := rfl
  exact serving_child_registered Registry.compactJson child ran (by decide) rfl rfl rfl
    (Registry.fromStr_seed Registry.compactJson) "0.7.4" "abc" nofun

end State

end Spawn

end Ohara
