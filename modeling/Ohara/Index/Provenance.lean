import Ohara.Index.CommandSound

/-!
# The versions behind the stored hunks

Which versions the stored hunks were put under and how a step changes that, next to the versions
the index has on record.
-/

namespace Ohara

/-- The commits with stored hunks had them put under versions that meet `p`. -/
def Store.Built (store : Store) (p : RuntimeIndexMetadata → Prop) : Prop :=
    ∀ sha, store.db.hunkViews sha ≠ [] → ∃ build, store.builtBy sha = some build ∧ p build

/-- No hunk is stored. -/
def Store.NoHunks (store : Store) : Prop :=
    ∀ sha, store.db.hunkViews sha = []

/-- The recorded versions. -/
def Repository.recordedIn (repository : Repository) (store : Store) : StoredIndexMetadata :=
    IndexMetadata.get repository.repoId store.db

namespace Store

variable {store store' : Store} {p q : RuntimeIndexMetadata → Prop}

theorem built_fresh : Store.fresh.Built p := by
  intro sha stored
  exact absurd rfl stored

theorem noHunks_fresh : Store.fresh.NoHunks :=
  fun _ => rfl

theorem NoHunks.built (noHunks : store.NoHunks) : store.Built p := by
  intro sha stored
  exact absurd (noHunks sha) stored

theorem Built.imp (built : store.Built p) (weaken : ∀ build, p build → q build) :
    store.Built q := by
  intro sha stored
  rcases built sha stored with ⟨build, is_build, holds⟩
  exact ⟨build, is_build, weaken build holds⟩

theorem Built.congr (built : store.Built p) (rows : store.SameRows store') : store'.Built p := by
  intro sha stored
  rw [rows.hunkViews] at stored
  rw [rows.builtBy]
  exact built sha stored

theorem NoHunks.congr (noHunks : store.NoHunks) (rows : store.SameRows store') :
    store'.NoHunks := by
  intro sha
  rw [rows.hunkViews]
  exact noHunks sha

end Store

/-- A write keeps what holds of the versions behind the hunks and of those of the run. -/
theorem CommitEnv.Wrote.built {env : CommitEnv} {commit : CommitMeta} {store store' : Store}
    {task : CommitTask} {p : RuntimeIndexMetadata → Prop}
    (wrote : env.Wrote commit store task store') (sound : env.TaskSound store commit task)
    (built : store.Built p)
    (mine : ∀ work, task = .puttingHunks work → PersistStage.hunkRows work.output ≠ [] →
      env.putHunks commit work store = .ok store' → p env.build) : store'.Built p := by
  cases wrote with
  | nothing => exact built
  | pass ignored => exact built
  | cache rows => exact built
  | commit put =>
      intro sha stored
      rw [put.hunkViews] at stored
      exact built sha stored
  | @hunks work db through put =>
      intro sha stored
      rw [db_afterHunks] at stored
      simp only [afterHunks, builtByAfter, List.isEmpty_iff]
      by_cases empty : PersistStage.hunkRows work.output = []
      · rw [if_pos empty]
        rw [put.hunkViews, empty] at stored
        exact built sha (by simpa using stored)
      · rw [if_neg empty]
        by_cases same : sha = commit.commitSha
        · rw [same, Function.update_self]
          exact ⟨env.build, rfl, mine work rfl empty through⟩
        · have absent : sha ∉ (PersistStage.hunkRows work.output).map HunkRecord.sha := by
            intro mem
            rcases List.mem_map.1 mem with ⟨record, record_mem, rfl⟩
            exact same (sound.1.sha record_mem)
          rw [Function.update_of_ne same]
          rw [put.hunkViews, if_neg absent] at stored
          exact built sha stored

/-- What a run's metadata write leaves for a component that it has one version of. -/
theorem IndexMetadata.get_putMany_of_unique {id : RepoId} {components : List (String × String)}
    {key version : String} (mem : (key, version) ∈ components)
    (unique : ∀ version', (key, version') ∈ components → version' = version) (db : Database) :
    (IndexMetadata.get id (IndexMetadata.putMany id components db)).get key = some version := by
  rcases IndexMetadata.get_putMany id components key db with ⟨version', put, found⟩ | ⟨absent, -⟩
  · rw [found, unique version' put]
  · exact absurd (List.mem_map_of_mem mem) absent

namespace IndexSystem

variable {repository : Repository} {s s' : IndexSystem} {label : IndexLabel}

theorem recordedIn_congr {store store' : Store}
    (same : store'.db.indexMetadata = store.db.indexMetadata) :
    repository.recordedIn store' = repository.recordedIn store := by
  simp [Repository.recordedIn, IndexMetadata.get, same]

/-- The step puts hunks of a commit for an invocation. -/
def PutsHunks (repository : Repository) (s : IndexSystem) (label : IndexLabel)
    (inv : Invocation) : Prop :=
    ∃ i commit work store, s.AtHunks inv i commit work ∧
      label = .pipeline inv.nWorkers (.advance i) ∧ PersistStage.hunkRows work.output ≠ [] ∧
      (inv.commitEnv repository).putHunks commit work s.store = .ok store

/-- Afterwards the commit has hunks, put under the versions of the invocation. -/
theorem PutsHunks.next {inv : Invocation} (sound : s.Sound repository)
    (puts : s.PutsHunks repository label inv) :
    ∃ s' sha, s.next repository label = some s' ∧ s'.store.db.hunkViews sha ≠ [] ∧
      s'.store.builtBy sha = some inv.runtimeMetadata ∧
      s'.recorded repository = s.recorded repository := by
  rcases puts with ⟨i, commit, work, store, ⟨walk, pipeline, running, phase⟩, rfl, some_rows,
    through⟩
  have indexing : s.Indexing repository inv walk pipeline := sound.phase _ _ running
  have fromSource := (indexing.kept.tasks i commit _ phase).1
  rcases CommitEnv.putHunks_ok sound.laid through with ⟨db, put, rfl⟩
  have stepped : ∃ s', s.next repository (.pipeline inv.nWorkers (.advance i)) = some s' ∧
      s'.store = (inv.commitEnv repository).afterHunks commit work s.store db := by
    simp only [IndexSystem.next, running, actorStep, Pipeline.next, Pipeline.advance, phase,
      CommitEnv.process, CommitEnv.advance, through, CommitEnv.settle]
    exact ⟨_, rfl, rfl⟩
  rcases stepped with ⟨s', stepped, is_store⟩
  refine ⟨s', commit.commitSha, stepped, ?_, ?_, ?_⟩
  · have mine : ∀ record ∈ PersistStage.hunkRows work.output,
        record.sha = commit.commitSha := fun record mem => fromSource.sha mem
    rcases List.exists_mem_of_ne_nil _ some_rows with ⟨record, mem⟩
    have listed : commit.commitSha ∈ (PersistStage.hunkRows work.output).map HunkRecord.sha :=
      mine record mem ▸ List.mem_map_of_mem mem
    have views := put.hunkViews commit.commitSha
    rw [if_pos listed] at views
    rw [is_store]
    intro none_stored
    have empty := List.map_eq_nil_iff.1 (views.symm.trans none_stored)
    exact List.filter_eq_nil_iff.1 empty record mem (by simpa using mine record mem)
  · simp [is_store, CommitEnv.afterHunks, CommitEnv.builtByAfter, some_rows, Invocation.commitEnv]
  · exact recordedIn_congr (is_store ▸ put.aside.indexMetadata)

/-- Every step keeps what holds of the versions behind the hunks, when it holds of the run that puts
some. -/
theorem built_step {p : RuntimeIndexMetadata → Prop} (sound : s.Sound repository)
    (built : s.store.Built p)
    (mine : ∀ inv, s.PutsHunks repository label inv → p inv.runtimeMetadata)
    (step : Step repository s label s') : s'.store.Built p := by
  cases rowsStep sound step with
  | fresh deleted =>
      rw [deleted]
      exact Store.built_fresh
  | @work inv walk pipeline pipeline' actor running worked =>
      have indexing : s.Indexing repository inv walk pipeline := sound.phase _ _ running
      rcases CommitEnv.wrote_of_step indexing.kept worked with
        same | ⟨i, commit, task, rfl, phase, sound_task, wrote⟩
      · simpa [goto, same] using built
      · apply wrote.built sound_task built
        rintro work rfl some_rows through
        exact mine inv ⟨i, commit, work, _, ⟨walk, pipeline, running, phase⟩, rfl, some_rows,
          through⟩
  | same elsewhere rows => exact built.congr rows

theorem recorded_stop_withDb (db : Database) :
    (s.withDb db).stop.recorded repository = IndexMetadata.get repository.repoId db :=
  rfl

/-- The recorded versions change only with a deletion and at the end of a run. -/
theorem recorded_step (sound : s.Sound repository) (step : Step repository s label s') :
    s'.recorded repository = s.recorded repository ∨ s'.store = Store.fresh ∨
      ∃ inv, s.run = some ⟨inv, .puttingMetadata⟩ ∧ label = .advance ∧
        s' = (s.withDb (IndexMetadata.putMany repository.repoId
          inv.runtimeMetadata.toStorageComponents s.store.db)).stop := by
  cases step with
  | deleteIndex running => exact Or.inr (Or.inl rfl)
  | clearSymbols running cleared =>
      rcases Symbol.clearAll_spec sound.laid with ⟨db, done, put⟩
      cases cleared.symm.trans done
      exact Or.inl (recordedIn_congr put.aside.indexMetadata)
  | work running worked =>
      have frame := (sound.phase _ _ running : s.Indexing repository _ _ _).frame worked
      exact Or.inl (recordedIn_congr frame.indexMetadata)
  | @putSymbols inv walk failed symbols db running extracted done =>
      rcases Symbol.putMany_spec symbols sound.laid with ⟨db', put_db, put⟩
      cases done.symm.trans put_db
      exact Or.inl (recordedIn_congr put.aside.indexMetadata)
  | putMetadata running => exact Or.inr (Or.inr ⟨_, running, rfl, rfl⟩)
  | _ => exact Or.inl rfl

end IndexSystem

end Ohara
