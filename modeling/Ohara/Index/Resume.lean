import Ohara.Index.CommandSound

/-!
# A commit row implies its hunks

The row of a commit and its hunks are put by two transactions, and a later run skips every commit
that has its row. Each row is backed by the commit's hunks or by a worker that is about to put them,
as long as no such worker is cut off and none has its put refused.
-/

namespace Ohara

/-- What tells a hunk from the others of its commit. -/
def HunkView.origin (view : HunkView) : Option String × String × String :=
    (view.path, view.changeKind, view.diffText)

/-- What git gives of a hunk. -/
def Hunk.origin (hunk : Hunk) : Option String × String × String :=
    (some hunk.filePath, hunk.changeKind.toStr, hunk.diffText)

/-- The stored hunks of a commit are the repository's that are not on paths ignored by the run that
put them. -/
def Repository.HunksStored (repository : Repository) (store : Store) (sha : String) : Prop :=
    ∃ isIgnored hunks, store.putIgnoring sha = some isIgnored ∧
      repository.source.hunksForCommit sha = .ok hunks ∧
        (store.db.hunkViews sha).map HunkView.origin = (keptHunks isIgnored hunks).map Hunk.origin

/-- A commit has no stored hunks or all of them. -/
def Repository.RowsFromSource (repository : Repository) (store : Store) : Prop :=
    ∀ sha, store.db.hunkViews sha = [] ∨ repository.HunksStored store sha

namespace CommitEnv

variable {repository : Repository} {inv : Invocation} {commit : CommitMeta} {store store' : Store}

/-- A put of a commit's hunks leaves the repository's hunks. -/
theorem hunksStored_of_put {work : CommitWork} {db : Database}
    (fromSource : (inv.commitEnv repository).FromSource commit work)
    (rows : repository.RowsFromSource store)
    (put : PutHunks (PersistStage.hunkRows work.output) store.db db) :
    repository.HunksStored ((inv.commitEnv repository).afterHunks commit work store db)
      commit.commitSha := by
  rcases fromSource.hunks with ⟨hunks, listed, put_hunks, empty⟩
  refine ⟨inv.isIgnored, hunks, Function.update_self .., listed, ?_⟩
  rw [db_afterHunks]
  have views := put.hunkViews commit.commitSha
  have all_mine : (PersistStage.hunkRows work.output).filter
      (fun record => decide (record.sha = commit.commitSha)) =
        PersistStage.hunkRows work.output := by
    apply List.filter_eq_self.2
    intro record mem
    simpa using fromSource.sha mem
  have origins : ((PersistStage.hunkRows work.output).map HunkRecord.view).map HunkView.origin =
      (keptHunks inv.isIgnored hunks).map Hunk.origin := by
    have kept : (PersistStage.hunkRows work.output).map HunkRecord.hunk =
        keptHunks inv.isIgnored hunks := put_hunks
    rw [← kept, List.map_map, List.map_map]
    rfl
  rw [all_mine] at views
  split at views
  · rw [views, origins]
  · next absent =>
      -- nothing was put, so the commit has no hunks and none were stored before
      have no_rows : PersistStage.hunkRows work.output = [] := by
        apply List.eq_nil_iff_forall_not_mem.2
        intro record mem
        exact absent (fromSource.sha mem ▸ List.mem_map_of_mem mem)
      have none_kept : keptHunks inv.isIgnored hunks = [] := by
        refine put_hunks.symm.trans ?_
        rw [no_rows]
        rfl
      rw [views, none_kept]
      rcases rows commit.commitSha with none_stored | ⟨isIgnored, hunks', -, listed', stored⟩
      · rw [none_stored]
        rfl
      · cases listed.symm.trans listed'
        rw [stored, empty none_kept]
        rfl

/-- What a step of the processing does to the rows of the index. -/
structure RowsAdvance (repository : Repository) (env : CommitEnv) (commit : CommitMeta)
    (store store' : Store) (task : CommitTask) (progress : Progress CommitTask) : Prop where
  rows : repository.RowsFromSource store'
  stored : ∀ sha, repository.HunksStored store sha → repository.HunksStored store' sha
  shas : ∀ sha ∈ store'.db.shas, sha ∈ store.db.shas ∨
    sha = commit.commitSha ∧ ∃ work, progress = .running (.puttingHunks work)
  put : ∀ work, task = .puttingHunks work → repository.HunksStored store' commit.commitSha ∨
    store' = store ∧ ∃ e, env.putHunks commit work store = .error e

theorem hunksStored_congr (same : store'.db.hunkViews = store.db.hunkViews)
    (ignoring : store'.putIgnoring = store.putIgnoring) {sha : String} :
    repository.HunksStored store' sha ↔ repository.HunksStored store sha := by
  simp [Repository.HunksStored, same, ignoring]

theorem rowsFromSource_congr (same : store'.db.hunkViews = store.db.hunkViews)
    (ignoring : store'.putIgnoring = store.putIgnoring) (rows : repository.RowsFromSource store) :
    repository.RowsFromSource store' := by
  intro sha
  rw [same, hunksStored_congr same ignoring]
  exact rows sha

/-- A step that puts neither a commit nor hunks. -/
theorem RowsAdvance.aside (rows : repository.RowsFromSource store) {env : CommitEnv}
    {task : CommitTask} {progress : Progress CommitTask}
    (elsewhere : ∀ work, task ≠ .puttingHunks work)
    (same : store'.db.hunkViews = store.db.hunkViews)
    (ignoring : store'.putIgnoring = store.putIgnoring) (shas : store'.db.shas = store.db.shas) :
    RowsAdvance repository env commit store store' task progress where
  rows := rowsFromSource_congr same ignoring rows
  stored := fun _ => (hunksStored_congr same ignoring).2
  shas := fun _ mem => Or.inl (shas ▸ mem)
  put := fun work is_put => absurd is_put (elsewhere work)

theorem hunkViews_other {work : CommitWork} {db : Database}
    (fromSource : (inv.commitEnv repository).FromSource commit work)
    (put : PutHunks (PersistStage.hunkRows work.output) store.db db) {sha : String}
    (other : sha ≠ commit.commitSha) : db.hunkViews sha = store.db.hunkViews sha := by
  rw [put.hunkViews, if_neg]
  intro mem
  rcases List.mem_map.1 mem with ⟨record, record_mem, rfl⟩
  exact other (fromSource.sha record_mem)

theorem rows_advance {task : CommitTask} {progress : Progress CommitTask}
    (laid : store.db.Laid) (rows : repository.RowsFromSource store)
    (sound : (inv.commitEnv repository).TaskSound store commit task)
    (advanced : (inv.commitEnv repository).advance commit store task = (store', progress)) :
    RowsAdvance repository (inv.commitEnv repository) commit store store' task progress := by
  cases task with
  | reading =>
      simp only [advance] at advanced
      split at advanced
      all_goals
        cases advanced
        exact .aside rows (by simp) rfl rfl rfl
  | caching work =>
      rcases settle_cases advanced with ⟨e, -, rfl, rfl⟩ | ⟨put, rfl⟩
      · exact .aside rows (by simp) rfl rfl rfl
      · rcases putCache_ok put with ⟨cache, rfl⟩
        exact .aside rows (by simp) rfl rfl rfl
  | puttingCommit work =>
      rcases settle_cases advanced with ⟨e, -, rfl, rfl⟩ | ⟨put, rfl⟩
      · exact .aside rows (by simp) rfl rfl rfl
      · rcases putCommit_ok laid put with ⟨db, put_db, rfl⟩
        have same : ∀ sha, repository.HunksStored { store with db := db } sha ↔
            repository.HunksStored store sha := by
          simp [Repository.HunksStored, put_db.hunkViews]
        refine ⟨rowsFromSource_congr put_db.hunkViews rfl rows, fun sha => (same sha).2, ?_,
          by simp⟩
        intro sha stored
        rcases (put_db.shas sha).1 stored with old | new
        · exact Or.inl old
        · exact Or.inr ⟨new, work, rfl⟩
  | puttingHunks work =>
      rcases settle_cases advanced with ⟨e, failed, rfl, -⟩ | ⟨put, rfl⟩
      · refine ⟨rows, fun _ => id, fun _ => Or.inl, ?_⟩
        rintro work' same
        cases same
        exact Or.inr ⟨rfl, e, failed⟩
      · rcases putHunks_ok laid put with ⟨db, put_db, rfl⟩
        have mine := hunksStored_of_put sound.1 rows put_db
        have others : ∀ sha ≠ commit.commitSha,
            ((inv.commitEnv repository).afterHunks commit work store db).db.hunkViews sha =
              store.db.hunkViews sha := fun _ => hunkViews_other sound.1 put_db
        have kept : ∀ sha, repository.HunksStored store sha → repository.HunksStored
            ((inv.commitEnv repository).afterHunks commit work store db) sha := by
          rintro sha ⟨isIgnored, hunks, ignoring, listed, stored⟩
          by_cases same : sha = commit.commitSha
          · exact same ▸ mine
          · exact ⟨isIgnored, hunks, (Function.update_of_ne same ..).trans ignoring, listed,
              by rw [others sha same, stored]⟩
        refine ⟨?_, kept, ?_, fun _ _ => Or.inl mine⟩
        · intro sha
          by_cases same : sha = commit.commitSha
          · exact Or.inr (same ▸ mine)
          · rw [others sha same]
            exact (rows sha).imp_right (kept sha)
        · intro sha stored
          have same_shas : ((inv.commitEnv repository).afterHunks commit work store db).db.shas =
            store.db.shas := put_db.shas
          exact Or.inl (same_shas ▸ stored)

end CommitEnv

namespace IndexSystem

variable (repository : Repository)

/-- Every commit with a row has its hunks. -/
def RowsStored (s : IndexSystem) : Prop :=
    ∀ sha ∈ s.store.db.shas, repository.HunksStored s.store sha

/-- Every commit with a row has its hunks or a worker that is about to put them. -/
def RowsBacked (s : IndexSystem) : Prop :=
    ∀ sha ∈ s.store.db.shas, repository.HunksStored s.store sha ∨
      ∃ inv i commit work, s.AtHunks inv i commit work ∧ commit.commitSha = sha

/-- A commit that the walker skips has its hunks. -/
def SkipsStored (s : IndexSystem) (label : IndexLabel) : Prop :=
    ∀ inv walk pipeline commit rest, s.run = some ⟨inv, .indexing walk pipeline⟩ →
      label = .pipeline inv.nWorkers .walk → pipeline.walker = .checking (commit :: rest) →
      (inv.commitEnv repository).process.commitExists s.store commit = true →
      repository.HunksStored s.store commit.commitSha

/-- No commit is cut off between its two transactions: neither by an abort nor by an error of the
second, unless its hunks were stored before. -/
def HunksFollow (s : IndexSystem) (label : IndexLabel) : Prop :=
    ∀ inv i commit work, s.AtHunks inv i commit work →
      (label = .abort ∨ label = .pipeline inv.nWorkers (.advance i) ∧
        ∃ e, (inv.commitEnv repository).putHunks commit work s.store = .error e) →
      repository.HunksStored s.store commit.commitSha

variable {repository} {s s' : IndexSystem} {label : IndexLabel} {inv inv' : Invocation}

/-- While the pipeline is at work, the workers are the pipeline's. -/
theorem RowsBacked.of_running (backed : s.RowsBacked repository) {walk : List CommitMeta}
    {pipeline : Pipeline Store CommitTask inv.nWorkers}
    (running : s.run = some ⟨inv, .indexing walk pipeline⟩) {sha : String}
    (mem : sha ∈ s.store.db.shas) :
    repository.HunksStored s.store sha ∨ ∃ i commit work,
      (pipeline.workers i).phase = .processing commit (.puttingHunks work) ∧
        commit.commitSha = sha := by
  refine (backed sha mem).imp_right ?_
  rintro ⟨inv', i, commit, work, ⟨walk', pipeline', working, phase⟩, of_sha⟩
  cases running.symm.trans working
  exact ⟨i, commit, work, phase, of_sha⟩

theorem rows_work {walk : List CommitMeta}
    {pipeline pipeline' : Pipeline Store CommitTask inv.nWorkers} {actor : Actor inv.nWorkers}
    (sound : s.Sound repository) (rows : repository.RowsFromSource s.store)
    (backed : s.RowsBacked repository)
    (follow : s.HunksFollow repository (.pipeline inv.nWorkers actor))
    (running : s.run = some ⟨inv, .indexing walk pipeline⟩)
    (worked : Pipeline.Step (inv.commitEnv repository).process { pipeline with storage := s.store }
      actor pipeline') :
    repository.RowsFromSource pipeline'.storage ∧
      ({ s with store := pipeline'.storage }.goto inv (.indexing walk pipeline')).RowsBacked
        repository := by
  have indexing : s.Indexing repository inv walk pipeline := sound.phase _ _ running
  have at_hunks : ∀ {i commit work},
      (pipeline'.workers i).phase = .processing commit (.puttingHunks work) →
      ({ s with store := pipeline'.storage }.goto inv (.indexing walk pipeline')).AtHunks inv i
        commit work := fun phase => ⟨walk, pipeline', rfl, phase⟩
  rcases Pipeline.storage_step worked with
    ⟨waits, same⟩ | ⟨i, commit, task, progress, rfl, phase, advanced, after⟩
  · refine ⟨by rwa [same], ?_⟩
    intro sha mem
    simp only [goto, same] at mem ⊢
    rcases backed.of_running running mem with stored | ⟨j, commit, work, phase, of_sha⟩
    · exact Or.inl stored
    · have goes_on := Pipeline.processing_step worked phase (waits j)
      exact Or.inr ⟨inv, j, commit, work, at_hunks goes_on, of_sha⟩
  · have sound_task := indexing.kept.tasks i commit task phase
    have advance := CommitEnv.rows_advance sound.laid rows sound_task advanced
    refine ⟨advance.rows, ?_⟩
    intro sha mem
    rcases advance.shas sha mem with old | ⟨rfl, work, rfl⟩
    · rcases backed.of_running running old with stored | ⟨j, other, work, phase_j, of_sha⟩
      · exact Or.inl (advance.stored sha stored)
      · by_cases same : i = j
        · subst same
          cases phase.symm.trans phase_j
          subst of_sha
          rcases advance.put work rfl with stored | ⟨same_store, failed⟩
          · exact Or.inl stored
          · have stored := follow inv i commit work ⟨walk, pipeline, running, phase⟩
              (Or.inr ⟨rfl, failed⟩)
            exact Or.inl (advance.stored _ stored)
        · have goes_on := Pipeline.processing_step worked phase_j fun moved =>
            same (Actor.advance.inj moved)
          exact Or.inr ⟨inv, j, other, work, at_hunks goes_on, of_sha⟩
    · exact Or.inr ⟨inv, i, commit, work, at_hunks after, rfl⟩

theorem rows_step (sound : s.Sound repository) (rows : repository.RowsFromSource s.store)
    (backed : s.RowsBacked repository) (follow : s.HunksFollow repository label)
    (step : Step repository s label s') :
    repository.RowsFromSource s'.store ∧ s'.RowsBacked repository := by
  cases rowsStep sound step with
  | fresh deleted =>
      rw [deleted]
      refine ⟨fun _ => Or.inl rfl, ?_⟩
      intro sha mem
      cases mem
  | work running worked => exact rows_work sound rows backed follow running worked
  | same elsewhere same =>
      refine ⟨CommitEnv.rowsFromSource_congr same.hunkViews same.putIgnoring rows, ?_⟩
      intro sha mem
      rw [same.shas] at mem
      rw [CommitEnv.hunksStored_congr same.hunkViews same.putIgnoring]
      rcases backed sha mem with stored | ⟨inv, i, commit, work, at_hunks, rfl⟩
      · exact Or.inl stored
      · have aborted := abort_of_atHunks sound step elsewhere at_hunks
        exact Or.inl (follow inv i commit work at_hunks (Or.inl aborted))

theorem RowsBacked.stored_of_idle (backed : s.RowsBacked repository) (idle : s.run = none) :
    s.RowsStored repository := by
  intro sha mem
  rcases backed sha mem with stored | ⟨inv, i, commit, work, ⟨walk, pipeline, running, -⟩, -⟩
  · exact stored
  · cases idle.symm.trans running

/-- The walker comes to a commit before any worker does, so its row is from before the walk. -/
theorem RowsBacked.skipsStored (backed : s.RowsBacked repository) (sound : s.Sound repository) :
    s.SkipsStored repository label := by
  rintro inv walk pipeline commit rest running - walker found
  have indexing : s.Indexing repository inv walk pipeline := sound.phase _ _ running
  simp only [CommitEnv.process, Bool.and_eq_true] at found
  have mem := Commit.commitExists_iff_shas.1 found.2
  rcases backed.of_running running mem with stored | ⟨i, other, work, phase, same⟩
  · exact stored
  · have distinct := (repository.history.walks _ _ _ indexing.lists).nodup
    have pending : commit ∈ pipeline.walker.pending := by simp [walker, Walker.pending]
    have held : other ∈ (pipeline.workers i).phase.held := by simp [phase, Phase.held]
    exact absurd same (indexing.consistent.not_held distinct pending held)

/-- A worker that was cut off was not, if the rows are backed afterwards. -/
theorem hunksFollow_of_backed (sound : s.Sound repository)
    (kept : ∀ s', s.next repository label = some s' → s'.RowsBacked repository) :
    s.HunksFollow repository label := by
  rintro inv i commit work ⟨walk, pipeline, running, phase⟩ cut
  have indexing : s.Indexing repository inv walk pipeline := sound.phase _ _ running
  have has_row : commit.commitSha ∈ s.store.db.shas := (indexing.kept.tasks i commit _ phase).2
  rcases cut with rfl | ⟨rfl, e, failed⟩
  · have stepped : s.next repository .abort = some s.stop := by simp [next, running]
    exact (kept _ stepped).stored_of_idle rfl _ has_row
  · have stepped : s.next repository (.pipeline inv.nWorkers (.advance i)) =
        some (s.goto inv (.indexing walk (({ pipeline with storage := s.store }.setWorker i
          ⟨.idle, (pipeline.workers i).result.onErr⟩).record commit (.finished (.error e))))) := by
      simp only [next, running, actorStep, Pipeline.next, Pipeline.advance, phase,
        CommitEnv.process, CommitEnv.advance, failed, CommitEnv.settle]
      rfl
    rcases (kept _ stepped).of_running rfl has_row with stored | ⟨j, other, work', phase_j, same⟩
    · exact stored
    · by_cases same_worker : j = i
      · subst same_worker
        simp [Pipeline.record, Pipeline.setWorker] at phase_j
      · have phase_j : (pipeline.workers j).phase = .processing other (.puttingHunks work') := by
          simpa [Pipeline.record, Pipeline.setWorker, same_worker] using phase_j
        have distinct := (repository.history.walks _ _ _ indexing.lists).nodup
        have unique := indexing.consistent.held_unique distinct
          (by simp [phase, Phase.held] : commit ∈ (pipeline.workers i).phase.held)
          (by simp [phase_j, Phase.held] : other ∈ (pipeline.workers j).phase.held) same
        exact absurd unique same_worker

theorem sound_rows_step
    (kept : s.Sound repository ∧ repository.RowsFromSource s.store ∧ s.RowsBacked repository)
    (follow : s.HunksFollow repository label) (stepped : s.next repository label = some s') :
    s'.Sound repository ∧ repository.RowsFromSource s'.store ∧ s'.RowsBacked repository := by
  have step := step_of_next stepped
  exact ⟨sound_step kept.1 step, rows_step kept.1 kept.2.1 kept.2.2 follow step⟩

/-- Every commit row is backed throughout exactly when no commit is cut off between its two
transactions, and then every skipped commit has its hunks, as has every commit between the runs. -/
theorem rows_backed_iff (repository : Repository) (head : String) (labels : List IndexLabel) :
    (Execution.Along (next repository) (HunksFollow repository) (start head) labels ↔
      Execution.Along (next repository)
        (fun s label => ∀ s', s.next repository label = some s' → s'.RowsBacked repository)
        (start head) labels) ∧
    (Execution.Along (next repository) (HunksFollow repository) (start head) labels →
      Execution.Along (next repository) (SkipsStored repository) (start head) labels ∧
        ∀ s, Execution.run (next repository) (start head) labels = some s → s.run = none →
          s.RowsStored repository) := by
  have begun : (start head).Sound repository ∧ repository.RowsFromSource (start head).store ∧
      (start head).RowsBacked repository := by
    refine ⟨sound_start head, fun _ => Or.inl rfl, ?_⟩
    intro sha mem
    cases mem
  refine ⟨?_, fun along => ⟨?_, ?_⟩⟩
  · apply Execution.along_congr _ (fun _ _ _ => sound_rows_step) _ begun
    intro s label ⟨sound, rows, backed⟩
    constructor
    · intro follow s' stepped
      exact (rows_step sound rows backed follow (step_of_next stepped)).2
    · exact hunksFollow_of_backed sound
  · apply Execution.along_of_invariant _ (fun _ _ _ => sound_rows_step) _ begun along
    intro s label ⟨sound, rows, backed⟩ _
    exact backed.skipsStored sound
  · intro s ran idle
    rcases Execution.invariant_along _ (fun _ _ _ => sound_rows_step) begun along ran with
      ⟨sound, rows, backed⟩
    exact backed.stored_of_idle idle

end IndexSystem

namespace OneCommit

open IndexSystem

/-- An invocation that is cut off after it put the commit and before it puts its hunks. -/
def crashedRun : List IndexLabel :=
    indexing (invocation .off) 2 ++ [.abort]

/-- An invocation up to its walk. -/
def walkingRun : List IndexLabel :=
    [.invoke (invocation .off), .advance, .advance, .advance, .advance]

set_option maxRecDepth 8000 in
/-- After the crash the commit has its row and no hunks, and the next run skips it. -/
theorem crashed_commit_skipped :
    ∃ s s', Execution.run (next repository) (start "a") crashedRun = some s ∧ s.run.isNone ∧
      ¬ s.RowsStored repository ∧ Execution.run (next repository) s walkingRun = some s' ∧
      ¬ s'.SkipsStored repository (.pipeline 1 .walk) := by
  have unstored : ∀ store : Store, store.putIgnoring "a" = none →
      ¬ repository.HunksStored store "a" := by
    rintro store no_put ⟨isIgnored, hunks, put, -⟩
    cases no_put.symm.trans put
  refine ⟨_, _, rfl, rfl, ?_, rfl, ?_⟩
  · intro stored
    exact unstored _ rfl (stored "a" (by decide))
  · intro skips
    exact unstored _ rfl (skips _ _ _ _ _ rfl rfl rfl rfl)

end OneCommit

end Ohara
