import Ohara.Index.CommandSteps

/-!
# What every run of the index system keeps

The tables are laid out, an invocation that is past the opening has its repository's row, and one
that is past the walk has settled every commit of it that did not fail.
-/

namespace Ohara

/-- A commit that needs nothing more is stored, or a run passed it over as ignored. -/
def Repository.Settled (repository : Repository) (store : Store) (sha : String) : Prop :=
    sha ∈ store.db.shas ∨ store.PassedOver repository.source sha

theorem Repository.Settled.mono {repository : Repository} {store store' : Store} {sha : String}
    (settled : repository.Settled store sha) (grows : store.Grows repository.source store') :
    repository.Settled store' sha :=
  settled.imp (grows.shas sha) (grows.passed sha)

/-- The commits and their hunks are the same. -/
structure Store.SameRows (store store' : Store) : Prop where
  shas : store'.db.shas = store.db.shas
  hunkViews : store'.db.hunkViews = store.db.hunkViews
  builtBy : store'.builtBy = store.builtBy
  putIgnoring : store'.putIgnoring = store.putIgnoring
  passedIgnoring : store'.passedIgnoring = store.passedIgnoring

/-- What a step of the pipeline leaves as it was, or adds to. -/
structure Store.WorkFrame (source : CommitSource) (store store' : Store) : Prop where
  repo : store'.db.repo = store.db.repo
  indexMetadata : store'.db.indexMetadata = store.db.indexMetadata
  symbolViews : store'.db.symbolViews = store.db.symbolViews
  symbolsBy : store'.symbolsBy = store.symbolsBy
  grows : store.Grows source store'

theorem Store.SameRows.symm {store store' : Store} (rows : store.SameRows store') :
    store'.SameRows store :=
  ⟨rows.shas.symm, rows.hunkViews.symm, rows.builtBy.symm, rows.putIgnoring.symm,
    rows.passedIgnoring.symm⟩

theorem mem_failedCommits {log : List (CommitMeta × Outcome)} {commit : CommitMeta} :
    commit ∈ failedCommits log ↔ ∃ e, (commit, .finished (.error e)) ∈ log := by
  simp only [failedCommits, List.mem_filterMap]
  constructor
  · rintro ⟨⟨other, outcome⟩, mem, failed⟩
    rcases outcome with _ | (e | _) | _ <;> cases failed
    exact ⟨e, mem⟩
  · rintro ⟨e, mem⟩
    exact ⟨_, mem, rfl⟩

namespace IndexSystem

variable (repository : Repository)

/-- The repository has its row. -/
def Opened (s : IndexSystem) : Prop :=
    repository.repoId.value ∈ s.store.db.repo.map RepoRow.id

/-- The walk is that of HEAD behind the watermark. -/
def Lists (s : IndexSystem) (walk : List CommitMeta) : Prop :=
    repository.history.listCommits s.head (s.watermark repository) = .ok walk

/-- The pipeline of an invocation is at work on its walk. -/
structure Indexing (s : IndexSystem) (inv : Invocation) (walk : List CommitMeta)
    (pipeline : Pipeline Store CommitTask inv.nWorkers) : Prop where
  opened : s.Opened repository
  lists : s.Lists repository walk
  consistent : pipeline.Consistent walk
  kept : Pipeline.Kept (fun store => store.db.Laid) (inv.commitEnv repository).TaskSound
    (inv.commitEnv repository).EntrySound { pipeline with storage := s.store }

/-- Every commit of the walk failed or needs nothing more. -/
structure Walked (s : IndexSystem) (walk failed : List CommitMeta) : Prop where
  opened : s.Opened repository
  lists : s.Lists repository walk
  failed_mem : ∀ commit ∈ failed, commit ∈ walk
  settled : ∀ commit ∈ walk, commit ∈ failed ∨ repository.Settled s.store commit.commitSha

/-- What is known at the next call of an invocation. -/
def PhaseSound (s : IndexSystem) (inv : Invocation) : CommandPhase inv.nWorkers → Prop
  | .deletingIndex => True
  | .openingRepo => True
  | .indexing walk pipeline => s.Indexing repository inv walk pipeline
  | .puttingSymbols walk failed => s.Walked repository walk failed
  | .settingWatermark walk failed => s.Walked repository walk failed
  | _ => s.Opened repository

/-- The invariant of the runs: laid-out tables, and what each phase of an invocation relies on. -/
structure Sound (s : IndexSystem) : Prop where
  laid : s.store.db.Laid
  phase : ∀ inv phase, s.run = some ⟨inv, phase⟩ → s.PhaseSound repository inv phase

variable {repository} {s s' : IndexSystem} {label : IndexLabel} {inv : Invocation}
  {walk failed : List CommitMeta}

theorem sound_start (head : String) : (start head).Sound repository where
  laid := Database.laid_empty
  phase := by
    intro inv phase running
    cases running

theorem sound_stop (laid : s.store.db.Laid) : s.stop.Sound repository where
  laid := laid
  phase := by
    intro inv phase running
    cases running

theorem sound_goto {phase : CommandPhase inv.nWorkers} (laid : s.store.db.Laid)
    (sound : s.PhaseSound repository inv phase) : (s.goto inv phase).Sound repository where
  laid := laid
  phase := by
    rintro inv' phase' running
    cases running
    cases phase with
    | indexing walk pipeline => exact ⟨sound.opened, sound.lists, sound.consistent, sound.kept⟩
    | puttingSymbols walk failed =>
        exact ⟨sound.opened, sound.lists, sound.failed_mem, sound.settled⟩
    | settingWatermark walk failed =>
        exact ⟨sound.opened, sound.lists, sound.failed_mem, sound.settled⟩
    | _ => exact sound

theorem phaseSound_afterGuard (opened : s.Opened repository) :
    s.PhaseSound repository inv (afterGuard inv) := by
  simp only [afterGuard]
  split
  · exact opened
  · split
    · exact opened
    · exact opened

theorem Indexing.frame {pipeline pipeline' : Pipeline Store CommitTask inv.nWorkers}
    {actor : Actor inv.nWorkers} (indexing : s.Indexing repository inv walk pipeline)
    (worked : Pipeline.Step (inv.commitEnv repository).process { pipeline with storage := s.store }
      actor pipeline') : s.store.WorkFrame repository.source pipeline'.storage := by
  rcases CommitEnv.wrote_of_step indexing.kept worked with
    same | ⟨i, commit, task, -, -, -, wrote⟩
  · rw [same]
    exact ⟨rfl, rfl, rfl, rfl, Store.grows_of_same rfl rfl⟩
  · exact ⟨wrote.repo, wrote.indexMetadata, wrote.symbolViews, wrote.symbolsBy, wrote.grows⟩

theorem Indexing.work {pipeline pipeline' : Pipeline Store CommitTask inv.nWorkers}
    {actor : Actor inv.nWorkers} (indexing : s.Indexing repository inv walk pipeline)
    (worked : Pipeline.Step (inv.commitEnv repository).process { pipeline with storage := s.store }
      actor pipeline') :
    ({ s with store := pipeline'.storage } : IndexSystem).Indexing repository inv walk
      pipeline' := by
  have frame := indexing.frame worked
  constructor
  · simpa [Opened, frame.repo] using indexing.opened
  · simpa [Lists, watermark, Repo.getStatus, frame.repo] using indexing.lists
  · apply Pipeline.consistent_step _ worked
    exact { indexing.consistent with }
  · exact Pipeline.kept_step (inv.commitEnv repository).taskRules indexing.kept worked

theorem Indexing.walked {pipeline : Pipeline Store CommitTask inv.nWorkers}
    (indexing : s.Indexing repository inv walk pipeline) (returned : pipeline.main = .returned) :
    s.Walked repository walk (failedCommits pipeline.log) where
  opened := indexing.opened
  lists := indexing.lists
  failed_mem := by
    intro commit failed
    rcases mem_failedCommits.1 failed with ⟨e, logged⟩
    exact indexing.consistent.listed logged
  settled := by
    intro commit listed
    have workersExist : 0 < inv.nWorkers := Nat.le_max_right inv.workers 1
    rcases indexing.consistent.mem_log workersExist indexing.kept.calm returned listed with
      ⟨outcome, logged⟩
    have entry := indexing.kept.log _ logged
    rcases outcome with _ | (e | _) | _
    · exact Or.inr entry
    · exact Or.inl (mem_failedCommits.2 ⟨e, logged⟩)
    · exact Or.inr entry
    · exact entry.elim

theorem Walked.mono (walked : s.Walked repository walk failed) (head : s'.head = s.head)
    (repo : s'.store.db.repo = s.store.db.repo)
    (grows : s.store.Grows repository.source s'.store) : s'.Walked repository walk failed where
  opened := by simpa [Opened, repo] using walked.opened
  lists := by simpa [Lists, watermark, Repo.getStatus, repo, head] using walked.lists
  failed_mem := walked.failed_mem
  settled := fun commit listed =>
    (walked.settled commit listed).imp_right fun done => done.mono grows

theorem sound_step (sound : s.Sound repository) (step : Step repository s label s') :
    s'.Sound repository := by
  cases step with
  | moveHead idle =>
      refine ⟨sound.laid, ?_⟩
      intro inv phase running
      rw [idle] at running
      cases running
  | refuseRebuild idle => exact sound
  | @invoke inv idle =>
      apply sound_goto sound.laid
      split
      · trivial
      · trivial
  | abort running => exact sound_stop sound.laid
  | deleteIndex running => exact sound_goto Database.laid_empty trivial
  | @openRepo inv running =>
      have opened : (s.withDb (Repo.upsert repository.repoId repository.path
          repository.firstCommitSha s.store.db)).Opened repository := Repo.mem_upsert _ _ _ _
      have laid := (s.store.db.sameIndex_aside (Repo.upsert repository.repoId repository.path
        repository.firstCommitSha s.store.db).repo s.store.db.indexMetadata
        s.store.db.chunkEmbedCache).laid sound.laid
      refine sound_goto laid ?_
      split
      · exact phaseSound_afterGuard opened
      · exact opened
  | refuseMode running assessed => exact sound_stop sound.laid
  | passMode running accepted =>
      exact sound_goto sound.laid (phaseSound_afterGuard (sound.phase _ _ running))
  | clearSymbols running cleared =>
      rcases Symbol.clearAll_spec sound.laid with ⟨db, done, put⟩
      cases cleared.symm.trans done
      apply sound_goto put.laid
      have opened := sound.phase _ _ running
      simpa [PhaseSound, Opened, withDb, put.aside.repo] using opened
  | upToDate running current => exact sound_stop sound.laid
  | @behind inv running moved =>
      have opened : s.Opened repository := sound.phase _ _ running
      exact sound_goto sound.laid opened
  | list running listed =>
      exact sound_goto sound.laid ⟨sound.phase _ _ running, listed,
        Pipeline.consistent_start _ _, Pipeline.kept_start sound.laid⟩
  | work running worked =>
      have indexing := (sound.phase _ _ running : s.Indexing repository _ _ _).work worked
      exact sound_goto indexing.kept.storage indexing
  | returnPipeline running returned =>
      exact sound_goto sound.laid
        ((sound.phase _ _ running : s.Indexing repository _ _ _).walked returned)
  | @putSymbols inv walk failed symbols db running extracted done =>
      rcases Symbol.putMany_spec symbols sound.laid with ⟨db', put_db, put⟩
      cases done.symm.trans put_db
      apply sound_goto put.laid
      exact (sound.phase _ _ running : s.Walked repository walk failed).mono rfl put.aside.repo
        (Store.grows_of_same put.shas rfl)
  | @setWatermark inv walk failed last running is_last =>
      have walked : s.Walked repository walk failed := sound.phase _ _ running
      have laid := (s.store.db.sameIndex_aside (Repo.setWatermark repository.repoId last.commitSha
        s.store.db).repo s.store.db.indexMetadata s.store.db.chunkEmbedCache).laid sound.laid
      refine sound_goto laid ?_
      have kept : ∀ row : RepoRow, (if row.id = repository.repoId.value then
          { row with lastIndexedCommit := some last.commitSha } else row).id = row.id := by
        intro row
        split
        · rfl
        · rfl
      have opened := walked.opened
      simpa [PhaseSound, Opened, withDb, Repo.setWatermark, Function.comp_def, kept] using opened
  | @keepWatermark inv walk failed running empty =>
      exact sound_goto sound.laid (sound.phase _ _ running : s.Walked repository walk failed).opened
  | @putMetadata inv running =>
      rcases IndexMetadata.putMany_spec repository.repoId inv.runtimeMetadata.toStorageComponents
        s.store.db with ⟨rows, put⟩
      apply sound_stop
      rw [put]
      exact (s.store.db.sameIndex_aside _ _ _).laid sound.laid

/-! ## The rows of the commits -/

theorem sameRows_aside (s : IndexSystem) (repo : List RepoRow)
    (indexMetadata : List IndexMetadataRow) :
    s.store.SameRows (s.withDb { s.store.db with
      repo := repo, indexMetadata := indexMetadata }).store :=
  ⟨rfl, rfl, rfl, rfl, rfl⟩

theorem sameRows_putSymbols {symbols : List SymbolView} {db : Database}
    (put : PutSymbols symbols s.store.db db) (symbolsBy : Option Binary) :
    s.store.SameRows { s.store with db := db, symbolsBy := symbolsBy } :=
  ⟨put.shas, put.hunkViews, rfl, rfl, rfl⟩

/-- What a step does to the commits and their hunks: they are deleted, the pipeline works on one of
them, or they stay. -/
inductive RowsStep (repository : Repository) (s : IndexSystem) : IndexLabel → IndexSystem → Prop
  | fresh {label : IndexLabel} {s' : IndexSystem} {inv : Invocation}
      (deleted : s' = { s with store := Store.fresh }.goto inv .openingRepo) :
      RowsStep repository s label s'
  | work {inv : Invocation} {walk : List CommitMeta}
      {pipeline pipeline' : Pipeline Store CommitTask inv.nWorkers} {actor : Actor inv.nWorkers}
      (running : s.run = some ⟨inv, .indexing walk pipeline⟩)
      (worked : Pipeline.Step (inv.commitEnv repository).process { pipeline with storage := s.store }
        actor pipeline') :
      RowsStep repository s (.pipeline inv.nWorkers actor)
        ({ s with store := pipeline'.storage }.goto inv (.indexing walk pipeline'))
  | same {label : IndexLabel} {s' : IndexSystem}
      (elsewhere : ∀ n actor, label ≠ .pipeline n actor) (rows : s.store.SameRows s'.store) :
      RowsStep repository s label s'

theorem rowsStep (sound : s.Sound repository) (step : Step repository s label s') :
    RowsStep repository s label s' := by
  cases step with
  | deleteIndex running => exact .fresh rfl
  | openRepo running => exact .same (by simp) (s.sameRows_aside _ s.store.db.indexMetadata)
  | clearSymbols running cleared =>
      rcases Symbol.clearAll_spec sound.laid with ⟨db, done, put⟩
      cases cleared.symm.trans done
      exact .same (by simp) (sameRows_putSymbols put _)
  | work running worked => exact .work running worked
  | @putSymbols inv walk failed symbols db running extracted done =>
      rcases Symbol.putMany_spec symbols sound.laid with ⟨db', put_db, put⟩
      cases done.symm.trans put_db
      exact .same (by simp) (sameRows_putSymbols put _)
  | setWatermark running is_last =>
      exact .same (by simp) (s.sameRows_aside _ s.store.db.indexMetadata)
  | @putMetadata inv running =>
      rcases IndexMetadata.putMany_spec repository.repoId inv.runtimeMetadata.toStorageComponents
        s.store.db with ⟨metadata, put⟩
      rw [put]
      exact .same (by simp) (s.sameRows_aside s.store.db.repo metadata)
  | _ => exact .same (by simp) ⟨rfl, rfl, rfl, rfl, rfl⟩

/-- A worker of the running invocation is about to put the hunks of a commit. -/
def AtHunks (s : IndexSystem) (inv : Invocation) (i : Fin inv.nWorkers) (commit : CommitMeta)
    (work : CommitWork) : Prop :=
    ∃ walk pipeline, s.run = some ⟨inv, .indexing walk pipeline⟩ ∧
      (pipeline.workers i).phase = .processing commit (.puttingHunks work)

/-- A worker that is about to put hunks is left only by an abort. -/
theorem abort_of_atHunks (sound : s.Sound repository) (step : Step repository s label s')
    (elsewhere : ∀ n actor, label ≠ .pipeline n actor) {i : Fin inv.nWorkers}
    {commit : CommitMeta} {work : CommitWork} (at_hunks : s.AtHunks inv i commit work) :
    label = .abort := by
  rcases at_hunks with ⟨walk, pipeline, working, phase⟩
  cases step with
  | moveHead idle => cases idle.symm.trans working
  | refuseRebuild idle => cases idle.symm.trans working
  | invoke idle => cases idle.symm.trans working
  | abort running => rfl
  | work running worked => exact absurd rfl (elsewhere _ _)
  | returnPipeline running returned =>
      cases running.symm.trans working
      have indexing : s.Indexing repository inv walk pipeline := sound.phase _ _ running
      rw [indexing.consistent.all_exited indexing.kept.calm returned i] at phase
      cases phase
  | deleteIndex running => cases running.symm.trans working
  | openRepo running => cases running.symm.trans working
  | refuseMode running => cases running.symm.trans working
  | passMode running => cases running.symm.trans working
  | clearSymbols running => cases running.symm.trans working
  | upToDate running => cases running.symm.trans working
  | behind running => cases running.symm.trans working
  | list running => cases running.symm.trans working
  | putSymbols running => cases running.symm.trans working
  | setWatermark running => cases running.symm.trans working
  | keepWatermark running => cases running.symm.trans working
  | putMetadata running => cases running.symm.trans working

end IndexSystem

end Ohara
