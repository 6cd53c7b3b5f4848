import Ohara.Index.ActorRules
import Ohara.Index.Commit
import Ohara.Index.PostImages
import Ohara.Storage.Effects

/-!
# What the processing of a commit writes

Each step of a commit's processing leaves the store alone or makes one of three writes. What is
written was read from the repository under the commit's own sha, a commit whose processing succeeds
has its row, and one that is passed over has ignored paths only.
-/

namespace Ohara

/-- The commit has hunks and every one is on an ignored path. -/
def IgnoredCommit (source : CommitSource) (isIgnored : String → Bool) (sha : String) : Prop :=
    ∃ hunks, source.hunksForCommit sha = .ok hunks ∧ hunks ≠ [] ∧
      ∀ hunk ∈ hunks, isIgnored hunk.filePath = true

/-- A run passed the commit over, since every one of its hunks is on a path that the run ignored. -/
def Store.PassedOver (store : Store) (source : CommitSource) (sha : String) : Prop :=
    ∃ isIgnored, store.passedIgnoring sha = some isIgnored ∧ IgnoredCommit source isIgnored sha

/-- The commits that were stored or passed over still are. -/
structure Store.Grows (source : CommitSource) (store store' : Store) : Prop where
  shas : ∀ sha, sha ∈ store.db.shas → sha ∈ store'.db.shas
  passed : ∀ sha, store.PassedOver source sha → store'.PassedOver source sha

theorem Store.grows_of_same {source : CommitSource} {store store' : Store}
    (shas : store'.db.shas = store.db.shas)
    (passed : store'.passedIgnoring = store.passedIgnoring) : store.Grows source store' where
  shas := by simp [shas]
  passed := by simp [PassedOver, passed]

theorem Store.passedOver_pass {source : CommitSource} {isIgnored : String → Bool} {sha : String}
    (store : Store) (ignored : IgnoredCommit source isIgnored sha) :
    (store.pass sha isIgnored).PassedOver source sha :=
  ⟨isIgnored, Function.update_self .., ignored⟩

theorem Store.grows_pass {source : CommitSource} {isIgnored : String → Bool} {sha : String}
    (store : Store) (ignored : IgnoredCommit source isIgnored sha) :
    store.Grows source (store.pass sha isIgnored) where
  shas := fun _ => id
  passed := by
    rintro other ⟨isIgnored', passed, other_ignored⟩
    by_cases same : other = sha
    · subst same
      exact store.passedOver_pass ignored
    · exact ⟨isIgnored', (Function.update_of_ne same ..).trans passed, other_ignored⟩

/-- The hunks of a commit that are not on ignored paths. -/
def keptHunks (isIgnored : String → Bool) (hunks : List Hunk) : List Hunk :=
    hunks.filter fun hunk => !isIgnored hunk.filePath

theorem assemble_attributed (cached entries : List (ContentHash × Vector))
    (hunks : List AttributedHunk) {inputs : List (String × ContentHash)}
    (same_length : inputs.length = hunks.length) :
    (EmbedStage.assemble cached entries hunks inputs).map EmbeddedHunk.attributed = hunks := by
  simp only [EmbedStage.assemble, List.map_map]
  exact List.map_fst_zip (Nat.le_of_eq same_length.symm)

/-- The embed stage returns the hunks it was given, in their order. -/
theorem embedded_hunks {stage : EmbedStage} {cached : List (ContentHash × Vector)}
    {message : String} {hunks : List AttributedHunk} {output : EmbedOutput}
    {entries : List (ContentHash × Vector)}
    (ran : stage.run cached message hunks = .ok (output, entries)) :
    output.hunks.map EmbeddedHunk.attributed = hunks := by
  rw [EmbedStage.run] at ran
  split at ran
  · next empty =>
      rcases Fallible.bind_eq_ok.1 ran with ⟨alone, embedded, assembled⟩
      cases assembled
      rcases Fallible.bind_eq_ok.1 embedded with ⟨vectors, -, first⟩
      cases vectors with
      | nil => cases first
      | cons vector rest =>
          cases first
          simp [List.isEmpty_iff.1 empty]
  · rcases Fallible.bind_eq_ok.1 ran with ⟨vectors, -, rest⟩
    cases vectors with
    | nil => cases rest
    | cons vector missed =>
        simp only at rest
        split at rest
        · cases rest
        · cases rest
          exact assemble_attributed _ _ _ (by simp [EmbedStage.hunkInputs])

namespace CommitEnv

variable {env : CommitEnv} {commit : CommitMeta}

/-- The work of a commit was read from the repository. -/
structure FromSource (env : CommitEnv) (commit : CommitMeta) (work : CommitWork) : Prop where
  hunks : ∃ hunks, env.source.hunksForCommit commit.commitSha = .ok hunks ∧
    (PersistStage.hunkRows work.output).map HunkRecord.hunk = keptHunks env.isIgnored hunks ∧
    (keptHunks env.isIgnored hunks = [] → hunks = [])
  persisted : work.result.persisted = true

theorem retainKept_chunks (isIgnored : String → Bool) (commit : CommitMeta) (hunks : List Hunk) :
    (retainKept isIgnored (hunks.map (HunkChunkStage.chunk commit))).map ChunkedHunk.sourceHunk =
      keptHunks isIgnored hunks := by
  simp only [retainKept, List.filter_map, List.map_map, keptHunks]
  exact List.map_id _

theorem hunkRows_hunk (output : EmbedOutput) :
    (PersistStage.hunkRows output).map HunkRecord.hunk =
      ((output.hunks.map EmbeddedHunk.attributed).map AttributedHunk.record).map
        ChunkedHunk.sourceHunk := by
  simp only [PersistStage.hunkRows, List.map_map]
  rfl

theorem readCommit_records {db : Database} {read : Option CommitWork}
    (ran : env.readCommit db commit = .ok read) :
    ∃ hunks, env.source.hunksForCommit commit.commitSha = .ok hunks ∧
      (if fullyIgnored env.isIgnored (hunks.map (HunkChunkStage.chunk commit)) then pure none
      else do
        let work ← env.embedCommit db commit
          (retainKept env.isIgnored (hunks.map (HunkChunkStage.chunk commit)))
        pure (some work)) = Except.ok read := by
  rcases Fallible.bind_eq_ok.1 ran with ⟨_, -, ran_chunk⟩
  rcases Fallible.bind_eq_ok.1 ran_chunk with ⟨records, chunked, rest⟩
  rcases Fallible.bind_eq_ok.1 chunked with ⟨hunks, listed, mapped⟩
  cases mapped
  exact ⟨hunks, listed, rest⟩

theorem fullyIgnored_chunks (isIgnored : String → Bool) (commit : CommitMeta) (hunks : List Hunk) :
    fullyIgnored isIgnored (hunks.map (HunkChunkStage.chunk commit)) = true ↔
      hunks ≠ [] ∧ keptHunks isIgnored hunks = [] := by
  have kept := congrArg List.length (retainKept_chunks isIgnored commit hunks)
  rw [List.length_map] at kept
  simp [fullyIgnored, kept, List.length_pos_iff]

theorem readCommit_none {db : Database} (ran : env.readCommit db commit = .ok none) :
    IgnoredCommit env.source env.isIgnored commit.commitSha := by
  rcases readCommit_records ran with ⟨hunks, listed, rest⟩
  refine ⟨hunks, listed, ?_⟩
  split at rest
  · next ignored =>
      rcases (fullyIgnored_chunks env.isIgnored commit hunks).1 ignored with ⟨some_hunk, none_kept⟩
      refine ⟨some_hunk, ?_⟩
      simpa [keptHunks] using none_kept
  · rcases Fallible.bind_eq_ok.1 rest with ⟨work, -, assembled⟩
    cases assembled

/-- The stages that led to the work of a commit. -/
theorem readCommit_stages {db : Database} {work : CommitWork}
    (ran : env.readCommit db commit = .ok (some work)) :
    ∃ hunks attributed cached, env.source.hunksForCommit commit.commitSha = .ok hunks ∧
      AttributeStage.run env.source env.extract commit.commitSha
        (retainKept env.isIgnored (hunks.map (HunkChunkStage.chunk commit))) = .ok attributed ∧
      env.stage.run cached commit.message attributed = .ok (work.output, work.entries) ∧
      work.result.persisted = true ∧ (keptHunks env.isIgnored hunks = [] → hunks = []) := by
  rcases readCommit_records ran with ⟨hunks, listed, rest⟩
  split at rest
  · cases rest
  · next not_ignored =>
      rw [fullyIgnored_chunks] at not_ignored
      have kept : keptHunks env.isIgnored hunks = [] → hunks = [] := by
        intro none_kept
        by_contra some_hunk
        exact not_ignored ⟨some_hunk, none_kept⟩
      rcases Fallible.bind_eq_ok.1 rest with ⟨work', embedded, assembled⟩
      cases assembled
      rcases Fallible.bind_eq_ok.1 embedded with ⟨_, -, ran_attribute⟩
      rcases Fallible.bind_eq_ok.1 ran_attribute with ⟨attributed, symbols_found, ran_cache⟩
      rcases Fallible.bind_eq_ok.1 ran_cache with ⟨cached, -, ran_embed⟩
      rcases Fallible.bind_eq_ok.1 ran_embed with ⟨_, -, ran_stage⟩
      rcases Fallible.bind_eq_ok.1 ran_stage with ⟨⟨output, entries⟩, embed, returned⟩
      cases returned
      exact ⟨hunks, attributed, cached, listed, symbols_found, embed, rfl, kept⟩

theorem readCommit_some {db : Database} {work : CommitWork}
    (ran : env.readCommit db commit = .ok (some work)) : env.FromSource commit work := by
  rcases readCommit_stages ran with
    ⟨hunks, attributed, cached, listed, symbols_found, embed, persisted, kept⟩
  refine ⟨⟨hunks, listed, ?_, kept⟩, persisted⟩
  rw [hunkRows_hunk, embedded_hunks embed,
    AttributeStage.attributed_records AttributeStage.memoized_nil symbols_found, retainKept_chunks]

theorem FromSource.sha {work : CommitWork} (fromSource : env.FromSource commit work)
    {record : HunkRecord} (mem : record ∈ PersistStage.hunkRows work.output) :
    record.sha = commit.commitSha := by
  rcases fromSource.hunks with ⟨hunks, listed, rows, -⟩
  have hunk_mem : record.hunk ∈ keptHunks env.isIgnored hunks := by
    rw [← rows]
    exact List.mem_map_of_mem mem
  exact env.source.hunk_sha commit.commitSha hunks listed record.hunk
    (List.mem_of_mem_filter hunk_mem)

/-- What the run records as the versions that put the commit's hunks. -/
def builtByAfter (env : CommitEnv) (commit : CommitMeta) (work : CommitWork) (store : Store) :
    String → Option RuntimeIndexMetadata :=
    if (PersistStage.hunkRows work.output).isEmpty then store.builtBy
    else Function.update store.builtBy commit.commitSha (some env.build)

/-- The store after a put of the commit's hunks. -/
def afterHunks (env : CommitEnv) (commit : CommitMeta) (work : CommitWork) (store : Store)
    (db : Database) : Store :=
    { store with
      db := db
      builtBy := env.builtByAfter commit work store
      putIgnoring := Function.update store.putIgnoring commit.commitSha (some env.isIgnored) }

@[simp]
theorem db_afterHunks (env : CommitEnv) (commit : CommitMeta) (work : CommitWork) (store : Store)
    (db : Database) : (env.afterHunks commit work store db).db = db := rfl

/-- What one step of the processing did to the store. -/
inductive Wrote (env : CommitEnv) (commit : CommitMeta) (store : Store) :
    CommitTask → Store → Prop
  | nothing {task : CommitTask} : Wrote env commit store task store
  | pass (ignored : IgnoredCommit env.source env.isIgnored commit.commitSha) :
      Wrote env commit store .reading (store.pass commit.commitSha env.isIgnored)
  | cache {work : CommitWork} (rows : List ChunkEmbedCacheRow) :
      Wrote env commit store (.caching work)
        { store with db := { store.db with chunkEmbedCache := rows } }
  | commit {work : CommitWork} {db : Database}
      (put : PutCommit (PersistStage.commitRecord commit work.output) store.db db) :
      Wrote env commit store (.puttingCommit work) { store with db := db }
  | hunks {work : CommitWork} {db : Database}
      (through : env.putHunks commit work store = .ok (env.afterHunks commit work store db))
      (put : PutHunks (PersistStage.hunkRows work.output) store.db db) :
      Wrote env commit store (.puttingHunks work) (env.afterHunks commit work store db)

theorem putCache_ok {store store' : Store} {work : CommitWork}
    (put : env.putCache commit work store = .ok store') :
    ∃ rows, store' = { store with db := { store.db with chunkEmbedCache := rows } } := by
  rcases Fallible.bind_eq_ok.1 put with ⟨_, -, written⟩
  cases written
  rcases EmbedCache.putMany_spec work.entries env.stage.embedder.modelId store.db with ⟨rows, same⟩
  exact ⟨rows, by rw [same]⟩

theorem putCommit_ok {store store' : Store} {work : CommitWork} (laid : store.db.Laid)
    (put : env.putCommit commit work store = .ok store') :
    ∃ db, PutCommit (PersistStage.commitRecord commit work.output) store.db db ∧
      store' = { store with db := db } := by
  rcases Fallible.bind_eq_ok.1 put with ⟨_, -, rest⟩
  rcases Fallible.bind_eq_ok.1 rest with ⟨db, put_db, written⟩
  cases written
  exact ⟨db, Commit.put_spec laid (Fallible.mapError_eq_ok.1 put_db), rfl⟩

theorem putHunks_ok {store store' : Store} {work : CommitWork} (laid : store.db.Laid)
    (put : env.putHunks commit work store = .ok store') :
    ∃ db, PutHunks (PersistStage.hunkRows work.output) store.db db ∧
      store' = env.afterHunks commit work store db := by
  rcases Fallible.bind_eq_ok.1 put with ⟨_, -, rest⟩
  rcases Fallible.bind_eq_ok.1 rest with ⟨db, put_db, written⟩
  cases written
  exact ⟨db, Hunk.putMany_spec laid (Fallible.mapError_eq_ok.1 put_db), rfl⟩

namespace Wrote

variable {store store' : Store} {task : CommitTask}

theorem laid (wrote : Wrote env commit store task store') (laid : store.db.Laid) :
    store'.db.Laid := by
  cases wrote with
  | nothing => exact laid
  | pass ignored => exact laid
  | cache rows =>
      exact (store.db.sameIndex_aside store.db.repo store.db.indexMetadata rows).laid laid
  | commit put => exact put.laid
  | hunks through put => exact put.laid

theorem repo (wrote : Wrote env commit store task store') : store'.db.repo = store.db.repo := by
  cases wrote with
  | nothing => rfl
  | pass ignored => rfl
  | cache rows => rfl
  | commit put => exact put.aside.repo
  | hunks through put => exact put.aside.repo

theorem indexMetadata (wrote : Wrote env commit store task store') :
    store'.db.indexMetadata = store.db.indexMetadata := by
  cases wrote with
  | nothing => rfl
  | pass ignored => rfl
  | cache rows => rfl
  | commit put => exact put.aside.indexMetadata
  | hunks through put => exact put.aside.indexMetadata

theorem symbolViews (wrote : Wrote env commit store task store') :
    store'.db.symbolViews = store.db.symbolViews := by
  cases wrote with
  | nothing => rfl
  | pass ignored => rfl
  | cache rows => rfl
  | commit put => exact put.symbolViews
  | hunks through put => exact put.symbolViews

theorem symbolsBy (wrote : Wrote env commit store task store') :
    store'.symbolsBy = store.symbolsBy := by
  cases wrote <;> rfl

theorem grows (wrote : Wrote env commit store task store') : store.Grows env.source store' := by
  cases wrote with
  | nothing => exact Store.grows_of_same rfl rfl
  | pass ignored => exact store.grows_pass ignored
  | cache rows => exact Store.grows_of_same rfl rfl
  | commit put => exact ⟨fun sha mem => (put.shas sha).2 (Or.inl mem), fun _ => id⟩
  | hunks through put => exact Store.grows_of_same put.shas rfl

end Wrote

/-- A task whose writes are the commit's, and which puts hunks of a stored commit only. -/
def TaskSound (env : CommitEnv) (store : Store) (commit : CommitMeta) : CommitTask → Prop
  | .reading => True
  | .caching work => env.FromSource commit work
  | .puttingCommit work => env.FromSource commit work
  | .puttingHunks work => env.FromSource commit work ∧ commit.commitSha ∈ store.db.shas

/-- A commit that needs nothing more is stored, or was passed over because it is ignored. -/
def Settled (env : CommitEnv) (store : Store) (sha : String) : Prop :=
    sha ∈ store.db.shas ∨ store.PassedOver env.source sha

/-- A commit that did not fail is settled. -/
def EntrySound (env : CommitEnv) (store : Store) (commit : CommitMeta) : Outcome → Prop
  | .finished (.error _) => True
  | .panicked => False
  | _ => env.Settled store commit.commitSha

theorem settle_cases {store store' : Store} {written : Except OhraError Store}
    {next progress : Progress CommitTask}
    (settled : settle store written next = (store', progress)) :
    (∃ e, written = .error e ∧ store' = store ∧ progress = .finished (.error e)) ∨
      (written = .ok store' ∧ progress = next) := by
  cases written with
  | ok written =>
      cases settled
      exact Or.inr ⟨rfl, rfl⟩
  | error e =>
      cases settled
      exact Or.inl ⟨e, rfl, rfl, rfl⟩

/-- A step of the processing makes at most one write, and leads to a sound task or outcome. -/
theorem advance_spec {store store' : Store} {task : CommitTask} {progress : Progress CommitTask}
    (laid : store.db.Laid) (sound : env.TaskSound store commit task)
    (advanced : env.advance commit store task = (store', progress)) :
    Wrote env commit store task store' ∧
      progress.Leads (env.TaskSound store' commit) (env.EntrySound store' commit) := by
  cases task with
  | reading =>
      simp only [advance] at advanced
      split at advanced
      · cases advanced
        exact ⟨.nothing, trivial⟩
      · next ignored =>
          cases advanced
          have hunks_ignored := readCommit_none ignored
          exact ⟨.pass hunks_ignored, Or.inr (store.passedOver_pass hunks_ignored)⟩
      · next work read =>
          cases advanced
          refine ⟨.nothing, ?_⟩
          split
          · exact readCommit_some read
          · exact readCommit_some read
  | caching work =>
      rcases settle_cases advanced with ⟨e, -, rfl, rfl⟩ | ⟨put, rfl⟩
      · exact ⟨.nothing, trivial⟩
      · rcases putCache_ok put with ⟨rows, rfl⟩
        exact ⟨.cache rows, sound⟩
  | puttingCommit work =>
      rcases settle_cases advanced with ⟨e, -, rfl, rfl⟩ | ⟨put, rfl⟩
      · exact ⟨.nothing, trivial⟩
      · rcases putCommit_ok laid put with ⟨db, put_db, rfl⟩
        exact ⟨.commit put_db, sound, (put_db.shas commit.commitSha).2 (Or.inr rfl)⟩
  | puttingHunks work =>
      rcases settle_cases advanced with ⟨e, -, rfl, rfl⟩ | ⟨put, rfl⟩
      · exact ⟨.nothing, trivial⟩
      · rcases putHunks_ok laid put with ⟨db, put_db, rfl⟩
        have wrote : Wrote env commit store (.puttingHunks work) _ := .hunks put put_db
        exact ⟨wrote, Or.inl (wrote.grows.shas _ sound.2)⟩

theorem TaskSound.mono {store store' : Store} {task : CommitTask}
    (sound : env.TaskSound store commit task)
    (shas : ∀ sha, sha ∈ store.db.shas → sha ∈ store'.db.shas) :
    env.TaskSound store' commit task := by
  cases task with
  | reading => trivial
  | caching work => exact sound
  | puttingCommit work => exact sound
  | puttingHunks work => exact ⟨sound.1, shas _ sound.2⟩

theorem EntrySound.mono {store store' : Store} {outcome : Outcome}
    (sound : env.EntrySound store commit outcome) (grows : store.Grows env.source store') :
    env.EntrySound store' commit outcome := by
  rcases outcome with _ | (_ | _) | _
  · exact sound.imp (grows.shas _) (grows.passed _)
  · trivial
  · exact sound.imp (grows.shas _) (grows.passed _)
  · exact sound

/-- Processing a commit keeps the tables laid out, the tasks and the outcomes sound. -/
theorem taskRules (env : CommitEnv) :
    Pipeline.TaskRules env.process (fun store => store.db.Laid) env.TaskSound env.EntrySound where
  start := fun _ _ _ => trivial
  skip := by
    intro store commit _ found
    simp only [process, Bool.and_eq_true] at found
    exact Or.inl (Commit.commitExists_iff_shas.1 found.2)
  advance := by
    intro store commit task store' progress laid sound advanced
    rcases advance_spec laid sound advanced with ⟨wrote, leads⟩
    exact ⟨wrote.laid laid, fun _ _ other => other.mono wrote.grows.shas,
      fun _ _ other => other.mono wrote.grows, leads⟩

/-- A step of the pipeline leaves the index alone, or a worker makes a write of its commit. -/
theorem wrote_of_step {n : Nat} {s s' : Pipeline Store CommitTask n} {actor : Actor n}
    (kept : Pipeline.Kept (fun store => store.db.Laid) env.TaskSound env.EntrySound s)
    (step : Pipeline.Step env.process s actor s') :
    s'.storage = s.storage ∨ ∃ i commit task, actor = .advance i ∧
      (s.workers i).phase = .processing commit task ∧ env.TaskSound s.storage commit task ∧
      Wrote env commit s.storage task s'.storage := by
  rcases Pipeline.storage_step step with
    ⟨-, same⟩ | ⟨i, commit, task, progress, moved, phase, advanced, -⟩
  · exact Or.inl same
  · have sound := kept.tasks i commit task phase
    exact Or.inr ⟨i, commit, task, moved, phase, sound,
      (advance_spec kept.storage sound advanced).1⟩

end CommitEnv

end Ohara
