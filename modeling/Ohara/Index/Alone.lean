import Ohara.Index.Footprint

/-!
# A commit processed to its end

The processing of a commit from any of its tasks on, without the steps of other commits in between.
On stores with the same footprint of the commit it ends alike, and it leaves the footprints of all
other commits.
-/

namespace Ohara

namespace CommitEnv

/-- The processing from `put_hunks` on, without a step of another worker. -/
def finishHunks (env : CommitEnv) (commit : CommitMeta) (work : CommitWork) (store : Store) :
    Store × Except OhraError CommitWorkResult :=
    match env.putHunks commit work store with
    | .error e => (store, .error e)
    | .ok done => (done, .ok work.result)

/-- The processing from `put_commit` on, without a step of another worker. -/
def finishCommit (env : CommitEnv) (commit : CommitMeta) (work : CommitWork) (store : Store) :
    Store × Except OhraError CommitWorkResult :=
    match env.putCommit commit work store with
    | .error e => (store, .error e)
    | .ok committed => env.finishHunks commit work committed

/-- The processing from the cache write on, without a step of another worker. -/
def finishCache (env : CommitEnv) (commit : CommitMeta) (work : CommitWork) (store : Store) :
    Store × Except OhraError CommitWorkResult :=
    match env.putCache commit work store with
    | .error e => (store, .error e)
    | .ok cached => env.finishCommit commit work cached

/-- The end of the processing of a commit that is at `task`. -/
def finish (env : CommitEnv) (commit : CommitMeta) :
    CommitTask → Store → Store × Except OhraError CommitWorkResult
  | .reading => env.runCommitTimed commit
  | .caching work => env.finishCache commit work
  | .puttingCommit work => env.finishCommit commit work
  | .puttingHunks work => env.finishHunks commit work

variable {env : CommitEnv} {embedOne : String → Option Vector} {commit : CommitMeta}
  {sha : String} {a b store store' : Store} {work work' : CommitWork} {task : CommitTask}

theorem runCommitTimed_eq (env : CommitEnv) (commit : CommitMeta) (store : Store) :
    env.runCommitTimed commit store =
      match env.readCommit store.db commit with
      | .error e => (store, .error e)
      | .ok none => (store.pass commit.commitSha env.isIgnored, .ok CommitWorkResult.zero)
      | .ok (some work) =>
          env.finish commit (if env.writesCache work then .caching work else .puttingCommit work)
            store := by
  rw [runCommitTimed]
  cases env.readCommit store.db commit with
  | error e => rfl
  | ok read =>
      cases read with
      | none => rfl
      | some work =>
          cases writes : env.writesCache work with
          | false =>
              simp only [writes, Bool.false_eq_true, if_false, finish]
              rfl
          | true =>
              simp only [writes, if_true, finish, finishCache]
              cases env.putCache commit work store with
              | error e => rfl
              | ok cached => rfl

theorem finish_reading (commit : CommitMeta) (store : Store) :
    env.finish commit .reading store = env.runCommitTimed commit store :=
  rfl

theorem finish_advance {progress : Progress CommitTask}
    (advanced : env.advance commit store task = (store', progress)) :
    progress.Leads (fun task' => env.finish commit task store = env.finish commit task' store')
      (fun outcome => ∃ result, outcome = .finished result ∧
        env.finish commit task store = (store', result)) := by
  cases task with
  | reading =>
      rw [finish_reading, runCommitTimed_eq]
      simp only [advance] at advanced
      cases read : env.readCommit store.db commit with
      | error e =>
          rw [read] at advanced
          cases advanced
          exact ⟨_, rfl, rfl⟩
      | ok read_work =>
          rw [read] at advanced
          cases read_work with
          | none =>
              cases advanced
              exact ⟨_, rfl, rfl⟩
          | some work =>
              cases advanced
              rfl
  | caching work =>
      simp only [finish, finishCache]
      rcases settle_cases advanced with ⟨e, put, rfl, rfl⟩ | ⟨put, rfl⟩
      · exact ⟨_, rfl, by rw [put]⟩
      · simp only [put]
        rfl
  | puttingCommit work =>
      simp only [finish, finishCommit]
      rcases settle_cases advanced with ⟨e, put, rfl, rfl⟩ | ⟨put, rfl⟩
      · exact ⟨_, rfl, by rw [put]⟩
      · simp only [put]
        rfl
  | puttingHunks work =>
      simp only [finish, finishHunks]
      rcases settle_cases advanced with ⟨e, put, rfl, rfl⟩ | ⟨put, rfl⟩
      · exact ⟨_, rfl, by rw [put]⟩
      · exact ⟨_, rfl, by rw [put]⟩

/-! ## What is read -/

/-- What the next writes depend on. -/
def CommitWork.content (work : CommitWork) : CommitWorkResult × EmbedOutput :=
    (work.result, work.output)

theorem cachedVectors_agree (sha : String) (hunks : List AttributedHunk) {db db' : Database}
    (vectors : env.stage.vectorIn embedOne db = env.stage.vectorIn embedOne db') :
    (∃ e, env.cachedVectors db sha hunks = .error e ∧ env.cachedVectors db' sha hunks = .error e) ∨
      ∃ cached cached', env.cachedVectors db sha hunks = .ok cached ∧
        env.cachedVectors db' sha hunks = .ok cached' ∧
        ∀ text ∈ hunks.map (EmbedStage.hunkInput env.stage.embedMode),
          env.stage.vectorOf embedOne cached text = env.stage.vectorOf embedOne cached' text := by
  rw [cachedVectors, cachedVectors]
  split
  · next asked =>
      have consults : env.stage.consultsCache = true := by
        simp only [Bool.and_eq_true] at asked
        exact asked.1
      cases env.call sha .embedCacheGetMany with
      | error e => exact Or.inl ⟨e, rfl, rfl⟩
      | ok _ =>
          refine Or.inr ⟨_, _, rfl, rfl, ?_⟩
          intro text input
          rw [EmbedStage.vectorOf_getMany consults db input,
            EmbedStage.vectorOf_getMany consults db' input, vectors]
  · exact Or.inr ⟨[], [], rfl, rfl, fun _ _ => rfl⟩

theorem embedCommit_agree (each : env.stage.embedder.EachText embedOne)
    (collisionFree : Function.Injective env.stage.fromText) {db db' : Database}
    (vectors : env.stage.vectorIn embedOne db = env.stage.vectorIn embedOne db')
    (commit : CommitMeta) (records : List ChunkedHunk) :
    (env.embedCommit db commit records).toOption.map CommitWork.content =
      (env.embedCommit db' commit records).toOption.map CommitWork.content := by
  rw [embedCommit, embedCommit]
  cases (if records.isEmpty then .ok () else env.call commit.commitSha .fileAtCommit :
      Except OhraError Unit) with
  | error e => simp only [Fallible.error_bind]
  | ok _ =>
      simp only [Fallible.ok_bind]
      cases AttributeStage.run env.source env.extract commit.commitSha records with
      | error e => simp only [Fallible.error_bind]
      | ok attributed =>
          simp only [Fallible.ok_bind]
          rcases cachedVectors_agree commit.commitSha attributed vectors with
            ⟨e, failed, failed'⟩ | ⟨cached, cached', read, read', agree⟩
          · rw [failed, failed']
          · rw [read, read']
            simp only [Fallible.ok_bind]
            cases env.call commit.commitSha .embedBatch with
            | error e => simp only [Fallible.error_bind]
            | ok _ =>
                have outputs : (env.stage.run cached commit.message attributed).toOption.map
                    Prod.fst = (env.stage.run cached' commit.message attributed).toOption.map
                    Prod.fst := EmbedStage.run_congr each collisionFree agree
                have contents := congrArg
                  (Option.map fun output => (CommitWorkResult.ofRecords records, output)) outputs
                simp only [Option.map_map] at contents
                simp only [Fallible.ok_bind, Fallible.toOption_bind_pure, Option.map_map]
                exact contents

theorem readCommit_agree (each : env.stage.embedder.EachText embedOne)
    (collisionFree : Function.Injective env.stage.fromText) {db db' : Database}
    (vectors : env.stage.vectorIn embedOne db = env.stage.vectorIn embedOne db')
    (commit : CommitMeta) :
    (env.readCommit db commit).toOption.map (Option.map CommitWork.content) =
      (env.readCommit db' commit).toOption.map (Option.map CommitWork.content) := by
  rw [readCommit, readCommit]
  cases env.call commit.commitSha .hunksForCommit with
  | error e => rfl
  | ok _ =>
      simp only [Fallible.ok_bind]
      cases HunkChunkStage.run env.source commit with
      | error e => rfl
      | ok records =>
          simp only [Fallible.ok_bind]
          split
          · rfl
          · have embedded := congrArg (Option.map some)
              (embedCommit_agree each collisionFree vectors commit
                (retainKept env.isIgnored records))
            simp only [Option.map_map] at embedded
            simp only [Fallible.toOption_bind_pure, Option.map_map]
            exact embedded

/-- The work is the commit's own and is to write back what the embedder computed. -/
structure Prepared (env : CommitEnv) (embedOne : String → Option Vector) (commit : CommitMeta)
    (work : CommitWork) : Prop where
  fromSource : env.FromSource commit work
  computed : env.stage.Computed embedOne work.entries

theorem readCommit_prepared (each : env.stage.embedder.EachText embedOne)
    (collisionFree : Function.Injective env.stage.fromText) {db : Database}
    (read : env.readCommit db commit = .ok (some work)) : env.Prepared embedOne commit work := by
  rcases readCommit_stages read with ⟨hunks, attributed, cached, -, -, ran, -⟩
  exact ⟨readCommit_some read, (EmbedStage.run_embeds each collisionFree ran).2⟩

/-- Works that write the same. -/
structure Matching (env : CommitEnv) (embedOne : String → Option Vector) (commit : CommitMeta)
    (work work' : CommitWork) : Prop where
  left : env.Prepared embedOne commit work
  right : env.Prepared embedOne commit work'
  result : work.result = work'.result
  output : work.output = work'.output

/-- Stores in which texts have the same vectors are read alike. -/
theorem readCommit_cases (each : env.stage.embedder.EachText embedOne)
    (collisionFree : Function.Injective env.stage.fromText)
    (alike : env.Alike embedOne sha a b) (commit : CommitMeta) :
    (∃ e e', env.readCommit a.db commit = .error e ∧ env.readCommit b.db commit = .error e') ∨
      (env.readCommit a.db commit = .ok none ∧ env.readCommit b.db commit = .ok none) ∨
      ∃ work work', env.readCommit a.db commit = .ok (some work) ∧
        env.readCommit b.db commit = .ok (some work') ∧ env.Matching embedOne commit work work' := by
  have agree := readCommit_agree each collisionFree alike.vectors commit
  cases read : env.readCommit a.db commit with
  | error e =>
      cases read' : env.readCommit b.db commit with
      | error e' => exact Or.inl ⟨e, e', rfl, rfl⟩
      | ok work' => simp [read, read', Except.toOption] at agree
  | ok work =>
      cases read' : env.readCommit b.db commit with
      | error e' => simp [read, read', Except.toOption] at agree
      | ok work' =>
          simp only [read, read', Except.toOption, Option.map_some, Option.some.injEq] at agree
          cases work with
          | none =>
              have ignored : work' = none := Option.map_eq_none_iff.1 agree.symm
              exact Or.inr (Or.inl ⟨rfl, by rw [ignored]⟩)
          | some work =>
              rcases Option.map_eq_some_iff.1 agree.symm with ⟨work', rfl, contents⟩
              rw [CommitWork.content, CommitWork.content, Prod.mk.injEq] at contents
              exact Or.inr (Or.inr ⟨work, work', rfl, rfl,
                readCommit_prepared each collisionFree read,
                readCommit_prepared each collisionFree read', contents.1.symm, contents.2.symm⟩)

/-! ## Where the processing ends -/

/-- Ends with the same footprint, where one succeeds exactly when the other does. -/
structure AlikeEnd (env : CommitEnv) (embedOne : String → Option Vector) (sha : String)
    (x y : Store × Except OhraError CommitWorkResult) : Prop where
  store : env.Alike embedOne sha x.1 y.1
  result : x.2.toOption = y.2.toOption

theorem finishHunks_alike (works : env.Matching embedOne commit work work')
    (alike : env.Alike embedOne commit.commitSha a b) :
    env.AlikeEnd embedOne commit.commitSha (env.finishHunks commit work a)
      (env.finishHunks commit work' b) := by
  rw [finishHunks, finishHunks]
  rcases putHunks_alike works.left.fromSource works.right.fromSource works.output alike with
    ⟨e, e', put, put'⟩ | ⟨done, done', put, put', alike_done⟩
  · rw [put, put']
    exact ⟨alike, rfl⟩
  · rw [put, put']
    exact ⟨alike_done, by rw [works.result]⟩

theorem finishCommit_alike (works : env.Matching embedOne commit work work')
    (alike : env.Alike embedOne commit.commitSha a b) :
    env.AlikeEnd embedOne commit.commitSha (env.finishCommit commit work a)
      (env.finishCommit commit work' b) := by
  rw [finishCommit, finishCommit]
  rcases putCommit_alike works.output alike with
    ⟨e, e', put, put'⟩ | ⟨committed, committed', put, put', alike_committed⟩
  · rw [put, put']
    exact ⟨alike, rfl⟩
  · rw [put, put']
    exact finishHunks_alike works alike_committed

theorem finishCache_alike (collisionFree : Function.Injective env.stage.fromText)
    (works : env.Matching embedOne commit work work')
    (alike : env.Alike embedOne commit.commitSha a b) :
    env.AlikeEnd embedOne commit.commitSha (env.finishCache commit work a)
      (env.finishCache commit work' b) := by
  rw [finishCache, finishCache]
  rcases putCache_alike collisionFree works.left.computed works.right.computed alike with
    ⟨e, e', put, put'⟩ | ⟨cached, cached', put, put', alike_cached⟩
  · rw [put, put']
    exact ⟨alike, rfl⟩
  · rw [put, put']
    exact finishCommit_alike works alike_cached

/-- The serial path depends on the commit's own footprint only. -/
theorem runCommitTimed_alike (each : env.stage.embedder.EachText embedOne)
    (collisionFree : Function.Injective env.stage.fromText)
    (alike : env.Alike embedOne commit.commitSha a b) :
    env.AlikeEnd embedOne commit.commitSha (env.runCommitTimed commit a)
      (env.runCommitTimed commit b) := by
  rw [runCommitTimed_eq, runCommitTimed_eq]
  rcases readCommit_cases each collisionFree alike commit with
    ⟨e, e', read, read'⟩ | ⟨read, read'⟩ | ⟨work, work', read, read', works⟩
  · rw [read, read']
    exact ⟨alike, rfl⟩
  · rw [read, read']
    exact ⟨alike.pass _ _ _, rfl⟩
  · have same_write : env.writesCache work = env.writesCache work' := by
      rw [writesCache, writesCache, works.output]
    rw [read, read']
    simp only [same_write]
    split
    · exact finishCache_alike collisionFree works alike
    · exact finishCommit_alike works alike

/-- The work of a task is prepared. -/
def Ready (env : CommitEnv) (embedOne : String → Option Vector) (commit : CommitMeta) :
    CommitTask → Prop
  | .reading => True
  | .caching work => env.Prepared embedOne commit work
  | .puttingCommit work => env.Prepared embedOne commit work
  | .puttingHunks work => env.Prepared embedOne commit work

theorem finish_alike (each : env.stage.embedder.EachText embedOne)
    (collisionFree : Function.Injective env.stage.fromText)
    (ready : env.Ready embedOne commit task) (alike : env.Alike embedOne commit.commitSha a b) :
    env.AlikeEnd embedOne commit.commitSha (env.finish commit task a)
      (env.finish commit task b) := by
  cases task with
  | reading => exact runCommitTimed_alike each collisionFree alike
  | caching work => exact finishCache_alike collisionFree ⟨ready, ready, rfl, rfl⟩ alike
  | puttingCommit work => exact finishCommit_alike ⟨ready, ready, rfl, rfl⟩ alike
  | puttingHunks work => exact finishHunks_alike ⟨ready, ready, rfl, rfl⟩ alike

/-! ## What the processing leaves alone -/

/-- The footprints of all other commits are as they were. -/
structure OthersAlike (env : CommitEnv) (embedOne : String → Option Vector) (commit : CommitMeta)
    (store store' : Store) : Prop where
  laid : store'.db.Laid
  others : ∀ sha, sha ≠ commit.commitSha → env.Alike embedOne sha store' store

theorem OthersAlike.refl (laid : store.db.Laid) : env.OthersAlike embedOne commit store store :=
  ⟨laid, fun _ _ => Alike.refl laid⟩

theorem OthersAlike.pass (laid : store.db.Laid) (isIgnored : String → Bool) :
    env.OthersAlike embedOne commit store (store.pass commit.commitSha isIgnored) :=
  ⟨laid, fun _ _ => ⟨laid, laid, rfl⟩⟩

theorem OthersAlike.trans {store'' : Store} (first : env.OthersAlike embedOne commit store store')
    (second : env.OthersAlike embedOne commit store' store'') :
    env.OthersAlike embedOne commit store store'' :=
  ⟨second.laid, fun sha other => (second.others sha other).trans (first.others sha other)⟩

theorem putCache_others (collisionFree : Function.Injective env.stage.fromText)
    (prepared : env.Prepared embedOne commit work) (laid : store.db.Laid)
    (put : env.putCache commit work store = .ok store') :
    env.OthersAlike embedOne commit store store' := by
  have laid' : store'.db.Laid := by
    rcases putCache_ok put with ⟨rows, rfl⟩
    exact (store.db.sameIndex_aside store.db.repo store.db.indexMetadata rows).laid laid
  exact ⟨laid', fun _ _ => ⟨laid', laid, putCache_footprint collisionFree prepared.computed put⟩⟩

theorem putCommit_others (laid : store.db.Laid)
    (put : env.putCommit commit work store = .ok store') :
    env.OthersAlike embedOne commit store store' := by
  refine ⟨(putCommit_footprint embedOne commit.commitSha laid put).1, ?_⟩
  intro sha other
  rcases putCommit_footprint embedOne sha laid put with ⟨laid', footprint⟩
  exact ⟨laid', laid, by rw [footprint, if_neg other]⟩

theorem putHunks_others (prepared : env.Prepared embedOne commit work) (laid : store.db.Laid)
    (put : env.putHunks commit work store = .ok store') :
    env.OthersAlike embedOne commit store store' := by
  refine ⟨(putHunks_footprint embedOne commit.commitSha laid prepared.fromSource put).1, ?_⟩
  intro sha other
  rcases putHunks_footprint embedOne sha laid prepared.fromSource put with ⟨laid', footprint⟩
  exact ⟨laid', laid, by rw [footprint, if_neg fun mine => other mine.1]⟩

/-- A step of the processing leaves the other commits and leads to a task that is ready. -/
theorem advance_others (each : env.stage.embedder.EachText embedOne)
    (collisionFree : Function.Injective env.stage.fromText)
    (ready : env.Ready embedOne commit task) (laid : store.db.Laid)
    {progress : Progress CommitTask}
    (advanced : env.advance commit store task = (store', progress)) :
    env.OthersAlike embedOne commit store store' ∧
      ∀ task', progress = .running task' → env.Ready embedOne commit task' := by
  cases task with
  | reading =>
      simp only [advance] at advanced
      split at advanced
      · cases advanced
        exact ⟨.refl laid, by simp⟩
      · cases advanced
        exact ⟨.pass laid env.isIgnored, by simp⟩
      · next work read =>
          have prepared := readCommit_prepared each collisionFree read
          cases advanced
          refine ⟨.refl laid, ?_⟩
          rintro task' ⟨⟩
          split
          · exact prepared
          · exact prepared
  | caching work =>
      rcases settle_cases advanced with ⟨e, -, rfl, rfl⟩ | ⟨put, rfl⟩
      · exact ⟨.refl laid, by simp⟩
      · refine ⟨putCache_others collisionFree ready laid put, ?_⟩
        rintro task' ⟨⟩
        exact ready
  | puttingCommit work =>
      rcases settle_cases advanced with ⟨e, -, rfl, rfl⟩ | ⟨put, rfl⟩
      · exact ⟨.refl laid, by simp⟩
      · refine ⟨putCommit_others laid put, ?_⟩
        rintro task' ⟨⟩
        exact ready
  | puttingHunks work =>
      rcases settle_cases advanced with ⟨e, -, rfl, rfl⟩ | ⟨put, rfl⟩
      · exact ⟨.refl laid, by simp⟩
      · exact ⟨putHunks_others ready laid put, by simp⟩

theorem finishHunks_others (prepared : env.Prepared embedOne commit work) (laid : store.db.Laid) :
    env.OthersAlike embedOne commit store (env.finishHunks commit work store).1 := by
  rw [finishHunks]
  cases put : env.putHunks commit work store with
  | error e => exact .refl laid
  | ok done => exact putHunks_others prepared laid put

theorem finishCommit_others (prepared : env.Prepared embedOne commit work)
    (laid : store.db.Laid) :
    env.OthersAlike embedOne commit store (env.finishCommit commit work store).1 := by
  rw [finishCommit]
  cases put : env.putCommit commit work store with
  | error e => exact .refl laid
  | ok committed =>
      have others : env.OthersAlike embedOne commit store committed := putCommit_others laid put
      exact others.trans (finishHunks_others prepared others.laid)

theorem finishCache_others (collisionFree : Function.Injective env.stage.fromText)
    (prepared : env.Prepared embedOne commit work) (laid : store.db.Laid) :
    env.OthersAlike embedOne commit store (env.finishCache commit work store).1 := by
  rw [finishCache]
  cases put : env.putCache commit work store with
  | error e => exact .refl laid
  | ok cached =>
      have others := putCache_others collisionFree prepared laid put
      exact others.trans (finishCommit_others prepared others.laid)

theorem runCommitTimed_others (each : env.stage.embedder.EachText embedOne)
    (collisionFree : Function.Injective env.stage.fromText) (commit : CommitMeta)
    (laid : store.db.Laid) :
    env.OthersAlike embedOne commit store (env.runCommitTimed commit store).1 := by
  rw [runCommitTimed_eq]
  split
  · exact .refl laid
  · exact .pass laid env.isIgnored
  · next work read =>
      have prepared := readCommit_prepared each collisionFree read
      split
      · exact finishCache_others collisionFree prepared laid
      · exact finishCommit_others prepared laid

end CommitEnv

end Ohara
