import Ohara.Index.Actor
import Ohara.Index.Embed
import Ohara.Index.Metadata
import Ohara.Library.Fallible
import Ohara.Storage.Commit
import Ohara.Storage.EmbedCache
import Ohara.Storage.Hunk

/-!
# The processing of one commit

`run_commit_owned`, which the workers of the pipeline run, as a task that makes one storage call at
a time, and `run_commit_timed`, its serial counterpart. A call of the repository, of the embedder or
of the storage layer can fail; a storage call that fails has no effect.
-/

namespace Ohara

/-- The calls that can fail while a commit is processed. -/
inductive CommitCall where
  | hunksForCommit
  | fileAtCommit
  | embedCacheGetMany
  | embedBatch
  | embedCachePutMany
  | putCommit
  | putHunks
deriving DecidableEq

/-- A release: the component versions compiled into it, and what its parsers find in a source and in
the tree of a commit. -/
structure Binary where
  schemaVersion : String
  defaultModelId : String
  defaultDim : Nat
  defaultRerankerId : String
  chunkerVersion : String
  semanticTextVersion : String
  parserVersions : List (String × String)
  parserVersions_nodup : (parserVersions.map Prod.fst).Nodup
  extract : String → String → List Symbol
  headSymbols : String → Except OhraError (List Symbol)

/-- The tables, and what no table records: which run last did what. -/
structure Store where
  db : Database
  /-- What the run that last put a commit's hunks recorded as its versions. -/
  builtBy : String → Option RuntimeIndexMetadata
  /-- The paths that were ignored by the run that last put a commit's hunks. -/
  putIgnoring : String → Option (String → Bool)
  /-- The paths that were ignored by the run that last passed a commit over. -/
  passedIgnoring : String → Option (String → Bool)
  /-- The release of the run that last put the symbols. -/
  symbolsBy : Option Binary

/-- The commit is passed over by a run that ignores every path of its hunks. -/
def Store.pass (store : Store) (sha : String) (isIgnored : String → Bool) : Store :=
    { store with passedIgnoring := Function.update store.passedIgnoring sha (some isIgnored) }

/-- What a run processes its commits with. -/
structure CommitEnv where
  source : CommitSource
  extract : String → String → List Symbol
  isIgnored : String → Bool
  stage : EmbedStage
  build : RuntimeIndexMetadata
  existsFails : String → Bool
  fault : String → CommitCall → Option OhraError

/-- A commit that is ready to be written. -/
structure CommitWork where
  result : CommitWorkResult
  output : EmbedOutput
  entries : List (ContentHash × Vector)

/-- Where the processing of a commit stands. -/
inductive CommitTask where
  | reading
  | caching (work : CommitWork)
  | puttingCommit (work : CommitWork)
  | puttingHunks (work : CommitWork)

/-- An error of the database, as the indexer reports it. -/
def SqlError.toOhra (e : SqlError) : OhraError :=
    .storage (reprStr e)

namespace CommitEnv

variable (env : CommitEnv)

/-- A call either goes through or fails as the run has it. -/
def call (sha : String) (call : CommitCall) : Except OhraError Unit :=
    match env.fault sha call with
    | some e => .error e
    | none => .ok ()

/-- The vectors the cache has for the inputs of the hunks. -/
def cachedVectors (db : Database) (sha : String) (hunks : List AttributedHunk) :
    Except OhraError (List (ContentHash × Vector)) :=
    if env.stage.consultsCache && !hunks.isEmpty then do
      env.call sha .embedCacheGetMany
      pure (EmbedCache.getMany db ((env.stage.hunkInputs hunks).map Prod.snd)
        env.stage.embedder.modelId)
    else pure []

/-- Attribute and embed the records that were kept. -/
def embedCommit (db : Database) (commit : CommitMeta) (records : List ChunkedHunk) :
    Except OhraError CommitWork := do
    (if records.isEmpty then .ok () else env.call commit.commitSha .fileAtCommit)
    let attributed ← AttributeStage.run env.source env.extract commit.commitSha records
    let cached ← env.cachedVectors db commit.commitSha attributed
    env.call commit.commitSha .embedBatch
    let (output, entries) ← env.stage.run cached commit.message attributed
    pure { result := CommitWorkResult.ofRecords records, output := output, entries := entries }

/-- Everything before the first write; none when every path is ignored. -/
def readCommit (db : Database) (commit : CommitMeta) : Except OhraError (Option CommitWork) := do
    env.call commit.commitSha .hunksForCommit
    let records ← HunkChunkStage.run env.source commit
    if fullyIgnored env.isIgnored records then pure none
    else do
      let work ← env.embedCommit db commit (retainKept env.isIgnored records)
      pure (some work)

/-- The embed stage writes what it computed back to the cache. -/
def writesCache (work : CommitWork) : Bool :=
    env.stage.consultsCache && !work.output.hunks.isEmpty

/-- `embed_cache_put_many`. -/
def putCache (commit : CommitMeta) (work : CommitWork) (store : Store) :
    Except OhraError Store := do
    env.call commit.commitSha .embedCachePutMany
    pure { store with
      db := EmbedCache.putMany work.entries env.stage.embedder.modelId store.db }

/-- `put_commit`. -/
def putCommit (commit : CommitMeta) (work : CommitWork) (store : Store) :
    Except OhraError Store := do
    env.call commit.commitSha .putCommit
    let db ← (Commit.put (PersistStage.commitRecord commit work.output) store.db).mapError
      SqlError.toOhra
    pure { store with db := db }

/-- `put_hunks`, as the run puts them. -/
def putHunks (commit : CommitMeta) (work : CommitWork) (store : Store) :
    Except OhraError Store := do
    env.call commit.commitSha .putHunks
    let db ← (Hunk.putMany (PersistStage.hunkRows work.output) store.db).mapError SqlError.toOhra
    pure
      { store with
        db := db
        builtBy :=
          if (PersistStage.hunkRows work.output).isEmpty then store.builtBy
          else Function.update store.builtBy commit.commitSha (some env.build)
        putIgnoring := Function.update store.putIgnoring commit.commitSha (some env.isIgnored) }

/-- A write that went through leads on to `next`; one that failed ends the commit. -/
def settle (store : Store) (written : Except OhraError Store) (next : Progress CommitTask) :
    Store × Progress CommitTask :=
    match written with
    | .ok store' => (store', next)
    | .error e => (store, .finished (.error e))

/-- `run_commit_owned`, one storage call at a time. -/
def advance (commit : CommitMeta) (store : Store) : CommitTask → Store × Progress CommitTask
  | .reading =>
      match env.readCommit store.db commit with
      | .error e => (store, .finished (.error e))
      | .ok none =>
          (store.pass commit.commitSha env.isIgnored, .finished (.ok CommitWorkResult.zero))
      | .ok (some work) =>
          (store, .running (if env.writesCache work then .caching work else .puttingCommit work))
  | .caching work =>
      settle store (env.putCache commit work store) (.running (.puttingCommit work))
  | .puttingCommit work =>
      settle store (env.putCommit commit work store) (.running (.puttingHunks work))
  | .puttingHunks work =>
      settle store (env.putHunks commit work store) (.finished (.ok work.result))

/-- The processing the workers of a run share. -/
def process : CommitProcess Store CommitTask where
  commitExists := fun store commit =>
    !env.existsFails commit.commitSha && Commit.commitExists store.db commit.commitSha
  start := fun _ => .reading
  advance := env.advance

/-! ## The serial path -/

/-- The processing of a commit, without a step of another worker. -/
def runCommitTimed (commit : CommitMeta) (store : Store) :
    Store × Except OhraError CommitWorkResult :=
    match env.readCommit store.db commit with
    | .error e => (store, .error e)
    | .ok none => (store.pass commit.commitSha env.isIgnored, .ok CommitWorkResult.zero)
    | .ok (some work) =>
        match if env.writesCache work then env.putCache commit work store else .ok store with
        | .error e => (store, .error e)
        | .ok cached =>
            match env.putCommit commit work cached with
            | .error e => (cached, .error e)
            | .ok committed =>
                match env.putHunks commit work committed with
                | .error e => (committed, .error e)
                | .ok done => (done, .ok work.result)

/-- One commit of a list: it is skipped when its row is there. -/
def indexOne (store : Store) (commit : CommitMeta) : Store :=
    if env.process.commitExists store commit then store
    else (env.runCommitTimed commit store).1

/-- The commits of a list one by one. -/
def indexSerially (store : Store) (commits : List CommitMeta) : Store :=
    commits.foldl env.indexOne store

end CommitEnv

end Ohara
