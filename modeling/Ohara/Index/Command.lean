import Ohara.Index.Commit
import Ohara.Library.Topological
import Ohara.Storage.Symbol

/-!
# The `index` command

A repository whose HEAD moves, and the invocations of `ohara index` over it, as one machine. An
invocation runs through its storage calls in the order of the command; the commits are indexed by
the actor pipeline in the middle. It can be cut off between any two calls. A call of the command itself
that fails has no effect and ends the invocation: it is a call that is not enabled, and an abort.
-/

namespace Ohara

/-- The commits of a repository as libgit2 walks them. -/
structure GitHistory where
  parents : String → List String
  /-- The commits reachable from the head and not from the hidden one, if there is any. -/
  listCommits : String → Option String → Except OhraError (List CommitMeta)
  walks : ∀ head since walk, listCommits head since = .ok walk →
    Topological.IsWalk (fun child parent => parent ∈ parents child) head
      (fun sha => ∃ w, since = some w ∧
        Relation.ReflTransGen (fun child parent => parent ∈ parents child) w sha)
      (walk.map CommitMeta.commitSha)

/-- `ancestor` is `head` or one of its ancestors. -/
def GitHistory.Reaches (history : GitHistory) (head ancestor : String) : Prop :=
    Relation.ReflTransGen (fun child parent => parent ∈ history.parents child) head ancestor

/-- What the invocations share: the repository, and the hash of a text. -/
structure Repository where
  repoId : RepoId
  path : String
  firstCommitSha : String
  history : GitHistory
  source : CommitSource
  fromText : String → ContentHash

/-- One `ohara index` command line, and the environment it meets. The ignore files are read once in
an invocation, and anew in the next one. -/
structure Invocation where
  binary : Binary
  isIgnored : String → Bool
  embedder : Embedder
  embedCache : EmbedMode
  force : Bool
  incremental : Bool
  rebuild : Bool
  yes : Bool
  workers : Nat
  embedBatch : Nat
  existsFails : String → Bool
  fault : String → CommitCall → Option OhraError

namespace Invocation

/-- The components of the invocation, with a given model. -/
def runtimeMetadataFrom (inv : Invocation) (modelId : String) (dimension : Nat) :
    RuntimeIndexMetadata where
  schemaVersion := inv.binary.schemaVersion
  embeddingModel := modelId
  embeddingDimension := dimension
  rerankerModel := inv.binary.defaultRerankerId
  chunkerVersion := inv.binary.chunkerVersion
  semanticTextVersion := inv.binary.semanticTextVersion
  parserVersions := inv.binary.parserVersions
  embedInputMode := inv.embedCache.indexMetadataValue

/-- What the guard compares with the index, before the embedder is loaded. -/
def runtimeForCheck (inv : Invocation) : RuntimeIndexMetadata :=
    inv.runtimeMetadataFrom inv.binary.defaultModelId inv.binary.defaultDim

/-- What a successful run records. -/
def runtimeMetadata (inv : Invocation) : RuntimeIndexMetadata :=
    inv.runtimeMetadataFrom inv.embedder.modelId inv.embedder.dimension

/-- At least one worker. -/
def nWorkers (inv : Invocation) : Nat :=
    max inv.workers 1

/-- What the run processes its commits with; the cache is wired unless the mode is off. -/
def commitEnv (inv : Invocation) (repository : Repository) : CommitEnv where
  source := repository.source
  extract := inv.binary.extract
  isIgnored := inv.isIgnored
  stage :=
    { embedder := inv.embedder
      embedBatch := inv.embedBatch
      embedMode := inv.embedCache
      cache := inv.embedCache != .off
      fromText := repository.fromText }
  build := inv.runtimeMetadata
  existsFails := inv.existsFails
  fault := inv.fault

end Invocation

/-- The next call of an invocation. The walk and the failed commits are kept from the pipeline on;
of the walk the code keeps its last sha, and of the failed commits their number. -/
inductive CommandPhase (n : Nat) where
  | deletingIndex
  | openingRepo
  | checkingMode
  | clearingSymbols
  | checkingHead
  | listingCommits
  | indexing (walk : List CommitMeta) (pipeline : Pipeline Store CommitTask n)
  | puttingSymbols (walk failed : List CommitMeta)
  | settingWatermark (walk failed : List CommitMeta)
  | puttingMetadata

/-- An invocation that has not ended. -/
structure CommandRun where
  inv : Invocation
  phase : CommandPhase inv.nWorkers

/-- The index, HEAD, and the invocation that is running, if any. -/
structure IndexSystem where
  store : Store
  head : String
  run : Option CommandRun

/-- The steps of HEAD and of the invocations. -/
inductive IndexLabel where
  | moveHead (head : String)
  | invoke (inv : Invocation)
  /-- The next call of the invocation goes through. -/
  | advance
  /-- One step of the pipeline. -/
  | pipeline (n : Nat) (actor : Actor n)
  | abort

/-- An index no run has touched. -/
def Store.fresh : Store where
  db := Database.empty
  builtBy := fun _ => none
  putIgnoring := fun _ => none
  passedIgnoring := fun _ => none
  symbolsBy := none

/-- The commits whose processing failed. -/
def failedCommits (log : List (CommitMeta × Outcome)) : List CommitMeta :=
    log.filterMap fun entry =>
      match entry.2 with
      | .finished (.error _) => some entry.1
      | _ => none

namespace IndexSystem

/-- Nothing is indexed and nothing runs. -/
def start (head : String) : IndexSystem where
  store := Store.fresh
  head := head
  run := none

/-- The invocation moves on. -/
def goto (s : IndexSystem) (inv : Invocation) (phase : CommandPhase inv.nWorkers) : IndexSystem :=
    { s with run := some ⟨inv, phase⟩ }

/-- The invocation has ended. -/
def stop (s : IndexSystem) : IndexSystem :=
    { s with run := none }

/-- The tables after a write. -/
def withDb (s : IndexSystem) (db : Database) : IndexSystem :=
    { s with store := { s.store with db := db } }

/-- A release put the symbols. -/
def withSymbols (s : IndexSystem) (binary : Binary) (db : Database) : IndexSystem :=
    { s with store := { s.store with db := db, symbolsBy := some binary } }

variable (repository : Repository)

/-- `last_indexed_commit`. -/
def watermark (s : IndexSystem) : Option String :=
    Repo.getStatus repository.repoId s.store.db

/-- The recorded components. -/
def recorded (s : IndexSystem) : StoredIndexMetadata :=
    IndexMetadata.get repository.repoId s.store.db

/-- What follows the embed-mode guard. -/
def afterGuard (inv : Invocation) : CommandPhase inv.nWorkers :=
    if inv.force then .clearingSymbols
    else if inv.incremental then .checkingHead
    else .listingCommits

/-- The next call of the running invocation. -/
def advance (s : IndexSystem) (inv : Invocation) : CommandPhase inv.nWorkers → Option IndexSystem
  | .deletingIndex => some ({ s with store := Store.fresh }.goto inv .openingRepo)
  | .openingRepo =>
      let db := Repo.upsert repository.repoId repository.path repository.firstCommitSha s.store.db
      some ((s.withDb db).goto inv (if inv.rebuild then afterGuard inv else .checkingMode))
  | .checkingMode =>
      match CompatibilityStatus.assess inv.runtimeForCheck (s.recorded repository) with
      | .needsRebuild _ => some s.stop
      | _ => some (s.goto inv (afterGuard inv))
  | .clearingSymbols =>
      match Symbol.clearAll s.store.db with
      | .ok db => some ((s.withDb db).goto inv .listingCommits)
      | .error _ => none
  | .checkingHead =>
      if s.watermark repository = some s.head then some s.stop
      else some (s.goto inv .listingCommits)
  | .listingCommits =>
      match repository.history.listCommits s.head (s.watermark repository) with
      | .ok walk => some (s.goto inv (.indexing walk (Pipeline.start inv.nWorkers s.store walk)))
      | .error _ => none
  | .indexing walk pipeline =>
      if pipeline.main = .returned then
        some (s.goto inv (.puttingSymbols walk (failedCommits pipeline.log)))
      else none
  | .puttingSymbols walk failed =>
      match inv.binary.headSymbols s.head with
      | .ok symbols =>
          match Symbol.putMany symbols s.store.db with
          | .ok db =>
              some ((s.withSymbols inv.binary db).goto inv (.settingWatermark walk failed))
          | .error _ => none
      | .error _ => none
  | .settingWatermark walk _ =>
      match walk.getLast? with
      | some last =>
          let db := Repo.setWatermark repository.repoId last.commitSha s.store.db
          some ((s.withDb db).goto inv .puttingMetadata)
      | none => some (s.goto inv .puttingMetadata)
  | .puttingMetadata =>
      let components := inv.runtimeMetadata.toStorageComponents
      some (s.withDb (IndexMetadata.putMany repository.repoId components s.store.db)).stop

/-- One step of the pipeline over the current index. -/
def actorStep (s : IndexSystem) (inv : Invocation) (walk : List CommitMeta)
    (pipeline : Pipeline Store CommitTask inv.nWorkers) (actor : Actor inv.nWorkers) :
    Option IndexSystem :=
    match { pipeline with storage := s.store }.next (inv.commitEnv repository).process actor with
    | some pipeline => some ({ s with store := pipeline.storage }.goto inv (.indexing walk pipeline))
    | none => none

/-- One step of the system. HEAD moves and invocations do not overlap. -/
def next (s : IndexSystem) : IndexLabel → Option IndexSystem
  | .moveHead head => if s.run.isNone then some { s with head := head } else none
  | .invoke inv =>
      if s.run.isSome then none
      else if inv.rebuild && !inv.yes then some s
      else some (s.goto inv (if inv.rebuild then .deletingIndex else .openingRepo))
  | .advance =>
      match s.run with
      | some run => s.advance repository run.inv run.phase
      | none => none
  | .pipeline n actor =>
      match s.run with
      | some ⟨inv, .indexing walk pipeline⟩ =>
          if same : n = inv.nWorkers then
            s.actorStep repository inv walk pipeline (same ▸ actor)
          else none
      | _ => none
  | .abort => if s.run.isSome then some s.stop else none

end IndexSystem

/-! ## A repository of one commit -/

namespace OneCommit

/-- The commit of the examples. -/
def commit : CommitMeta where
  commitSha := "a"
  parentSha := none
  isMerge := false
  author := none
  ts := 0
  message := "m"

/-- Its hunk. -/
def hunk : Hunk where
  commitSha := "a"
  filePath := "f"
  language := none
  changeKind := .added
  diffText := "+x"

/-- The symbol of its file. -/
def symbol : Symbol where
  filePath := "f"
  language := "rust"
  kind := .function
  name := "x"
  qualifiedName := none
  siblingNames := []
  spanStart := 0
  spanEnd := 1
  blobSha := "b"
  sourceText := "x"

/-- Any other head or watermark is unknown to git. -/
def listCommits (head : String) (since : Option String) : Except OhraError (List CommitMeta) :=
    if head = "a" ∧ since = none then .ok [commit]
    else if head = "a" ∧ since = some "a" then .ok []
    else .error (.git "object not found")

theorem isWalk_listCommits (head : String) (since : Option String) (walk : List CommitMeta)
    (listed : listCommits head since = .ok walk) :
    Topological.IsWalk (fun _ parent => parent ∈ ([] : List String)) head
      (fun sha => ∃ w, since = some w ∧
        Relation.ReflTransGen (fun _ parent => parent ∈ ([] : List String)) w sha)
      (walk.map CommitMeta.commitSha) := by
  have alone : ∀ x y : String, Relation.ReflTransGen (fun _ _ => False) x y ↔ y = x :=
    fun _ _ => Relation.reflTransGen_iff_eq (by simp)
  simp only [listCommits] at listed
  split at listed
  · next found =>
      cases listed
      rcases found with ⟨rfl, rfl⟩
      exact ⟨by simp [alone, commit], by simp, by simp⟩
  · split at listed
    · next found =>
        cases listed
        rcases found with ⟨rfl, rfl⟩
        exact ⟨by simp [alone], by simp, by simp⟩
    · cases listed

/-- The repository of this commit. -/
def repository : Repository where
  repoId := ⟨"r"⟩
  path := "/r"
  firstCommitSha := "a"
  history :=
    { parents := fun _ => []
      listCommits := listCommits
      walks := isWalk_listCommits }
  source :=
    { hunksForCommit := fun sha => .ok [{ hunk with commitSha := sha }]
      fileAtCommit := fun _ _ => .ok none
      detectLanguage := fun _ => none
      hunk_sha := by simp
      hunk_language := by simp [hunk] }
  fromText := fun text => ⟨text⟩

/-- A release with the given chunker. -/
def binary (chunkerVersion : String) : Binary where
  schemaVersion := schemaVersion
  defaultModelId := "bge-small-en-v1.5"
  defaultDim := 384
  defaultRerankerId := "bge-reranker-base"
  chunkerVersion := chunkerVersion
  semanticTextVersion := semanticTextVersion
  parserVersions := [("rust", "1")]
  parserVersions_nodup := by simp
  extract := fun _ _ => []
  headSymbols := fun _ => .ok [symbol]

/-- A run with one worker in which no call fails. -/
def invocation (mode : EmbedMode) : Invocation where
  binary := binary "2"
  isIgnored := fun _ => false
  embedder :=
    { modelId := "bge-small-en-v1.5"
      dimension := 384
      embedBatch := fun texts => .ok (texts.map fun _ => List.replicate 384 0) }
  embedCache := mode
  force := false
  incremental := true
  rebuild := false
  yes := false
  workers := 1
  embedBatch := 32
  existsFails := fun _ => false
  fault := fun _ _ => none

/-- The steps of the pipeline up to the reading of the commit. -/
def takeCommit : List IndexLabel :=
    [.pipeline 1 .walk, .pipeline 1 .walk, .pipeline 1 .walk, .pipeline 1 (.acquire 0),
      .pipeline 1 (.receive 0)]

/-- The steps of the pipeline after the last one of the commit. -/
def returnPipeline : List IndexLabel :=
    [.pipeline 1 (.acquire 0), .pipeline 1 (.receive 0), .pipeline 1 .join, .pipeline 1 .join,
      .pipeline 1 .join, .advance]

/-- An invocation that comes to index the commit in `steps` steps. -/
def indexing (inv : Invocation) (steps : Nat) : List IndexLabel :=
    [.invoke inv, .advance, .advance, .advance, .advance] ++ takeCommit ++
      List.replicate steps (.pipeline 1 (.advance 0))

/-- The calls after the pipeline. -/
def finish : List IndexLabel :=
    [.advance, .advance, .advance]

end OneCommit

end Ohara
