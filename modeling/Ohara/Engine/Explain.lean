import Ohara.Explain.Change
import Ohara.Library.Execution
import Ohara.Library.Fallible
import Ohara.Library.Lru

/-!
# The engine's explain path

The long-lived engine keeps the handles of the repositories it has opened and a cache of blame
results, keyed by repository, file and the blob of the file at HEAD.
-/

namespace Ohara

/-- The errors of the engine. -/
inductive EngineError where
  | core (error : OhraError)
  | storage (message : String)
  | git (message : String)
  | internal (message : String)
deriving DecidableEq, Repr

/-- What a cached blame is found by. -/
structure BlameKey where
  repoId : RepoId
  file : String
  contentHash : ContentHash
deriving DecidableEq, Repr

/-- The blame ranges of the files last asked for. -/
abbrev BlameCache := LruCache BlameKey (List BlameRange)

namespace BlameCache

/-- A cache of the given capacity; zero is promoted to one. -/
def new (capacity : Nat) : BlameCache :=
    LruCache.new (max capacity 1) (Nat.le_max_right capacity 1)

/-- Remove all entries of a repository. -/
def invalidateRepo (cache : BlameCache) (repoId : RepoId) : BlameCache :=
    let keys := (cache.entries.filter fun entry => decide (entry.1.repoId = repoId)).map Prod.fst
    keys.foldl LruCache.pop cache

@[simp]
theorem mem_invalidateRepo {cache : BlameCache} {repoId : RepoId}
    {entry : BlameKey × List BlameRange} :
    entry ∈ (cache.invalidateRepo repoId).entries ↔
      entry ∈ cache.entries ∧ entry.1.repoId ≠ repoId :=
  LruCache.mem_foldl_pop_filter fun key : BlameKey => key.repoId = repoId

end BlameCache

/-- A repository on disk and its index, as the engine finds them when a request is served. -/
structure World where
  canonicalize : String → Except String String
  /-- `Repository::discover`: the repository of the path or of a directory above it. -/
  repo : String → Except String GitRepo
  /-- `Repository::open` succeeds: the repository is at the path itself. -/
  opensAt : String → Bool
  /-- Digest of the first commit's sha and the canonical path. -/
  repoIdFromParts : String → String → RepoId
  openStorage : RepoId → Except EngineError Unit
  storage : RepoId → ExplainStorage
  rfc3339 : Hydrator.DateFormat
  /-- The digest keeps paths apart. -/
  repoId_path : ∀ first path first' path',
    repoIdFromParts first path = repoIdFromParts first' path' → path = path'

/-- An opened repository. -/
structure RepoHandle where
  repoId : RepoId
  repoPath : String
deriving DecidableEq, Repr

namespace World

variable (world : World)

/-- The repository's id and canonical path. -/
def identify (repoPath : String) : Except EngineError RepoHandle := do
    let canonical ← (world.canonicalize repoPath).mapError fun e => .internal s!"canonicalize: {e}"
    let walker ← (world.repo canonical).mapError fun e => .git s!"open walker: {e}"
    let first ← walker.firstCommitSha.mapError fun e => .git s!"first_commit_sha: {e}"
    pure ⟨world.repoIdFromParts first canonical, canonical⟩

/-- Open the storage and the blamer behind a handle. -/
def openHandle (handle : RepoHandle) : Except EngineError Unit := do
    world.openStorage handle.repoId
    let _ ← (world.repo handle.repoPath).mapError fun e => .git s!"blamer open: {e}"
    pure ()

/-- `compute_head_content_hash`: none skips the cache, as below the root of a work tree. -/
def headContentHash (handle : RepoHandle) (file : String) : Option ContentHash :=
    match world.repo handle.repoPath with
    | .ok repo => if world.opensAt handle.repoPath then repo.headBlob file else none
    | .error _ => none

/-- The key under which the blame of `file` is cached. -/
def blameKey (handle : RepoHandle) (file : String) : Option BlameKey :=
    (world.headContentHash handle file).map fun hash => ⟨handle.repoId, file, hash⟩

/-- The lines of the file that the query asks for. -/
def queriedLines (handle : RepoHandle) (query : ExplainQuery) : Except EngineError (List Nat) := do
    let repo ← (world.repo handle.repoPath).mapError EngineError.git
    (Blamer.clampedLines repo query.file query.lineStart.toNat query.lineEnd.toNat).mapError .core

/-- Blame of a list of lines of a file. -/
def blameLines (handle : RepoHandle) (file : String) (lines : List Nat) :
    Except EngineError (List BlameRange) := do
    let repo ← (world.repo handle.repoPath).mapError EngineError.git
    (Blamer.blameLines repo file lines).mapError .core

/-- The blame of the queried lines, computed anew. -/
def blameRange (handle : RepoHandle) (query : ExplainQuery) :
    Except EngineError (List BlameRange) := do
    let lines ← world.queriedLines handle query
    world.blameLines handle query.file lines

/-- Hydration of blame ranges through the handle's storage, with the assembled result. -/
def explainRanges (handle : RepoHandle) (query : ExplainQuery) (ranges : List BlameRange) :
    Except EngineError ExplainResult :=
    (Explain.explainRanges world.rfc3339 (world.storage handle.repoId) ranges query).mapError .core

/-- The uncached path: open the repository and run `explain_change` on what its handle holds. -/
def explainUncached (repoPath : String) (query : ExplainQuery) :
    Except EngineError ExplainResult := do
    let handle ← world.identify repoPath
    world.openHandle handle
    let repo ← (world.repo handle.repoPath).mapError EngineError.git
    (Explain.explainChange world.rfc3339 (world.storage handle.repoId) repo query).mapError .core

variable {world}

theorem blameRange_of_repo {handle : RepoHandle} {repo : GitRepo} (query : ExplainQuery)
    (found : world.repo handle.repoPath = .ok repo) :
    world.blameRange handle query =
      (Blamer.blameRange repo query.file query.lineStart.toNat query.lineEnd.toNat).mapError
        .core := by
  simp [blameRange, queriedLines, blameLines, Blamer.blameRange, found, Fallible.mapError_bind]

theorem openHandle_repo {handle : RepoHandle} (opened : world.openHandle handle = .ok ()) :
    ∃ repo, world.repo handle.repoPath = .ok repo := by
  rcases Fallible.bind_eq_ok.1 opened with ⟨_, -, blamer⟩
  rcases Fallible.bind_eq_ok.1 blamer with ⟨repo, found, -⟩
  exact ⟨repo, Fallible.mapError_eq_ok.1 found⟩

/-- On an opened repository the uncached path is a fresh blame and what follows every blame. -/
theorem explainUncached_eq {repoPath : String} {handle : RepoHandle} (query : ExplainQuery)
    (identified : world.identify repoPath = .ok handle)
    (opened : world.openHandle handle = .ok ()) :
    world.explainUncached repoPath query =
      world.blameRange handle query >>= world.explainRanges handle query := by
  rcases openHandle_repo opened with ⟨repo, found⟩
  rw [blameRange_of_repo query found]
  simp only [explainUncached, identified, opened, found, Fallible.ok_bind, Fallible.mapError_ok,
    Explain.explainChange, Fallible.mapError_bind]
  rfl

theorem explainUncached_error {repoPath : String} {e : EngineError} (query : ExplainQuery)
    (failed : (world.identify repoPath >>= world.openHandle) = .error e) :
    world.explainUncached repoPath query = .error e := by
  rcases Fallible.bind_eq_error.1 failed with unknown | ⟨handle, identified, closed⟩
  · simp [explainUncached, unknown]
  · simp [explainUncached, identified, closed]

/-- The handle's id is the digest of its path. -/
def Owns (world : World) (handle : RepoHandle) : Prop :=
    ∃ first, handle.repoId = world.repoIdFromParts first handle.repoPath

theorem Owns.unique {handle other : RepoHandle} (owns : world.Owns handle)
    (owns_other : world.Owns other) (same : handle.repoId = other.repoId) : handle = other := by
  rcases owns with ⟨first, digest⟩
  rcases owns_other with ⟨first', digest'⟩
  have path : handle.repoPath = other.repoPath := by
    apply world.repoId_path first _ first' _
    rw [← digest, ← digest', same]
  cases handle
  cases other
  simp_all

theorem identify_owns {repoPath : String} {handle : RepoHandle}
    (identified : world.identify repoPath = .ok handle) : world.Owns handle := by
  rcases Fallible.bind_eq_ok.1 identified with ⟨canonical, -, found⟩
  rcases Fallible.bind_eq_ok.1 found with ⟨repo, -, walked⟩
  rcases Fallible.bind_eq_ok.1 walked with ⟨first, -, digest⟩
  cases digest
  exact ⟨first, rfl⟩

theorem blameKey_repoId {handle : RepoHandle} {file : String} {key : BlameKey}
    (keyed : world.blameKey handle file = some key) :
    key.repoId = handle.repoId ∧ key.file = file := by
  rcases Option.map_eq_some_iff.1 keyed with ⟨hash, -, rfl⟩
  exact ⟨rfl, rfl⟩

end World

/-- The engine's handles and blame cache. -/
structure RetrievalEngine where
  repos : List RepoHandle
  blameCache : BlameCache
  /-- Not in the code: the lines the entry of a key was blamed for when it was put. -/
  filledFor : BlameKey → List Nat

namespace RetrievalEngine

/-- An engine that has opened nothing. -/
def new : RetrievalEngine where
  repos := []
  blameCache := BlameCache.new 64
  filledFor := fun _ => []

/-- `open_repo`: reuse the handle of the repository or open a new one. -/
def openRepo (world : World) (engine : RetrievalEngine) (repoPath : String) :
    Except EngineError (RepoHandle × RetrievalEngine) := do
    let handle ← world.identify repoPath
    match engine.repos.find? fun existing => decide (existing.repoId = handle.repoId) with
    | some existing => pure (existing, engine)
    | none => do
        world.openHandle handle
        pure (handle, { engine with repos := handle :: engine.repos })

/-- Put a fresh blame into the cache. -/
def fill (engine : RetrievalEngine) (key : BlameKey) (lines : List Nat)
    (ranges : List BlameRange) : RetrievalEngine :=
    { engine with
      blameCache := engine.blameCache.put key ranges
      filledFor := Function.update engine.filledFor key lines }

/-- Run the blamer and cache what it returns, when there is a key to cache it under. -/
def blameAndFill (world : World) (engine : RetrievalEngine) (handle : RepoHandle)
    (query : ExplainQuery) (key : Option BlameKey) :
    Except EngineError (List BlameRange × RetrievalEngine) := do
    let lines ← world.queriedLines handle query
    let ranges ← world.blameLines handle query.file lines
    match key with
    | some key => pure (ranges, engine.fill key lines ranges)
    | none => pure (ranges, engine)

/-- The blame ranges a request is answered from: the cached ones, or a fresh blame. -/
def blameRanges (world : World) (engine : RetrievalEngine) (handle : RepoHandle)
    (query : ExplainQuery) : Except EngineError (List BlameRange × RetrievalEngine) :=
    let key := world.blameKey handle query.file
    match key with
    | none => engine.blameAndFill world handle query none
    | some key =>
        match engine.blameCache.get key with
        | (some cached, cache) => pure (cached, { engine with blameCache := cache })
        | (none, cache) =>
            blameAndFill world { engine with blameCache := cache } handle query (some key)

/-- The request: the repository is opened, the blame looked up or computed, and hydrated. -/
def explainChange (world : World) (engine : RetrievalEngine) (repoPath : String)
    (query : ExplainQuery) : Except EngineError ExplainResult × RetrievalEngine :=
    match engine.openRepo world repoPath with
    | .error e => (.error e, engine)
    | .ok (handle, opened) =>
        match opened.blameRanges world handle query with
        | .error e => (.error e, opened)
        | .ok (ranges, engine') => (world.explainRanges handle query ranges, engine')

/-- `RetrievalEngine::invalidate_repo`: forget the handle and the blame of the repository. -/
def invalidateRepo (world : World) (engine : RetrievalEngine) (repoPath : String) :
    Except EngineError Unit × RetrievalEngine :=
    match world.identify repoPath with
    | .error e => (.error e, engine)
    | .ok handle =>
        (.ok (),
          { engine with
            repos := engine.repos.filter fun existing => decide (existing.repoId ≠ handle.repoId)
            blameCache := engine.blameCache.invalidateRepo handle.repoId })

variable {world : World} {engine : RetrievalEngine}

theorem openRepo_ok {repoPath : String} {handle : RepoHandle} {opened : RetrievalEngine}
    (ran : engine.openRepo world repoPath = .ok (handle, opened)) :
    ∃ identified, world.identify repoPath = .ok identified ∧
      ((handle ∈ engine.repos ∧ handle.repoId = identified.repoId ∧ opened = engine) ∨
        (handle = identified ∧ world.openHandle handle = .ok () ∧
          opened = { engine with repos := handle :: engine.repos })) := by
  rcases Fallible.bind_eq_ok.1 ran with ⟨identified, found, rest⟩
  refine ⟨identified, found, ?_⟩
  split at rest
  · next existing hit =>
      cases rest
      exact Or.inl ⟨List.mem_of_find?_eq_some hit, by simpa using List.find?_some hit, rfl⟩
  · rcases Fallible.bind_eq_ok.1 rest with ⟨_, opened_handle, remembered⟩
    cases remembered
    exact Or.inr ⟨rfl, opened_handle, rfl⟩

theorem openRepo_error {repoPath : String} {e : EngineError}
    (failed : engine.openRepo world repoPath = .error e) :
    (world.identify repoPath >>= world.openHandle) = .error e := by
  rcases Fallible.bind_eq_error.1 failed with unknown | ⟨identified, found, rest⟩
  · simp [unknown]
  · split at rest
    · cases rest
    · rcases Fallible.bind_eq_error.1 rest with closed | ⟨_, -, remembered⟩
      · simp [found, closed]
      · cases remembered

theorem blameAndFill_error {handle : RepoHandle} {query : ExplainQuery} {key : Option BlameKey}
    {e : EngineError} (failed : engine.blameAndFill world handle query key = .error e) :
    world.blameRange handle query = .error e := by
  rcases Fallible.bind_eq_error.1 failed with unasked | ⟨lines, asked, rest⟩
  · simp [World.blameRange, unasked]
  · rcases Fallible.bind_eq_error.1 rest with unblamed | ⟨ranges, -, filled⟩
    · simp [World.blameRange, asked, unblamed]
    · cases key <;> cases filled

theorem blameAndFill_ok {handle : RepoHandle} {query : ExplainQuery} {key : Option BlameKey}
    {ranges : List BlameRange} {engine' : RetrievalEngine}
    (ran : engine.blameAndFill world handle query key = .ok (ranges, engine')) :
    ∃ lines, world.queriedLines handle query = .ok lines ∧
      world.blameLines handle query.file lines = .ok ranges ∧
      engine' = key.elim engine fun key => engine.fill key lines ranges := by
  rcases Fallible.bind_eq_ok.1 ran with ⟨lines, asked, rest⟩
  rcases Fallible.bind_eq_ok.1 rest with ⟨fresh, blamed, filled⟩
  refine ⟨lines, asked, ?_⟩
  cases key with
  | none =>
      cases filled
      exact ⟨blamed, rfl⟩
  | some key =>
      cases filled
      exact ⟨blamed, rfl⟩

/-- The ranges of a request come from the cache, or they are a fresh blame that is cached. -/
theorem blameRanges_ok {handle : RepoHandle} {query : ExplainQuery} {ranges : List BlameRange}
    {engine' : RetrievalEngine}
    (ran : engine.blameRanges world handle query = .ok (ranges, engine')) :
    (∃ key, world.blameKey handle query.file = some key ∧
        engine.blameCache.peek key = some ranges ∧
        engine' = { engine with blameCache := (engine.blameCache.get key).2 }) ∨
      (∃ lines, world.queriedLines handle query = .ok lines ∧
        world.blameLines handle query.file lines = .ok ranges ∧
        (∀ key, world.blameKey handle query.file = some key →
          engine.blameCache.peek key = none) ∧
        engine' = (world.blameKey handle query.file).elim engine fun key =>
          engine.fill key lines ranges) := by
  rw [blameRanges] at ran
  cases keyed : world.blameKey handle query.file with
  | none =>
      simp only [keyed] at ran
      rcases blameAndFill_ok ran with ⟨lines, asked, blamed, filled⟩
      exact Or.inr ⟨lines, asked, blamed, by simp, filled⟩
  | some key =>
      simp only [keyed] at ran
      have looked_up := LruCache.get_fst engine.blameCache key
      split at ran
      · next cached cache hit =>
          cases ran
          rw [hit] at looked_up
          exact Or.inl ⟨key, rfl, looked_up.symm, by rw [hit]⟩
      · next cache miss =>
          rw [miss] at looked_up
          have unchanged : cache = engine.blameCache := by
            rw [← LruCache.get_snd_of_none looked_up.symm, miss]
          subst unchanged
          rcases blameAndFill_ok ran with ⟨lines, asked, blamed, filled⟩
          refine Or.inr ⟨lines, asked, blamed, ?_, filled⟩
          rintro _ ⟨⟩
          exact looked_up.symm

theorem blameRanges_of_cached {handle : RepoHandle} {query : ExplainQuery} {key : BlameKey}
    {ranges : List BlameRange} (keyed : world.blameKey handle query.file = some key)
    (cached : engine.blameCache.peek key = some ranges) :
    engine.blameRanges world handle query =
      .ok (ranges, { engine with blameCache := (engine.blameCache.get key).2 }) := by
  have found := LruCache.get_fst engine.blameCache key
  rcases lookup : engine.blameCache.get key with ⟨value, cache⟩
  rw [lookup, cached] at found
  cases found
  simp [blameRanges, keyed, lookup]

/-- A request fails for want of blame only where a fresh blame fails. -/
theorem blameRanges_error {handle : RepoHandle} {query : ExplainQuery} {e : EngineError}
    (failed : engine.blameRanges world handle query = .error e) :
    world.blameRange handle query = .error e ∧
      ∀ key, world.blameKey handle query.file = some key → engine.blameCache.peek key = none := by
  rw [blameRanges] at failed
  cases keyed : world.blameKey handle query.file with
  | none =>
      simp only [keyed] at failed
      exact ⟨blameAndFill_error failed, by simp⟩
  | some key =>
      simp only [keyed] at failed
      have looked_up := LruCache.get_fst engine.blameCache key
      split at failed
      · cases failed
      · next cache miss =>
          refine ⟨blameAndFill_error failed, ?_⟩
          intro key' same
          cases same
          rw [← looked_up, miss]

end RetrievalEngine

end Ohara
