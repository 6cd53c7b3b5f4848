import Ohara.Engine.Explain

/-!
# Cached answers against an unchanged repository

The requests an engine serves one after the other, while neither the repository nor its index
changes. The cache is keyed without the line range: a request is answered like by the uncached path
when the entry it finds was blamed for the lines it asks for.
-/

namespace Ohara

/-- A call of the engine. -/
inductive EngineCall where
  | explainChange (repoPath : String) (query : ExplainQuery)
  | invalidateRepo (repoPath : String)

namespace RetrievalEngine

variable (world : World)

/-- The engine after the call. -/
def serve (engine : RetrievalEngine) : EngineCall → RetrievalEngine
  | .explainChange repoPath query => (engine.explainChange world repoPath query).2
  | .invalidateRepo repoPath => (engine.invalidateRepo world repoPath).2

/-- The engine as a machine whose labels are the calls it serves. -/
def next (engine : RetrievalEngine) (call : EngineCall) : Option RetrievalEngine :=
    some (engine.serve world call)

/-- An explain request is answered like by the uncached path. -/
def Transparent (engine : RetrievalEngine) : EngineCall → Prop
  | .explainChange repoPath query =>
      (engine.explainChange world repoPath query).1 = world.explainUncached repoPath query
  | .invalidateRepo _ => True

/-- A request whose key is cached asks for the lines the entry was blamed for. -/
def AsksFilledLines (engine : RetrievalEngine) : EngineCall → Prop
  | .explainChange repoPath query =>
      ∀ handle key, world.identify repoPath = .ok handle →
        world.blameKey handle query.file = some key → (engine.blameCache.peek key).isSome →
        world.queriedLines handle query = .ok (engine.filledFor key)
  | .invalidateRepo _ => True

/-- Handles are open, and an entry is the blame of the lines it was filled for. -/
structure Filled (engine : RetrievalEngine) : Prop where
  owned : ∀ handle ∈ engine.repos, world.Owns handle
  opened : ∀ handle ∈ engine.repos, world.openHandle handle = .ok ()
  blamed : ∀ entry ∈ engine.blameCache.entries, ∀ handle, world.Owns handle →
    handle.repoId = entry.1.repoId →
    world.blameLines handle entry.1.file (engine.filledFor entry.1) = .ok entry.2

variable {world} {engine : RetrievalEngine}

theorem filled_new : Filled world new where
  owned := by simp [new]
  opened := by simp [new]
  blamed := by simp [new, BlameCache.new, LruCache.new]

theorem Filled.openRepo {repoPath : String} {handle : RepoHandle} {opened : RetrievalEngine}
    (filled : Filled world engine)
    (ran : engine.openRepo world repoPath = .ok (handle, opened)) :
    world.identify repoPath = .ok handle ∧ world.openHandle handle = .ok () ∧
      opened.blameCache = engine.blameCache ∧ opened.filledFor = engine.filledFor ∧
      Filled world opened := by
  rcases openRepo_ok ran with ⟨identified, found, reused | new⟩
  · rcases reused with ⟨known, same, rfl⟩
    have unique := (filled.owned handle known).unique (World.identify_owns found) same
    subst unique
    exact ⟨found, filled.opened handle known, rfl, rfl, filled⟩
  · rcases new with ⟨rfl, success, rfl⟩
    refine ⟨found, success, rfl, rfl, ?_, ?_, filled.blamed⟩
    · simpa using ⟨World.identify_owns found, filled.owned⟩
    · simpa using ⟨success, filled.opened⟩

/-- Filling a key replaces its entry by the blame of the lines it is filled for. -/
theorem Filled.fill {handle : RepoHandle} {key : BlameKey} {lines : List Nat}
    {ranges : List BlameRange} (filled : Filled world engine) (owns : world.Owns handle)
    (same_repo : key.repoId = handle.repoId)
    (blamed : world.blameLines handle key.file lines = .ok ranges) :
    Filled world (engine.fill key lines ranges) where
  owned := filled.owned
  opened := filled.opened
  blamed := by
    intro entry mem other owns_other same
    rcases LruCache.mem_put mem with rfl | ⟨kept, distinct⟩
    · have unique := owns_other.unique owns (same.trans same_repo)
      subst unique
      simpa [RetrievalEngine.fill] using blamed
    · simpa [RetrievalEngine.fill, Function.update_of_ne distinct] using
        filled.blamed entry kept other owns_other same

theorem Filled.touch {key : BlameKey} (filled : Filled world engine) :
    Filled world { engine with blameCache := (engine.blameCache.get key).2 } where
  owned := filled.owned
  opened := filled.opened
  blamed := by
    intro entry mem
    exact filled.blamed entry (LruCache.mem_get.1 mem)

theorem Filled.blameRanges {handle : RepoHandle} {query : ExplainQuery}
    {ranges : List BlameRange} {engine' : RetrievalEngine} (filled : Filled world engine)
    (owns : world.Owns handle)
    (ran : engine.blameRanges world handle query = .ok (ranges, engine')) :
    Filled world engine' := by
  rcases blameRanges_ok ran with ⟨key, -, -, rfl⟩ | ⟨lines, -, blamed, -, rfl⟩
  · exact filled.touch
  · cases keyed : world.blameKey handle query.file with
    | none => exact filled
    | some key =>
        rcases World.blameKey_repoId keyed with ⟨same_repo, same_file⟩
        rw [← same_file] at blamed
        exact filled.fill owns same_repo blamed

theorem Filled.explainChange (filled : Filled world engine) (repoPath : String)
    (query : ExplainQuery) : Filled world (engine.explainChange world repoPath query).2 := by
  rw [RetrievalEngine.explainChange]
  split
  · exact filled
  · next handle opened success =>
      rcases filled.openRepo success with ⟨identified, -, -, -, still_filled⟩
      split
      · exact still_filled
      · next ranges engine' ran =>
          exact still_filled.blameRanges (World.identify_owns identified) ran

theorem Filled.invalidateRepo (filled : Filled world engine) (repoPath : String) :
    Filled world (engine.invalidateRepo world repoPath).2 := by
  rw [RetrievalEngine.invalidateRepo]
  split
  · exact filled
  · next handle identified =>
      constructor
      · intro known mem
        exact filled.owned known (List.mem_of_mem_filter mem)
      · intro known mem
        exact filled.opened known (List.mem_of_mem_filter mem)
      · intro entry mem
        exact filled.blamed entry (BlameCache.mem_invalidateRepo.1 mem).1

theorem Filled.serve (filled : Filled world engine) (call : EngineCall) :
    Filled world (engine.serve world call) := by
  cases call with
  | explainChange repoPath query => exact filled.explainChange repoPath query
  | invalidateRepo repoPath => exact filled.invalidateRepo repoPath

theorem Filled.ranges_fresh {repoPath : String} {handle : RepoHandle} {query : ExplainQuery}
    {ranges : List BlameRange} {engine' : RetrievalEngine} (filled : Filled world engine)
    (identified : world.identify repoPath = .ok handle)
    (asks : engine.AsksFilledLines world (.explainChange repoPath query))
    (ran : engine.blameRanges world handle query = .ok (ranges, engine')) :
    world.blameRange handle query = .ok ranges := by
  rcases blameRanges_ok ran with ⟨key, keyed, cached, -⟩ | ⟨lines, asked, blamed, -, -⟩
  · have asked := asks handle key identified keyed (by simp [cached])
    rcases World.blameKey_repoId keyed with ⟨same_repo, same_file⟩
    have entry := filled.blamed _ (LruCache.peek_eq_some.1 cached) handle
      (World.identify_owns identified) same_repo.symm
    simpa [World.blameRange, asked, same_file] using entry
  · simpa [World.blameRange, asked] using blamed

/-- A request for the lines its cached entry was blamed for is answered like by the uncached
path. -/
theorem Filled.transparent (filled : Filled world engine) (call : EngineCall)
    (asks : engine.AsksFilledLines world call) : engine.Transparent world call := by
  cases call with
  | invalidateRepo repoPath => trivial
  | explainChange repoPath query =>
      show (engine.explainChange world repoPath query).1 = world.explainUncached repoPath query
      rw [RetrievalEngine.explainChange]
      split
      · next e failed => exact (World.explainUncached_error query (openRepo_error failed)).symm
      · next handle opened success =>
          rcases filled.openRepo success with
            ⟨identified, opened_handle, same_cache, same_lines, still_filled⟩
          have still_asks : opened.AsksFilledLines world (.explainChange repoPath query) := by
            simpa only [AsksFilledLines, same_cache, same_lines] using asks
          rw [World.explainUncached_eq query identified opened_handle]
          split
          · next e failed => simp [(blameRanges_error failed).1]
          · next ranges engine' ran =>
              simp [still_filled.ranges_fresh identified still_asks ran]

/-! ## Two lines of two commits -/

/-- A file of two lines, introduced by two commits. -/
def twoLineRepo : GitRepo where
  workdir := some fun _ => some "a\nb\n"
  blameFile := fun _ => .ok fun line => if line = 1 then some "c1" else some "c2"
  headBlob := fun _ => some ⟨"b1"⟩
  firstCommitSha := .ok "c1"

/-- An index that has every commit and no hunks. -/
def fullIndex : ExplainStorage where
  getCommitsBySha := fun _ => .ok fun sha => some ⟨sha, none, false, none, 0, ""⟩
  getHunksForFileInCommit := fun _ _ => .ok []
  getNeighboringFileCommits := fun _ _ _ _ => .ok []

/-- A world of one repository, opened at its root. -/
def plainWorld (repo : GitRepo) : World where
  canonicalize := .ok
  repo := fun _ => .ok repo
  opensAt := fun _ => true
  repoIdFromParts := fun _ path => ⟨path⟩
  openStorage := fun _ => .ok ()
  storage := fun _ => fullIndex
  rfc3339 := fun _ => "1970-01-01T00:00:00+00:00"
  repoId_path := by
    intro first path first' path' same
    simpa using same

/-- A request for lines of one file. -/
def explainLines (lineStart lineEnd : UInt32) (k : UInt8) : EngineCall :=
    .explainChange "/r" ⟨"f", lineStart, lineEnd, k, false, false⟩

/-- In every sequence of calls in which each request that finds a cached entry asks for the lines
the entry was blamed for, every answer is the one of the uncached path. -/
theorem answers_transparent (world : World) (calls : List EngineCall)
    (asks : Execution.Along (next world) (AsksFilledLines world) new calls) :
    Execution.Along (next world) (Transparent world) new calls := by
  apply Execution.along_of_invariant (Filled world) _ _ filled_new asks
  · rintro s call s' filled - stepped
    cases stepped
    exact filled.serve call
  · intro s call filled asks_lines
    exact filled.transparent call asks_lines

/-- The same lines asked for twice, with another `k`, and once more after an invalidation. -/
theorem answers_transparent_same_lines :
    Execution.Along (next (plainWorld twoLineRepo)) (Transparent (plainWorld twoLineRepo)) new
      [explainLines 1 2 5, explainLines 1 2 1, .invalidateRepo "/r", explainLines 1 1 5] := by
  apply answers_transparent
  refine ⟨?_, fun s' first => ⟨?_, fun s' second => ⟨trivial, fun s' third => ⟨?_, ?_⟩⟩⟩⟩
  · intro handle key identified keyed cached
    simp [new, BlameCache.new, LruCache.new, LruCache.peek] at cached
  · cases first
    intro handle key identified keyed cached
    cases identified
    cases keyed
    rfl
  · cases first
    cases second
    cases third
    intro handle key identified keyed cached
    cases identified
    cases keyed
    cases cached
  · intros
    trivial

/-- The second request asks for the other line and is given the first one's. -/
theorem other_line_answered_from_cache :
    ¬ Execution.Along (next (plainWorld twoLineRepo)) (Transparent (plainWorld twoLineRepo)) new
      [explainLines 1 1 5, explainLines 2 2 5] := by
  intro along
  have second := (along.2 _ rfl).1
  have queried := congrArg
    (fun answer => answer.toOption.map fun result => result.info.linesQueried) second
  exact absurd queried (by decide)

end RetrievalEngine

end Ohara
