import Ohara.Engine.Transparency
import Ohara.Explain.BlamedLines

/-!
# The blame cache across moves of HEAD

HEAD of a repository with a clean work tree moves between requests for the lines of one file. The
cache follows the moves as far as its key does: a hit serves the blame of the HEAD at which the key
was filled, which is the current one's exactly when each line has the same commit of origin at both.
-/

namespace Ohara

namespace Blamer

/-- The entries tell the commit of each line. -/
theorem origins_of_groupLines {blame blame' : FileBlame} {lines : List Nat}
    (same : groupLines blame lines = groupLines blame' lines) :
    ∀ line ∈ lines, blame line = blame' line := by
  have groups := groups_groupLines blame lines
  have groups' := groups_groupLines blame' lines
  rw [same] at groups
  -- A line of a commit is in the commit's entry, whichever blame has made it.
  have moves : ∀ {first second : FileBlame}, Groups first lines (groupLines blame' lines) →
      Groups second lines (groupLines blame' lines) →
      ∀ line ∈ lines, ∀ sha, first line = some sha → second line = some sha := by
    intro first second made made' line line_mem sha blamed
    rcases List.mem_map.1 ((made.shas sha).2 ⟨line, line_mem, blamed⟩) with ⟨r, r_mem, rfl⟩
    have listed : line ∈ r.lines := by
      rw [made.owned r r_mem]
      exact List.mem_filter.2 ⟨line_mem, by simp [blamed]⟩
    rw [made'.owned r r_mem] at listed
    simpa using (List.mem_filter.1 listed).2
  intro line line_mem
  cases found : blame line with
  | some sha => exact (moves groups groups' line line_mem sha found).symm
  | none =>
      cases found' : blame' line with
      | none => rfl
      | some sha =>
          rw [moves groups' groups line line_mem sha found'] at found
          cases found

theorem groupLines_congr {blame blame' : FileBlame} {lines : List Nat}
    (same : ∀ line ∈ lines, blame line = blame' line) :
    groupLines blame lines = groupLines blame' lines := by
  apply List.foldl_ext
  intro ranges line line_mem
  rw [same line line_mem]

end Blamer

universe u

/-- A repository with a clean work tree, as it is at each HEAD, and the lines that are asked for. -/
structure Checkout (Head : Type u) where
  repoPath : String
  canonical : String
  query : ExplainQuery
  base : World
  repo : Head → GitRepo
  storage : Head → RepoId → ExplainStorage
  contents : ContentHash → String
  canonicalized : base.canonicalize repoPath = .ok canonical
  clean : ∀ head, ∃ read, (repo head).workdir = some read ∧
    read query.file = ((repo head).headBlob query.file).map contents

/-- HEAD moves, or a request for the lines is served with some `k` and include flags. -/
inductive CheckoutEvent (Head : Type u) where
  | moveHead (head : Head)
  | explain (k : UInt8) (includeDiff includeRelated : Bool)

/-- The engine, HEAD, and where the cached keys come from. -/
structure CheckoutState (Head : Type u) where
  engine : RetrievalEngine
  head : Head
  /-- Not in the code: the HEAD at which a cached key was filled. -/
  filledAt : BlameKey → Head

namespace Checkout

variable {Head : Type u} (checkout : Checkout Head)

/-- The repository and the index at a HEAD. -/
def worldAt (head : Head) : World :=
    { checkout.base with
      repo := Function.update checkout.base.repo checkout.canonical (.ok (checkout.repo head))
      storage := checkout.storage head }

/-- The request for the lines, with other knobs. -/
def request (k : UInt8) (includeDiff includeRelated : Bool) : ExplainQuery :=
    { checkout.query with k := k, includeDiff := includeDiff, includeRelated := includeRelated }

/-- A key that was not cached before a request has been filled by it, if it is cached after it. -/
def next (s : CheckoutState Head) : CheckoutEvent Head → Option (CheckoutState Head)
  | .moveHead head => some { s with head := head }
  | .explain k includeDiff includeRelated =>
      let query := checkout.request k includeDiff includeRelated
      some { s with
        engine := (s.engine.explainChange (checkout.worldAt s.head) checkout.repoPath query).2
        filledAt := fun key =>
          if (s.engine.blameCache.peek key).isSome then s.filledAt key else s.head }

/-- The ranges a request is answered from are those of a fresh blame at the current HEAD. -/
def ServesFreshBlame (s : CheckoutState Head) : CheckoutEvent Head → Prop
  | .moveHead _ => True
  | .explain k includeDiff includeRelated =>
      ∀ handle opened ranges engine',
        s.engine.openRepo (checkout.worldAt s.head) checkout.repoPath = .ok (handle, opened) →
        opened.blameRanges (checkout.worldAt s.head) handle
          (checkout.request k includeDiff includeRelated) = .ok (ranges, engine') →
        (checkout.worldAt s.head).blameRange handle checkout.query = .ok ranges

/-- The requested lines, as the file at HEAD has them. -/
def lines (head : Head) : Except OhraError (List Nat) :=
    Blamer.clampedLines (checkout.repo head) checkout.query.file checkout.query.lineStart.toNat
      checkout.query.lineEnd.toNat

/-- The commit that a line was last changed by, in the history of a HEAD. -/
def origin (head : Head) (line : Nat) : Except OhraError (Option String) :=
    ((checkout.repo head).blameFile checkout.query.file).map fun blame => blame line

/-- Each requested line comes from the same commit in the histories of two HEADs. -/
def SameOrigins (first second : Head) : Prop :=
    ∀ requested, checkout.lines second = .ok requested → ∀ line ∈ requested, ∃ commit,
      checkout.origin first line = .ok commit ∧ checkout.origin second line = .ok commit

/-- A request whose key (first commit, path, file and blob at HEAD) is cached finds each line with
the origin that it had at the HEAD where the key was filled. -/
def KeepsOrigins (s : CheckoutState Head) : CheckoutEvent Head → Prop
  | .moveHead _ => True
  | .explain _ _ _ => ∀ handle key,
      (checkout.worldAt s.head).identify checkout.repoPath = .ok handle →
      (checkout.worldAt s.head).blameKey handle checkout.query.file = some key →
      (s.engine.blameCache.peek key).isSome = true →
      checkout.SameOrigins (s.filledAt key) s.head

/-- The blame of the requested lines at a HEAD that has this blob of the file. -/
structure BlamedAt (head : Head) (key : BlameKey) (ranges : List BlameRange) : Prop where
  blob : (checkout.repo head).headBlob checkout.query.file = some key.contentHash
  blamed : Blamer.blameRange (checkout.repo head) checkout.query.file
    checkout.query.lineStart.toNat checkout.query.lineEnd.toNat = .ok ranges

/-- Every cached entry is the blame at the HEAD where its key was filled, of a repository that the
engine knows. -/
structure Filled (s : CheckoutState Head) : Prop where
  path : ∀ handle ∈ s.engine.repos, handle.repoPath = checkout.canonical
  blamed : ∀ entry ∈ s.engine.blameCache.entries,
    checkout.BlamedAt (s.filledAt entry.1) entry.1 entry.2
  known : ∀ entry ∈ s.engine.blameCache.entries,
    ∃ handle ∈ s.engine.repos, handle.repoId = entry.1.repoId

variable {checkout} {head first second : Head} {key : BlameKey} {ranges : List BlameRange}
  {handle : RepoHandle}

theorem identify_path
    (identified : (checkout.worldAt head).identify checkout.repoPath = .ok handle) :
    handle.repoPath = checkout.canonical := by
  rcases Fallible.bind_eq_ok.1 identified with ⟨canonical, canonicalized, found⟩
  rcases Fallible.bind_eq_ok.1 found with ⟨repo, -, walked⟩
  rcases Fallible.bind_eq_ok.1 walked with ⟨first, -, digest⟩
  have same := (Fallible.mapError_eq_ok.1 canonicalized).symm.trans checkout.canonicalized
  cases same
  cases digest
  rfl

theorem repo_worldAt (path : handle.repoPath = checkout.canonical) :
    (checkout.worldAt head).repo handle.repoPath = .ok (checkout.repo head) := by
  simp [worldAt, path]

theorem blameRange_worldAt (path : handle.repoPath = checkout.canonical) (query : ExplainQuery) :
    (checkout.worldAt head).blameRange handle query =
      (Blamer.blameRange (checkout.repo head) query.file query.lineStart.toNat
        query.lineEnd.toNat).mapError .core :=
  World.blameRange_of_repo query (repo_worldAt path)

theorem headBlob_of_blameKey (path : handle.repoPath = checkout.canonical)
    (keyed : (checkout.worldAt head).blameKey handle checkout.query.file = some key) :
    (checkout.repo head).headBlob checkout.query.file = some key.contentHash := by
  rcases Option.map_eq_some_iff.1 keyed with ⟨hash, hashed, rfl⟩
  simp only [World.headContentHash, repo_worldAt path] at hashed
  split at hashed
  · exact hashed
  · cases hashed

/-! ## Two HEADs with one blob -/

/-- With a clean work tree, the blob of the file decides which lines there are. -/
theorem lines_eq_of_blob
    (blob : (checkout.repo first).headBlob checkout.query.file =
      (checkout.repo second).headBlob checkout.query.file) :
    checkout.lines first = checkout.lines second := by
  rcases checkout.clean first with ⟨read, workdir, content⟩
  rcases checkout.clean second with ⟨read', workdir', content'⟩
  simp only [lines, Blamer.clampedLines, workdir, workdir', content, content', blob]

/-- The blame of one HEAD is that of another with the same blob exactly when the lines have the same
origins. -/
theorem sameOrigins_iff_blamed (blamed : checkout.BlamedAt first key ranges)
    (blob : (checkout.repo second).headBlob checkout.query.file = some key.contentHash) :
    checkout.SameOrigins first second ↔
      Blamer.blameRange (checkout.repo second) checkout.query.file
        checkout.query.lineStart.toNat checkout.query.lineEnd.toNat = .ok ranges := by
  have lines_eq : checkout.lines first = checkout.lines second :=
    lines_eq_of_blob (blamed.blob.trans blob.symm)
  rcases Fallible.bind_eq_ok.1 blamed.blamed with ⟨requested, asked, lines_blamed⟩
  have asked' : checkout.lines second = .ok requested := lines_eq ▸ asked
  have fresh : Blamer.blameRange (checkout.repo second) checkout.query.file
      checkout.query.lineStart.toNat checkout.query.lineEnd.toNat =
        Blamer.blameLines (checkout.repo second) checkout.query.file requested :=
    congrArg (fun asked => asked >>= Blamer.blameLines _ _) asked'
  rw [fresh]
  by_cases none_asked : requested = []
  · subst none_asked
    simp only [SameOrigins, asked', Except.ok.injEq, forall_eq', List.not_mem_nil, false_implies,
      implies_true, true_iff]
    exact lines_blamed
  rw [Blamer.blameLines, if_neg (by simpa using none_asked)] at lines_blamed ⊢
  rcases Fallible.bind_eq_ok.1 lines_blamed with ⟨blame, ran, ⟨⟩⟩
  cases ran' : (checkout.repo second).blameFile checkout.query.file with
  | error e =>
      rcases List.exists_mem_of_ne_nil _ none_asked with ⟨line, line_mem⟩
      simp only [Fallible.error_bind, reduceCtorEq, iff_false]
      intro same
      rcases same requested asked' line line_mem with ⟨commit, -, origin'⟩
      rw [origin, ran'] at origin'
      cases origin'
  | ok blame' =>
      simp only [Fallible.ok_bind, Fallible.pure_eq_ok, Except.ok.injEq]
      have alike : checkout.SameOrigins first second ↔
          ∀ line ∈ requested, blame' line = blame line := by
        simp [SameOrigins, asked', origin, ran, ran', Except.map]
      rw [alike]
      exact ⟨Blamer.groupLines_congr, Blamer.origins_of_groupLines⟩

/-! ## One step -/

/-- The handle a request is served with is the one of the repository at the current HEAD. -/
theorem Filled.openRepo {s : CheckoutState Head} {opened : RetrievalEngine}
    (filled : checkout.Filled s)
    (ran : s.engine.openRepo (checkout.worldAt s.head) checkout.repoPath = .ok (handle, opened)) :
    (checkout.worldAt s.head).identify checkout.repoPath = .ok handle ∧ handle ∈ opened.repos ∧
      opened.blameCache = s.engine.blameCache ∧ checkout.Filled { s with engine := opened } := by
  rcases RetrievalEngine.openRepo_ok ran with ⟨identified, found, reused | new⟩
  · rcases reused with ⟨known, same, rfl⟩
    have unique : handle = identified := by
      have same_path := (filled.path handle known).trans (identify_path found).symm
      cases handle
      cases identified
      simp_all
    subst unique
    exact ⟨found, known, rfl, filled⟩
  · rcases new with ⟨rfl, success, rfl⟩
    refine ⟨found, List.mem_cons_self, rfl, ?_, filled.blamed, ?_⟩
    · simpa using ⟨identify_path found, filled.path⟩
    · intro entry entry_mem
      rcases filled.known entry entry_mem with ⟨known, known_mem, same⟩
      exact ⟨known, List.mem_cons_of_mem _ known_mem, same⟩

/-- A repository that has an entry in the cache is opened already. -/
theorem Filled.openRepo_of_cached {s : CheckoutState Head} (filled : checkout.Filled s)
    (identified : (checkout.worldAt s.head).identify checkout.repoPath = .ok handle)
    (keyed : (checkout.worldAt s.head).blameKey handle checkout.query.file = some key)
    (cached : s.engine.blameCache.peek key = some ranges) :
    s.engine.openRepo (checkout.worldAt s.head) checkout.repoPath = .ok (handle, s.engine) := by
  rcases filled.known _ (LruCache.peek_eq_some.1 cached) with ⟨known, known_mem, same⟩
  have same_id : known.repoId = handle.repoId := same.trans (World.blameKey_repoId keyed).1
  cases found : s.engine.repos.find? fun existing => decide (existing.repoId = handle.repoId) with
  | none =>
      have differs := List.find?_eq_none.1 found known known_mem
      simp [same_id] at differs
  | some existing =>
      have existing_id : existing.repoId = handle.repoId := by simpa using List.find?_some found
      have existing_path := (filled.path existing (List.mem_of_find?_eq_some found)).trans
        (identify_path identified).symm
      have unique : existing = handle := by
        cases existing
        cases handle
        simp_all
      simp [RetrievalEngine.openRepo, identified, found, unique]

/-- The entry that is served is the blame at the HEAD where it was filled. -/
theorem Filled.servesFreshBlame_iff {s : CheckoutState Head} (filled : checkout.Filled s)
    (event : CheckoutEvent Head) :
    checkout.KeepsOrigins s event ↔ checkout.ServesFreshBlame s event := by
  cases event with
  | moveHead head => exact Iff.rfl
  | explain k includeDiff includeRelated =>
      constructor
      · intro keeps handle opened ranges engine' success ran
        rcases filled.openRepo success with ⟨identified, -, same_cache, -⟩
        have path := identify_path identified
        rcases RetrievalEngine.blameRanges_ok ran with ⟨key, keyed, cached, -⟩ | fresh
        · rw [same_cache] at cached
          have blamed := filled.blamed _ (LruCache.peek_eq_some.1 cached)
          have same := keeps handle key identified keyed (by simp [cached])
          rw [blameRange_worldAt path,
            (sameOrigins_iff_blamed blamed (headBlob_of_blameKey path keyed)).1 same,
            Fallible.mapError_ok]
        · rcases fresh with ⟨lines, asked, blamed, -, -⟩
          have asked_lines :
              (checkout.worldAt s.head).queriedLines handle checkout.query = .ok lines := asked
          have blamed_lines : (checkout.worldAt s.head).blameLines handle checkout.query.file
              lines = .ok ranges := blamed
          simpa [World.blameRange, asked_lines] using blamed_lines
      · intro serves handle key identified keyed is_cached
        rcases Option.isSome_iff_exists.1 is_cached with ⟨ranges, cached⟩
        have path := identify_path identified
        have blamed := filled.blamed _ (LruCache.peek_eq_some.1 cached)
        apply (sameOrigins_iff_blamed blamed (headBlob_of_blameKey path keyed)).2
        have served := serves handle s.engine ranges _
          (filled.openRepo_of_cached identified keyed cached)
          (RetrievalEngine.blameRanges_of_cached keyed cached)
        rw [blameRange_worldAt path] at served
        exact Fallible.mapError_eq_ok.1 served

/-- An entry that a request leaves in the cache was there before, or is the blame at its HEAD. -/
theorem Filled.blameRanges {s : CheckoutState Head} {query : ExplainQuery}
    {engine' : RetrievalEngine} (filled : checkout.Filled s) (known : handle ∈ s.engine.repos)
    (path : handle.repoPath = checkout.canonical)
    (same_file : query.file = checkout.query.file)
    (same_lines : (checkout.worldAt s.head).queriedLines handle query =
      (checkout.worldAt s.head).queriedLines handle checkout.query)
    (ran : s.engine.blameRanges (checkout.worldAt s.head) handle query = .ok (ranges, engine')) :
    checkout.Filled { s with
      engine := engine'
      filledAt := fun key =>
        if (s.engine.blameCache.peek key).isSome then s.filledAt key else s.head } := by
  have kept : ∀ entry ∈ s.engine.blameCache.entries,
      checkout.BlamedAt
        (if (s.engine.blameCache.peek entry.1).isSome then s.filledAt entry.1 else s.head)
        entry.1 entry.2 := by
    intro entry entry_mem
    rw [if_pos (by simp [LruCache.peek_eq_some.2 entry_mem])]
    exact filled.blamed entry entry_mem
  rcases RetrievalEngine.blameRanges_ok ran with
    ⟨key, -, -, rfl⟩ | ⟨lines, asked, blamed, uncached, rfl⟩
  · refine ⟨filled.path, ?_, ?_⟩
    · intro entry mem
      exact kept entry (LruCache.mem_get.1 mem)
    · intro entry mem
      exact filled.known entry (LruCache.mem_get.1 mem)
  · cases keyed : (checkout.worldAt s.head).blameKey handle query.file with
    | none => exact ⟨filled.path, kept, filled.known⟩
    | some key =>
        refine ⟨filled.path, ?_, ?_⟩
        · intro entry mem
          rcases LruCache.mem_put mem with rfl | ⟨old, -⟩
          · simp only [uncached key keyed, Option.isSome_none, Bool.false_eq_true, if_false]
            rw [same_lines] at asked
            rw [same_file] at keyed blamed
            refine ⟨headBlob_of_blameKey path keyed, ?_⟩
            have fresh : (checkout.worldAt s.head).blameRange handle checkout.query =
                .ok ranges := by
              simpa [World.blameRange, asked] using blamed
            rw [blameRange_worldAt path] at fresh
            exact Fallible.mapError_eq_ok.1 fresh
          · exact kept entry old
        · intro entry mem
          rcases LruCache.mem_put mem with rfl | ⟨old, -⟩
          · exact ⟨handle, known, (World.blameKey_repoId keyed).1.symm⟩
          · exact filled.known entry old

theorem Filled.next {s s' : CheckoutState Head} {event : CheckoutEvent Head}
    (filled : checkout.Filled s) (stepped : checkout.next s event = some s') :
    checkout.Filled s' := by
  cases event with
  | moveHead head =>
      cases stepped
      exact ⟨filled.path, filled.blamed, filled.known⟩
  | explain k includeDiff includeRelated =>
      cases stepped
      -- Whatever the cache still holds of what it held keeps the HEAD it was filled at.
      have kept : ∀ {engine : RetrievalEngine}, engine.blameCache = s.engine.blameCache →
          checkout.Filled { s with engine := engine } → checkout.Filled { s with
            engine := engine
            filledAt := fun key =>
              if (s.engine.blameCache.peek key).isSome then s.filledAt key else s.head } := by
        intro engine same_cache still
        refine ⟨still.path, ?_, still.known⟩
        intro entry entry_mem
        have cached : s.engine.blameCache.peek entry.1 = some entry.2 :=
          LruCache.peek_eq_some.2 (same_cache ▸ entry_mem)
        simp only [cached, Option.isSome_some, if_true]
        exact still.blamed entry entry_mem
      simp only [RetrievalEngine.explainChange]
      split
      · exact kept rfl filled
      · next handle opened success =>
          rcases filled.openRepo success with ⟨identified, known, same_cache, still⟩
          split
          · exact kept same_cache still
          · next ranges engine' ran =>
              have filled' := still.blameRanges known (identify_path identified) rfl rfl ran
              rwa [same_cache] at filled'

/-- The engine has just been started. -/
def start (head : Head) : CheckoutState Head where
  engine := RetrievalEngine.new
  head := head
  filledAt := fun _ => head

theorem filled_start : checkout.Filled (start head) where
  path := by simp [start, RetrievalEngine.new]
  blamed := by simp [start, RetrievalEngine.new, BlameCache.new, LruCache.new]
  known := by simp [start, RetrievalEngine.new, BlameCache.new, LruCache.new]

/-- In every sequence of moves of HEAD and of requests for the lines, the blame ranges are those of
a fresh blame exactly when no request finds its key cached from a HEAD at which one of the lines had
another commit of origin. -/
theorem serves_fresh_blame_iff (checkout : Checkout Head) (head : Head)
    (events : List (CheckoutEvent Head)) :
    Execution.Along checkout.next checkout.ServesFreshBlame (start head) events ↔
      Execution.Along checkout.next checkout.KeepsOrigins (start head) events := by
  apply (Execution.along_congr checkout.Filled _ _ filled_start).symm
  · intro s event s' filled _ stepped
    exact filled.next stepped
  · intro s event filled
    exact filled.servesFreshBlame_iff event

/-! ## A change and its revert -/

/-- One line, last changed by the commit at HEAD; commit `c2` changed it to another text. -/
def revertedRepo (head : String) : GitRepo where
  workdir := some fun _ => some (if head = "c2" then "y\n" else "x\n")
  blameFile := fun _ => .ok fun _ => some head
  headBlob := fun _ => some (if head = "c2" then ⟨"by"⟩ else ⟨"bx"⟩)
  firstCommitSha := .ok "c1"

/-- The requests for this line. -/
def revertedCheckout : Checkout String where
  repoPath := "/r"
  canonical := "/r"
  query := ⟨"f", 1, 1, 1, false, false⟩
  base := RetrievalEngine.plainWorld (revertedRepo "c1")
  repo := revertedRepo
  storage := fun _ _ => RetrievalEngine.fullIndex
  contents := fun blob => if blob = ⟨"by"⟩ then "y\n" else "x\n"
  canonicalized := rfl
  clean := by
    intro head
    refine ⟨_, rfl, ?_⟩
    by_cases changed : head = "c2"
    · simp [revertedRepo, changed]
    · simp [revertedRepo, changed]

/-- After the revert the request is answered from the blame that was cached before the change. -/
theorem revert_serves_old_blame :
    ¬ Execution.Along revertedCheckout.next revertedCheckout.ServesFreshBlame
      (start "c1")
      [.explain 1 false false, .moveHead "c2", .explain 1 false false, .moveHead "c3",
        .explain 1 false false] := by
  intro along
  have last := ((((along.2 _ rfl).2 _ rfl).2 _ rfl).2 _ rfl).1
  have fresh := last ⟨⟨"/r"⟩, "/r"⟩ _ [⟨"c1", [1]⟩] _ rfl rfl
  have lines := congrArg Except.toOption fresh
  exact absurd lines (by decide)

end Checkout

end Ohara
