import Ohara.Explain.NewestFirst
import Ohara.Index.History

/-!
# What an explanation tells of the history

The commits, diffs and neighbours of an explanation over an index that runs of the indexer have
built are those of the history: a commit that was cut off before its hunks were put is explained
without a diff, and no other diff is short of a hunk.
-/

namespace Ohara

open Selection

theorem Database.Laid.keyed {db : Database} (laid : db.Laid) : db.Keyed := by
  rcases laid with ⟨contents, laid⟩
  rw [laid]
  refine ⟨?_, contents.filePath_ids_nodup⟩
  have shas := contents.commits_nodup
  rwa [← map_row_sha] at shas

namespace Explain

variable {db : Database} {sha path : String}

/-! ## The hunks of a file -/

/-- The rows of a path that have an id. -/
theorem filter_paths (keyed : db.Keyed) (id : Nat) (path : String) :
    ((db.filePath.filter fun filePath =>
      decide (filePath.id = id) && decide (filePath.path = path)).length =
        if db.pathOf id = some path then 1 else 0) := by
  have by_id : db.filePath.filter (fun filePath => decide (filePath.id = id)) =
      (Rows.lookup FilePathRow.id id db.filePath).toList := by
    cases found : Rows.lookup FilePathRow.id id db.filePath with
    | none =>
        apply List.filter_eq_nil_iff.2
        intro row row_mem same
        have taken := List.mem_map_of_mem (f := FilePathRow.id) row_mem
        exact Rows.lookup_eq_none_iff.1 found (of_decide_eq_true same ▸ taken)
    | some row =>
        rcases Rows.mem_of_lookup_eq_some found with ⟨row_mem, rfl⟩
        exact Rows.filter_key_eq_singleton keyed.filePaths row_mem
  have both : (db.filePath.filter fun filePath =>
      decide (filePath.id = id) && decide (filePath.path = path)) =
      ((Rows.lookup FilePathRow.id id db.filePath).toList).filter
        fun filePath => decide (filePath.path = path) := by
    rw [← by_id, List.filter_filter]
    apply List.filter_congr
    intro row _
    rw [Bool.and_comm]
  rw [both]
  cases found : Rows.lookup FilePathRow.id id db.filePath with
  | none =>
      have no_path : db.pathOf id = none := by
        have absent := Rows.lookup_eq_none_iff.1 found
        rw [Database.pathOf, Option.map_eq_none_iff, Rows.lookup_eq_none_iff, List.map_map]
        exact absent
      simp [no_path]
  | some row =>
      simp only [LaneRow.pathOf_of_lookup found, Option.toList_some, Option.some.injEq]
      split
      · simp_all
      · simp_all

/-- The stored hunks of a commit in one file. -/
def fileViews (db : Database) (sha path : String) : List HunkView :=
    (db.hunkViews sha).filter fun view => decide (view.path = some path)

theorem any_path (keyed : db.Keyed) (id : Nat) (path : String) :
    (db.filePath.any fun filePath =>
      decide (filePath.id = id) && decide (filePath.path = path)) =
        decide (db.pathOf id = some path) := by
  have rows := filter_paths keyed id path
  by_cases in_file : db.pathOf id = some path
  · rw [if_pos in_file] at rows
    rcases List.exists_mem_of_length_pos (rows ▸ Nat.one_pos) with ⟨row, row_mem⟩
    rcases List.mem_filter.1 row_mem with ⟨row_mem, matched⟩
    simp only [in_file, decide_true, List.any_eq_true]
    exact ⟨row, row_mem, matched⟩
  · rw [if_neg in_file, List.length_eq_zero_iff, List.filter_eq_nil_iff] at rows
    simp only [in_file, decide_false, List.any_eq_false]
    exact rows

theorem length_fileViews (keyed : db.Keyed) (sha path : String) :
    (fileViews db sha path).length = hunkCount db path sha := by
  simp only [hunkCount, any_path keyed]
  rw [fileViews, Database.hunkViews, List.filter_map, List.length_map, List.filter_filter,
    ← List.countP_eq_length_filter]
  apply List.countP_congr
  intro hunk _
  rw [Bool.and_comm]
  rfl

theorem diffTexts_of_file (keyed : db.Keyed) (sha path : String) :
    (((db.hunk.filter fun hunk => decide (hunk.commitSha = sha)).flatMap fun hunk =>
      (db.filePath.filter fun filePath =>
        decide (filePath.id = hunk.filePathId) && decide (filePath.path = path)).map
          fun filePath => (hunk, filePath)).map fun row => row.1.diffText) =
      (fileViews db sha path).map HunkView.diffText := by
  rw [fileViews, Database.hunkViews, List.filter_map, List.map_map]
  generalize (db.hunk.filter fun hunk => decide (hunk.commitSha = sha)) = hunks
  induction hunks with
  | nil => rfl
  | cons hunk rest ih =>
      have rows : ((db.filePath.filter fun filePath =>
          decide (filePath.id = hunk.filePathId) && decide (filePath.path = path)).map
            fun _ => hunk.diffText) =
          if db.pathOf hunk.filePathId = some path then [hunk.diffText] else [] := by
        rw [List.map_const', filter_paths keyed hunk.filePathId path]
        split <;> rfl
      rw [List.flatMap_cons, List.map_append, ih, List.map_map, List.filter_cons]
      change ((db.filePath.filter fun filePath =>
          decide (filePath.id = hunk.filePathId) && decide (filePath.path = path)).map
            fun _ => hunk.diffText) ++ _ = _
      rw [rows]
      by_cases in_file : db.pathOf hunk.filePathId = some path
      · simp [in_file, Database.hunkView]
      · simp [in_file, Database.hunkView]

theorem diffTexts_of_read {sorter : Sorter} {hunks : List Hunk} (keyed : db.Keyed)
    (read : getHunksForFileInCommit sorter db sha path = .ok hunks) :
    (hunks.map Hunk.diffText).Perm ((fileViews db sha path).map HunkView.diffText) := by
  unfold getHunksForFileInCommit at read
  rw [← diffTexts_of_file keyed]
  refine List.Perm.trans ?_ ((sorter.perm
    (fun row : HunkRow × FilePathRow => row.1.id) _).map fun row => row.1.diffText)
  apply List.Perm.of_eq
  have decoded := Fallible.mapM_eq_ok.1 read
  clear read
  generalize sorter.orderBy (fun row : HunkRow × FilePathRow => row.1.id) _ = rows at decoded ⊢
  induction decoded with
  | nil => rfl
  | cons first _ ih =>
      rcases Fallible.bind_eq_ok.1 first with ⟨kind, -, ⟨⟩⟩
      rw [List.map_cons, List.map_cons, ih]

end Explain

/-- The diffs of the commit's hunks in the file that are not on paths ignored by the run that put
them, in some order. -/
def Repository.GivesDiffs (repository : Repository) (store : Store) (sha file : String)
    (diffs : List String) : Prop :=
    ∃ isIgnored hunks, store.putIgnoring sha = some isIgnored ∧
      repository.source.hunksForCommit sha = .ok hunks ∧
        diffs.Perm (((keptHunks isIgnored hunks).filter
          fun hunk => decide (hunk.filePath = file)).map Hunk.diffText)

namespace Explain

variable {repository : Repository} {store : Store} {sha path : String}

theorem fileViews_of_stored {hunks : List Hunk}
    (stored : (store.db.hunkViews sha).map HunkView.origin = hunks.map Hunk.origin) :
    (fileViews store.db sha path).map HunkView.diffText =
      (hunks.filter fun hunk => decide (hunk.filePath = path)).map Hunk.diffText := by
  have filtered := congrArg (fun origins : List (Option String × String × String) =>
    (origins.filter fun origin => decide (origin.1 = some path)).map fun origin => origin.2.2) stored
  simp only [List.filter_map, List.map_map] at filtered
  have same : (hunks.filter fun hunk => decide ((Hunk.origin hunk).1 = some path)) =
      hunks.filter fun hunk => decide (hunk.filePath = path) := by
    simp [Hunk.origin]
  exact filtered.trans (congrArg (List.map Hunk.diffText) same)

/-- What is read of a commit's diffs of a file is nothing or all that git gives. -/
theorem gives_of_read {sorter : Sorter} {hunks : List Hunk} (laid : store.db.Laid)
    (rows : repository.RowsFromSource store)
    (read : getHunksForFileInCommit sorter store.db sha path = .ok hunks) :
    hunks.map Hunk.diffText = [] ∨
      repository.GivesDiffs store sha path (hunks.map Hunk.diffText) := by
  have perm := diffTexts_of_read laid.keyed read
  rcases rows sha with nothing | ⟨isIgnored, given, ignoring, listed, stored⟩
  · rw [fileViews, nothing] at perm
    exact Or.inl perm.eq_nil
  · rw [fileViews_of_stored stored] at perm
    exact Or.inr ⟨isIgnored, given, ignoring, listed, perm⟩

/-- A commit with stored hunks in a file has them from git. -/
theorem touches_of_count (laid : store.db.Laid) (rows : repository.RowsFromSource store)
    (touched : 0 < hunkCount store.db path sha) :
    ∃ diffs, repository.GivesDiffs store sha path diffs ∧
      diffs.length = hunkCount store.db path sha := by
  rw [← length_fileViews laid.keyed] at touched ⊢
  rcases rows sha with nothing | ⟨isIgnored, given, ignoring, listed, stored⟩
  · rw [fileViews, nothing] at touched
    simp at touched
  · refine ⟨_, ⟨isIgnored, given, ignoring, listed, List.Perm.refl _⟩, ?_⟩
    rw [← fileViews_of_stored stored, List.length_map]

/-! ## Hits and neighbours -/

/-- The hit explains the commit. -/
structure Explains (rfc3339 : Hydrator.DateFormat) (repository : Repository) (store : Store)
    (query : ExplainQuery) (hit : ExplainHit) (commit : CommitMeta) : Prop where
  listed : repository.history.Lists commit
  shown : (hit.commitSha, hit.commitMessage, hit.commitAuthor, hit.commitDate) =
    (commit.commitSha, commit.message, commit.author, rfc3339 commit.ts)
  filePath : hit.filePath = query.file
  diff : ∃ diffs, (diffs = [] ∨ repository.GivesDiffs store commit.commitSha query.file diffs) ∧
    (hit.diffExcerpt, hit.diffTruncated) = if query.includeDiff then
      truncateDiff ("\n".intercalate diffs) diffExcerptMaxLines else ("", false)

/-- The entry tells of a commit with hunks in the file, and of how many. -/
structure Relates (rfc3339 : Hydrator.DateFormat) (repository : Repository) (store : Store)
    (file : String) (entry : RelatedCommit) (commit : CommitMeta) : Prop where
  listed : repository.history.Lists commit
  shown : (entry.commitSha, entry.commitMessage, entry.commitAuthor, entry.commitDate) =
    (commit.commitSha, commit.message, commit.author, rfc3339 commit.ts)
  touched : ∃ diffs, diffs ≠ [] ∧ repository.GivesDiffs store commit.commitSha file diffs ∧
    entry.touchedHunks = touchedHunks diffs.length

theorem hit_of_hydrateRanges {rfc3339 : Hydrator.DateFormat} {storage : ExplainStorage}
    {query : ExplainQuery} {commitMap : String → Option CommitMeta} {ranges : List BlameRange}
    {hits : List ExplainHit} {skipped : List String} {indexed : Nat}
    (split : Hydrator.hydrateRanges rfc3339 storage query commitMap ranges =
      .ok (hits, skipped, indexed)) {hit : ExplainHit} (hit_mem : hit ∈ hits) :
    ∃ sha commit, commitMap sha = some commit ∧
      Hydrator.excerpt storage query commit = .ok (hit.diffExcerpt, hit.diffTruncated) ∧
      (hit.commitSha, hit.commitMessage, hit.commitAuthor, hit.commitDate) =
        (commit.commitSha, commit.message, commit.author, rfc3339 commit.ts) ∧
      hit.filePath = query.file := by
  induction ranges generalizing hits skipped indexed with
  | nil =>
      cases split
      cases hit_mem
  | cons range rest ih =>
      rw [Hydrator.hydrateRanges] at split
      cases found : commitMap range.commitSha with
      | none =>
          rw [found] at split
          rcases Fallible.bind_eq_ok.1 split with ⟨⟨_, _, _⟩, rest_split, ⟨⟩⟩
          exact ih rest_split hit_mem
      | some commit =>
          rw [found] at split
          rcases Fallible.bind_eq_ok.1 split with ⟨⟨diff, truncated⟩, excerpted, split⟩
          rcases Fallible.bind_eq_ok.1 split with ⟨⟨_, _, _⟩, rest_split, ⟨⟩⟩
          rcases List.mem_cons.1 hit_mem with rfl | later
          · exact ⟨range.commitSha, commit, found, excerpted, rfl, rfl⟩
          · exact ih rest_split later

theorem parts_of_hydrated {rfc3339 : Hydrator.DateFormat} {storage : ExplainStorage}
    {query : ExplainQuery} {ranges : List BlameRange} {hydrated : HydratedBlame}
    (returned : Hydrator.hydrateBlameResults rfc3339 storage ranges query = .ok hydrated) :
    ∃ commitMap skipped indexed note,
      storage.getCommitsBySha (ranges.map BlameRange.commitSha) = .ok commitMap ∧
      Hydrator.hydrateRanges rfc3339 storage query commitMap ranges =
        .ok (hydrated.hits, skipped, indexed) ∧
      Hydrator.enrich rfc3339 storage query hydrated.hits = .ok (hydrated.relatedCommits, note) := by
  rw [Hydrator.hydrateBlameResults] at returned
  rcases Fallible.bind_eq_ok.1 returned with ⟨commitMap, read, returned⟩
  rcases Fallible.bind_eq_ok.1 returned with ⟨⟨hits, skipped, indexed⟩, hydrated_hits, returned⟩
  rcases Fallible.bind_eq_ok.1 returned with ⟨⟨related, note⟩, enriched, ⟨⟩⟩
  exact ⟨commitMap, skipped, indexed, note, read, hydrated_hits, enriched⟩

/-- A neighbour is a stored commit with hunks in the file. -/
theorem stored_of_neighbour {sorter : Sorter} {db : Database} (keyed : db.Keyed)
    {anchorSha : String} {limitBefore limitAfter : Nat} {neighbour : Nat × CommitMeta}
    (neighbour_mem : neighbour ∈
      getNeighboringFileCommits sorter db path anchorSha limitBefore limitAfter) :
    ∃ row ∈ db.commitRecord, neighbour.2 = row.commitMeta ∧ 0 < hunkCount db path row.sha ∧
      neighbour.1 = touchedHunks (hunkCount db path row.sha) := by
  have exact_neighbours := getNeighboringFileCommits_exact keyed sorter path anchorSha limitBefore
    limitAfter
  cases indexed : Rows.lookup CommitRow.sha anchorSha db.commitRecord with
  | none =>
      simp only [indexed] at exact_neighbours
      rw [exact_neighbours] at neighbour_mem
      cases neighbour_mem
  | some anchor =>
      simp only [indexed] at exact_neighbours
      rcases exact_neighbours with ⟨windows, counts⟩
      rcases windows.split with ⟨before, after, metas, older, newer⟩
      have meta_mem := List.mem_map_of_mem (f := Prod.snd) neighbour_mem
      rw [metas] at meta_mem
      rcases List.mem_map.1 meta_mem with ⟨row, row_mem, same⟩
      have other : row ∈ others db path anchor := by
        rcases List.mem_append.1 row_mem with old | new
        · exact (List.mem_filter.1 (older.mem row old)).1
        · exact (List.mem_filter.1 (newer.mem row new)).1
      rcases List.mem_filter.1 other with ⟨stored, touches⟩
      simp only [Bool.and_eq_true, decide_eq_true_eq] at touches
      refine ⟨row, stored, same.symm, touches.1, ?_⟩
      rw [counts neighbour neighbour_mem, ← same]
      rfl

section Store

variable {rfc3339 : Hydrator.DateFormat} {sorter : Sorter} {query : ExplainQuery}

theorem listed_of_get (listed : repository.CommitsListed store) {commit : CommitMeta}
    (found : Commit.get store.db sha = some commit) : repository.history.Lists commit := by
  rcases Option.map_eq_some_iff.1 found with ⟨row, looked_up, rfl⟩
  exact listed sha row looked_up

theorem diffs_of_excerpt (laid : store.db.Laid) (rows : repository.RowsFromSource store)
    {commit : CommitMeta} {found : String × Bool}
    (read : Hydrator.excerpt (store.db.explainStorage sorter) query commit = .ok found) :
    ∃ diffs, (diffs = [] ∨ repository.GivesDiffs store commit.commitSha query.file diffs) ∧
      found = if query.includeDiff then
        truncateDiff ("\n".intercalate diffs) diffExcerptMaxLines else ("", false) := by
  unfold Hydrator.excerpt at read
  split at read
  · next included =>
      rcases Fallible.bind_eq_ok.1 read with ⟨hunks, got, ⟨⟩⟩
      exact ⟨_, gives_of_read laid rows got, by rw [if_pos included]⟩
  · next excluded =>
      cases read
      exact ⟨[], Or.inl rfl, by rw [if_neg excluded]⟩

/-- A neighbour that an explanation lists is a commit of the history with hunks in the file. -/
theorem relates_of_neighbour (laid : store.db.Laid) (rows : repository.RowsFromSource store)
    (listed : repository.CommitsListed store) {anchorSha : String} {neighbour : Nat × CommitMeta}
    (neighbour_mem :
      neighbour ∈ getNeighboringFileCommits sorter store.db query.file anchorSha 2 2) :
    ∃ commit,
      Relates rfc3339 repository store query.file (relatedCommit rfc3339 neighbour) commit := by
  rcases stored_of_neighbour laid.keyed neighbour_mem with ⟨row, row_mem, same, touched, count⟩
  rcases touches_of_count laid rows touched with ⟨diffs, gives, length⟩
  have found := Rows.lookup_eq_some_of_mem laid.keyed.commits row_mem
  refine ⟨row.commitMeta, listed row.sha row found, ?_, diffs, ?_, gives, ?_⟩
  · rw [relatedCommit, same]
  · rw [← List.length_pos_iff, length]
    exact touched
  · rw [relatedCommit, count, length]

theorem related_of_enrich {hits : List ExplainHit} {related : List RelatedCommit}
    {note : Option String} (enriched : Hydrator.enrich rfc3339 (store.db.explainStorage sorter)
      query hits = .ok (related, note)) {entry : RelatedCommit} (entry_mem : entry ∈ related) :
    ∃ anchorSha, ∃ neighbour ∈ getNeighboringFileCommits sorter store.db query.file anchorSha 2 2,
      entry = relatedCommit rfc3339 neighbour := by
  unfold Hydrator.enrich at enriched
  split at enriched
  · cases enriched
    cases entry_mem
  · split at enriched
    · cases enriched
      cases entry_mem
    · rcases Fallible.bind_eq_ok.1 enriched with ⟨found, collected, ⟨⟩⟩
      have answers : ∀ sha, (store.db.explainStorage sorter).getNeighboringFileCommits query.file
          sha 2 2 = .ok (getNeighboringFileCommits sorter store.db query.file sha 2 2) :=
        fun _ => rfl
      rcases collectRelatedCommits_exact rfc3339 answers hits with
        ⟨related', collected', related_exact⟩
      cases collected.symm.trans collected'
      rcases related_exact.entries entry entry_mem with ⟨anchor, -, neighbour, mem, same⟩
      exact ⟨anchor, neighbour, mem, same⟩

end Store

/--
What `explain_change` tells over an index is of the history, whatever runs of the indexer have led
to the index: each hit of a commit git lists, with its diffs of the file or without any, and each
neighbour of one that has hunks in the file, with their number.
-/
theorem explanation_from_history (rfc3339 : Hydrator.DateFormat) (sorter : Sorter) (repo : GitRepo)
    (query : ExplainQuery) (repository : Repository) (head : String) (labels : List IndexLabel)
    (s : IndexSystem)
    (ran : Execution.run (IndexSystem.next repository) (IndexSystem.start head) labels = some s)
    (result : ExplainResult)
    (returned : explainChange rfc3339 (s.store.db.explainStorage sorter) repo query = .ok result) :
    (∀ hit ∈ result.hits, ∃ commit, Explains rfc3339 repository s.store query hit commit) ∧
      ∀ entry ∈ result.info.relatedCommits, ∃ commit,
        Relates rfc3339 repository s.store query.file entry commit := by
  rcases IndexSystem.rows_of_run ran with ⟨laid, rows, listed⟩
  rcases Fallible.bind_eq_ok.1 returned with ⟨ranges, -, explained⟩
  rcases Fallible.bind_eq_ok.1 explained with ⟨hydrated, hydrated_eq, assembled⟩
  rcases parts_of_hydrated hydrated_eq with
    ⟨commitMap, skipped, indexed, note, read, hydrated_hits, enriched⟩
  cases read
  cases assembled
  constructor
  · intro hit hit_mem
    have hydrated_mem : hit ∈ hydrated.hits := List.mem_mergeSort.1 (List.mem_of_mem_take hit_mem)
    rcases hit_of_hydrateRanges hydrated_hits hydrated_mem with
      ⟨sha, commit, found, excerpted, shown, file⟩
    exact ⟨commit, listed_of_get listed found, shown, file, diffs_of_excerpt laid rows excerpted⟩
  · intro entry entry_mem
    rcases related_of_enrich enriched entry_mem with ⟨anchor, neighbour, neighbour_mem, rfl⟩
    exact relates_of_neighbour laid rows listed neighbour_mem

/-! The two lines of a file, over the index that one complete run has built. -/

namespace TwoCommitsBlamed

/-- The file on disk: its first line is of the second commit. -/
def repo : GitRepo where
  workdir := some fun _ => some "y\nx"
  blameFile := fun _ => .ok fun line => some (if line = 1 then "b" else "a")
  headBlob := fun _ => none
  firstCommitSha := .ok "a"

/-- Both lines are asked for. -/
def query : ExplainQuery where
  file := "f"
  lineStart := 1
  lineEnd := 2
  k := 5
  includeDiff := true
  includeRelated := true

/-- The blame of the lines, hydrated from the index. -/
def hydrated (s : IndexSystem) : Except OhraError HydratedBlame := do
    let ranges ← Blamer.blameRange repo query.file query.lineStart.toNat query.lineEnd.toNat
    Hydrator.hydrateBlameResults Hydrator.toRfc3339 (s.store.db.explainStorage Sorter.stable) ranges
      query

/-- The explanation of the lines. -/
def answer (s : IndexSystem) : Except OhraError ExplainResult :=
    explainChange Hydrator.toRfc3339 (s.store.db.explainStorage Sorter.stable) repo query

theorem mergeSort_pair {older newer : ExplainHit} (later : newestFirst older newer = false) :
    [older, newer].mergeSort newestFirst = [newer, older] := by
  rw [List.mergeSort]
  simp [List.MergeSort.Internal.splitInTwo, later]

/-- The later of two hits is shown first. -/
theorem answer_of_pair {s : IndexSystem} {blame : HydratedBlame} (read : hydrated s = .ok blame)
    {older newer : ExplainHit} (hits : blame.hits = [older, newer])
    (later : newestFirst older newer = false) :
    ∃ result, answer s = .ok result ∧ result.hits = [newer, older] := by
  refine ⟨assembleExplainResult blame query, ?_, ?_⟩
  · rcases Fallible.bind_eq_ok.1 read with ⟨ranges, blamed, returned⟩
    rw [answer, explainChange, blamed, Fallible.ok_bind, explainRanges, returned]
    rfl
  · rw [assembleExplainResult, hits, mergeSort_pair later]
    rfl

/-- Each of the two commits explains its line. -/
theorem blamed : ((Execution.run (IndexSystem.next TwoCommits.repository) (IndexSystem.start "b")
    TwoCommits.labels).bind fun s => (hydrated s).toOption.map fun blame =>
      (blame.hits.map fun hit => (hit.diffExcerpt, hit.blameLines),
        decide (s.watermark TwoCommits.repository = some "b" ∧ s.head = "b" ∧
          blame.hits.Pairwise fun older newer => newestFirst older newer = false))) =
    some ([("+x", [2]), ("+y", [1])], true) := by
  decide +kernel

/-- The state the run ends in, and what is told there. -/
theorem run_answer : ∃ s result,
    Execution.run (IndexSystem.next TwoCommits.repository) (IndexSystem.start "b")
      TwoCommits.labels = some s ∧ s.watermark TwoCommits.repository = some "b" ∧ s.head = "b" ∧
    answer s = .ok result ∧
    result.hits.map (fun hit => (hit.diffExcerpt, hit.blameLines)) =
      [("+y", [1]), ("+x", [2])] := by
  have found := blamed
  cases ran : Execution.run (IndexSystem.next TwoCommits.repository) (IndexSystem.start "b")
      TwoCommits.labels with
  | none => simp [ran] at found
  | some s =>
      cases read : hydrated s with
      | error e => simp [ran, read, Except.toOption] at found
      | ok blame =>
          simp only [ran, read, Except.toOption, Option.bind_some, Option.map_some,
            Option.some.injEq, Prod.mk.injEq, decide_eq_true_eq] at found
          rcases found with ⟨lines, watermark, head, apart⟩
          rcases List.map_eq_cons_iff.1 lines with ⟨older, _, hits, first, lines⟩
          rcases List.map_eq_cons_iff.1 lines with ⟨newer, _, rfl, second, lines⟩
          rw [List.map_eq_nil_iff.1 lines] at hits
          rw [hits, List.pairwise_pair] at apart
          rcases answer_of_pair read hits apart with ⟨result, answered, sorted⟩
          exact ⟨s, result, rfl, watermark, head, answered, by
            rw [sorted, List.map_cons, List.map_singleton, first, second]⟩

end TwoCommitsBlamed

open TwoCommits TwoCommitsBlamed in
theorem explanation_from_history_two_commits : ∃ s result,
    Execution.run (IndexSystem.next TwoCommits.repository) (IndexSystem.start "b") labels =
      some s ∧
    answer s = .ok result ∧ result.hits.map ExplainHit.diffExcerpt = ["+y", "+x"] ∧
    (∀ hit ∈ result.hits, ∃ commit,
      Explains Hydrator.toRfc3339 TwoCommits.repository s.store query hit commit) ∧
    ∀ entry ∈ result.info.relatedCommits, ∃ commit,
      Relates Hydrator.toRfc3339 TwoCommits.repository s.store query.file entry commit := by
  rcases run_answer with ⟨s, result, ran, -, -, answered, hits⟩
  refine ⟨s, result, ran, answered, ?_, explanation_from_history Hydrator.toRfc3339 Sorter.stable
    repo query TwoCommits.repository "b" labels s ran result answered⟩
  simpa [Function.comp_def] using congrArg (List.map Prod.fst) hits

end Explain

end Ohara
