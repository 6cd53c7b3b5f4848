import Ohara.Explain.Hydrator
import Ohara.Storage.Explain

/-!
# Contextual neighbours

What the two joins of `get_neighboring_file_commits` select, against the commits that have a hunk
in the file, and what `collect_related_commits` keeps of the neighbours of several anchors.
-/

namespace Ohara

open Selection

namespace Explain

/-- The number of hunks a commit has in a file. -/
def hunkCount (db : Database) (path sha : String) : Nat :=
    db.hunk.countP fun hunk => decide (hunk.commitSha = sha) &&
      db.filePath.any fun filePath =>
        decide (filePath.id = hunk.filePathId) && decide (filePath.path = path)

/-- The commits with a hunk in the file, apart from the anchor. -/
def others (db : Database) (path : String) (anchor : CommitRow) : List CommitRow :=
    db.commitRecord.filter fun commit =>
      decide (0 < hunkCount db path commit.sha) && decide (commit.sha ≠ anchor.sha)

section Joins

variable {db : Database} {path : String}

variable (path) in
theorem countP_paths (keyed : db.Keyed) (id : Nat) :
    (db.filePath.filter fun filePath => decide (filePath.id = id)).countP
      (fun filePath => decide (filePath.path = path)) =
        if (db.filePath.any fun filePath =>
          decide (filePath.id = id) && decide (filePath.path = path)) then 1 else 0 := by
  by_cases taken : id ∈ db.filePath.map FilePathRow.id
  · rcases List.mem_map.1 taken with ⟨filePath, filePath_mem, rfl⟩
    have singleton := Rows.filter_key_eq_singleton keyed.filePaths filePath_mem
    have any_filter : (db.filePath.any fun other =>
        decide (other.id = filePath.id) && decide (other.path = path)) =
          [filePath].any fun other => decide (other.path = path) := by
      rw [← singleton, List.any_filter]
    simp [any_filter, singleton, List.countP_cons]
  · have absent : ∀ filePath ∈ db.filePath, filePath.id ≠ id := by
      intro filePath filePath_mem same
      exact taken (same ▸ List.mem_map_of_mem filePath_mem)
    have no_row : (db.filePath.filter fun filePath => decide (filePath.id = id)) = [] := by
      simpa using absent
    have no_match : (db.filePath.any fun filePath =>
        decide (filePath.id = id) && decide (filePath.path = path)) = false := by
      simp
      intro filePath filePath_mem same
      exact absurd same (absent filePath filePath_mem)
    simp [no_row, no_match]

theorem countP_joinFiles (keyed : db.Keyed) (commit : CommitRow) (hunks : List HunkRow) :
    (hunks.flatMap fun hunk =>
      (db.filePath.filter fun filePath => decide (filePath.id = hunk.filePathId)).map
        fun filePath => (⟨hunk, filePath, commit⟩ : LaneRow)).countP
          (fun row => decide (row.filePath.path = path)) =
      hunks.countP fun hunk => db.filePath.any fun filePath =>
        decide (filePath.id = hunk.filePathId) && decide (filePath.path = path) := by
  induction hunks with
  | nil => rfl
  | cons hunk rest ih =>
      have head := countP_paths path keyed hunk.filePathId
      rw [List.flatMap_cons, List.countP_append, ih, List.countP_map, List.countP_cons,
        Nat.add_comm]
      congr 1

theorem countP_fileRows (keyed : db.Keyed) {commit : CommitRow}
    (commit_mem : commit ∈ db.commitRecord) :
    (fileRows db path).countP (fun row => decide (row.commit.sha = commit.sha)) =
      hunkCount db path commit.sha := by
  have own_block : db.joinCommits.filter (fun row => decide (row.commit.sha = commit.sha)) =
      (db.hunk.filter fun hunk => decide (hunk.commitSha = commit.sha)).flatMap fun hunk =>
        (db.filePath.filter fun filePath => decide (filePath.id = hunk.filePathId)).map
          fun filePath => ⟨hunk, filePath, commit⟩ := by
    rw [Database.joinCommits, Rows.filter_flatMap _ _ fun other => decide (other.sha = commit.sha),
      Rows.filter_key_eq_singleton keyed.commits commit_mem]
    · simp
    · intro other _ row row_mem
      simp only [List.mem_flatMap, List.mem_map] at row_mem
      rcases row_mem with ⟨hunk, _, filePath, _, rfl⟩
      rfl
  have swapped : (fileRows db path).countP (fun row => decide (row.commit.sha = commit.sha)) =
      (db.joinCommits.filter fun row => decide (row.commit.sha = commit.sha)).countP
        fun row => decide (row.filePath.path = path) := by
    rw [fileRows, List.countP_filter, List.countP_filter]
    congr 1
    funext row
    exact Bool.and_comm _ _
  rw [swapped, own_block, countP_joinFiles keyed, List.countP_filter, hunkCount]
  congr 1
  funext hunk
  exact Bool.and_comm _ _

theorem commit_of_mem_fileRows {row : LaneRow} (row_mem : row ∈ fileRows db path) :
    row.commit ∈ db.commitRecord := by
  have joined := (List.mem_filter.1 row_mem).1
  simp only [Database.joinCommits, List.mem_flatMap, List.mem_map] at joined
  rcases joined with ⟨commit, commit_mem, hunk, _, filePath, _, rfl⟩
  exact commit_mem

theorem mem_commits_fileRows (keyed : db.Keyed) {commit : CommitRow} :
    (∃ row ∈ fileRows db path, row.commit = commit) ↔
      commit ∈ db.commitRecord ∧ 0 < hunkCount db path commit.sha := by
  constructor
  · rintro ⟨row, row_mem, rfl⟩
    have commit_mem := commit_of_mem_fileRows row_mem
    rw [← countP_fileRows keyed commit_mem, List.countP_pos_iff]
    exact ⟨commit_mem, row, row_mem, by simp⟩
  · rintro ⟨commit_mem, counted⟩
    rw [← countP_fileRows keyed commit_mem, List.countP_pos_iff] at counted
    rcases counted with ⟨row, row_mem, same⟩
    refine ⟨row, row_mem, ?_⟩
    apply List.inj_on_of_nodup_map keyed.commits (commit_of_mem_fileRows row_mem) commit_mem
    simpa using same

/-! ### One side of the anchor -/

/-- The side's groups are the commits on it that have hunks in the file, with their counts. -/
theorem mem_groupBySha (keyed : db.Keyed) (keep : CommitRow → Bool) {group : Nat × CommitRow}
    (group_mem : group ∈ groupBySha ((fileRows db path).filter fun row => keep row.commit)) :
    group.2 ∈ db.commitRecord ∧ keep group.2 = true ∧ 0 < hunkCount db path group.2.sha ∧
      group.1 = hunkCount db path group.2.sha := by
  rcases List.mem_map.1 group_mem with ⟨row, row_first, rfl⟩
  rcases List.mem_filter.1 (mem_of_mem_firsts row_first) with ⟨row_mem, kept⟩
  have commit_mem := commit_of_mem_fileRows row_mem
  refine ⟨commit_mem, kept, ((mem_commits_fileRows keyed).1 ⟨row, row_mem, rfl⟩).2, ?_⟩
  rw [List.countP_filter, ← countP_fileRows keyed commit_mem]
  apply List.countP_congr
  intro other other_mem
  have kept_together : other.commit.sha = row.commit.sha → keep other.commit = true := by
    intro same
    rwa [List.inj_on_of_nodup_map keyed.commits (commit_of_mem_fileRows other_mem) commit_mem same]
  simpa using kept_together

theorem map_sha_groupBySha (rows : List LaneRow) :
    (groupBySha rows).map (fun group => group.2.sha) =
      (firsts (fun row => row.commit.sha) rows).map fun row => row.commit.sha := by
  simp [groupBySha]

variable (path) in
/-- Sorted by any key of the commits, the groups rank the commits on the side. -/
theorem ranking_groupBySha {τ : Type} [LinearOrder τ] (sorter : Sorter) (keyed : db.Keyed)
    (rank : CommitRow → τ) (keep : CommitRow → Bool) :
    Ranking CommitRow.sha rank
      (db.commitRecord.filter fun commit =>
        keep commit && decide (0 < hunkCount db path commit.sha))
      ((sorter.orderBy (fun group => rank group.2)
        (groupBySha ((fileRows db path).filter fun row => keep row.commit))).map Prod.snd) where
  mem commit commit_mem := by
    rcases List.mem_map.1 commit_mem with ⟨group, group_mem, rfl⟩
    have grouped := mem_groupBySha keyed keep ((sorter.perm _ _).subset group_mem)
    simp [grouped]
  keys commit commit_mem := by
    rcases List.mem_filter.1 commit_mem with ⟨stored, on_side⟩
    rw [Bool.and_eq_true, decide_eq_true_eq] at on_side
    rcases (mem_commits_fileRows keyed).2 ⟨stored, on_side.2⟩ with ⟨row, row_mem, rfl⟩
    rw [List.map_map, ((sorter.perm _ _).map _).mem_iff]
    change row.commit.sha ∈ (groupBySha _).map fun group => group.2.sha
    rw [map_sha_groupBySha, mem_map_firsts]
    exact List.mem_map_of_mem (f := fun row : LaneRow => row.commit.sha)
      (List.mem_filter.2 ⟨row_mem, on_side.1⟩)
  nodup := by
    rw [List.map_map, ((sorter.perm _ _).map _).nodup_iff]
    change ((groupBySha _).map fun group => group.2.sha).Nodup
    rw [map_sha_groupBySha]
    exact nodup_firsts _
  best commit commit_mem other other_mem same := by
    rcases List.mem_map.1 commit_mem with ⟨group, group_mem, rfl⟩
    have grouped := mem_groupBySha keyed keep ((sorter.perm _ _).subset group_mem)
    rw [List.inj_on_of_nodup_map keyed.commits (List.mem_filter.1 other_mem).1 grouped.1 same]
  sorted := (sorter.sorted _ _).map _ fun _ _ before => before

/-- The two windows around an anchor: as many commits as the limits allow, the nearest first. -/
structure Windows (db : Database) (path : String) (anchor : CommitRow)
    (limitBefore limitAfter : Nat) (neighbours : List (Nat × CommitMeta)) : Prop where
  split : ∃ before after : List CommitRow,
    neighbours.map Prod.snd = (before ++ after).map CommitRow.commitMeta ∧
      TopK CommitRow.sha newestFirstKey limitBefore
        ((others db path anchor).filter fun commit => decide (commit.ts ≤ anchor.ts)) before ∧
      TopK CommitRow.sha oldestFirstKey limitAfter
        ((others db path anchor).filter fun commit => decide (anchor.ts < commit.ts)) after
  distinct : (neighbours.map fun neighbour => neighbour.2.commitSha).Nodup
  anchor_absent : anchor.sha ∉ neighbours.map fun neighbour => neighbour.2.commitSha

theorem filter_others (anchor : CommitRow) (side : CommitRow → Bool) :
    (others db path anchor).filter side = db.commitRecord.filter fun commit =>
      (decide (commit.sha ≠ anchor.sha) && side commit) &&
        decide (0 < hunkCount db path commit.sha) := by
  rw [others, List.filter_filter]
  apply List.filter_congr
  intro commit _
  cases side commit <;> simp [Bool.and_comm]

variable (path) in
/-- What one of the two statements returns, before its rows are read. -/
theorem topK_side {τ : Type} [LinearOrder τ] (sorter : Sorter) (keyed : db.Keyed)
    (rank : CommitRow → τ) (anchor : CommitRow) (side : CommitRow → Bool) (limit : Nat) :
    let groups := (sorter.orderBy (fun group => rank group.2) (groupBySha
      ((fileRows db path).filter fun row =>
        decide (row.commit.sha ≠ anchor.sha) && side row.commit))).take limit
    TopK CommitRow.sha rank limit ((others db path anchor).filter side) (groups.map Prod.snd) ∧
      ∀ group ∈ groups, group.1 = hunkCount db path group.2.sha := by
  intro groups
  have ranking := ranking_groupBySha path sorter keyed rank fun commit =>
    decide (commit.sha ≠ anchor.sha) && side commit
  rw [← filter_others] at ranking
  constructor
  · rw [List.map_take]
    exact ranking.topK limit
  · intro group group_mem
    have grouped := (sorter.perm _ _).subset (List.mem_of_mem_take group_mem)
    exact (mem_groupBySha keyed (fun commit => decide (commit.sha ≠ anchor.sha) && side commit)
      grouped).2.2.2

theorem topK_others {τ : Type} [LinearOrder τ] {rank : CommitRow → τ} {anchor : CommitRow}
    {side : CommitRow → Bool} {limit : Nat} {chosen : List CommitRow}
    (top : TopK CommitRow.sha rank limit ((others db path anchor).filter side) chosen)
    {commit : CommitRow} (commit_mem : commit ∈ chosen) :
    commit ∈ db.commitRecord ∧ commit.sha ≠ anchor.sha ∧ side commit = true := by
  have chosen_mem := top.mem commit commit_mem
  rw [filter_others, List.mem_filter] at chosen_mem
  simp at chosen_mem
  exact ⟨chosen_mem.1, chosen_mem.2.1⟩

theorem nodup_windows {τ τ' : Type} [LinearOrder τ] [LinearOrder τ'] (keyed : db.Keyed)
    {rank : CommitRow → τ} {rank' : CommitRow → τ'} {anchor : CommitRow}
    {limitBefore limitAfter : Nat} {before after : List CommitRow}
    (older : TopK CommitRow.sha rank limitBefore
      ((others db path anchor).filter fun commit => decide (commit.ts ≤ anchor.ts)) before)
    (newer : TopK CommitRow.sha rank' limitAfter
      ((others db path anchor).filter fun commit => decide (anchor.ts < commit.ts)) after) :
    ((before ++ after).map CommitRow.sha).Nodup := by
  rw [List.map_append, List.nodup_append]
  refine ⟨older.nodup, newer.nodup, ?_⟩
  rintro _ sha_before _ sha_after rfl
  rcases List.mem_map.1 sha_before with ⟨commit, commit_mem, rfl⟩
  rcases List.mem_map.1 sha_after with ⟨other, other_mem, same⟩
  have left := topK_others older commit_mem
  have right := topK_others newer other_mem
  rw [List.inj_on_of_nodup_map keyed.commits right.1 left.1 same] at right
  simp only [decide_eq_true_eq] at left right
  omega

/-- Every indexed anchor has its windows, and an unindexed one has no neighbours. The hunks of each
neighbour are reported through `count`. -/
def NeighboursExact (count : Nat → Nat) (sorter : Sorter) (db : Database) (path : String) : Prop :=
    ∀ anchorSha limitBefore limitAfter,
      let neighbours := getNeighboringFileCommits sorter db path anchorSha limitBefore limitAfter
      match Rows.lookup CommitRow.sha anchorSha db.commitRecord with
      | none => neighbours = []
      | some anchor =>
          Windows db path anchor limitBefore limitAfter neighbours ∧
            ∀ neighbour ∈ neighbours,
              neighbour.1 = count (hunkCount db path neighbour.2.commitSha)

theorem windows_of_groups {anchor : CommitRow} {limitBefore limitAfter : Nat}
    {older newer : List (Nat × CommitRow)} (keyed : db.Keyed)
    (before : TopK CommitRow.sha newestFirstKey limitBefore
      ((others db path anchor).filter fun commit => decide (commit.ts ≤ anchor.ts))
      (older.map Prod.snd))
    (after : TopK CommitRow.sha oldestFirstKey limitAfter
      ((others db path anchor).filter fun commit => decide (anchor.ts < commit.ts))
      (newer.map Prod.snd)) :
    Windows db path anchor limitBefore limitAfter ((older ++ newer).map readNeighbour) := by
  have shas : ((older ++ newer).map readNeighbour).map (fun neighbour => neighbour.2.commitSha) =
      (older.map Prod.snd ++ newer.map Prod.snd).map CommitRow.sha := by
    simp only [List.map_append, List.map_map]
    rfl
  refine ⟨⟨older.map Prod.snd, newer.map Prod.snd, ?_, before, after⟩, ?_, ?_⟩
  · simp only [List.map_append, List.map_map]
    rfl
  · rw [shas]
    exact nodup_windows keyed before after
  · rw [shas]
    intro anchor_mem
    rcases List.mem_map.1 anchor_mem with ⟨commit, commit_mem, same⟩
    rcases List.mem_append.1 commit_mem with old | new
    · exact (topK_others before old).2.1 same
    · exact (topK_others after new).2.1 same

theorem getNeighboringFileCommits_exact (keyed : db.Keyed) (sorter : Sorter) (path : String) :
    NeighboursExact touchedHunks sorter db path := by
  intro anchorSha limitBefore limitAfter neighbours
  cases indexed : Rows.lookup CommitRow.sha anchorSha db.commitRecord with
  | none => simp [neighbours, getNeighboringFileCommits, indexed]
  | some anchor =>
      rcases topK_side path sorter keyed newestFirstKey anchor
        (fun commit => decide (commit.ts ≤ anchor.ts)) limitBefore with ⟨before, old_counts⟩
      rcases topK_side path sorter keyed oldestFirstKey anchor
        (fun commit => decide (anchor.ts < commit.ts)) limitAfter with ⟨after, new_counts⟩
      simp only [neighbours, getNeighboringFileCommits, indexed, ← List.map_append]
      refine ⟨windows_of_groups keyed before after, ?_⟩
      intro neighbour neighbour_mem
      rcases List.mem_map.1 neighbour_mem with ⟨group, group_mem, rfl⟩
      have counted : group.1 = hunkCount db path group.2.sha := by
        rcases List.mem_append.1 group_mem with old | new
        · exact old_counts group old
        · exact new_counts group new
      exact congrArg touchedHunks counted

end Joins

/-! ### Several anchors -/

/-- The entry pushed for a neighbour. -/
def relatedCommit (rfc3339 : Hydrator.DateFormat) (neighbour : Nat × CommitMeta) :
    RelatedCommit where
  commitSha := neighbour.2.commitSha
  commitMessage := neighbour.2.message
  commitAuthor := neighbour.2.author
  commitDate := rfc3339 neighbour.2.ts
  touchedHunks := neighbour.1
  provenance := .inferred

/-- Distinct commits, no anchor among them, and every other neighbour of an anchor. -/
structure RelatedExact (rfc3339 : Hydrator.DateFormat)
    (neighbours : String → List (Nat × CommitMeta)) (anchors : List String)
    (related : List RelatedCommit) : Prop where
  distinct : (related.map RelatedCommit.commitSha).Nodup
  entries : ∀ entry ∈ related, ∃ anchor ∈ anchors, ∃ neighbour ∈ neighbours anchor,
    entry = relatedCommit rfc3339 neighbour
  mem_iff : ∀ sha, sha ∈ related.map RelatedCommit.commitSha ↔
    sha ∉ anchors ∧
      ∃ anchor ∈ anchors, ∃ neighbour ∈ neighbours anchor, neighbour.2.commitSha = sha

section Anchors

variable (rfc3339 : Hydrator.DateFormat) (anchors : List String)

/-- The sha a neighbour is told apart by. -/
def neighbourSha (neighbour : Nat × CommitMeta) : String :=
    neighbour.2.commitSha

theorem freshNeighbours_eq (seen : List String) (neighbours : List (Nat × CommitMeta)) :
    Hydrator.freshNeighbours rfc3339 anchors seen neighbours =
      (firstsFrom neighbourSha (seen ++ anchors) neighbours).map (relatedCommit rfc3339) := by
  induction neighbours generalizing seen with
  | nil => rfl
  | cons neighbour rest ih =>
      rcases neighbour with ⟨touched, commit⟩
      rw [Hydrator.freshNeighbours, firstsFrom, ih, ih]
      simp only [neighbourSha, List.mem_append, or_comm (a := commit.commitSha ∈ anchors)]
      split
      · rfl
      · rfl

/-- Over all anchors together the loop keeps the first entry of each sha that is no anchor. -/
theorem collectRelatedCommits_eq {storage : ExplainStorage} {file : String}
    {neighbours : String → List (Nat × CommitMeta)}
    (answers : ∀ sha, storage.getNeighboringFileCommits file sha 2 2 = .ok (neighbours sha))
    (hits : List ExplainHit) (found : List (Nat × CommitMeta)) :
    Hydrator.collectRelatedCommits rfc3339 storage file anchors
        ((firstsFrom neighbourSha anchors found).map (relatedCommit rfc3339)) hits =
      .ok ((firstsFrom neighbourSha anchors
        (found ++ hits.flatMap fun hit => neighbours hit.commitSha)).map
          (relatedCommit rfc3339)) := by
  induction hits generalizing found with
  | nil =>
      rw [Hydrator.collectRelatedCommits, List.flatMap_nil, List.append_nil]
      rfl
  | cons hit rest ih =>
      have listed : ((firstsFrom neighbourSha anchors found).map (relatedCommit rfc3339)).map
          RelatedCommit.commitSha = (firstsFrom neighbourSha anchors found).map neighbourSha := by
        simp [relatedCommit, neighbourSha]
      have seen : ∀ sha, sha ∈ (firstsFrom neighbourSha anchors found).map neighbourSha ++ anchors ↔
          sha ∈ found.map neighbourSha ++ anchors := by
        intro sha
        rw [List.mem_append, mem_map_firstsFrom, List.mem_append]
        tauto
      rw [Hydrator.collectRelatedCommits, answers]
      simp only [bind, Except.bind]
      rw [listed, freshNeighbours_eq, firstsFrom_congr seen, ← List.map_append,
        ← firstsFrom_append, ih, List.flatMap_cons, List.append_assoc]

theorem collectRelatedCommits_exact {storage : ExplainStorage} {file : String}
    {neighbours : String → List (Nat × CommitMeta)}
    (answers : ∀ sha, storage.getNeighboringFileCommits file sha 2 2 = .ok (neighbours sha))
    (hits : List ExplainHit) :
    ∃ related,
      Hydrator.collectRelatedCommits rfc3339 storage file (hits.map ExplainHit.commitSha) [] hits =
        .ok related ∧
      RelatedExact rfc3339 neighbours (hits.map ExplainHit.commitSha) related := by
  have collected := collectRelatedCommits_eq rfc3339 (hits.map ExplainHit.commitSha) answers hits []
  refine ⟨_, collected, ?_, ?_, ?_⟩
  · rw [List.map_map]
    change ((firstsFrom neighbourSha _ _).map neighbourSha).Nodup
    exact nodup_firstsFrom _ _
  · intro entry entry_mem
    rcases List.mem_map.1 entry_mem with ⟨neighbour, kept, rfl⟩
    have listed := (firstsFrom_sublist _ _).subset kept
    simp only [List.nil_append, List.mem_flatMap] at listed
    rcases listed with ⟨hit, hit_mem, neighbour_mem⟩
    exact ⟨hit.commitSha, List.mem_map_of_mem hit_mem, neighbour, neighbour_mem, rfl⟩
  · intro sha
    rw [List.map_map]
    change sha ∈ (firstsFrom neighbourSha _ _).map neighbourSha ↔ _
    rw [mem_map_firstsFrom, List.nil_append, List.map_flatMap, and_comm]
    simp only [List.mem_flatMap, List.mem_map, exists_exists_and_eq_and, neighbourSha]

end Anchors

end Explain

/-- The explain reads of the SQLite storage; two of them cannot fail on the rows alone. -/
def Database.explainStorage (sorter : Sorter) (db : Database) : ExplainStorage where
  getCommitsBySha _ := .ok (Commit.get db)
  getHunksForFileInCommit sha path := Explain.getHunksForFileInCommit sorter db sha path
  getNeighboringFileCommits path sha limitBefore limitAfter :=
    .ok (Explain.getNeighboringFileCommits sorter db path sha limitBefore limitAfter)

namespace Explain

/-- A count of `2 ^ 32` or more does not fit the column and is reported as zero. -/
theorem related_enrichment_exact {db : Database} (keyed : db.Keyed) (sorter : Sorter)
    (path : String) :
    NeighboursExact (fun count => if count < 2 ^ 32 then count else 0) sorter db path ∧
      ∀ (rfc3339 : Hydrator.DateFormat) (hits : List ExplainHit), ∃ related,
        Hydrator.collectRelatedCommits rfc3339 (db.explainStorage sorter) path
          (hits.map ExplainHit.commitSha) [] hits = .ok related ∧
        RelatedExact rfc3339
          (fun anchorSha => getNeighboringFileCommits sorter db path anchorSha 2 2)
          (hits.map ExplainHit.commitSha) related := by
  constructor
  · exact getNeighboringFileCommits_exact keyed sorter path
  · intro rfc3339 hits
    apply collectRelatedCommits_exact
    intro sha
    rfl

/-- Two commits; the older one has the given number of hunks in the file. -/
def crowdedDatabase (hunks : Nat) : Database :=
    { Database.empty with
      commitRecord := [⟨"a", none, false, 1, none, "", ""⟩, ⟨"b", none, false, 2, none, "", ""⟩]
      filePath := [⟨1, "f", none⟩]
      hunk := (List.range hunks).map fun id => ⟨id, "a", 1, "added", "", ""⟩ }

theorem crowdedDatabase_keyed (hunks : Nat) : (crowdedDatabase hunks).Keyed := by
  constructor
  · simp [crowdedDatabase]
  · simp [crowdedDatabase]

theorem related_enrichment_exact_crowded :
    NeighboursExact (fun count => if count < 2 ^ 32 then count else 0) Sorter.stable
        (crowdedDatabase 3) "f" ∧
      ∀ (rfc3339 : Hydrator.DateFormat) (hits : List ExplainHit), ∃ related,
        Hydrator.collectRelatedCommits rfc3339 ((crowdedDatabase 3).explainStorage Sorter.stable)
          "f" (hits.map ExplainHit.commitSha) [] hits = .ok related ∧
        RelatedExact rfc3339
          (fun anchorSha =>
            getNeighboringFileCommits Sorter.stable (crowdedDatabase 3) "f" anchorSha 2 2)
          (hits.map ExplainHit.commitSha) related :=
  related_enrichment_exact (crowdedDatabase_keyed 3) Sorter.stable "f"

theorem hunkCount_crowdedDatabase (hunks : Nat) :
    hunkCount (crowdedDatabase hunks) "f" "a" = hunks := by
  simp [hunkCount, crowdedDatabase, List.countP_map, Function.comp_def]

theorem crowdedDatabase_neighbour (hunks : Nat) (some_hunk : 0 < hunks) :
    ∃ neighbour ∈ getNeighboringFileCommits Sorter.stable (crowdedDatabase hunks) "f" "b" 1 1,
      neighbour.2.commitSha = "a" ∧ neighbour.1 = touchedHunks hunks := by
  have exact := getNeighboringFileCommits_exact (crowdedDatabase_keyed hunks) Sorter.stable "f"
    "b" 1 1
  have anchor : Rows.lookup CommitRow.sha "b" (crowdedDatabase hunks).commitRecord =
      some ⟨"b", none, false, 2, none, "", ""⟩ := by
    simp [crowdedDatabase, Rows.lookup]
  simp only [anchor] at exact
  rcases exact with ⟨⟨⟨before, after, read, older, _⟩, _, _⟩, counts⟩
  have candidates : ((others (crowdedDatabase hunks) "f" ⟨"b", none, false, 2, none, "", ""⟩).filter
      fun commit => decide (commit.ts ≤ 2)) = [⟨"a", none, false, 1, none, "", ""⟩] := by
    have counted := hunkCount_crowdedDatabase hunks
    simp [others, crowdedDatabase] at counted ⊢
    simp [counted, some_hunk]
  have one := older.length
  rw [candidates] at one
  cases before with
  | nil => simp at one
  | cons commit rest =>
      have first := older.mem commit List.mem_cons_self
      rw [candidates, List.mem_singleton] at first
      subst first
      have listed : (CommitRow.commitMeta ⟨"a", none, false, 1, none, "", ""⟩) ∈
          (getNeighboringFileCommits Sorter.stable (crowdedDatabase hunks) "f" "b" 1 1).map
            Prod.snd := by
        simp [read]
      rcases List.mem_map.1 listed with ⟨neighbour, neighbour_mem, same⟩
      refine ⟨neighbour, neighbour_mem, by rw [same]; rfl, ?_⟩
      rw [counts neighbour neighbour_mem, same]
      exact congrArg touchedHunks (hunkCount_crowdedDatabase hunks)

theorem not_neighboursExact_crowded :
    ¬NeighboursExact (fun count => count) Sorter.stable (crowdedDatabase (2 ^ 32)) "f" := by
  intro always
  have exact := always "b" 1 1
  have anchor : Rows.lookup CommitRow.sha "b" (crowdedDatabase (2 ^ 32)).commitRecord =
      some ⟨"b", none, false, 2, none, "", ""⟩ := by
    simp [crowdedDatabase, Rows.lookup]
  simp only [anchor] at exact
  rcases crowdedDatabase_neighbour (2 ^ 32) (by omega) with
    ⟨neighbour, neighbour_mem, sha, touched⟩
  have counted := exact.2 neighbour neighbour_mem
  rw [sha, hunkCount_crowdedDatabase, touched] at counted
  simp [touchedHunks] at counted

end Explain

end Ohara
