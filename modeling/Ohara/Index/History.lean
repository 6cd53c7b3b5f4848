import Ohara.Index.ActorOwn
import Ohara.Index.Resume
import Ohara.Storage.Explain

/-!
# The history behind the rows

Whatever the runs of the indexer went through, aborts and refused writes included, the rows of the
index are those of commits that git listed and of hunks that git gave for them.
-/

namespace Ohara

/-- A commit that some walk listed. -/
def GitHistory.Lists (history : GitHistory) (commit : CommitMeta) : Prop :=
    ∃ head since walk, history.listCommits head since = .ok walk ∧ commit ∈ walk

/-- Every commit row is that of a listed commit. -/
def Repository.CommitsListed (repository : Repository) (store : Store) : Prop :=
    ∀ sha row, (store.db.commitView sha).1 = some row → repository.history.Lists row.commitMeta

namespace Symbol

/-- The snapshot of the symbols leaves the commits. -/
theorem clearAll_commitRecord {db db' : Database} (laid : db.Laid)
    (cleared : Symbol.clearAll db = .ok db') : db'.commitRecord = db.commitRecord := by
  rcases laid with ⟨contents, laid⟩
  rw [laid, Symbol.clearAll_withContents] at cleared
  cases cleared
  rw [laid]
  rfl

theorem putMany_commitRecord {symbols : List Symbol} {db db' : Database} (laid : db.Laid)
    (put : Symbol.putMany symbols db = .ok db') : db'.commitRecord = db.commitRecord := by
  rcases laid with ⟨contents, laid⟩
  rw [laid, Symbol.putMany_withContents] at put
  cases put
  rw [laid]
  simp [Database.withContents, IndexContents.commits_putSymbols]

end Symbol

namespace IndexSystem

variable {repository : Repository} {s s' : IndexSystem} {label : IndexLabel}

theorem commitsListed_congr {store store' : Store}
    (same : store'.db.commitRecord = store.db.commitRecord)
    (listed : repository.CommitsListed store) : repository.CommitsListed store' := by
  intro sha row found
  simp only [Database.commitView, same] at found
  exact listed sha row found

/-- A write of a listed commit leaves the rows those of listed commits. -/
theorem wrote_commitsListed {env : CommitEnv} {commit : CommitMeta} {store store' : Store}
    {task : CommitTask} (wrote : env.Wrote commit store task store')
    (mine : repository.history.Lists commit) (listed : repository.CommitsListed store) :
    repository.CommitsListed store' := by
  cases wrote with
  | nothing => exact listed
  | pass ignored => exact listed
  | cache rows => exact listed
  | commit put =>
      intro sha row found
      rw [put.commitView] at found
      split at found
      · cases found
        exact mine
      · exact listed sha row found
  | hunks through put =>
      intro sha row found
      rw [CommitEnv.db_afterHunks, put.commitView] at found
      exact listed sha row found

theorem commitsListed_step (sound : s.Sound repository) (listed : repository.CommitsListed s.store)
    (step : Step repository s label s') : repository.CommitsListed s'.store := by
  cases step with
  | deleteIndex running =>
      intro sha row found
      cases found
  | clearSymbols running cleared =>
      exact commitsListed_congr (Symbol.clearAll_commitRecord sound.laid cleared) listed
  | putSymbols running extracted put =>
      exact commitsListed_congr (Symbol.putMany_commitRecord sound.laid put) listed
  | @work inv walk pipeline pipeline' actor running worked =>
      have indexing : s.Indexing repository inv walk pipeline := sound.phase _ _ running
      rcases CommitEnv.wrote_of_step indexing.kept worked with
        same | ⟨i, commit, task, rfl, phase, -, wrote⟩
      · rw [goto, same]
        exact listed
      · have held : commit ∈ (pipeline.workers i).phase.held := by
          have phase : (pipeline.workers i).phase = .processing commit task := phase
          simp [phase, Phase.held]
        have walked := indexing.consistent.held_listed held
        exact wrote_commitsListed wrote ⟨_, _, walk, indexing.lists, walked⟩ listed
  | @putMetadata inv running =>
      rcases IndexMetadata.putMany_spec repository.repoId inv.runtimeMetadata.toStorageComponents
        s.store.db with ⟨metadata, put⟩
      rw [put]
      exact listed
  | _ => exact listed

/-- A step keeps the hunks those of the repository, also one that cuts a commit off. -/
theorem rowsFromSource_step (sound : s.Sound repository)
    (rows : repository.RowsFromSource s.store) (step : Step repository s label s') :
    repository.RowsFromSource s'.store := by
  cases rowsStep sound step with
  | fresh deleted =>
      rw [deleted]
      exact fun _ => Or.inl rfl
  | @work inv walk pipeline pipeline' actor running worked =>
      have indexing : s.Indexing repository inv walk pipeline := sound.phase _ _ running
      rcases Pipeline.storage_step worked with
        ⟨-, same⟩ | ⟨i, commit, task, progress, rfl, phase, advanced, -⟩
      · rw [goto, same]
        exact rows
      · have sound_task := indexing.kept.tasks i commit task phase
        exact (CommitEnv.rows_advance sound.laid rows sound_task advanced).rows
  | same elsewhere same => exact CommitEnv.rowsFromSource_congr same.hunkViews same.putIgnoring rows

/-- In every state that runs of the indexer lead to, the rows are those of the history. -/
theorem rows_of_run {head : String} {labels : List IndexLabel}
    (ran : Execution.run (next repository) (start head) labels = some s) :
    s.store.db.Laid ∧ repository.RowsFromSource s.store ∧ repository.CommitsListed s.store := by
  have kept : s.Sound repository ∧ repository.RowsFromSource s.store ∧
      repository.CommitsListed s.store := by
    apply Execution.invariant _ _ _ ran
    · rintro s label s' ⟨sound, rows, listed⟩ stepped
      have step := step_of_next stepped
      exact ⟨sound_step sound step, rowsFromSource_step sound rows step,
        commitsListed_step sound listed step⟩
    · refine ⟨sound_start head, fun _ => Or.inl rfl, ?_⟩
      intro sha row found
      cases found
  exact ⟨kept.1.laid, kept.2⟩

end IndexSystem

/-- A row is that of a listed commit and of one of its hunks that is not on a path ignored by the
run that put it. -/
structure Repository.Owns (repository : Repository) (store : Store) (commit : CommitMeta)
    (hunk : Hunk) : Prop where
  listed : repository.history.Lists commit
  given : ∃ isIgnored hunks, store.putIgnoring commit.commitSha = some isIgnored ∧
    repository.source.hunksForCommit commit.commitSha = .ok hunks ∧ hunk ∈ keptHunks isIgnored hunks

namespace LaneRow

variable {repository : Repository} {store : Store} {row : LaneRow}

theorem pathOf_of_lookup {db : Database} {id : Nat} {filePath : FilePathRow}
    (found : Rows.lookup FilePathRow.id id db.filePath = some filePath) :
    db.pathOf id = some filePath.path := by
  have mapped : Rows.lookup Prod.fst id (db.filePath.map fun row => (row.id, row.path)) =
      some (filePath.id, filePath.path) := by
    rw [Rows.lookup, List.find?_map]
    exact Option.map_eq_some_iff.2 ⟨filePath, found, rfl⟩
  rw [Database.pathOf, mapped]
  rfl

/-- A row that the tables join is of the history. -/
theorem owned (rows : repository.RowsFromSource store) (listed : repository.CommitsListed store)
    (joined : store.db.joinHunk row.hunkId = some row) :
    ∃ hunk, repository.Owns store row.commit.commitMeta hunk ∧
      row.hunk.commitSha = row.commit.sha ∧ row.filePath.path = hunk.filePath ∧
      row.hunk.changeKind = hunk.changeKind.toStr ∧ row.hunk.diffText = hunk.diffText := by
  rcases joinHunk_eq_some.1 joined with ⟨hunk_found, path_found, commit_found⟩
  have hunk_mem := (Rows.mem_of_lookup_eq_some hunk_found).1
  have same_sha : row.commit.sha = row.hunk.commitSha :=
    (Rows.mem_of_lookup_eq_some commit_found).2
  have given_for : row.commit.commitMeta.commitSha = row.hunk.commitSha := same_sha
  have view_mem : store.db.hunkView row.hunk ∈ store.db.hunkViews row.hunk.commitSha :=
    List.mem_map_of_mem (List.mem_filter.2 ⟨hunk_mem, by simp⟩)
  rcases rows row.hunk.commitSha with nothing | ⟨isIgnored, hunks, ignoring, given, stored⟩
  · rw [nothing] at view_mem
    cases view_mem
  · have origin_mem := List.mem_map_of_mem (f := HunkView.origin) view_mem
    rw [stored] at origin_mem
    rcases List.mem_map.1 origin_mem with ⟨hunk, kept, same⟩
    have same : (some hunk.filePath, hunk.changeKind.toStr, hunk.diffText) =
      (store.db.pathOf row.hunk.filePathId, row.hunk.changeKind, row.hunk.diffText) := same
    rw [pathOf_of_lookup path_found] at same
    simp only [Prod.mk.injEq, Option.some.injEq] at same
    have owns : repository.Owns store row.commit.commitMeta hunk :=
      ⟨listed _ _ commit_found, isIgnored, hunks, by rw [given_for, ignoring],
        by rw [given_for, given], kept⟩
    exact ⟨hunk, owns, same_sha.symm, same.1.symm, same.2.1.symm, same.2.2.symm⟩

end LaneRow

/-! ## A repository of two commits -/

namespace TwoCommits

open OneCommit

/-- The commit on top of the first. -/
def second : CommitMeta where
  commitSha := "b"
  parentSha := some "a"
  isMerge := false
  author := none
  ts := 1
  message := "n"

/-- The first commit has none. -/
def parents (sha : String) : List String :=
    if sha = "b" then ["a"] else []

/-- Any other head or watermark is unknown to git. -/
def listCommits (head : String) (since : Option String) : Except OhraError (List CommitMeta) :=
    if head = "b" ∧ since = none then .ok [commit, second]
    else .error (.git "object not found")

theorem reaches_second {sha : String} :
    Relation.ReflTransGen (fun child parent => parent ∈ parents child) "b" sha ↔
      sha = "a" ∨ sha = "b" := by
  constructor
  · intro reaches
    induction reaches with
    | refl => exact Or.inr rfl
    | tail _ parent ih =>
        rcases ih with rfl | rfl
        · simp [parents] at parent
        · exact Or.inl (by simpa [parents] using parent)
  · rintro (rfl | rfl)
    · exact Relation.ReflTransGen.single (by simp [parents])
    · exact Relation.ReflTransGen.refl

theorem isWalk_listCommits (head : String) (since : Option String) (walk : List CommitMeta)
    (listed : listCommits head since = .ok walk) :
    Topological.IsWalk (fun child parent => parent ∈ parents child) head
      (fun sha => ∃ w, since = some w ∧
        Relation.ReflTransGen (fun child parent => parent ∈ parents child) w sha)
      (walk.map CommitMeta.commitSha) := by
  simp only [listCommits] at listed
  split at listed
  · next found =>
      cases listed
      rcases found with ⟨rfl, rfl⟩
      exact ⟨by simp [reaches_second, commit, second], by decide, by decide⟩
  · cases listed

/-- The paths and the diffs of a commit's hunks. -/
def diffs (sha : String) : List (String × String) :=
    if sha = "b" then [("f", "+y"), ("g", "+z")] else [("f", "+x")]

/-- The repository of the two commits. -/
def repository : Repository where
  repoId := ⟨"r"⟩
  path := "/r"
  firstCommitSha := "a"
  history :=
    { parents := parents
      listCommits := listCommits
      walks := isWalk_listCommits }
  source :=
    { hunksForCommit := fun sha => .ok ((diffs sha).map fun diff =>
        { hunk with commitSha := sha, filePath := diff.1, diffText := diff.2 })
      fileAtCommit := fun _ _ => .ok none
      detectLanguage := fun _ => none
      hunk_sha := by
        rintro sha _ ⟨⟩ given given_mem
        rcases List.mem_map.1 given_mem with ⟨diff, -, rfl⟩
        rfl
      hunk_language := by
        rintro sha _ ⟨⟩ given given_mem
        rcases List.mem_map.1 given_mem with ⟨diff, -, rfl⟩
        rfl }
  fromText := fun text => ⟨text⟩

/-- An invocation with two workers. -/
def twoWorkers : Invocation :=
    { invocation .off with workers := 2 }

/-- Two workers read both commits before either writes, and the second commit is stored first. -/
def crossing : List (Actor 2) :=
    [.walk, .walk, .walk, .walk, .walk, .acquire workerA, .receive workerA, .acquire workerB,
      .receive workerB, .advance workerA, .advance workerB, .advance workerB, .advance workerB,
      .advance workerA, .advance workerA, .acquire workerA, .receive workerA, .acquire workerB,
      .receive workerB, .join, .join, .join, .join]

/-- A complete run over both commits. -/
def labels : List IndexLabel :=
    [.invoke twoWorkers, .advance, .advance, .advance, .advance]
      ++ crossing.map (IndexLabel.pipeline 2) ++ [.advance] ++ finish

end TwoCommits

end Ohara
