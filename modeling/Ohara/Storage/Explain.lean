import Mathlib.Data.String.Basic
import Ohara.Storage.LaneQueries

/-!
# The queries behind an explain request

`get_hunks_for_file_in_commit` and `get_neighboring_file_commits` of `tables/explain.rs`. The
order in which the database delivers rows that tie is a parameter; both queries order their rows
by a key that no two of them share.
-/

namespace Ohara

open Selection

/-- `FROM commit_record cr JOIN hunk h … JOIN file_path fp …`: a row for each hunk. -/
def Database.joinCommits (db : Database) : List LaneRow :=
    db.commitRecord.flatMap fun commit =>
      (db.hunk.filter fun hunk => decide (hunk.commitSha = commit.sha)).flatMap fun hunk =>
        (db.filePath.filter fun filePath => decide (filePath.id = hunk.filePathId)).map
          fun filePath => ⟨hunk, filePath, commit⟩

/-- The keys of the tables the explain queries join. -/
structure Database.Keyed (db : Database) : Prop where
  commits : (db.commitRecord.map CommitRow.sha).Nodup
  filePaths : (db.filePath.map FilePathRow.id).Nodup

/-- The commit of a row. -/
def CommitRow.commitMeta (row : CommitRow) : CommitMeta where
  commitSha := row.sha
  parentSha := row.parentSha
  isMerge := row.isMerge
  author := row.author
  ts := row.ts
  message := row.message

namespace Explain

/-- The joined rows of one file. -/
def fileRows (db : Database) (path : String) : List LaneRow :=
    db.joinCommits.filter fun row => decide (row.filePath.path = path)


/-- `FROM hunk h JOIN file_path fp … WHERE h.commit_sha = ?1 AND fp.path = ?2 ORDER BY h.id`. The
commit itself is not joined. -/
def getHunksForFileInCommit (sorter : Sorter) (db : Database) (sha path : String) :
    Except OhraError (List Hunk) :=
    let rows := (db.hunk.filter fun hunk => decide (hunk.commitSha = sha)).flatMap fun hunk =>
      (db.filePath.filter fun filePath =>
        decide (filePath.id = hunk.filePathId) && decide (filePath.path = path)).map
          fun filePath => (hunk, filePath)
    (sorter.orderBy (fun row => row.1.id) rows).mapM fun row => do
      let changeKind ← strToChangeKind row.1.changeKind
      return {
        commitSha := row.1.commitSha
        filePath := row.2.path
        language := row.2.language
        changeKind := changeKind
        diffText := row.1.diffText }

/-- `SELECT COUNT(h.id), cr.… GROUP BY cr.sha`. -/
def groupBySha (rows : List LaneRow) : List (Nat × CommitRow) :=
    (firsts (fun row => row.commit.sha) rows).map fun row =>
      (rows.countP fun other => decide (other.commit.sha = row.commit.sha), row.commit)

/-- `u32::try_from(touched).unwrap_or(0)`. -/
def touchedHunks (count : Nat) : Nat :=
    if count < 2 ^ 32 then count else 0

/-- A row of the neighbour query. -/
def readNeighbour (group : Nat × CommitRow) : Nat × CommitMeta :=
    (touchedHunks group.1, group.2.commitMeta)

/-- `ORDER BY cr.ts DESC, cr.sha ASC`. -/
def newestFirstKey (row : CommitRow) : Intᵒᵈ ×ₗ String :=
    toLex (OrderDual.toDual row.ts, row.sha)

/-- `ORDER BY cr.ts ASC, cr.sha ASC`. -/
def oldestFirstKey (row : CommitRow) : Int ×ₗ String :=
    toLex (row.ts, row.sha)

/-- `WHERE fp.path = ?1 AND cr.sha != ?2 AND cr.ts <= ?3`. -/
def olderRows (db : Database) (path : String) (anchor : CommitRow) : List LaneRow :=
    (fileRows db path).filter fun row =>
      decide (row.commit.sha ≠ anchor.sha) && decide (row.commit.ts ≤ anchor.ts)

/-- `WHERE fp.path = ?1 AND cr.sha != ?2 AND cr.ts > ?3`. -/
def newerRows (db : Database) (path : String) (anchor : CommitRow) : List LaneRow :=
    (fileRows db path).filter fun row =>
      decide (row.commit.sha ≠ anchor.sha) && decide (anchor.ts < row.commit.ts)

/-- The commits around the anchor that touch the file, older ones first. -/
def getNeighboringFileCommits (sorter : Sorter) (db : Database) (path anchorSha : String)
    (limitBefore limitAfter : Nat) : List (Nat × CommitMeta) :=
    match Rows.lookup CommitRow.sha anchorSha db.commitRecord with
    | none => []
    | some anchor =>
        let older := sorter.orderBy (fun group => newestFirstKey group.2)
          (groupBySha (olderRows db path anchor))
        let newer := sorter.orderBy (fun group => oldestFirstKey group.2)
          (groupBySha (newerRows db path anchor))
        (older.take limitBefore).map readNeighbour ++ (newer.take limitAfter).map readNeighbour

end Explain

end Ohara
