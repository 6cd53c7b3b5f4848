import Ohara.Storage.Schema

/-!
# The `commit_record` table

`commit::put` and the reads the indexer and the explain path make of it.
-/

namespace Ohara

/-- The columns `INSERT OR REPLACE INTO commit_record` writes. -/
def CommitRecord.row (record : CommitRecord) : CommitRow where
  sha := record.commitMeta.commitSha
  parentSha := record.commitMeta.parentSha
  isMerge := record.commitMeta.isMerge
  ts := record.commitMeta.ts
  author := record.commitMeta.author
  message := record.commitMeta.message
  ulid := record.ulid

namespace Commit

/-- `commit::put`: the mirrors are cleared first, since `vec_commit` has no `OR REPLACE`. -/
def put (record : CommitRecord) (db : Database) : Except SqlError Database := do
  let sha := record.commitMeta.commitSha
  let db ← execute (fun db => { db with
    vecCommit := Rows.deleteKey VecCommitRow.commitSha sha db.vecCommit }) db
  let db ← execute (fun db => { db with
    ftsCommit := Rows.deleteKey FtsCommitRow.sha sha db.ftsCommit }) db
  let db ← execute (fun db => { db with
    commitRecord := Rows.insertOrReplace CommitRow.sha record.row db.commitRecord }) db
  let db ← insertVecCommit sha (vecToBytes record.messageEmb) db
  execute (fun db => { db with
    ftsCommit := db.ftsCommit ++ [⟨sha, record.commitMeta.message⟩] }) db

/-- The commit has a row. -/
def commitExists (db : Database) (sha : String) : Bool :=
    (Rows.lookup CommitRow.sha sha db.commitRecord).isSome

/-- The commit of a row. -/
def get (db : Database) (sha : String) : Option CommitMeta :=
    (Rows.lookup CommitRow.sha sha db.commitRecord).map fun row =>
      { commitSha := row.sha, parentSha := row.parentSha, isMerge := row.isMerge,
        author := row.author, ts := row.ts, message := row.message }

theorem commitExists_iff {db : Database} {sha : String} :
    commitExists db sha = true ↔ sha ∈ db.commitRecord.map CommitRow.sha := by
  rw [commitExists, Option.isSome_iff_ne_none, ne_eq, Rows.lookup_eq_none_iff, not_not]

end Commit

end Ohara
