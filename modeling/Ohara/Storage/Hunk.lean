import Mathlib.Data.List.Sort
import Ohara.Storage.Schema

/-!
# The `hunk` table and its mirrors

`hunk::put_many` with `hunk_symbol::put_for_hunk`.
-/

namespace Ohara

/-- `dedup` of a sorted vector: runs of equal neighbours become one. -/
def dedupNeighbours : List String → List String
  | [] => []
  | [sha] => [sha]
  | first :: second :: rest =>
      if first = second then dedupNeighbours (second :: rest)
      else first :: dedupNeighbours (second :: rest)

@[simp] theorem mem_dedupNeighbours {sha : String} {shas : List String} :
    sha ∈ dedupNeighbours shas ↔ sha ∈ shas := by
  induction shas using dedupNeighbours.induct with
  | case1 => rfl
  | case2 => rfl
  | case3 second rest ih =>
      rw [dedupNeighbours, if_pos rfl, ih]
      simp
  | case4 first second rest distinct ih =>
      rw [dedupNeighbours, if_neg distinct, List.mem_cons, List.mem_cons, ih]

/-- The text of the `semantic_text` column and of `fts_hunk_semantic`. -/
def HunkRecord.storedSemanticText (record : HunkRecord) : String :=
    if record.semanticText.isEmpty then record.hunk.diffText else record.semanticText

/-- The primary key of `hunk_symbol`. -/
def HunkSymbolRow.key (row : HunkSymbolRow) : Nat × String × String :=
    (row.hunkId, row.symbolKind, row.symbolName)

/-- The row `put_for_hunk` writes for one symbol. -/
def HunkSymbol.row (hunkId : Nat) (symbol : HunkSymbol) : HunkSymbolRow where
  hunkId := hunkId
  symbolKind := symbol.kind.toStr
  symbolName := symbol.name
  qualifiedName := symbol.qualifiedName
  attributionKind := symbol.attribution.asStr

namespace Hunk

/-- The ids of a commit's hunks, the subquery of the mirror deletes. -/
def idsOfCommit (db : Database) (sha : String) : List Nat :=
    (db.hunk.filter fun row => decide (row.commitSha = sha)).map HunkRow.id

/-- The deletes `put_many` runs for one commit; the last one cascades to `hunk_symbol`. -/
def deleteCommit (db : Database) (sha : String) : Except SqlError Database := do
  let db ← execute (fun db => { db with
    ftsHunkText := db.ftsHunkText.filter fun row =>
      decide (row.hunkId ∉ idsOfCommit db sha) }) db
  let db ← execute (fun db => { db with
    ftsHunkSemantic := db.ftsHunkSemantic.filter fun row =>
      decide (row.hunkId ∉ idsOfCommit db sha) }) db
  let db ← execute (fun db => { db with
    vecHunk := db.vecHunk.filter fun row => decide (row.hunkId ∉ idsOfCommit db sha) }) db
  execute (fun db => { db with
    hunk := Rows.deleteKey HunkRow.commitSha sha db.hunk
    hunkSymbol := db.hunkSymbol.filter fun row =>
      decide (row.hunkId ∉ idsOfCommit db sha) }) db

/-- The attributions of a hunk, one statement each. -/
def putForHunk (hunkId : Nat) (symbols : List HunkSymbol) (db : Database) :
    Except SqlError Database :=
    symbols.foldlM (fun db symbol => execute (fun db => { db with
      hunkSymbol := Rows.insertOrReplace HunkSymbolRow.key (symbol.row hunkId) db.hunkSymbol })
      db) db

/-- The row `put_many` inserts into `hunk`. -/
def newRow (record : HunkRecord) (filePathId hunkId : Nat) : HunkRow where
  id := hunkId
  commitSha := record.hunk.commitSha
  filePathId := filePathId
  changeKind := record.hunk.changeKind.toStr
  diffText := record.hunk.diffText
  semanticText := record.storedSemanticText

/-- The inserts `put_many` runs for one record once its path has an id. -/
def insertRows (record : HunkRecord) (filePathId hunkId : Nat) (db : Database) :
    Except SqlError Database := do
  let db ← execute (fun db => { db with
    hunk := db.hunk ++ [newRow record filePathId hunkId] }) db
  let db ← insertVecHunk hunkId (vecToBytes record.diffEmb) db
  let db ← execute (fun db => { db with
    ftsHunkText := db.ftsHunkText ++ [⟨hunkId, record.hunk.diffText⟩] }) db
  let db ← execute (fun db => { db with
    ftsHunkSemantic := db.ftsHunkSemantic ++ [⟨hunkId, record.storedSemanticText⟩] }) db
  putForHunk hunkId record.symbols db

/-- What `put_many` runs for one record. -/
def insertRecord (db : Database) (record : HunkRecord) : Except SqlError Database := do
  let (db, filePathId) ← upsertFilePath record.hunk.filePath record.hunk.language db
  insertRows record filePathId (Rows.nextRowid (db.hunk.map HunkRow.id)) db

/-- The commits of a batch, sorted and without repeats. -/
def batchShas (records : List HunkRecord) : List String :=
    dedupNeighbours ((records.map fun record => record.hunk.commitSha).insertionSort (· ≤ ·))

/-- `hunk::put_many`: an empty batch touches nothing, not even old rows. -/
def putMany (records : List HunkRecord) (db : Database) : Except SqlError Database :=
    if records.isEmpty then .ok db
    else do
      let db ← (batchShas records).foldlM deleteCommit db
      records.foldlM insertRecord db

end Hunk

end Ohara
