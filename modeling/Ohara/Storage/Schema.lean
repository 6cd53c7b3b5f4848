import Ohara.Library.Rows
import Ohara.Storage.Codec

/-!
# The index database

The tables of the migrations as lists of rows, the foreign keys they declare, and the way a
statement runs: it rewrites tables and is refused when a foreign key is violated at its end.
A transaction keeps the tables it started from when one of its statements is refused.

Row ids are natural numbers without the 64-bit bound of SQLite. The clock columns
(`repo.indexed_at`, `index_metadata.recorded_at`), the constant columns (`file_path.active`,
`index_metadata.value_json`, `repo.schema_version`) and the tables no modelled call reads or
writes are left out.
-/

namespace Ohara

/-- A row of `repo`. -/
structure RepoRow where
  id : String
  path : String
  firstCommitSha : String
  lastIndexedCommit : Option String
deriving DecidableEq, Repr

/-- A row of `commit_record`. -/
structure CommitRow where
  sha : String
  parentSha : Option String
  isMerge : Bool
  ts : Int
  author : Option String
  message : String
  ulid : String
deriving DecidableEq, Repr

/-- A row of `vec_commit`. -/
structure VecCommitRow where
  commitSha : String
  messageEmb : List UInt8
deriving DecidableEq, Repr

/-- A row of `fts_commit`. -/
structure FtsCommitRow where
  sha : String
  message : String
deriving DecidableEq, Repr

/-- A row of `file_path`. -/
structure FilePathRow where
  id : Nat
  path : String
  language : Option String
deriving DecidableEq, Repr

/-- A row of `hunk`. -/
structure HunkRow where
  id : Nat
  commitSha : String
  filePathId : Nat
  changeKind : String
  diffText : String
  semanticText : String
deriving DecidableEq, Repr

/-- A row of `vec_hunk`. -/
structure VecHunkRow where
  hunkId : Nat
  diffEmb : List UInt8
deriving DecidableEq, Repr

/-- A row of `fts_hunk_text` or of `fts_hunk_semantic`. -/
structure FtsHunkRow where
  hunkId : Nat
  content : String
deriving DecidableEq, Repr

/-- A row of `hunk_symbol`. -/
structure HunkSymbolRow where
  hunkId : Nat
  symbolKind : String
  symbolName : String
  qualifiedName : Option String
  attributionKind : String
deriving DecidableEq, Repr

/-- A row of `symbol`. -/
structure SymbolRow where
  id : Nat
  filePathId : Nat
  kind : String
  name : String
  qualifiedName : Option String
  spanStart : Nat
  spanEnd : Nat
  blobSha : String
  sourceText : String
  siblingNames : String
deriving DecidableEq, Repr

/-- A row of `fts_symbol`. -/
structure FtsSymbolRow where
  symbolId : Nat
  qualifiedName : Option String
  sourceText : String
deriving DecidableEq, Repr

/-- A row of `fts_symbol_name`. -/
structure FtsSymbolNameRow where
  symbolId : Nat
  kind : String
  name : String
  siblingNames : String
deriving DecidableEq, Repr

/-- A row of `vec_symbol`. -/
structure VecSymbolRow where
  symbolId : Nat
  sourceEmb : List UInt8
deriving DecidableEq, Repr

/-- A row of `index_metadata`. -/
structure IndexMetadataRow where
  repoId : String
  component : String
  version : String
deriving DecidableEq, Repr

/-- A row of `chunk_embed_cache`. -/
structure ChunkEmbedCacheRow where
  contentHash : String
  embedModel : String
  diffEmb : List UInt8
deriving DecidableEq, Repr

/-- The tables. -/
@[ext] structure Database where
  repo : List RepoRow
  commitRecord : List CommitRow
  vecCommit : List VecCommitRow
  ftsCommit : List FtsCommitRow
  filePath : List FilePathRow
  hunk : List HunkRow
  vecHunk : List VecHunkRow
  ftsHunkText : List FtsHunkRow
  ftsHunkSemantic : List FtsHunkRow
  hunkSymbol : List HunkSymbolRow
  symbol : List SymbolRow
  ftsSymbol : List FtsSymbolRow
  ftsSymbolName : List FtsSymbolNameRow
  vecSymbol : List VecSymbolRow
  indexMetadata : List IndexMetadataRow
  chunkEmbedCache : List ChunkEmbedCacheRow

/-- The errors of a statement. -/
inductive SqlError where
  | foreignKey
  | unique (table : String)
  | dimension (table : String)
  | noRows
deriving DecidableEq, Repr

namespace Database

/-- The tables the migrations create. -/
def empty : Database where
  repo := []
  commitRecord := []
  vecCommit := []
  ftsCommit := []
  filePath := []
  hunk := []
  vecHunk := []
  ftsHunkText := []
  ftsHunkSemantic := []
  hunkSymbol := []
  symbol := []
  ftsSymbol := []
  ftsSymbolName := []
  vecSymbol := []
  indexMetadata := []
  chunkEmbedCache := []

/-- The `REFERENCES` clauses of the migrations. -/
def ForeignKeys (db : Database) : Prop :=
    (∀ row ∈ db.hunk, row.commitSha ∈ db.commitRecord.map CommitRow.sha) ∧
    (∀ row ∈ db.hunk, row.filePathId ∈ db.filePath.map FilePathRow.id) ∧
    (∀ row ∈ db.symbol, row.filePathId ∈ db.filePath.map FilePathRow.id) ∧
    (∀ row ∈ db.hunkSymbol, row.hunkId ∈ db.hunk.map HunkRow.id)

instance (db : Database) : Decidable db.ForeignKeys := by
  unfold ForeignKeys
  infer_instance

end Database

/-- Number of floats in a vector column. -/
def vectorDimension : Nat := 384

/-- Run one statement, with the foreign keys checked at its end. -/
def execute (effect : Database → Database) (db : Database) : Except SqlError Database :=
    if (effect db).ForeignKeys then .ok (effect db) else .error .foreignKey

theorem execute_ok {effect : Database → Database} {db : Database}
    (foreignKeys : (effect db).ForeignKeys) : execute effect db = .ok (effect db) :=
  if_pos foreignKeys

/-- Run `body` as one transaction: a refused statement rolls all of it back. -/
def transaction {ε : Type} (body : Database → Except ε Database) (db : Database) :
    Except ε Unit × Database :=
    match body db with
    | .ok db' => (.ok (), db')
    | .error e => (.error e, db)

/-- `INSERT INTO vec_commit`: the key must be new and the vector of the declared dimension. -/
def insertVecCommit (commitSha : String) (messageEmb : List UInt8) (db : Database) :
    Except SqlError Database :=
    if messageEmb.length ≠ 4 * vectorDimension then
      .error (.dimension "vec_commit")
    else if commitSha ∈ db.vecCommit.map VecCommitRow.commitSha then
      .error (.unique "vec_commit")
    else
      execute (fun db => { db with vecCommit := db.vecCommit ++ [⟨commitSha, messageEmb⟩] }) db

/-- `INSERT INTO vec_hunk`. -/
def insertVecHunk (hunkId : Nat) (diffEmb : List UInt8) (db : Database) :
    Except SqlError Database :=
    if diffEmb.length ≠ 4 * vectorDimension then
      .error (.dimension "vec_hunk")
    else if hunkId ∈ db.vecHunk.map VecHunkRow.hunkId then
      .error (.unique "vec_hunk")
    else
      execute (fun db => { db with vecHunk := db.vecHunk ++ [⟨hunkId, diffEmb⟩] }) db

/-- `language = COALESCE(excluded.language, file_path.language)`. -/
def FilePathRow.coalesceLanguage (language : Option String) (old : FilePathRow) : FilePathRow :=
    { old with language := language.or old.language }

/-- `upsert_file_path`: a null language keeps the one recorded before. -/
def upsertFilePath (path : String) (language : Option String) (db : Database) :
    Except SqlError (Database × Nat) := do
  let db ← execute (fun db => { db with
    filePath := Rows.upsert FilePathRow.path
      ⟨Rows.nextRowid (db.filePath.map FilePathRow.id), path, language⟩
      (FilePathRow.coalesceLanguage language) db.filePath }) db
  match Rows.lookup FilePathRow.path path db.filePath with
  | some row => .ok (db, row.id)
  | none => .error .noRows

end Ohara
