import Ohara.Library.Selection
import Ohara.Retriever.Coordinator
import Ohara.Storage.Lanes
import Ohara.Storage.MatchQuery

/-!
# The lanes as the storage layer runs them

`hunk::knn`, the two BM25 lanes over hunks, `symbol::bm25_by_name` and
`hunk_symbol::bm25_by_historical_symbol`, from the rows their indexes give to the hits. The
distance of `vec_hunk` and what FTS5 matches with which rank are parameters, and so is the order in
which the database delivers rows that tie. Scores are elements of a field.
-/

namespace Ohara

open Retriever Selection

variable {K : Type} [Field K] [LinearOrder K]

/-- `MATCH` on an FTS5 table: the matching rows with their `bm25`, or a refused query. -/
abbrev FtsIndex (ρ K : Type) := String → List ρ → Except OhraError (List (ρ × K))

/-- The kind of change of a stored text. -/
def strToChangeKind (s : String) : Except OhraError ChangeKind :=
    if s = "added" then .ok .added
    else if s = "modified" then .ok .modified
    else if s = "deleted" then .ok .deleted
    else if s = "renamed" then .ok .renamed
    else .error (.storage ("unknown change_kind: " ++ s))

/-- The columns every lane selects, read into a hit. -/
def rowToHit (row : LaneRow) (similarity : K) : Except OhraError (HunkHit K) := do
    let changeKind ← strToChangeKind row.hunk.changeKind
    return {
      hunkId := row.hunk.id
      hunk := {
        commitSha := row.hunk.commitSha
        filePath := row.filePath.path
        language := row.filePath.language
        changeKind := changeKind
        diffText := row.hunk.diffText }
      commitMeta := {
        commitSha := row.hunk.commitSha
        parentSha := row.commit.parentSha
        isMerge := row.commit.isMerge
        author := row.commit.author
        ts := row.commit.ts
        message := row.commit.message }
      similarity := similarity }

/-- The id a lane tells its rows apart by. -/
def LaneRow.hunkId (row : LaneRow) : Nat :=
    row.hunk.id

/-- `WHERE … ts_filter lang_filter`. -/
def passes (language : Option String) (sinceUnix : Option Int) (row : LaneRow) : Bool :=
    tsFilter sinceUnix row && langFilter language row

/-- Hunk ids with a column of the index, joined with their tables. -/
def joinRows {γ : Type} (db : Database) (found : List (Nat × γ)) : List (LaneRow × γ) :=
    found.filterMap fun row => (db.joinHunk row.1).map fun joined => (joined, row.2)

/-- The joined rows that pass the filters. -/
def filteredRows {γ : Type} (db : Database) (language : Option String) (sinceUnix : Option Int)
    (found : List (Nat × γ)) : List (LaneRow × γ) :=
    (joinRows db found).filter fun row => passes language sinceUnix row.1

namespace Hunk

/-- The rows of `vec_hunk` with their distances from the query. -/
def distances (distance : List UInt8 → List UInt8 → K) (db : Database) (queryEmb : Vector) :
    List (Nat × K) :=
    db.vecHunk.map fun row => (row.hunkId, distance (vecToBytes queryEmb) row.diffEmb)

/-- `diff_emb MATCH :emb AND k = :k`, before the joins. -/
def nearest (vec0 : Sorter) (distance : List UInt8 → List UInt8 → K) (db : Database)
    (queryEmb : Vector) (k : UInt8) : List (Nat × K) :=
    (vec0.orderBy Prod.snd (distances distance db queryEmb)).take k.toNat

/-- The nearest hunks, of which the filters leave some. -/
def knn (vec0 sorter : Sorter) (distance : List UInt8 → List UInt8 → K) (db : Database)
    (queryEmb : Vector) (k : UInt8) (language : Option String) (sinceUnix : Option Int) :
    Except OhraError (List (HunkHit K)) :=
    let rows := filteredRows db language sinceUnix (nearest vec0 distance db queryEmb k)
    (sorter.orderBy Prod.snd rows).mapM fun row => rowToHit row.1 (1 / (1 + row.2))

/-- `ORDER BY rank_score ASC LIMIT :k` of the lanes over hunk texts. -/
def bm25Rows (sorter : Sorter) (db : Database) (k : UInt8) (language : Option String)
    (sinceUnix : Option Int) (matched : List (FtsHunkRow × K)) : List (LaneRow × K) :=
    (sorter.orderBy Prod.snd (filteredRows db language sinceUnix
      (matched.map fun row => (row.1.hunkId, row.2)))).take k.toNat

/-- `1.0 / (1.0 + (-rank_score) as f32)`. -/
def bm25Similarity (rankScore : K) : K :=
    1 / (1 + -rankScore)

/-- The hunks whose diff matches. -/
def bm25ByText (u : Unicode) (sorter : Sorter) (fts : FtsIndex FtsHunkRow K) (db : Database)
    (query : String) (k : UInt8) (language : Option String) (sinceUnix : Option Int) :
    Except OhraError (List (HunkHit K)) := do
    let matched ← fts (sanitizeFts5Query u query) db.ftsHunkText
    (bm25Rows sorter db k language sinceUnix matched).mapM fun row =>
      rowToHit row.1 (bm25Similarity row.2)

/-- The hunks whose semantic text matches. -/
def bm25BySemanticText (u : Unicode) (sorter : Sorter) (fts : FtsIndex FtsHunkRow K)
    (db : Database) (query : String) (k : UInt8) (language : Option String)
    (sinceUnix : Option Int) : Except OhraError (List (HunkHit K)) := do
    let matched ← fts (sanitizeFts5Query u query) db.ftsHunkSemantic
    (bm25Rows sorter db k language sinceUnix matched).mapM fun row =>
      rowToHit row.1 (bm25Similarity row.2)

end Hunk

namespace Symbol

/-- How much more the lane reads than it returns. -/
def symbolLaneOversample : Nat := 10

/-- `per_symbol`: the file of each matched symbol with the symbol's rank. -/
def perSymbol (db : Database) (matched : List (FtsSymbolNameRow × K)) : List (Nat × K) :=
    matched.filterMap fun row =>
      (Rows.lookup SymbolRow.id row.1.symbolId db.symbol).map fun symbol =>
        (symbol.filePathId, row.2)

/-- `JOIN hunk h ON h.file_path_id = per_symbol.file_path_id`. -/
def hunksOfFiles (db : Database) (files : List (Nat × K)) : List (Nat × K) :=
    files.flatMap fun file =>
      (db.hunk.filter fun hunk => decide (hunk.filePathId = file.1)).map fun hunk =>
        (hunk.id, file.2)

/-- The rows of `per_hunk`. -/
def perHunk (db : Database) (language : Option String) (sinceUnix : Option Int)
    (matched : List (FtsSymbolNameRow × K)) : List (LaneRow × K) :=
    filteredRows db language sinceUnix (hunksOfFiles db (perSymbol db matched))

/-- `WHERE rn = 1` over `ROW_NUMBER() OVER (PARTITION BY h.id ORDER BY rank_score ASC)`: the rows
are sorted by partition and rank, and the first row of each partition is number one. -/
def rowNumberOne (sorter : Sorter) (rows : List (LaneRow × K)) : List (LaneRow × K) :=
    firsts (fun row => row.1.hunkId)
      (sorter.orderBy (fun row => toLex (row.1.hunkId, row.2)) rows)

/-- `ORDER BY rank_score ASC LIMIT :k_oversample`. -/
def bm25Rows (sorter : Sorter) (db : Database) (k : UInt8) (language : Option String)
    (sinceUnix : Option Int) (matched : List (FtsSymbolNameRow × K)) : List (LaneRow × K) :=
    (sorter.orderBy Prod.snd (rowNumberOne sorter (perHunk db language sinceUnix matched))).take
      (k.toNat * symbolLaneOversample)

/-- The loop over the rows: a hunk seen before is skipped, and the `k`-th hit ends it. -/
def collect (k : Nat) : List (HunkHit K) → List (LaneRow × K) →
    Except OhraError (List (HunkHit K))
  | out, [] => .ok out
  | out, row :: rest => do
      let hit ← rowToHit row.1 (Hunk.bm25Similarity row.2)
      if hit.hunkId ∈ out.map HunkHit.hunkId then collect k out rest
      else if (out ++ [hit]).length = k then .ok (out ++ [hit])
      else collect k (out ++ [hit]) rest

/-- The hunks of files with a matching symbol. -/
def bm25ByName (u : Unicode) (sorter : Sorter) (fts : FtsIndex FtsSymbolNameRow K)
    (db : Database) (query : String) (k : UInt8) (language : Option String)
    (sinceUnix : Option Int) : Except OhraError (List (HunkHit K)) := do
    let matched ← fts (sanitizeFts5Query u query) db.ftsSymbolName
    collect k.toNat [] (bm25Rows sorter db k language sinceUnix matched)

end Symbol

namespace HunkSymbol

/-- The `CASE` of the `ORDER BY`. -/
def confidence (attributionKind : String) : Nat :=
    if attributionKind = "exact_span" then 0
    else if attributionKind = "hunk_header" then 1
    else 2

/-- `confidence ASC, cr.ts DESC`. -/
def rank (row : LaneRow × String) : ℕ ×ₗ ℤ :=
    toLex (confidence row.2, -row.1.commit.ts)

/-- What an attribution counts for. -/
def attributionSimilarity (attributionKind : String) : K :=
    if attributionKind = "exact_span" then 1
    else if attributionKind = "hunk_header" then 6 / 10
    else 3 / 10

/-- The attribution rows of the query, joined and filtered. -/
def attributions (u : Unicode) (db : Database) (query : String) (language : Option String)
    (sinceUnix : Option Int) : List (LaneRow × String) :=
    filteredRows db language sinceUnix ((db.hunkSymbol.filter (isCandidate u query)).map fun row =>
      (row.hunkId, row.attributionKind))

/-- The rows the statement delivers. -/
def bestAttributions (u : Unicode) (sorter : Sorter) (db : Database) (query : String) (k : UInt8)
    (language : Option String) (sinceUnix : Option Int) : List (LaneRow × String) :=
    (sorter.orderBy rank (attributions u db query language sinceUnix)).take k.toNat

/-- The hunks with a matching attribution. -/
def bm25ByHistoricalSymbol (u : Unicode) (sorter : Sorter) (db : Database) (query : String)
    (k : UInt8) (language : Option String) (sinceUnix : Option Int) :
    Except OhraError (List (HunkHit K)) := do
    let hits ← (bestAttributions u sorter db query k language sinceUnix).mapM fun row =>
      rowToHit row.1 (attributionSimilarity row.2)
    return firsts HunkHit.hunkId hits

end HunkSymbol

end Ohara
