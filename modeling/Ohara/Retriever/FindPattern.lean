import Ohara.Explain.Hydrator
import Ohara.Retriever.QueryUnderstanding
import Ohara.Storage.HunkSymbols

/-!
# `find_pattern`

The five lanes over the storage layer, each behind the gate of the query's profile, the coordinator
over them, and the hydration of what it returns. Every lane parses the query for itself and so reads
the clock for itself.
-/

namespace Ohara

namespace FindPattern

open Retriever QueryUnderstanding Selection

variable {K : Type} [Field K] [LinearOrder K]

/-- A hit as it is reported. -/
structure PatternHit (K : Type) where
  commitSha : String
  commitMessage : String
  commitAuthor : Option String
  commitDate : String
  filePath : String
  changeKind : String
  diffExcerpt : String
  diffTruncated : Bool
  relatedHeadSymbols : List String
  similarity : K
  recencyWeight : K
  combinedScore : K
  provenance : Provenance
deriving DecidableEq, Repr

/-- The database and the embedder behind the lanes; what FTS5 and `vec0` answer is a parameter. -/
structure Backend (K : Type) where
  unicode : Unicode
  vec0 : Sorter
  sorter : Sorter
  distance : List UInt8 → List UInt8 → K
  ftsHunks : FtsIndex FtsHunkRow K
  ftsSymbols : FtsIndex FtsSymbolNameRow K
  embedBatch : List String → Except OhraError (List Vector)
  db : Database

/-- `u8::try_from(k).unwrap_or(u8::MAX)`. -/
def storageK (k : Nat) : UInt8 :=
    if k < 256 then UInt8.ofNat k else 255

/-- The bound on the commit times: the caller's, or else that of a phrase in the query. -/
def sinceUnix (u : Unicode) (now : Int) (query : PatternQuery) : Option Int :=
    query.sinceUnix.or (parseQuery u now query.query).sinceUnix

variable (K) in
/-- The profile of a query; it does not depend on the time that `parse_query` reads. -/
def profileOf (u : Unicode) (now : Int) (query : PatternQuery) : RetrievalProfile K :=
    RetrievalProfile.forIntent (parseQuery u now query.query).intent

namespace Backend

variable (backend : Backend K)

/-- What all lanes do around their call of the storage layer. -/
def gated (id : LaneId) (now : Int)
    (search : String → UInt8 → Option String → Option Int → Except OhraError (List (HunkHit K))) :
    Lane K := fun query _ k =>
    if (profileOf K backend.unicode now query).isLaneEnabled id then
      search query.query (storageK k) query.language (sinceUnix backend.unicode now query)
    else .ok []

/-- The nearest vectors. -/
def vecLane (now : Int) : Lane K :=
    backend.gated .vec now fun query k language sinceUnix => do
      let embs ← backend.embedBatch [query]
      match embs.getLast? with
      | some qEmb =>
          Hunk.knn backend.vec0 backend.sorter backend.distance backend.db qEmb k language sinceUnix
      | none => .error (.embedding "embed_batch returned empty")

/-- The matches in diffs. -/
def bm25TextLane (now : Int) : Lane K :=
    backend.gated .bm25Text now
      (Hunk.bm25ByText backend.unicode backend.sorter backend.ftsHunks backend.db)

/-- The matches in semantic texts. -/
def bm25SemTextLane (now : Int) : Lane K :=
    backend.gated .bm25SemText now
      (Hunk.bm25BySemanticText backend.unicode backend.sorter backend.ftsHunks backend.db)

/-- The matches in attributed symbols. -/
def bm25HistSymLane (now : Int) : Lane K :=
    backend.gated .bm25HistSym now
      (HunkSymbol.bm25ByHistoricalSymbol backend.unicode backend.sorter backend.db)

/-- The matches in the symbols at HEAD. -/
def bm25HeadSymLane (now : Int) : Lane K :=
    backend.gated .bm25HeadSym now
      (Symbol.bm25ByName backend.unicode backend.sorter backend.ftsSymbols backend.db)

/-- The lane of each id, with the time it reads. -/
def lane (clock : LaneId → Int) : LaneId → Lane K
  | .vec => backend.vecLane (clock .vec)
  | .bm25Text => backend.bm25TextLane (clock .bm25Text)
  | .bm25SemText => backend.bm25SemTextLane (clock .bm25SemText)
  | .bm25HistSym => backend.bm25HistSymLane (clock .bm25HistSym)
  | .bm25HeadSym => backend.bm25HeadSymLane (clock .bm25HeadSym)

end Backend

/-- The order in which the lanes are fused. -/
def laneIds : List LaneId :=
    [.vec, .bm25Text, .bm25SemText, .bm25HistSym, .bm25HeadSym]

/-- `query.k.clamp(1, 20)`. -/
def finalK (query : PatternQuery) : Nat :=
    max 1 (min query.k.toNat 20)

/-- `format!("{:?}", change_kind).to_lowercase()`. -/
def changeKindText : ChangeKind → String
  | .added => "added"
  | .modified => "modified"
  | .deleted => "deleted"
  | .renamed => "renamed"

/-- The names of the symbols of a hunk, as the map of the batch gives them. -/
def symbolNames (attrs : Int → Option (List HunkSymbol)) (hunkId : Int) : List String :=
    ((attrs hunkId).getD []).map HunkSymbol.name

/-- A hit of the coordinator as it is shown. -/
def patternHit (exp : K → K) (rfc3339 : Hydrator.DateFormat) (weights : RankingWeights K)
    (nowUnix : Int) (attrs : Int → Option (List HunkSymbol)) (hit : HunkHit K) : PatternHit K :=
    let ageDays : K := (max (nowUnix - hit.commitMeta.ts) 0 : Int) / (86400 : Nat)
    let excerpt := truncateDiff hit.hunk.diffText diffExcerptMaxLines
    { commitSha := hit.commitMeta.commitSha
      commitMessage := hit.commitMeta.message
      commitAuthor := hit.commitMeta.author
      commitDate := rfc3339 hit.commitMeta.ts
      filePath := hit.hunk.filePath
      changeKind := changeKindText hit.hunk.changeKind
      diffExcerpt := excerpt.1
      diffTruncated := excerpt.2
      relatedHeadSymbols := symbolNames attrs hit.hunkId
      similarity := hit.similarity
      recencyWeight := exp (-ageDays / weights.recencyHalfLifeDays)
      combinedScore := hit.similarity
      provenance := .inferred }

/-- `find_pattern_with_profile`, under the weights the retriever was built with. -/
def findPatternWithProfile (exp : K → K) (rfc3339 : Hydrator.DateFormat) (backend : Backend K)
    (weights : RankingWeights K) (attached : Option (Reranker K)) (clock : LaneId → Int)
    (repoId : RepoId) (query : PatternQuery) (nowUnix : Int) :
    Except OhraError (List (PatternHit K) × RetrievalProfile K) := do
    let profile := profileOf K backend.unicode nowUnix query
    let effective := profile.effectiveWeights weights
    let rawHits ← run exp (laneIds.map (backend.lane clock)) effective
      (selectReranker attached query) query repoId (finalK query) nowUnix
    if rawHits.isEmpty then
      return ([], profile)
    match HunkSymbol.getForHunks backend.sorter backend.db (rawHits.map HunkHit.hunkId) with
    | some attrs =>
        return (rawHits.map (patternHit exp rfc3339 effective nowUnix attrs), profile)
    | none => .error (.storage "too many SQL variables")

end FindPattern

end Ohara
