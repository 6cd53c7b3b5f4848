import Mathlib.Algebra.Order.Field.Basic
import Mathlib.Data.List.Sort
import Ohara.Library.Rows
import Ohara.Types

/-!
# The retrieval coordinator

Reciprocal rank fusion over the lanes, the optional cross-encoder, the recency multiplier and the
truncation to the caller's `final_k`. Scores are elements of an ordered field; `exp` stands for the
exponential of the score type.
-/

namespace Ohara

namespace Retriever

variable {K : Type}

/-- What `find_pattern` is asked. -/
structure PatternQuery where
  query : String
  k : UInt8
  language : Option String
  sinceUnix : Option Int
  noRerank : Bool
deriving DecidableEq, Repr

/-- A hunk that a lane has found. -/
structure HunkHit (K : Type) where
  hunkId : Int
  hunk : Hunk
  commitMeta : CommitMeta
  similarity : K
deriving DecidableEq, Repr

/-- What a hit says apart from how well it matches. -/
def HunkHit.payload (hit : HunkHit K) : Int × Hunk × CommitMeta :=
    (hit.hunkId, hit.hunk, hit.commitMeta)

/-- The knobs of the ranking. -/
structure RankingWeights (K : Type) where
  recencyWeight : K
  recencyHalfLifeDays : K
  rerankTopK : Nat
  laneTopK : UInt8
  rrfK : UInt32
deriving Repr

/-- `RetrievalLane::search`. -/
abbrev Lane (K : Type) := PatternQuery → RepoId → Nat → Except OhraError (List (HunkHit K))

/-- `RerankProvider::rerank`. -/
abbrev Reranker (K : Type) := String → List String → Except OhraError (List K)

variable [Field K] [LinearOrder K]

/-! ## Reciprocal rank fusion -/

/-- The score of a hunk over the lanes, with its place in the order of first sightings. -/
structure Fused (K : Type) where
  id : Int
  score : K
  firstSeen : Nat
deriving DecidableEq, Repr

/-- Score descending, then first appearance ascending. -/
def Fused.Before (a b : Fused K) : Prop :=
    b.score < a.score ∨ b.score = a.score ∧ a.firstSeen ≤ b.firstSeen

instance : DecidableRel (Fused.Before (K := K)) := fun a b =>
  inferInstanceAs (Decidable (b.score < a.score ∨ b.score = a.score ∧ a.firstSeen ≤ b.firstSeen))

/-- One id of a ranking with its 1-based rank. -/
def addRank (k : UInt32) (entries : List (Fused K)) (ranked : Int × Nat) : List (Fused K) :=
    let term : K := 1 / (k.toNat + ranked.2)
    Rows.upsert Fused.id
      { id := ranked.1, score := term, firstSeen := entries.length }
      (fun entry => { entry with score := entry.score + term })
      entries

/-- The maps `scores` and `first_seen`, as one entry for each id. -/
def fusedEntries (rankings : List (List Int)) (k : UInt32) : List (Fused K) :=
    rankings.foldl (fun entries ranking => (ranking.zipIdx 1).foldl (addRank k) entries) []

variable (K) in
/-- The ids of all lanes by their fused scores, equal ones by id. -/
def reciprocalRankFusion (rankings : List (List Int)) (k : UInt32) : List Int :=
    ((fusedEntries (K := K) rankings k).insertionSort Fused.Before).map Fused.id

/-- The hits of the first fused ids. -/
def fuseToPool (rankings : List (List Int)) (byId : List (HunkHit K)) (rrfK : UInt32)
    (poolK : Nat) : List (HunkHit K) :=
    ((reciprocalRankFusion K rankings rrfK).take poolK).filterMap fun id =>
      Rows.lookup HunkHit.hunkId id byId

/-! ## Rescoring -/

/-- A hit beside the score it is sorted by. -/
abbrev Scored (K : Type) := HunkHit K × K

/-- The order of the results. -/
def Scored.Higher (a b : Scored K) : Prop :=
    b.2 ≤ a.2

instance : DecidableRel (Scored.Higher (K := K)) := fun a b =>
  inferInstanceAs (Decidable (b.2 ≤ a.2))

/-- The stable sort on the scores, highest first, and what remains of the hits. -/
def resort (scored : List (Scored K)) : List (HunkHit K) :=
    (scored.insertionSort Scored.Higher).map Prod.fst

/-- A score is written into the hit it is for. -/
def scoreHit (score : K) (hit : HunkHit K) : Scored K :=
    ({ hit with similarity := score }, score)

/-- `round` is what becomes of a sum or a quotient that the score type does not hold. -/
def sigmoid (round exp : K → K) (x : K) : K :=
    if 0 ≤ x then
      round (1 / round (1 + exp (-x)))
    else
      round (exp x / round (1 + exp x))

/-- A score that has no hit is ignored. -/
def crossEncode (round exp : K → K) (reranker : Reranker K) (queryText : String)
    (hits : List (HunkHit K)) : Except OhraError (List (HunkHit K)) :=
    if hits.isEmpty then
      .ok hits
    else do
      let scores ← reranker queryText (hits.map fun hit => hit.hunk.diffText)
      return resort ((hits.zip scores).map fun pair => scoreHit (sigmoid round exp pair.2) pair.1)

/-- `1.0 + recency_weight * exp(-age_days / half_life_days)`. -/
def recencyFactor (exp : K → K) (recencyWeight recencyHalfLifeDays : K) (nowUnix ts : Int) : K :=
    let ageDays : K := (max (nowUnix - ts) 0 : Int) / 86400
    1 + recencyWeight * exp (-ageDays / recencyHalfLifeDays)

/-- The scores with the recency factor of each commit, sorted anew. -/
def applyRecency (exp : K → K) (hits : List (HunkHit K))
    (recencyWeight recencyHalfLifeDays : K) (nowUnix : Int) : List (HunkHit K) :=
    resort (hits.map fun hit =>
      scoreHit (hit.similarity *
        recencyFactor exp recencyWeight recencyHalfLifeDays nowUnix hit.commitMeta.ts) hit)

/-! ## The pipeline -/

/-- The first hit of every id, and the ids of each lane in its order. -/
structure Gathered (K : Type) where
  byId : List (HunkHit K)
  rankings : List (List Int)
deriving Repr

/-- The first hit with an id is kept. -/
def fileHits (byId hits : List (HunkHit K)) : List (HunkHit K) :=
    hits.foldl (fun byId hit => Rows.insertOrIgnore HunkHit.hunkId hit byId) byId

/-- The answer of a lane joins those gathered before. -/
def gatherLane (gathered : Gathered K) (result : Except OhraError (List (HunkHit K))) :
    Except OhraError (Gathered K) := do
    let hits ← result
    return {
      byId := fileHits gathered.byId hits
      rankings := gathered.rankings ++ [hits.map HunkHit.hunkId] }

/-- Step 2: the results are taken in lane order; the first failed one ends the run. -/
def gather (results : List (Except OhraError (List (HunkHit K)))) :
    Except OhraError (Gathered K) :=
    results.foldlM gatherLane { byId := [], rankings := [] }

/-- The lanes are all fired before any result is looked at. -/
def laneResults (lanes : List (Lane K)) (weights : RankingWeights K) (query : PatternQuery)
    (repoId : RepoId) : List (Except OhraError (List (HunkHit K))) :=
    lanes.map fun lane => lane query repoId weights.laneTopK.toNat

/-- Step 4, which is left out without a reranker. The pipeline computes with exact scores. -/
def rerankPool (exp : K → K) (reranker : Option (Reranker K)) (query : PatternQuery)
    (pool : List (HunkHit K)) : Except OhraError (List (HunkHit K)) :=
    match reranker with
    | some reranker => crossEncode id exp reranker query.query pool
    | none => .ok pool

/-- The lanes, the fusion, the reranker and the recency in turn. -/
def run (exp : K → K) (lanes : List (Lane K)) (weights : RankingWeights K)
    (reranker : Option (Reranker K)) (query : PatternQuery) (repoId : RepoId) (finalK : Nat)
    (nowUnix : Int) : Except OhraError (List (HunkHit K)) := do
    let gathered ← gather (laneResults lanes weights query repoId)
    let pool := fuseToPool gathered.rankings gathered.byId weights.rrfK weights.rerankTopK
    if pool.isEmpty then
      return []
    let hits ← rerankPool exp reranker query pool
    let hits := applyRecency exp hits weights.recencyWeight weights.recencyHalfLifeDays nowUnix
    return hits.take finalK

/-- The reranker of a query: the attached one, unless the query opts out. -/
def selectReranker (attached : Option (Reranker K)) (query : PatternQuery) :
    Option (Reranker K) :=
    attached.filter fun _ => !query.noRerank

end Retriever

end Ohara
