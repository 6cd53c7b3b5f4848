import Ohara.Embed.Providers
import Ohara.Retriever.FindPatternSound

/-!
# The cross-encoder's scores

The session reports a score for each candidate, best first, and names the candidates by their
positions. The reranker puts the scores back into the order of the candidates; in what is returned
each hit is then scored by the whole diff it was found with, of which it shows the beginning.
-/

namespace Ohara

namespace FastEmbedReranker

variable {K : Type}

/-- The fields of `RerankResult` that are read. -/
structure RerankResult (K : Type) where
  index : Nat
  score : K
deriving DecidableEq, Repr

/-- `TextRerank::rerank`, with the message of its error. -/
abbrev RerankSession (K : Type) := String → List String → Except String (List (RerankResult K))

/-- A score goes to the position it is reported for. -/
def place (n : Nat) (out : List K) (r : RerankResult K) : List K :=
    if r.index < n then out.set r.index r.score else out

variable [Field K] [LinearOrder K]

/-- The scores in the order of the candidates; zero where none is reported. -/
def alignByIndex (results : List (RerankResult K)) (n : Nat) : List K :=
    results.foldl (place n) (List.replicate n 0)

/-- The scores of a session for the candidates. -/
def rerank (session : RerankSession K) : Retriever.Reranker K := fun query candidates =>
    if candidates.isEmpty then .ok []
    else do
      let results ← embeddingError (session query candidates)
      return alignByIndex results candidates.length

/-- The session reports once on each candidate, in any order. -/
def ScoresEach (session : RerankSession K) (score : String → String → K) : Prop :=
    ∀ query candidates results, session query candidates = .ok results →
      results.Perm (candidates.zipIdx.map fun pair => ⟨pair.2, score query pair.1⟩)

omit [Field K] [LinearOrder K] in
theorem length_foldl_place (n : Nat) (results : List (RerankResult K)) (out : List K) :
    (results.foldl (place n) out).length = out.length := by
  induction results generalizing out with
  | nil => rfl
  | cons r rest ih =>
      rw [List.foldl_cons, ih, place]
      split
      · exact List.length_set
      · rfl

omit [LinearOrder K] in
theorem length_alignByIndex (results : List (RerankResult K)) (n : Nat) :
    (alignByIndex results n).length = n := by
  rw [alignByIndex, length_foldl_place, List.length_replicate]

omit [Field K] [LinearOrder K] in
/-- A position that is not reported on keeps what it has. -/
theorem foldl_place_of_absent {n i : Nat} {results : List (RerankResult K)} (out : List K)
    (absent : i ∉ results.map RerankResult.index) :
    (results.foldl (place n) out)[i]? = out[i]? := by
  induction results generalizing out with
  | nil => rfl
  | cons r rest ih =>
      rw [List.map_cons, List.mem_cons, not_or] at absent
      rw [List.foldl_cons, ih _ absent.2, place]
      split
      · rw [List.getElem?_set_ne (Ne.symm absent.1)]
      · rfl

omit [Field K] [LinearOrder K] in
/-- A position that is reported on once has the score of that report. -/
theorem foldl_place_of_mem {n : Nat} {results : List (RerankResult K)}
    (once : (results.map RerankResult.index).Nodup) {r : RerankResult K} (r_mem : r ∈ results)
    (inside : r.index < n) {out : List K} (long : out.length = n) :
    (results.foldl (place n) out)[r.index]? = some r.score := by
  induction results generalizing out with
  | nil => cases r_mem
  | cons first rest ih =>
      rw [List.map_cons, List.nodup_cons] at once
      rw [List.foldl_cons]
      rcases List.mem_cons.1 r_mem with rfl | later
      · rw [foldl_place_of_absent _ once.1, place, if_pos inside]
        simp [long, inside]
      · apply ih once.2 later
        rw [place]
        split
        · rw [List.length_set, long]
        · exact long

omit [LinearOrder K] in
/-- In whatever order the reports come, the candidates have their own scores. -/
theorem alignByIndex_eq {results : List (RerankResult K)} {candidates : List String}
    {score : String → K}
    (each : results.Perm (candidates.zipIdx.map fun pair => ⟨pair.2, score pair.1⟩)) :
    alignByIndex results candidates.length = candidates.map score := by
  have once : (results.map RerankResult.index).Nodup := by
    have indices := each.map RerankResult.index
    rw [List.map_map] at indices
    apply indices.nodup_iff.2
    change (candidates.zipIdx.map Prod.snd).Nodup
    rw [List.zipIdx_map_snd]
    exact List.nodup_range'
  apply List.ext_getElem?
  intro i
  by_cases inside : i < candidates.length
  · have reported : (⟨i, score candidates[i]⟩ : RerankResult K) ∈ results := by
      rw [each.mem_iff, List.mem_map]
      exact ⟨(candidates[i], i), by simp [List.mem_zipIdx_iff_getElem?, inside], rfl⟩
    rw [alignByIndex, foldl_place_of_mem once reported inside List.length_replicate]
    simp [inside]
  · rw [List.getElem?_eq_none, List.getElem?_eq_none]
    · simpa using inside
    · rw [length_alignByIndex]
      omega

omit [LinearOrder K] in
/-- The reranker answers with one score for each candidate, whatever the session reports. -/
theorem length_rerank {session : RerankSession K} {query : String} {candidates : List String}
    {scores : List K} (answered : rerank session query candidates = .ok scores) :
    scores.length = candidates.length := by
  unfold rerank at answered
  split at answered
  · next empty =>
      cases answered
      rw [List.isEmpty_iff.1 empty]
      rfl
  · rcases Fallible.bind_eq_ok.1 answered with ⟨results, -, ⟨⟩⟩
    exact length_alignByIndex _ _

omit [LinearOrder K] in
theorem rerank_eq {session : RerankSession K} {score : String → String → K}
    (each : ScoresEach session score) {query : String} {candidates : List String}
    {scores : List K} (answered : rerank session query candidates = .ok scores) :
    scores = candidates.map (score query) := by
  unfold rerank at answered
  split at answered
  · next empty =>
      cases answered
      rw [List.isEmpty_iff.1 empty]
      rfl
  · rcases Fallible.bind_eq_ok.1 answered with ⟨results, reported, ⟨⟩⟩
    exact alignByIndex_eq (each _ _ _ (embeddingError_eq_ok.1 reported))

end FastEmbedReranker

namespace FindPattern

open FastEmbedReranker QueryUnderstanding Retriever

variable {K : Type} [Field K] [LinearOrder K]

/-- What a row scores: the model's score of its whole diff, and the age of its commit. -/
def ownScore (exp : K → K) (weights : RankingWeights K) (nowUnix : Int) (score : String → K)
    (row : LaneRow) : K :=
    sigmoid id exp (score row.hunk.diffText) *
      recencyFactor exp weights.recencyWeight weights.recencyHalfLifeDays nowUnix row.commit.ts

/-- The cross-encoder scores every hit by its own diff. -/
theorem similarity_of_reranked {exp : K → K} {session : RerankSession K}
    {score : String → String → K} (each : ScoresEach session score) {query : PatternQuery}
    {pool ranked : List (HunkHit K)}
    (reranked : rerankPool exp (some (rerank session)) query pool = .ok ranked)
    {base : HunkHit K} (base_mem : base ∈ ranked) :
    base.similarity = sigmoid id exp (score query.query base.hunk.diffText) := by
  change crossEncode id exp (rerank session) query.query pool = .ok ranked at reranked
  unfold crossEncode at reranked
  split at reranked
  · next empty =>
      cases reranked
      rw [List.isEmpty_iff.1 empty] at base_mem
      cases base_mem
  · rcases Fallible.bind_eq_ok.1 reranked with ⟨scores, answered, ⟨⟩⟩
    rw [rerank_eq each answered, List.map_map, ← List.map_prod_left_eq_zip, List.map_map,
      (resort_perm _).mem_iff, List.map_map, List.mem_map] at base_mem
    rcases base_mem with ⟨hit, -, rfl⟩
    rfl

/-- A session that is undecided, and reports on the last candidate first. -/
def undecidedSession : RerankSession ℚ :=
    fun _ candidates => .ok (candidates.zipIdx.map fun pair => ⟨pair.2, 0⟩).reverse

/-- What the query finds with this session. -/
def rerankedAnswer : Except OhraError (List (PatternHit ℚ) × RetrievalProfile ℚ) :=
    findPatternWithProfile ThreeHunks.exp (fun _ => "") TwoFiles.backend ThreeHunks.weights
      (some (rerank undecidedSession)) (fun _ => 0) ⟨"r"⟩ ThreeHunks.query 0

end FindPattern

end Ohara
