import Mathlib.Algebra.Order.Field.Rat
import Ohara.Library.StableSort
import Ohara.Retriever.Fusion

/-!
# What a retrieval returns

Past the fusion the coordinator only rescores and reorders: the hits that come out are hits of the
pool with another similarity. Without a reranker the order is that of the lanes' own similarities,
which is the fused order only where the two agree.
-/

namespace Ohara

namespace Retriever

variable {K : Type} [Field K] [LinearOrder K]

instance : Std.Total (Scored.Higher (K := K)) where
  total a b := le_total b.2 a.2

instance : IsTrans (Scored K) Scored.Higher where
  trans _ _ _ above below := le_trans below above

/-! ## Rescoring keeps the hits -/

omit [Field K] in
theorem resort_perm (scored : List (Scored K)) : (resort scored).Perm (scored.map Prod.fst) :=
  (List.perm_insertionSort _ _).map _

omit [Field K] in
theorem resort_sorted {scored : List (Scored K)}
    (written : ∀ pair ∈ scored, pair.1.similarity = pair.2) :
    (resort scored).Pairwise fun a b => b.similarity ≤ a.similarity := by
  rw [resort, List.pairwise_map]
  apply (List.pairwise_insertionSort Scored.Higher scored).imp_of_mem
  intro a b a_mem b_mem higher
  rw [written a ((List.mem_insertionSort _).1 a_mem), written b ((List.mem_insertionSort _).1 b_mem)]
  exact higher

omit [Field K] [LinearOrder K] in
@[simp]
theorem payload_scoreHit (score : K) (hit : HunkHit K) :
    (scoreHit score hit).1.payload = hit.payload :=
  rfl

theorem crossEncode_payloads {round exp : K → K} {reranker : Reranker K} {text : String}
    {pool ranked : List (HunkHit K)}
    (oneScore : ∀ text candidates scores, reranker text candidates = .ok scores →
      scores.length = candidates.length)
    (encoded : crossEncode round exp reranker text pool = .ok ranked) :
    (ranked.map HunkHit.payload).Perm (pool.map HunkHit.payload) := by
  unfold crossEncode at encoded
  split at encoded
  · cases encoded
    exact List.Perm.refl _
  · rcases Fallible.bind_eq_ok.1 encoded with ⟨scores, answered, sorted⟩
    cases sorted
    have enough : pool.length ≤ scores.length := by
      rw [oneScore _ _ _ answered, List.length_map]
    have kept : ((pool.zip scores).map fun pair => pair.1.payload) = pool.map HunkHit.payload := by
      conv_rhs => rw [← List.map_fst_zip enough, List.map_map]
      rfl
    have rescored := (resort_perm ((pool.zip scores).map fun pair =>
      scoreHit (sigmoid round exp pair.2) pair.1)).map HunkHit.payload
    rw [List.map_map, List.map_map] at rescored
    exact kept ▸ rescored

theorem crossEncode_error_iff {round exp : K → K} {reranker : Reranker K} {text : String}
    {pool : List (HunkHit K)} {e : OhraError} :
    crossEncode round exp reranker text pool = .error e ↔
      pool ≠ [] ∧ reranker text (pool.map fun hit => hit.hunk.diffText) = .error e := by
  unfold crossEncode
  cases pool with
  | nil => simp
  | cons hit rest =>
      rw [if_neg (by simp), Fallible.bind_eq_error]
      simp

theorem rerankPool_payloads {exp : K → K} {reranker : Option (Reranker K)} {query : PatternQuery}
    {pool ranked : List (HunkHit K)}
    (oneScore : ∀ r ∈ reranker, ∀ text candidates scores, r text candidates = .ok scores →
      scores.length = candidates.length)
    (reranked : rerankPool exp reranker query pool = .ok ranked) :
    (ranked.map HunkHit.payload).Perm (pool.map HunkHit.payload) := by
  cases reranker with
  | none =>
      cases reranked
      exact List.Perm.refl _
  | some r => exact crossEncode_payloads (oneScore r rfl) reranked

/-- The hit with its combined score. -/
def combine (exp : K → K) (weights : RankingWeights K) (nowUnix : Int) (hit : HunkHit K) :
    Scored K :=
    scoreHit (hit.similarity *
      recencyFactor exp weights.recencyWeight weights.recencyHalfLifeDays nowUnix
        hit.commitMeta.ts) hit

theorem run_eq (exp : K → K) {lanes : List (Lane K)} {weights : RankingWeights K}
    (reranker : Option (Reranker K)) {query : PatternQuery} {repoId : RepoId} (finalK : Nat)
    (nowUnix : Int) {lists : List (List (HunkHit K))}
    (found : laneResults lanes weights query repoId = lists.map .ok) :
    run exp lanes weights reranker query repoId finalK nowUnix =
      rerankPool exp reranker query ((fusedHits lists weights.rrfK).take weights.rerankTopK) >>=
        fun ranked => .ok ((resort (ranked.map (combine exp weights nowUnix))).take finalK) := by
  rw [run, found, gather_ok, Fallible.ok_bind]
  simp only [fuseToPool_gathered]
  generalize (fusedHits lists weights.rrfK).take weights.rerankTopK = pool
  cases pool with
  | nil =>
      have nothing : rerankPool exp reranker query [] = .ok [] := by
        cases reranker with
        | none => rfl
        | some r => rfl
      rw [nothing, Fallible.ok_bind]
      simp [resort]
  | cons hit rest => rfl

theorem run_of_lane_error (exp : K → K) {lanes : List (Lane K)} {weights : RankingWeights K}
    (reranker : Option (Reranker K)) {query : PatternQuery} {repoId : RepoId} (finalK : Nat)
    (nowUnix : Int) {e : OhraError} (failed : .error e ∈ laneResults lanes weights query repoId) :
    ∃ e, run exp lanes weights reranker query repoId finalK nowUnix = .error e := by
  rcases gather_error failed with ⟨first, stopped⟩
  exact ⟨first, by rw [run, stopped, Fallible.error_bind]⟩

/-! ## Nothing lost, nothing invented -/

/-- What a list of hits owes the lanes it was retrieved from and the hits as reranked. -/
structure Retrieved (exp : K → K) (weights : RankingWeights K) (finalK : Nat) (nowUnix : Int)
    (lists : List (List (HunkHit K))) (ranked hits : List (HunkHit K)) : Prop where
  distinct : (hits.map HunkHit.hunkId).Nodup
  reported : ∀ hit ∈ hits, ∃ found ∈ lists.flatten, hit.payload = found.payload
  combined : ∀ hit ∈ hits, ∃ base ∈ ranked, hit.payload = base.payload ∧
    hit.similarity = base.similarity * recencyFactor exp weights.recencyWeight
      weights.recencyHalfLifeDays nowUnix hit.commitMeta.ts
  sorted : hits.Pairwise fun a b => b.similarity ≤ a.similarity
  length : hits.length =
    min finalK (min weights.rerankTopK (lists.flatten.map HunkHit.hunkId).dedup.length)

omit [Field K] [LinearOrder K] in
theorem hunkId_of_payload {hits others : List (HunkHit K)}
    (same : (hits.map HunkHit.payload).Perm (others.map HunkHit.payload)) :
    (hits.map HunkHit.hunkId).Perm (others.map HunkHit.hunkId) := by
  have ids := same.map Prod.fst
  rwa [List.map_map, List.map_map] at ids

theorem retrieved_of_ranked {exp : K → K} {weights : RankingWeights K} {finalK : Nat}
    {nowUnix : Int} {lists : List (List (HunkHit K))} {ranked : List (HunkHit K)}
    (same : (ranked.map HunkHit.payload).Perm
      (((fusedHits lists weights.rrfK).take weights.rerankTopK).map HunkHit.payload)) :
    Retrieved exp weights finalK nowUnix lists ranked
      ((resort (ranked.map (combine exp weights nowUnix))).take finalK) := by
  have sorted := resort_perm (ranked.map (combine exp weights nowUnix))
  have sorted_payloads := sorted.map HunkHit.payload
  rw [List.map_map, List.map_map] at sorted_payloads
  have pool_payloads := sorted_payloads.trans same
  have from_pool : ∀ hit ∈ resort (ranked.map (combine exp weights nowUnix)),
      ∃ found ∈ fusedHits lists weights.rrfK, hit.payload = found.payload := by
    intro hit hit_mem
    rcases List.mem_map.1 (pool_payloads.subset (List.mem_map_of_mem hit_mem)) with
      ⟨found, found_mem, payload⟩
    exact ⟨found, List.mem_of_mem_take found_mem, payload.symm⟩
  refine ⟨?_, ?_, ?_, ?_, ?_⟩
  · rw [List.map_take]
    apply List.Pairwise.take
    rw [← List.Nodup, (hunkId_of_payload pool_payloads).nodup_iff, List.map_take]
    exact (nodup_fusedHits lists weights.rrfK).take
  · intro hit hit_mem
    rcases from_pool hit (List.mem_of_mem_take hit_mem) with ⟨found, found_mem, payload⟩
    exact ⟨found, List.mem_flatten.2 (mem_lists_of_mem_fusedHits found_mem), payload⟩
  · intro hit hit_mem
    have hit_scored := sorted.subset (List.mem_of_mem_take hit_mem)
    rw [List.map_map, List.mem_map] at hit_scored
    rcases hit_scored with ⟨base, base_mem, rfl⟩
    exact ⟨base, base_mem, rfl, rfl⟩
  · apply List.Pairwise.take
    apply resort_sorted
    intro pair pair_mem
    rcases List.mem_map.1 pair_mem with ⟨base, -, rfl⟩
    rfl
  · have kept := pool_payloads.length_eq
    rw [List.length_map, List.length_map, List.length_take, length_fusedHits] at kept
    rw [List.length_take, kept]

namespace ThreeHunks

/-- A hit of which only id and similarity matter. -/
def hit (id : Int) (similarity : ℚ) : HunkHit ℚ where
  hunkId := id
  hunk :=
    { commitSha := "a", filePath := "retry.rs", language := some "rust", changeKind := .added,
      diffText := "+ retry()" }
  commitMeta :=
    { commitSha := "a", parentSha := none, isMerge := false, author := none, ts := 0,
      message := "add retry" }
  similarity := similarity

/-- No recency. -/
def weights : RankingWeights ℚ where
  recencyWeight := 0
  recencyHalfLifeDays := 90
  rerankTopK := 20
  laneTopK := 100
  rrfK := 60

/-- The query of the example. -/
def query : PatternQuery where
  query := "retry"
  k := 5
  language := none
  sinceUnix := none
  noRerank := false

/-- Agrees with the exponential at 0, the only exponent these runs have. -/
def exp (x : ℚ) : ℚ :=
    1 + x

/-- The hits of the first lane. -/
def vecHits : List (HunkHit ℚ) :=
    [hit 1 (1 / 2), hit 2 (1 / 3)]

/-- The hits of the second lane, the better one last. -/
def textHits : List (HunkHit ℚ) :=
    [hit 1 (1 / 5), hit 3 (1 / 4)]

/-- The two lanes. -/
def lanes : List (Lane ℚ) :=
    [fun _ _ _ => .ok vecHits, fun _ _ _ => .ok textHits]

/-- Finds every candidate neither relevant nor irrelevant. -/
def undecided : Reranker ℚ :=
    fun _ candidates => .ok (candidates.map fun _ => 0)

end ThreeHunks

omit [Field K] [LinearOrder K] in
theorem selectReranker_eq_none {attached : Option (Reranker K)} {query : PatternQuery}
    (degraded : attached = none ∨ query.noRerank = true) : selectReranker attached query = none := by
  rcases degraded with rfl | skipped
  · rfl
  · rw [selectReranker, Option.filter_eq_none_iff]
    intro r _
    simp [skipped]

end Retriever

end Ohara
