import Ohara.Retriever.Pipeline

/-!
# What the cross-encoder does to the hits

The hits are paired with the scores by place, so scores in excess are ignored and a hit without a
score is lost. The hits are sorted by their normalised scores, whatever the rounding makes equal,
and the sort keeps the order of ties.
-/

namespace Ohara

namespace Retriever

open StableSort

variable {K : Type} [Field K] [LinearOrder K]

/-- The hits in the order of their normalised scores, which are written into them; hits that score
alike keep their order. -/
structure Reranked (round exp : K → K) (hits : List (HunkHit K)) (scores : List K)
    (ranked : List (HunkHit K)) : Prop where
  places : ∃ order : List ((HunkHit K × K) × Nat),
    order.Perm (hits.zip scores).zipIdx ∧
      (order.map fun entry => entry.1.1).Perm hits ∧
      ranked = (order.map fun entry =>
        { entry.1.1 with similarity := sigmoid round exp entry.1.2 }) ∧
      order.Pairwise fun a b => sigmoid round exp b.1.2 ≤ sigmoid round exp a.1.2 ∧
        (sigmoid round exp a.1.2 = sigmoid round exp b.1.2 → a.2 < b.2)

section Places

variable {round exp : K → K} {hits : List (HunkHit K)} {scores : List K}

omit [Field K] in
/-- Resorting by rewritten scores is a stable sort by any key that orders them alike. -/
theorem exists_resorted {α : Type} (key : α → K) (rescore : α → Scored K)
    (alike : ∀ a b, key b ≤ key a ↔ Scored.Higher (rescore a) (rescore b)) (xs : List α) :
    ∃ order : List (α × Nat), order.Perm xs.zipIdx ∧
      resort (xs.map rescore) = (order.map fun entry => (rescore entry.1).1) ∧
      order.Pairwise fun a b => key b.1 ≤ key a.1 ∧ (key a.1 ≤ key b.1 → a.2 < b.2) := by
  let higher (a b : α) : Prop := key b ≤ key a
  have : DecidableRel higher := fun a b => inferInstanceAs (Decidable (key b ≤ key a))
  have : Std.Total higher := ⟨fun a b => le_total (key b) (key a)⟩
  have : IsTrans α higher := ⟨fun _ _ _ above below => le_trans below above⟩
  rcases exists_places (r := higher) xs with ⟨order, places, sorted, placed⟩
  refine ⟨order, places, ?_, placed⟩
  have by_key := List.map_insertionSort higher Scored.Higher rescore xs
    (fun a _ b _ => alike a b)
  rw [resort, ← by_key, ← sorted, List.map_map, List.map_map]
  rfl

theorem exists_order (round exp : K → K) (hits : List (HunkHit K)) (scores : List K) :
    ∃ order : List ((HunkHit K × K) × Nat),
      order.Perm (hits.zip scores).zipIdx ∧
        resort ((hits.zip scores).map fun pair => scoreHit (sigmoid round exp pair.2) pair.1) =
          (order.map fun entry =>
            { entry.1.1 with similarity := sigmoid round exp entry.1.2 }) ∧
        order.Pairwise fun a b => sigmoid round exp b.1.2 ≤ sigmoid round exp a.1.2 ∧
          (sigmoid round exp a.1.2 = sigmoid round exp b.1.2 → a.2 < b.2) := by
  rcases exists_resorted (fun pair : HunkHit K × K => sigmoid round exp pair.2)
      (fun pair => scoreHit (sigmoid round exp pair.2) pair.1) (fun _ _ => Iff.rfl)
      (hits.zip scores) with ⟨order, places, sorted, placed⟩
  exact ⟨order, places, sorted,
    placed.imp fun before => ⟨before.1, fun tied => before.2 tied.le⟩⟩

omit [Field K] [LinearOrder K] in
/-- The pairs hold every hit exactly when there is a score for each. -/
theorem map_fst_order_perm_iff {order : List ((HunkHit K × K) × Nat)}
    (places : order.Perm (hits.zip scores).zipIdx) :
    (order.map fun entry => entry.1.1).Perm hits ↔ hits.length ≤ scores.length := by
  have paired : (order.map fun entry => entry.1.1).Perm ((hits.zip scores).map Prod.fst) := by
    have firsts := (places.map Prod.fst).map Prod.fst
    rw [List.zipIdx_map_fst, List.map_map] at firsts
    exact firsts
  constructor
  · intro all
    have lengths := (paired.symm.trans all).length_eq
    rw [List.length_map, List.length_zip] at lengths
    omega
  · intro enough
    rwa [List.map_fst_zip enough] at paired

end Places

/-- The reranker fails, or every hit comes back with its own score, in the order of the scores. -/
def KeepsHits (round exp : K → K) (reranker : Reranker K) (queryText : String)
    (hits : List (HunkHit K)) : Prop :=
    ∀ ranked, crossEncode round exp reranker queryText hits = .ok ranked →
      ∃ scores, (hits ≠ [] → reranker queryText (hits.map fun hit => hit.hunk.diffText) =
        .ok scores) ∧ Reranked round exp hits scores ranked

/-- A hit of which only similarity and id matter. -/
def reranked (similarity : K) (id : Int) : HunkHit K where
  hunkId := id
  hunk :=
    { commitSha := "a", filePath := "retry.rs", language := none, changeKind := .added,
      diffText := "+ retry()" }
  commitMeta :=
    { commitSha := "a", parentSha := none, isMerge := false, author := none, ts := 0,
      message := "" }
  similarity := similarity

/-- The rounding makes the scores of the second and the third hit equal, and they stay in order. -/
example :
    crossEncode (K := ℚ) (fun x => (4 * x).floor / 4)
        (fun x => if x < 0 then 1 / (1 - x) else 1 + x) (fun _ _ => .ok [0, 8, 9, -2]) "retry"
        [reranked 0 1, reranked 0 2, reranked 0 3, reranked 0 4] =
      .ok [reranked 1 2, reranked 1 3, reranked (1 / 2) 1, reranked (1 / 4) 4] := by
  decide +kernel

/-- Gives one score, whatever it is asked. -/
def oneScore : Reranker ℚ :=
    fun _ _ => .ok [0]

end Retriever

end Ohara
