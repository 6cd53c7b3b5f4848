import Mathlib.Algebra.Order.BigOperators.Group.List
import Mathlib.Algebra.Order.Field.Rat
import Ohara.Retriever.Fusion

/-!
# What reciprocal rank fusion ranks by

The specification scores an id lane by lane, from its place in each lane, and breaks ties by the
place where the id appears first. The fused ranking is the one strictly sorted list of all ids in
this order, whatever order the score map is iterated in, and an id that is ahead of another
wherever the other is ranked is ahead of it in the result.
-/

namespace Ohara

namespace Retriever

variable {K : Type} [Field K]

/-- `1 / (k + rank)` from a lane that contains the id, nothing from the others. -/
def laneTerm (K : Type) [Field K] (k : UInt32) (id : Int) (ranking : List Int) : K :=
    if id ∈ ranking then 1 / ((k.toNat : K) + (ranking.idxOf id + 1 : Nat)) else 0

/-- The score of the specification. -/
def laneScore (K : Type) [Field K] (k : UInt32) (rankings : List (List Int)) (id : Int) : K :=
    (rankings.map (laneTerm K k id)).sum

/-- Best score first, then first appearance over the lanes. -/
def RanksAbove (K : Type) [Field K] [LinearOrder K] (k : UInt32) (rankings : List (List Int))
    (a b : Int) : Prop :=
    laneScore K k rankings b < laneScore K k rankings a ∨
      laneScore K k rankings b = laneScore K k rankings a ∧
        rankings.flatten.idxOf a < rankings.flatten.idxOf b

/-- Every lane that ranks `b` ranks `a` above it. -/
def Dominates (rankings : List (List Int)) (a b : Int) : Prop :=
    ∀ ranking ∈ rankings, b ∈ ranking → a ∈ ranking ∧ ranking.idxOf a < ranking.idxOf b

/-! ## Scores -/

theorem occurrenceScore_append_list (k : UInt32) (ranked rest : List (Int × Nat)) (id : Int) :
    occurrenceScore K k (ranked ++ rest) id =
      occurrenceScore K k ranked id + occurrenceScore K k rest id := by
  simp [occurrenceScore]

/-- A lane without duplicates contributes at most once. -/
theorem occurrenceScore_zipIdx (k : UInt32) {ranking : List Int} (nodup : ranking.Nodup)
    (id : Int) (start : Nat) :
    occurrenceScore K k (ranking.zipIdx start) id =
      if id ∈ ranking then 1 / ((k.toNat : K) + (ranking.idxOf id + start : Nat)) else 0 := by
  induction ranking generalizing start with
  | nil => simp [occurrenceScore]
  | cons head rest ih =>
      rw [List.nodup_cons] at nodup
      have rest_score := ih nodup.2 (start + 1)
      rw [List.zipIdx_cons, ← List.singleton_append, occurrenceScore_append_list, rest_score]
      by_cases same : head = id
      · subst same
        simp [occurrenceScore, nodup.1]
      · have shifted : rest.idxOf id + (start + 1) = rest.idxOf id + 1 + start := by omega
        simp [occurrenceScore, same, Ne.symm same, List.idxOf_cons_ne _ same, shifted]

theorem occurrenceScore_eq_laneScore (k : UInt32) {rankings : List (List Int)}
    (nodup : ∀ ranking ∈ rankings, ranking.Nodup) (id : Int) :
    occurrenceScore K k (rankedIds rankings) id = laneScore K k rankings id := by
  induction rankings with
  | nil => simp [occurrenceScore, rankedIds, laneScore]
  | cons ranking rest ih =>
      rw [List.forall_mem_cons] at nodup
      have rest_score := ih nodup.2
      have first_score := occurrenceScore_zipIdx (K := K) k nodup.1 id 1
      rw [rankedIds] at rest_score
      rw [rankedIds, List.flatMap_cons, occurrenceScore_append_list, rest_score, first_score]
      rfl

/-! ## First appearances -/

/-- The entries are listed in the order their ids appear first. -/
def ByAppearance (ids : List Int) (entries : List (Fused K)) : Prop :=
    (entries.map Fused.id).Pairwise fun a b => ids.idxOf a < ids.idxOf b

theorem byAppearance_addRank {k : UInt32} {ranked : List (Int × Nat)} {entries : List (Fused K)}
    (counts : Counts k ranked entries) (listed : ByAppearance (ranked.map Prod.fst) entries)
    (place : Int × Nat) :
    ByAppearance ((ranked ++ [place]).map Prod.fst) (addRank k entries place) := by
  have kept : (entries.map Fused.id).Pairwise fun a b =>
      ((ranked ++ [place]).map Prod.fst).idxOf a < ((ranked ++ [place]).map Prod.fst).idxOf b := by
    apply listed.imp_of_mem
    intro a b a_mem b_mem before
    rw [List.map_append, List.idxOf_append_of_mem ((counts.ids a).1 a_mem),
      List.idxOf_append_of_mem ((counts.ids b).1 b_mem)]
    exact before
  have ids : (addRank k entries place).map Fused.id =
      if place.1 ∈ entries.map Fused.id then entries.map Fused.id
      else entries.map Fused.id ++ [place.1] :=
    Rows.map_upsert
      (fun entry : Fused K => { entry with score := entry.score + 1 / ((k.toNat : K) + place.2) })
      (fun _ => rfl) _ _
  rw [ByAppearance, ids]
  split
  · exact kept
  · next fresh =>
      refine List.pairwise_append.2 ⟨kept, List.pairwise_singleton _ _, ?_⟩
      intro a a_mem b b_mem
      rw [List.mem_singleton.1 b_mem]
      have a_ranked := (counts.ids a).1 a_mem
      have b_fresh : place.1 ∉ ranked.map Prod.fst := fun mem => fresh ((counts.ids place.1).2 mem)
      rw [List.map_append, List.idxOf_append_of_mem a_ranked,
        List.idxOf_append_of_notMem b_fresh]
      have a_before := List.idxOf_lt_length_of_mem a_ranked
      omega

theorem byAppearance_foldl {k : UInt32} {ranked : List (Int × Nat)} {entries : List (Fused K)}
    (counts : Counts k ranked entries) (listed : ByAppearance (ranked.map Prod.fst) entries)
    (rest : List (Int × Nat)) :
    ByAppearance ((ranked ++ rest).map Prod.fst) (rest.foldl (addRank k) entries) := by
  induction rest generalizing ranked entries with
  | nil => simpa using listed
  | cons place rest ih =>
      have next := ih (counts.addRank place) (byAppearance_addRank counts listed place)
      rwa [List.append_assoc] at next

theorem byAppearance_fusedEntries (rankings : List (List Int)) (k : UInt32) :
    ByAppearance rankings.flatten (fusedEntries (K := K) rankings k) := by
  have start : Counts (K := K) k [] [] := ⟨List.nodup_nil, by simp, rfl, by simp⟩
  have whole := byAppearance_foldl start List.Pairwise.nil (rankedIds rankings)
  rwa [rankedIds, List.foldl_flatMap, List.nil_append, ← rankedIds, map_fst_rankedIds] at whole

/-- The sighting counter of an entry orders the ids as their first appearances do. -/
theorem appears_before {rankings : List (List Int)} {k : UInt32} {a b : Fused K}
    (a_mem : a ∈ fusedEntries rankings k) (b_mem : b ∈ fusedEntries rankings k)
    (first : a.firstSeen < b.firstSeen) :
    rankings.flatten.idxOf a.id < rankings.flatten.idxOf b.id := by
  have counts := counts_fusedEntries (K := K) rankings k
  have position : ∀ entry ∈ fusedEntries (K := K) rankings k, ∀ i,
      (fusedEntries (K := K) rankings k)[i]? = some entry → entry.firstSeen = i := by
    intro entry _ i at_i
    have seen_at : ((fusedEntries (K := K) rankings k).map Fused.firstSeen)[i]? =
        some entry.firstSeen := by
      rw [List.getElem?_map, at_i, Option.map_some]
    rw [counts.seen] at seen_at
    rcases List.getElem?_eq_some_iff.1 seen_at with ⟨_, at_range⟩
    simpa using at_range.symm
  rcases List.getElem?_of_mem a_mem with ⟨i, at_i⟩
  rcases List.getElem?_of_mem b_mem with ⟨j, at_j⟩
  have before : i < j := by
    rw [← position a a_mem i at_i, ← position b b_mem j at_j]
    exact first
  have listed := byAppearance_fusedEntries (K := K) rankings k
  rcases List.getElem?_eq_some_iff.1 at_i with ⟨i_lt, rfl⟩
  rcases List.getElem?_eq_some_iff.1 at_j with ⟨j_lt, rfl⟩
  rw [ByAppearance, List.pairwise_map] at listed
  exact List.pairwise_iff_getElem.1 listed i j i_lt j_lt before

/-! ## The ranking -/

section Ranking

variable [LinearOrder K] {rankings : List (List Int)} {k : UInt32}

/-- The fused ranking is strictly sorted, in whatever order the score map hands out its entries. -/
theorem ranksAbove_of_sorted (nodup : ∀ ranking ∈ rankings, ranking.Nodup)
    {entries : List (Fused K)} (handedOut : entries.Perm (fusedEntries rankings k)) :
    ((entries.insertionSort Fused.Before).map Fused.id).Pairwise (RanksAbove K k rankings) := by
  rw [reciprocalRankFusion_of_perm handedOut, reciprocalRankFusion, List.pairwise_map]
  have counts := counts_fusedEntries (K := K) rankings k
  have sorted := List.pairwise_insertionSort Fused.Before (fusedEntries (K := K) rankings k)
  have distinct : ((fusedEntries (K := K) rankings k).insertionSort Fused.Before).Nodup :=
    (List.perm_insertionSort _ _).nodup_iff.2 counts.nodup.of_map
  apply (sorted.and distinct).imp_of_mem
  rintro a b a_mem b_mem ⟨before, different⟩
  rw [List.mem_insertionSort] at a_mem b_mem
  rw [RanksAbove, ← occurrenceScore_eq_laneScore k nodup, ← occurrenceScore_eq_laneScore k nodup,
    ← counts.score a a_mem, ← counts.score b b_mem]
  rcases before with more | ⟨same, first⟩
  · exact Or.inl more
  · have seen_apart : a.firstSeen ≠ b.firstSeen := by
      intro seen
      exact different (counts.before_antisymm a_mem b_mem (Or.inr ⟨same, first⟩)
        (Or.inr ⟨same.symm, seen.ge⟩))
    exact Or.inr ⟨same, appears_before a_mem b_mem (by omega)⟩

theorem not_ranksAbove_of_ranksAbove {a b : Int} (above : RanksAbove K k rankings a b) :
    ¬RanksAbove K k rankings b a := by
  rintro (more | ⟨same, first⟩)
  · rcases above with more' | ⟨same', -⟩
    · exact lt_asymm more more'
    · exact more.ne' same'
  · rcases above with more' | ⟨-, first'⟩
    · exact more'.ne' same
    · omega

/-- Of two ids of a sorted ranking the one that ranks above the other stands before it. -/
theorem idxOf_lt_of_ranksAbove {ranking : List Int} {a b : Int}
    (sorted : ranking.Pairwise (RanksAbove K k rankings)) (a_mem : a ∈ ranking)
    (b_mem : b ∈ ranking) (above : RanksAbove K k rankings a b) :
    ranking.idxOf a < ranking.idxOf b := by
  have a_lt := List.idxOf_lt_length_of_mem a_mem
  have b_lt := List.idxOf_lt_length_of_mem b_mem
  rcases lt_trichotomy (ranking.idxOf a) (ranking.idxOf b) with before | same | after
  · exact before
  · rw [List.idxOf_inj a_mem] at same
    subst same
    exact absurd above (not_ranksAbove_of_ranksAbove above)
  · have reversed := List.pairwise_iff_getElem.1 sorted _ _ b_lt a_lt after
    rw [List.getElem_idxOf, List.getElem_idxOf] at reversed
    exact absurd above (not_ranksAbove_of_ranksAbove reversed)

/-- A dominating id collects a larger term from every lane that ranks the other. -/
theorem ranksAbove_of_dominates [IsStrictOrderedRing K] {a b : Int}
    (dominates : Dominates rankings a b) (ranked : b ∈ rankings.flatten) :
    RanksAbove K k rankings a b := by
  have positive : ∀ place : Nat, (0 : K) < (k.toNat : K) + (place + 1 : Nat) := by
    intro place
    exact add_pos_of_nonneg_of_pos (Nat.cast_nonneg _) (Nat.cast_pos.2 (Nat.succ_pos place))
  have term_lt : ∀ ranking ∈ rankings, b ∈ ranking →
      laneTerm K k b ranking < laneTerm K k a ranking := by
    intro ranking ranking_mem b_mem
    rcases dominates ranking ranking_mem b_mem with ⟨a_mem, ahead⟩
    rw [laneTerm, laneTerm, if_pos a_mem, if_pos b_mem]
    apply one_div_lt_one_div_of_lt (positive _)
    have cast_lt : ((ranking.idxOf a + 1 : Nat) : K) < (ranking.idxOf b + 1 : Nat) := by
      exact_mod_cast Nat.succ_lt_succ ahead
    exact add_lt_add_right cast_lt _
  have term_le : ∀ ranking ∈ rankings, laneTerm K k b ranking ≤ laneTerm K k a ranking := by
    intro ranking ranking_mem
    by_cases b_mem : b ∈ ranking
    · exact (term_lt ranking ranking_mem b_mem).le
    · rw [laneTerm, if_neg b_mem, laneTerm]
      split
      · exact (one_div_pos.2 (positive _)).le
      · exact le_rfl
  rcases List.mem_flatten.1 ranked with ⟨ranking, ranking_mem, b_mem⟩
  exact Or.inl (List.sum_lt_sum _ _ term_le
    ⟨ranking, ranking_mem, term_lt ranking ranking_mem b_mem⟩)

end Ranking

/-- The entries of the score map come in any order. -/
theorem reciprocalRankFusion_spec (rankings : List (List Int)) (k : UInt32)
    (nodup : ∀ ranking ∈ rankings, ranking.Nodup) (entries : List (Fused ℚ))
    (handedOut : entries.Perm (fusedEntries rankings k)) :
    let fused := (entries.insertionSort Fused.Before).map Fused.id
    fused = reciprocalRankFusion ℚ rankings k ∧
      fused.Nodup ∧ (∀ id, id ∈ fused ↔ id ∈ rankings.flatten) ∧
      fused.Pairwise (RanksAbove ℚ k rankings) ∧
      ∀ a b, b ∈ rankings.flatten → Dominates rankings a b → fused.idxOf a < fused.idxOf b := by
  have fused_eq := reciprocalRankFusion_of_perm handedOut
  have sorted := ranksAbove_of_sorted nodup handedOut
  refine ⟨fused_eq, fused_eq ▸ nodup_reciprocalRankFusion rankings k, ?_, sorted, ?_⟩
  · intro id
    rw [fused_eq]
    exact mem_reciprocalRankFusion
  · intro a b b_ranked dominates
    rcases List.mem_flatten.1 b_ranked with ⟨ranking, ranking_mem, b_mem⟩
    have a_ranked : a ∈ rankings.flatten :=
      List.mem_flatten.2 ⟨ranking, ranking_mem, (dominates ranking ranking_mem b_mem).1⟩
    have listed : ∀ id, id ∈ rankings.flatten →
        id ∈ (entries.insertionSort Fused.Before).map Fused.id := by
      intro id id_ranked
      rw [fused_eq]
      exact mem_reciprocalRankFusion.2 id_ranked
    exact idxOf_lt_of_ranksAbove sorted (listed a a_ranked) (listed b b_ranked)
      (ranksAbove_of_dominates dominates b_ranked)

theorem reciprocalRankFusion_spec_two_lanes :
    (reciprocalRankFusion ℚ [[1, 2], [3, 1]] 60).Nodup ∧
      (reciprocalRankFusion ℚ [[1, 2], [3, 1]] 60).idxOf 1 <
        (reciprocalRankFusion ℚ [[1, 2], [3, 1]] 60).idxOf 2 := by
  have spec := reciprocalRankFusion_spec [[1, 2], [3, 1]] 60 (by decide) _ (List.Perm.refl _)
  exact ⟨spec.2.1, spec.2.2.2.2 1 2 (by decide) (by unfold Dominates; decide)⟩

end Retriever

end Ohara
