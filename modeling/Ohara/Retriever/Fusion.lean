import Ohara.Retriever.Coordinator
import Ohara.Library.Fallible

/-!
# What the fusion keeps

Every id that some lane ranks has one entry, whose score is the sum of its reciprocal ranks, and
the fused ranking lists the entries by score. The pool is the front of that ranking, with the hit
of the first lane that reported each id.
-/

namespace Ohara

namespace Retriever

variable {K : Type} [Field K] [LinearOrder K]

/-- The ranks a list of rankings gives, lane by lane. -/
def rankedIds (rankings : List (List Int)) : List (Int × Nat) :=
    rankings.flatMap fun ranking => ranking.zipIdx 1

/-- The sum of `1 / (k + rank)` over the places an id is ranked at. -/
def occurrenceScore (K : Type) [Field K] (k : UInt32) (ranked : List (Int × Nat)) (id : Int) : K :=
    ((ranked.filter fun place => decide (place.1 = id)).map
      fun place => 1 / ((k.toNat : K) + place.2)).sum

/-- The entries count the places of a list of ranks. -/
structure Counts (k : UInt32) (ranked : List (Int × Nat)) (entries : List (Fused K)) : Prop where
  nodup : (entries.map Fused.id).Nodup
  ids : ∀ id, id ∈ entries.map Fused.id ↔ id ∈ ranked.map Prod.fst
  seen : entries.map Fused.firstSeen = List.range entries.length
  score : ∀ entry ∈ entries, entry.score = occurrenceScore K k ranked entry.id

omit [LinearOrder K] in
theorem occurrenceScore_append (k : UInt32) (ranked : List (Int × Nat)) (place : Int × Nat)
    (id : Int) :
    occurrenceScore K k (ranked ++ [place]) id =
      occurrenceScore K k ranked id +
        if place.1 = id then 1 / ((k.toNat : K) + place.2) else 0 := by
  unfold occurrenceScore
  rw [List.filter_append, List.map_append, List.sum_append]
  split
  · next same => simp [same]
  · next distinct => simp [distinct]

omit [LinearOrder K] in
theorem occurrenceScore_eq_zero {k : UInt32} {ranked : List (Int × Nat)} {id : Int}
    (absent : id ∉ ranked.map Prod.fst) : occurrenceScore K k ranked id = 0 := by
  have none_left : ranked.filter (fun place => decide (place.1 = id)) = [] := by
    apply List.filter_eq_nil_iff.2
    intro place place_mem same
    have same_id : place.1 = id := by simpa using same
    exact absent (same_id ▸ List.mem_map_of_mem place_mem)
  rw [occurrenceScore, none_left, List.map_nil, List.sum_nil]

omit [LinearOrder K] in
theorem Counts.addRank {k : UInt32} {ranked : List (Int × Nat)} {entries : List (Fused K)}
    (counts : Counts k ranked entries) (place : Int × Nat) :
    Counts k (ranked ++ [place]) (addRank k entries place) := by
  by_cases taken : place.1 ∈ entries.map Fused.id
  · have step : Retriever.addRank k entries place = entries.map fun entry =>
        if entry.id = place.1 then
          { entry with score := entry.score + 1 / ((k.toNat : K) + place.2) }
        else entry := if_pos taken
    have kept : ∀ {μ : Type} (column : Fused K → μ),
        (∀ entry score, column { entry with score := score } = column entry) →
        (Retriever.addRank k entries place).map column = entries.map column := by
      intro μ column ignores_score
      rw [step, List.map_map]
      apply List.map_congr_left
      intro entry _
      simp only [Function.comp_apply]
      split
      · exact ignores_score entry _
      · rfl
    have same_ids := kept Fused.id fun _ _ => rfl
    have same_seen := kept Fused.firstSeen fun _ _ => rfl
    refine ⟨same_ids ▸ counts.nodup, ?_, ?_, ?_⟩
    · intro id
      rw [same_ids, counts.ids, List.map_append, List.mem_append]
      constructor
      · exact Or.inl
      · rintro (ranked_before | last)
        · exact ranked_before
        · rw [List.map_cons, List.map_nil, List.mem_singleton] at last
          exact last ▸ (counts.ids place.1).1 taken
    · rw [same_seen, counts.seen, step, List.length_map]
    · intro entry entry_mem
      rw [step, List.mem_map] at entry_mem
      rcases entry_mem with ⟨old, old_mem, rfl⟩
      have before := counts.score old old_mem
      rw [occurrenceScore_append]
      by_cases same : old.id = place.1
      · simp only [same, if_true]
        rw [before, same]
      · rw [if_neg same, if_neg fun eq => same eq.symm, before, add_zero]
  · have step : Retriever.addRank k entries place = entries ++
        [{ id := place.1, score := 1 / ((k.toNat : K) + place.2), firstSeen := entries.length }] :=
      if_neg taken
    refine ⟨?_, ?_, ?_, ?_⟩
    · rw [step]
      exact Rows.nodup_append_fresh counts.nodup taken
    · intro id
      rw [step, List.map_append, List.mem_append, counts.ids, List.map_append, List.mem_append]
      rfl
    · rw [step, List.map_append, counts.seen, List.length_append, List.length_singleton,
        List.range_succ]
      rfl
    · intro entry entry_mem
      rw [step, List.mem_append, List.mem_singleton] at entry_mem
      rw [occurrenceScore_append]
      rcases entry_mem with old_mem | rfl
      · have distinct : place.1 ≠ entry.id := by
          intro same
          exact taken (same ▸ List.mem_map_of_mem old_mem)
        rw [if_neg distinct, counts.score entry old_mem, add_zero]
      · have absent := fun mem => taken ((counts.ids place.1).2 mem)
        rw [if_pos rfl, occurrenceScore_eq_zero absent, zero_add]

omit [LinearOrder K] in
theorem Counts.foldl {k : UInt32} {ranked : List (Int × Nat)} {entries : List (Fused K)}
    (counts : Counts k ranked entries) (rest : List (Int × Nat)) :
    Counts k (ranked ++ rest) (rest.foldl (Retriever.addRank k) entries) := by
  induction rest generalizing ranked entries with
  | nil => simpa using counts
  | cons place rest ih =>
      have next := ih (counts.addRank place)
      rwa [List.append_assoc] at next

omit [LinearOrder K] in
theorem counts_fusedEntries (rankings : List (List Int)) (k : UInt32) :
    Counts k (rankedIds rankings) (fusedEntries (K := K) rankings k) := by
  have start : Counts (K := K) k [] [] := ⟨List.nodup_nil, by simp, rfl, by simp⟩
  have whole := start.foldl (rankedIds rankings)
  rwa [rankedIds, List.foldl_flatMap, List.nil_append] at whole

theorem map_fst_rankedIds (rankings : List (List Int)) :
    (rankedIds rankings).map Prod.fst = rankings.flatten := by
  rw [rankedIds, List.map_flatMap, List.flatMap_def]
  congr 1
  simp

theorem mem_rankedIds {rankings : List (List Int)} {id : Int} :
    id ∈ (rankedIds rankings).map Prod.fst ↔ id ∈ rankings.flatten := by
  rw [map_fst_rankedIds]

/-! ## The fused ranking -/

instance : Std.Total (Fused.Before (K := K)) where
  total a b := by
    rcases lt_trichotomy a.score b.score with less | same | more
    · exact Or.inr (Or.inl less)
    · rcases Nat.le_total a.firstSeen b.firstSeen with first | first
      · exact Or.inl (Or.inr ⟨same.symm, first⟩)
      · exact Or.inr (Or.inr ⟨same, first⟩)
    · exact Or.inl (Or.inl more)

instance : IsTrans (Fused K) Fused.Before where
  trans a b c := by
    rintro (more | ⟨same, first⟩) (more' | ⟨same', first'⟩)
    · exact Or.inl (more'.trans more)
    · exact Or.inl (same' ▸ more)
    · exact Or.inl (same ▸ more')
    · exact Or.inr ⟨same'.trans same, first.trans first'⟩

theorem fused_perm (rankings : List (List Int)) (k : UInt32) :
    (reciprocalRankFusion K rankings k).Perm
      ((fusedEntries (K := K) rankings k).map Fused.id) :=
  (List.perm_insertionSort _ _).map _

theorem nodup_reciprocalRankFusion (rankings : List (List Int)) (k : UInt32) :
    (reciprocalRankFusion K rankings k).Nodup :=
  (fused_perm rankings k).nodup_iff.2 (counts_fusedEntries rankings k).nodup

theorem mem_reciprocalRankFusion {rankings : List (List Int)} {k : UInt32} {id : Int} :
    id ∈ reciprocalRankFusion K rankings k ↔ id ∈ rankings.flatten := by
  rw [(fused_perm rankings k).mem_iff, (counts_fusedEntries rankings k).ids, mem_rankedIds]

theorem Counts.before_antisymm {k : UInt32} {ranked : List (Int × Nat)}
    {entries : List (Fused K)} (counts : Counts k ranked entries) {a b : Fused K}
    (a_mem : a ∈ entries) (b_mem : b ∈ entries) (before : a.Before b) (after : b.Before a) :
    a = b := by
  have distinct : (entries.map Fused.firstSeen).Nodup := counts.seen ▸ List.nodup_range
  apply List.inj_on_of_nodup_map distinct a_mem b_mem
  rcases before with more | ⟨score, first⟩
  · rcases after with more' | ⟨score, -⟩
    · exact absurd more' (lt_asymm more)
    · exact absurd score more.ne'
  · rcases after with more' | ⟨-, first'⟩
    · exact absurd score more'.ne'
    · exact Nat.le_antisymm first first'

/-- The order in which the map hands out its entries does not show in the ranking. -/
theorem reciprocalRankFusion_of_perm {rankings : List (List Int)} {k : UInt32}
    {entries : List (Fused K)} (same : entries.Perm (fusedEntries rankings k)) :
    (entries.insertionSort Fused.Before).map Fused.id = reciprocalRankFusion K rankings k := by
  have one_order : entries.insertionSort Fused.Before =
      (fusedEntries rankings k).insertionSort Fused.Before := by
    refine List.Perm.eq_of_pairwise ?_ (List.pairwise_insertionSort Fused.Before entries)
      (List.pairwise_insertionSort Fused.Before (fusedEntries rankings k)) ?_
    · intro a b a_mem b_mem before after
      have a_entry := same.subset ((List.mem_insertionSort _).1 a_mem)
      have b_entry := (List.mem_insertionSort _).1 b_mem
      exact (counts_fusedEntries rankings k).before_antisymm a_entry b_entry before after
    · exact ((List.perm_insertionSort _ _).trans same).trans (List.perm_insertionSort _ _).symm
  rw [one_order, reciprocalRankFusion]

/-! ## The lanes' hits -/

/-- The post-fusion order of what the lanes found: every id once, best first. -/
def fusedHits (lists : List (List (HunkHit K))) (rrfK : UInt32) : List (HunkHit K) :=
    (reciprocalRankFusion K (lists.map fun hits => hits.map HunkHit.hunkId) rrfK).filterMap
      fun id => Rows.lookup HunkHit.hunkId id (fileHits [] lists.flatten)

omit [Field K] [LinearOrder K] in
theorem gather_from (lists : List (List (HunkHit K))) (gathered : Gathered K) :
    (lists.map Except.ok).foldlM gatherLane gathered = .ok {
      byId := fileHits gathered.byId lists.flatten
      rankings := gathered.rankings ++ lists.map fun hits => hits.map HunkHit.hunkId } := by
  induction lists generalizing gathered with
  | nil => simp [fileHits]
  | cons hits rest ih =>
      rw [List.map_cons, List.foldlM_cons, gatherLane, Fallible.ok_bind, Fallible.pure_eq_ok,
        Fallible.ok_bind, ih]
      simp [fileHits]

omit [Field K] [LinearOrder K] in
theorem gather_ok (lists : List (List (HunkHit K))) :
    gather (lists.map Except.ok) = .ok {
      byId := fileHits [] lists.flatten
      rankings := lists.map fun hits => hits.map HunkHit.hunkId } := by
  rw [gather, gather_from, List.nil_append]

omit [Field K] [LinearOrder K] in
/-- A failed lane fails the gathering, whatever the other lanes found. -/
theorem gather_error {results : List (Except OhraError (List (HunkHit K)))} {e : OhraError}
    (failed : .error e ∈ results) : ∃ e, gather results = .error e := by
  unfold gather
  generalize ({ byId := [], rankings := [] } : Gathered K) = gathered
  induction results generalizing gathered with
  | nil => cases failed
  | cons result rest ih =>
      rw [List.foldlM_cons]
      cases result with
      | error e => exact ⟨e, rfl⟩
      | ok hits =>
          rcases List.mem_cons.1 failed with first | later
          · cases first
          · exact ih later _

omit [Field K] [LinearOrder K] in
theorem mem_map_fileHits {byId hits : List (HunkHit K)} {id : Int} :
    id ∈ (fileHits byId hits).map HunkHit.hunkId ↔
      id ∈ byId.map HunkHit.hunkId ∨ id ∈ hits.map HunkHit.hunkId := by
  induction hits generalizing byId with
  | nil => simp [fileHits]
  | cons hit rest ih =>
      rw [fileHits, List.foldl_cons, ← fileHits, ih, Rows.mem_map_insertOrIgnore, List.map_cons,
        List.mem_cons, or_assoc]

omit [Field K] [LinearOrder K] in
theorem mem_of_mem_fileHits {byId hits : List (HunkHit K)} {hit : HunkHit K}
    (hit_mem : hit ∈ fileHits byId hits) : hit ∈ byId ∨ hit ∈ hits := by
  induction hits generalizing byId with
  | nil => exact Or.inl hit_mem
  | cons first rest ih =>
      rcases ih hit_mem with filed | later
      · rcases Rows.mem_insertOrIgnore filed with old | rfl
        · exact Or.inl old
        · exact Or.inr List.mem_cons_self
      · exact Or.inr (List.mem_cons_of_mem _ later)

theorem fused_ids_filed (lists : List (List (HunkHit K))) (rrfK : UInt32) :
    ∀ id ∈ reciprocalRankFusion K (lists.map fun hits => hits.map HunkHit.hunkId) rrfK,
      id ∈ (fileHits [] lists.flatten).map HunkHit.hunkId := by
  intro id id_mem
  rw [mem_reciprocalRankFusion, ← List.map_flatten] at id_mem
  exact mem_map_fileHits.2 (Or.inr id_mem)

theorem map_hunkId_fusedHits (lists : List (List (HunkHit K))) (rrfK : UInt32) :
    (fusedHits lists rrfK).map HunkHit.hunkId =
      reciprocalRankFusion K (lists.map fun hits => hits.map HunkHit.hunkId) rrfK :=
  Rows.map_filterMap_lookup (fused_ids_filed lists rrfK)

theorem fuseToPool_gathered (lists : List (List (HunkHit K))) (rrfK : UInt32) (poolK : Nat) :
    fuseToPool (lists.map fun hits => hits.map HunkHit.hunkId) (fileHits [] lists.flatten)
      rrfK poolK = (fusedHits lists rrfK).take poolK :=
  Fallible.take_filterMap
    (fun id id_mem => Rows.lookup_isSome_iff.2 (fused_ids_filed lists rrfK id id_mem)) poolK

theorem nodup_fusedHits (lists : List (List (HunkHit K))) (rrfK : UInt32) :
    ((fusedHits lists rrfK).map HunkHit.hunkId).Nodup := by
  rw [map_hunkId_fusedHits]
  exact nodup_reciprocalRankFusion _ _

theorem length_fusedHits (lists : List (List (HunkHit K))) (rrfK : UInt32) :
    (fusedHits lists rrfK).length = (lists.flatten.map HunkHit.hunkId).dedup.length := by
  rw [← List.length_map HunkHit.hunkId, map_hunkId_fusedHits]
  apply List.Perm.length_eq
  rw [List.perm_ext_iff_of_nodup (nodup_reciprocalRankFusion _ _) (List.nodup_dedup _)]
  intro id
  rw [mem_reciprocalRankFusion, List.mem_dedup, List.map_flatten]

theorem mem_lists_of_mem_fusedHits {lists : List (List (HunkHit K))} {rrfK : UInt32}
    {hit : HunkHit K} (hit_mem : hit ∈ fusedHits lists rrfK) : ∃ hits ∈ lists, hit ∈ hits := by
  rcases List.mem_filterMap.1 hit_mem with ⟨id, -, found⟩
  rcases mem_of_mem_fileHits (Rows.mem_of_lookup_eq_some found).1 with absent | reported
  · cases absent
  · exact List.mem_flatten.1 reported

end Retriever

end Ohara
