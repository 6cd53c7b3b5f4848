import Mathlib.Analysis.Complex.Exponential
import Ohara.Retriever.Reranking

/-!
# The recency multiplier on 64-bit times

The age of a hit is a difference of two `i64` values. Where it overflows, a build with overflow
checks stops and the release profile wraps, which makes the oldest commits the youngest. Otherwise
the combined score grows with the similarity and with the time of the commit.
-/

namespace Ohara

namespace Retriever

open StableSort

variable {K : Type} [Field K] [LinearOrder K]

/-- The number is an `i64`. -/
def FitsI64 (n : Int) : Prop :=
    -2 ^ 63 ≤ n ∧ n < 2 ^ 63

instance (n : Int) : Decidable (FitsI64 n) :=
  inferInstanceAs (Decidable (-2 ^ 63 ≤ n ∧ n < 2 ^ 63))

/-- Subtraction of `i64` values; none where it panics. -/
abbrev SubI64 := Int → Int → Option Int

/-- As a build with overflow checks compiles it. -/
def checkedSub : SubI64 := fun a b =>
    if FitsI64 (a - b) then some (a - b) else none

/-- As the release profile compiles it. -/
def wrappingSub : SubI64 := fun a b =>
    some ((a - b + 2 ^ 63) % 2 ^ 64 - 2 ^ 63)

section Ages

variable (sub : SubI64) (exp : K → K) (recencyWeight recencyHalfLifeDays : K) (nowUnix : Int)

/-- `(-age_days / half_life_days).exp()` of the seconds that passed. -/
def recencyOf (elapsed : Int) : K :=
    exp (-(((max elapsed 0 : Int) : K) / (86400 : Int)) / recencyHalfLifeDays)

/-- `apply_recency` with the subtraction of the build. -/
def applyRecencyIn (hits : List (HunkHit K)) : Option (List (HunkHit K)) := do
    let scored ← hits.mapM fun hit => do
      let elapsed ← sub nowUnix hit.commitMeta.ts
      return scoreHit (hit.similarity *
        (1 + recencyWeight * recencyOf exp recencyHalfLifeDays elapsed)) hit
    return resort scored

/-- The recency weights `find_pattern_with_profile` reports beside the hits. -/
def recencyWeightsIn (hits : List (HunkHit K)) : Option (List K) :=
    hits.mapM fun hit => do
      let elapsed ← sub nowUnix hit.commitMeta.ts
      return recencyOf exp recencyHalfLifeDays elapsed

/-- The combined score of a hit. -/
def combinedScore (hit : HunkHit K) : K :=
    hit.similarity * recencyFactor exp recencyWeight recencyHalfLifeDays nowUnix hit.commitMeta.ts

end Ages

theorem wrappingSub_of_fits {a b : Int} (fits : FitsI64 (a - b)) :
    wrappingSub a b = some (a - b) := by
  rw [FitsI64] at fits
  rw [wrappingSub, Option.some_inj]
  omega

theorem checkedSub_of_fits {a b : Int} (fits : FitsI64 (a - b)) : checkedSub a b = some (a - b) :=
  if_pos fits

section Fits

variable {sub : SubI64} {exp : K → K} {recencyWeight recencyHalfLifeDays : K} {nowUnix : Int}

theorem applyRecencyIn_of_exact {hits : List (HunkHit K)}
    (exact_sub : ∀ hit ∈ hits,
      sub nowUnix hit.commitMeta.ts = some (nowUnix - hit.commitMeta.ts)) :
    applyRecencyIn sub exp recencyWeight recencyHalfLifeDays nowUnix hits =
      some (applyRecency exp hits recencyWeight recencyHalfLifeDays nowUnix) := by
  have scored : ∀ hit ∈ hits, (do
      let elapsed ← sub nowUnix hit.commitMeta.ts
      return scoreHit (hit.similarity *
        (1 + recencyWeight * recencyOf exp recencyHalfLifeDays elapsed)) hit) =
      some (scoreHit (combinedScore exp recencyWeight recencyHalfLifeDays nowUnix hit) hit) := by
    intro hit hit_mem
    rw [exact_sub hit hit_mem]
    simp [combinedScore, recencyFactor, recencyOf]
  rw [applyRecencyIn, Fallible.mapM_eq_some_map scored]
  rfl

/-- A build with overflow checks stops at the first age that does not fit. -/
theorem applyRecencyIn_of_overflow {hits : List (HunkHit K)} {hit : HunkHit K}
    (hit_mem : hit ∈ hits) (overflows : ¬FitsI64 (nowUnix - hit.commitMeta.ts)) :
    applyRecencyIn checkedSub exp recencyWeight recencyHalfLifeDays nowUnix hits = none := by
  rw [applyRecencyIn, Fallible.mapM_eq_none hit_mem (by simp [checkedSub, overflows])]
  rfl

end Fits

/-! ## The order law -/

/-- The hits by their combined scores, and what a hit with at least the similarity and the time of
another one gets: at least its score, and a later place only on a tie and from a later place. -/
structure RecencyOrdered (exp : K → K) (recencyWeight recencyHalfLifeDays : K) (nowUnix : Int)
    (hits ranked : List (HunkHit K)) : Prop where
  dominated : ∀ a ∈ hits, ∀ b ∈ hits, b.similarity ≤ a.similarity →
    b.commitMeta.ts ≤ a.commitMeta.ts →
      combinedScore exp recencyWeight recencyHalfLifeDays nowUnix b ≤
        combinedScore exp recencyWeight recencyHalfLifeDays nowUnix a
  places : ∃ order : List (HunkHit K × Nat), order.Perm hits.zipIdx ∧
    ranked = (order.map fun entry => { entry.1 with
      similarity := combinedScore exp recencyWeight recencyHalfLifeDays nowUnix entry.1 }) ∧
    order.Pairwise fun a b =>
      combinedScore exp recencyWeight recencyHalfLifeDays nowUnix b.1 ≤
          combinedScore exp recencyWeight recencyHalfLifeDays nowUnix a.1 ∧
        (combinedScore exp recencyWeight recencyHalfLifeDays nowUnix a.1 =
          combinedScore exp recencyWeight recencyHalfLifeDays nowUnix b.1 → a.2 < b.2) ∧
        (a.1.similarity ≤ b.1.similarity → a.1.commitMeta.ts ≤ b.1.commitMeta.ts →
          combinedScore exp recencyWeight recencyHalfLifeDays nowUnix a.1 =
            combinedScore exp recencyWeight recencyHalfLifeDays nowUnix b.1 ∧ a.2 < b.2)

section Order

variable [IsStrictOrderedRing K] {exp : K → K} {recencyWeight recencyHalfLifeDays : K}
  {nowUnix : Int} (positive : ∀ x, 0 < exp x) (monotone : Monotone exp)
  (weight_nonneg : 0 ≤ recencyWeight) (halfLife_pos : 0 < recencyHalfLifeDays)

include positive weight_nonneg in
theorem recencyFactor_nonneg (ts : Int) :
    0 ≤ recencyFactor exp recencyWeight recencyHalfLifeDays nowUnix ts :=
  add_nonneg zero_le_one (mul_nonneg weight_nonneg (positive _).le)

include monotone weight_nonneg halfLife_pos in
theorem recencyFactor_le {older newer : Int} (later : older ≤ newer) :
    recencyFactor exp recencyWeight recencyHalfLifeDays nowUnix older ≤
      recencyFactor exp recencyWeight recencyHalfLifeDays nowUnix newer := by
  have ages : ((max (nowUnix - newer) 0 : Int) : K) ≤ (max (nowUnix - older) 0 : Int) := by
    exact_mod_cast (by omega : max (nowUnix - newer) 0 ≤ max (nowUnix - older) 0)
  rw [recencyFactor, recencyFactor]
  gcongr
  apply monotone
  gcongr

include positive monotone weight_nonneg halfLife_pos in
theorem combinedScore_le {a b : HunkHit K} (b_nonneg : 0 ≤ b.similarity)
    (similarity : b.similarity ≤ a.similarity) (later : b.commitMeta.ts ≤ a.commitMeta.ts) :
    combinedScore exp recencyWeight recencyHalfLifeDays nowUnix b ≤
      combinedScore exp recencyWeight recencyHalfLifeDays nowUnix a :=
  mul_le_mul similarity (recencyFactor_le monotone weight_nonneg halfLife_pos later)
    (recencyFactor_nonneg positive weight_nonneg _) (b_nonneg.trans similarity)

variable (nowUnix) in
include positive monotone weight_nonneg halfLife_pos in
theorem recencyOrdered_applyRecency {hits : List (HunkHit K)}
    (nonneg : ∀ hit ∈ hits, 0 ≤ hit.similarity) :
    RecencyOrdered exp recencyWeight recencyHalfLifeDays nowUnix hits
      (applyRecency exp hits recencyWeight recencyHalfLifeDays nowUnix) := by
  have dominated : ∀ a ∈ hits, ∀ b ∈ hits, b.similarity ≤ a.similarity →
      b.commitMeta.ts ≤ a.commitMeta.ts →
        combinedScore exp recencyWeight recencyHalfLifeDays nowUnix b ≤
          combinedScore exp recencyWeight recencyHalfLifeDays nowUnix a := by
    intro a _ b b_mem similarity later
    exact combinedScore_le positive monotone weight_nonneg halfLife_pos (nonneg b b_mem)
      similarity later
  refine ⟨dominated, ?_⟩
  let score (hit : HunkHit K) : K :=
    combinedScore exp recencyWeight recencyHalfLifeDays nowUnix hit
  rcases exists_resorted score (fun hit => scoreHit (score hit) hit) (fun _ _ => Iff.rfl) hits with
    ⟨order, places, sorted, placed⟩
  refine ⟨order, places, ?_, ?_⟩
  · change resort (hits.map fun hit => scoreHit (score hit) hit) = _
    rw [sorted]
    rfl
  · have from_hits : ∀ entry ∈ order, entry.1 ∈ hits := by
      intro entry entry_mem
      have listed := List.mem_map_of_mem (f := Prod.fst) (places.subset entry_mem)
      rwa [List.zipIdx_map_fst] at listed
    apply placed.imp_of_mem
    intro a b a_mem b_mem before
    refine ⟨before.1, fun tied => before.2 tied.le, ?_⟩
    intro similarity later
    have reached := dominated b.1 (from_hits b b_mem) a.1 (from_hits a a_mem) similarity later
    exact ⟨le_antisymm reached before.1, before.2 reached⟩

omit [IsStrictOrderedRing K] in
/-- The ages computed again for the ranked hits are ages of the hits. -/
theorem recencyWeightsIn_of_ordered {sub : SubI64} {hits ranked : List (HunkHit K)}
    (ordered : RecencyOrdered exp recencyWeight recencyHalfLifeDays nowUnix hits ranked)
    (exact_sub : ∀ hit ∈ hits,
      sub nowUnix hit.commitMeta.ts = some (nowUnix - hit.commitMeta.ts)) :
    recencyWeightsIn sub exp recencyHalfLifeDays nowUnix ranked =
      some (ranked.map fun hit =>
        recencyOf exp recencyHalfLifeDays (nowUnix - hit.commitMeta.ts)) := by
  rcases ordered.places with ⟨order, places, rfl, _⟩
  rw [recencyWeightsIn]
  apply Fallible.mapM_eq_some_map
  intro hit hit_mem
  rcases List.mem_map.1 hit_mem with ⟨entry, entry_mem, rfl⟩
  have listed := List.mem_map_of_mem (f := Prod.fst) (places.subset entry_mem)
  rw [List.zipIdx_map_fst] at listed
  rw [exact_sub entry.1 listed]
  rfl

/-- Both builds return the ordered hits, and compute their ages again, exactly when every age fits
64 bits. -/
theorem apply_recency_safe_iff (positive : ∀ x, 0 < exp x) (monotone : Monotone exp)
    (weight_nonneg : 0 ≤ recencyWeight) (halfLife_pos : 0 < recencyHalfLifeDays) (nowUnix : Int)
    {hits : List (HunkHit K)} (nonneg : ∀ hit ∈ hits, 0 ≤ hit.similarity) :
    (∃ ranked,
        applyRecencyIn checkedSub exp recencyWeight recencyHalfLifeDays nowUnix hits =
          some ranked ∧
        applyRecencyIn wrappingSub exp recencyWeight recencyHalfLifeDays nowUnix hits =
          some ranked ∧
        (recencyWeightsIn checkedSub exp recencyHalfLifeDays nowUnix ranked).isSome = true ∧
        RecencyOrdered exp recencyWeight recencyHalfLifeDays nowUnix hits ranked) ↔
      ∀ hit ∈ hits, -2 ^ 63 ≤ nowUnix - hit.commitMeta.ts ∧
        nowUnix - hit.commitMeta.ts < 2 ^ 63 := by
  constructor
  · rintro ⟨ranked, returned, _⟩ hit hit_mem
    by_contra overflows
    rw [applyRecencyIn_of_overflow hit_mem overflows] at returned
    cases returned
  · intro fits
    have checked : ∀ hit ∈ hits, checkedSub nowUnix hit.commitMeta.ts =
        some (nowUnix - hit.commitMeta.ts) :=
      fun hit hit_mem => checkedSub_of_fits (fits hit hit_mem)
    have ordered := recencyOrdered_applyRecency nowUnix positive monotone weight_nonneg
      halfLife_pos nonneg
    refine ⟨_, applyRecencyIn_of_exact checked,
      applyRecencyIn_of_exact fun hit hit_mem => wrappingSub_of_fits (fits hit hit_mem), ?_,
      ordered⟩
    rw [recencyWeightsIn_of_ordered ordered checked]
    rfl

end Order

/-- A hit of a commit at the given time. -/
def hitAt (similarity : ℝ) (id ts : Int) : HunkHit ℝ where
  hunkId := id
  hunk :=
    { commitSha := "a", filePath := "retry.rs", language := none, changeKind := .added,
      diffText := "" }
  commitMeta :=
    { commitSha := "a", parentSha := none, isMerge := false, author := none, ts := ts,
      message := "" }
  similarity := similarity

/-- The first and the third hit tie, the second is newer and the last one is a worse match. -/
def tiedHits : List (HunkHit ℝ) :=
    [hitAt 1 1 1600000000, hitAt 1 2 1690000000, hitAt 1 3 1600000000, hitAt 0 4 1600000000]

theorem apply_recency_safe_tied :
    ∃ ranked, applyRecencyIn checkedSub Real.exp 1 90 1700000000 tiedHits = some ranked ∧
      applyRecencyIn wrappingSub Real.exp 1 90 1700000000 tiedHits = some ranked ∧
      (recencyWeightsIn checkedSub Real.exp 90 1700000000 ranked).isSome = true ∧
      RecencyOrdered Real.exp 1 90 1700000000 tiedHits ranked := by
  have nonneg : ∀ hit ∈ tiedHits, 0 ≤ hit.similarity := by
    norm_num [tiedHits, hitAt]
  have fits : ∀ hit ∈ tiedHits, -2 ^ 63 ≤ 1700000000 - hit.commitMeta.ts ∧
      1700000000 - hit.commitMeta.ts < 2 ^ 63 := by
    norm_num [tiedHits, hitAt]
  exact (apply_recency_safe_iff Real.exp_pos Real.exp_strictMono.monotone zero_le_one
    (by norm_num) 1700000000 nonneg).2 fits

/-- The smallest time overflows; the wrapped age is negative and counts as no age at all. -/
theorem not_apply_recency_safe_smallest_time :
    ¬(∃ ranked,
      applyRecencyIn checkedSub Real.exp 1 90 1700000000 [hitAt 1 1 (-2 ^ 63)] = some ranked ∧
      applyRecencyIn wrappingSub Real.exp 1 90 1700000000 [hitAt 1 1 (-2 ^ 63)] = some ranked ∧
      (recencyWeightsIn checkedSub Real.exp 90 1700000000 ranked).isSome = true ∧
      RecencyOrdered Real.exp 1 90 1700000000 [hitAt 1 1 (-2 ^ 63)] ranked) := by
  have oldest : hitAt 1 1 (-2 ^ 63) ∈ [hitAt 1 1 (-2 ^ 63)] := List.mem_singleton_self _
  rintro ⟨ranked, returned, _⟩
  rw [applyRecencyIn_of_overflow oldest (by simp [hitAt, FitsI64])] at returned
  cases returned

end Retriever

end Ohara
