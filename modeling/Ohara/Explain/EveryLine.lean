import Ohara.Explain.BlamedLines
import Ohara.Explain.FromHistory
import Ohara.Index.Watermark

/-!
# Every line is explained

The index that runs of the indexer have brought to HEAD, the blame and the hydration together: a
line that git blames on a commit of HEAD is shown by exactly one hit.
-/

namespace Ohara

open Selection

namespace Explain

section Covered

variable {db : Database} {blame : FileBlame} {lines : List Nat} {query : ExplainQuery}
  {hits : List ExplainHit}

theorem Blames.shas_perm (blames : Blames db blame lines query hits)
    (room : (indexedShas db blame lines).length ≤ clampK query.k) :
    (hits.map ExplainHit.commitSha).Perm (indexedShas db blame lines) := by
  apply List.Subperm.perm_of_length_le
  · apply List.subperm_of_subset blames.distinct
    intro sha sha_mem
    rcases List.mem_map.1 sha_mem with ⟨hit, hit_mem, rfl⟩
    exact blames.indexed hit hit_mem
  · rw [List.length_map, blames.length, Nat.min_eq_right room]

/-- A line of an indexed commit is shown by the hit of this commit and by no other. -/
theorem Blames.shown_once (blames : Blames db blame lines query hits)
    (room : (indexedShas db blame lines).length ≤ clampK query.k) {line : Nat}
    (line_mem : line ∈ lines) {sha : String} (blamed : blame line = some sha)
    (indexed : (Commit.get db sha).isSome) :
    ∃ hit ∈ hits, hit.commitSha = sha ∧
      ∀ other ∈ hits, line ∈ other.blameLines ↔ other = hit := by
  have sha_mem : sha ∈ indexedShas db blame lines := by
    rw [indexedShas, List.mem_filter, List.mem_dedup, List.mem_filterMap]
    exact ⟨⟨line, line_mem, blamed⟩, indexed⟩
  rcases List.mem_map.1 ((blames.shas_perm room).symm.subset sha_mem) with ⟨hit, hit_mem, rfl⟩
  refine ⟨hit, hit_mem, rfl, fun other other_mem => ?_⟩
  rw [blames.owned other other_mem, List.mem_filter]
  simp only [line_mem, blamed, true_and, Option.some.injEq, decide_eq_true_eq]
  constructor
  · intro same
    exact List.inj_on_of_nodup_map blames.distinct other_mem hit_mem same.symm
  · rintro rfl
    rfl

end Covered

/-- No commit of the walk has failed when the watermark is set. -/
def noneFailed (s : IndexSystem) (label : IndexLabel) : Bool :=
    match label, s.run with
    | .advance, some ⟨_, .settingWatermark _ failed⟩ => failed.isEmpty
    | _, _ => true

theorem failuresSettled_of_noneFailed {repository : Repository} {s : IndexSystem}
    {label : IndexLabel} (none_failed : noneFailed s label = true) :
    s.FailuresSettled repository label := by
  rintro inv walk failed rfl running commit commit_mem
  simp only [noneFailed, running, List.isEmpty_iff] at none_failed
  rw [none_failed] at commit_mem
  cases commit_mem

/-- No commit was passed over. -/
theorem none_passed : (Execution.run (IndexSystem.next TwoCommits.repository)
    (IndexSystem.start "b") TwoCommits.labels).map (fun s =>
      ["a", "b"].map fun sha => (s.store.passedIgnoring sha).isNone) = some [true, true] := by
  decide +kernel

end Explain

end Ohara
