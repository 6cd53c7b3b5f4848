import Ohara.Explain.NewestFirst

/-!
# Explained lines

The blamer collects the lines of each commit in a map that is ordered by the shas. What comes out
of it, and out of the hydration after it, is a matter of the lines and of the commit that each of
them is blamed on.
-/

namespace Ohara

namespace Blamer

/-- One entry for each blamed commit, with its lines in order. -/
structure Groups (blame : FileBlame) (lines : List Nat) (ranges : List BlameRange) : Prop where
  ordered : (ranges.map BlameRange.commitSha).Pairwise (· < ·)
  owned : ∀ r ∈ ranges, r.lines = lines.filter fun line => blame line = some r.commitSha
  shas : ∀ sha, sha ∈ ranges.map BlameRange.commitSha ↔ ∃ line ∈ lines, blame line = some sha

section Push

variable {sha : String} {line : Nat} {ranges : List BlameRange}

theorem shas_pushLine {other : String} :
    other ∈ (pushLine sha line ranges).map BlameRange.commitSha ↔
      other = sha ∨ other ∈ ranges.map BlameRange.commitSha := by
  induction ranges with
  | nil => simp [pushLine]
  | cons r rest ih =>
      rw [pushLine]
      split_ifs with same before
      · simp [same]
      · simp
      · rw [List.map_cons, List.mem_cons, ih, List.map_cons, List.mem_cons]
        exact or_left_comm

theorem ordered_pushLine (ordered : (ranges.map BlameRange.commitSha).Pairwise (· < ·)) :
    ((pushLine sha line ranges).map BlameRange.commitSha).Pairwise (· < ·) := by
  induction ranges with
  | nil => simp [pushLine]
  | cons r rest ih =>
      rcases List.pairwise_cons.1 ordered with ⟨first, ordered_rest⟩
      rw [pushLine]
      split_ifs with same before
      · exact List.pairwise_cons.2 ⟨first, ordered_rest⟩
      · refine List.pairwise_cons.2 ⟨?_, ordered⟩
        intro other other_mem
        rcases List.mem_cons.1 other_mem with rfl | later
        · exact before
        · exact lt_trans before (first other later)
      · refine List.pairwise_cons.2 ⟨?_, ih ordered_rest⟩
        intro other other_mem
        rcases shas_pushLine.1 other_mem with rfl | old
        · exact lt_of_le_of_ne (not_lt.1 before) (Ne.symm same)
        · exact first other old

/-- The other entries stay, and the entry of the commit has one line more. -/
theorem mem_pushLine (ordered : (ranges.map BlameRange.commitSha).Pairwise (· < ·)) {r : BlameRange}
    (r_mem : r ∈ pushLine sha line ranges) :
    r ∈ ranges ∧ r.commitSha ≠ sha ∨ r.commitSha = sha ∧
      ((∃ old ∈ ranges, old.commitSha = sha ∧ r.lines = old.lines ++ [line]) ∨
        sha ∉ ranges.map BlameRange.commitSha ∧ r.lines = [line]) := by
  induction ranges with
  | nil =>
      rw [pushLine, List.mem_singleton] at r_mem
      simp [r_mem]
  | cons first rest ih =>
      rcases List.pairwise_cons.1 ordered with ⟨later, ordered_rest⟩
      rw [pushLine] at r_mem
      split_ifs at r_mem with same before
      · rcases List.mem_cons.1 r_mem with rfl | old
        · exact Or.inr ⟨same.symm, Or.inl ⟨first, List.mem_cons_self, same.symm, rfl⟩⟩
        · refine Or.inl ⟨List.mem_cons_of_mem _ old, ?_⟩
          rw [same]
          exact (later _ (List.mem_map_of_mem old)).ne'
      · rcases List.mem_cons.1 r_mem with rfl | old
        · refine Or.inr ⟨rfl, Or.inr ⟨?_, rfl⟩⟩
          intro sha_mem
          rcases List.mem_cons.1 sha_mem with same' | old
          · exact same same'
          · exact (lt_trans before (later _ old)).false
        · refine Or.inl ⟨old, ?_⟩
          rcases List.mem_cons.1 old with rfl | old
          · exact Ne.symm same
          · exact (lt_trans before (later _ (List.mem_map_of_mem old))).ne'
      · rcases List.mem_cons.1 r_mem with rfl | pushed
        · exact Or.inl ⟨List.mem_cons_self, Ne.symm same⟩
        · rcases ih ordered_rest pushed with
            ⟨old, other⟩ | ⟨own, ⟨old, old_mem, grown⟩ | ⟨absent, alone⟩⟩
          · exact Or.inl ⟨List.mem_cons_of_mem _ old, other⟩
          · exact Or.inr ⟨own, Or.inl ⟨old, List.mem_cons_of_mem _ old_mem, grown⟩⟩
          · refine Or.inr ⟨own, Or.inr ⟨?_, alone⟩⟩
            rw [List.map_cons, List.mem_cons, not_or]
            exact ⟨same, absent⟩

end Push

section Groups

variable {blame : FileBlame} {lines : List Nat} {ranges : List BlameRange} {line : Nat}

theorem Groups.push (groups : Groups blame lines ranges) {sha : String}
    (blamed : blame line = some sha) :
    Groups blame (lines ++ [line]) (pushLine sha line ranges) where
  ordered := ordered_pushLine groups.ordered
  owned r r_mem := by
    rw [List.filter_append]
    rcases mem_pushLine groups.ordered r_mem with
      ⟨old, other⟩ | ⟨rfl, ⟨old, old_mem, same, grown⟩ | ⟨absent, alone⟩⟩
    · simp [groups.owned r old, blamed, Ne.symm other]
    · simp [grown, groups.owned old old_mem, same, blamed]
    · have none_before : (lines.filter fun line => blame line = some r.commitSha) = [] := by
        rw [List.filter_eq_nil_iff]
        intro other other_mem found
        exact absent ((groups.shas _).2 ⟨other, other_mem, by simpa using found⟩)
      simp [alone, none_before, blamed]
  shas other := by
    rw [shas_pushLine, groups.shas]
    simp [blamed, or_and_right, exists_or, or_comm, eq_comm]

theorem Groups.skip (groups : Groups blame lines ranges) (unblamed : blame line = none) :
    Groups blame (lines ++ [line]) ranges where
  ordered := groups.ordered
  owned r r_mem := by simp [groups.owned r r_mem, unblamed]
  shas sha := by simp [groups.shas, unblamed, or_and_right, exists_or]

theorem groups_groupLines (blame : FileBlame) (lines : List Nat) :
    Groups blame lines (groupLines blame lines) := by
  induction lines using List.reverseRecOn with
  | nil => exact ⟨List.Pairwise.nil, by simp [groupLines], by simp [groupLines]⟩
  | append_singleton lines line ih =>
      rw [groupLines] at ih ⊢
      rw [List.foldl_append]
      cases blamed : blame line with
      | none => simpa [blamed] using ih.skip blamed
      | some sha => simpa [blamed] using ih.push blamed

theorem Groups.distinct (groups : Groups blame lines ranges) :
    (ranges.map BlameRange.commitSha).Nodup :=
  groups.ordered.imp ne_of_lt

end Groups

end Blamer

namespace Explain

/-- The indexed commits that the lines are blamed on. -/
def indexedShas (db : Database) (blame : FileBlame) (lines : List Nat) : List String :=
    (lines.filterMap blame).dedup.filter fun sha => (Commit.get db sha).isSome

/-- What a result owes the blame: each hit has all lines of its commit and no others, and as many
indexed commits are shown as were asked for, the newest of them. -/
structure Blames (db : Database) (blame : FileBlame) (lines : List Nat) (query : ExplainQuery)
    (hits : List ExplainHit) : Prop where
  owned : ∀ hit ∈ hits, hit.blameLines = lines.filter fun line => blame line = some hit.commitSha
  indexed : ∀ hit ∈ hits, hit.commitSha ∈ indexedShas db blame lines
  distinct : (hits.map ExplainHit.commitSha).Nodup
  length : hits.length = min (clampK query.k) (indexedShas db blame lines).length
  newest : (∀ sha ∈ indexedShas db blame lines, 0 ≤ Hydrator.yearOfTs (indexedTs db sha) ∧
      Hydrator.yearOfTs (indexedTs db sha) ≤ 9999) →
    ∀ sha ∈ indexedShas db blame lines, sha ∉ hits.map ExplainHit.commitSha →
      ∀ hit ∈ hits, indexedTs db sha ≤ indexedTs db hit.commitSha

section Whole

variable {db : Database} {blame : FileBlame} {lines : List Nat} {ranges : List BlameRange}

theorem indexedShas_perm (groups : Blamer.Groups blame lines ranges) :
    ((Hydrator.indexedRanges db ranges).map BlameRange.commitSha).Perm
      (indexedShas db blame lines) := by
  have distinct : ((Hydrator.indexedRanges db ranges).map BlameRange.commitSha).Nodup :=
    (List.filter_sublist.map BlameRange.commitSha).nodup groups.distinct
  have distinct' : (indexedShas db blame lines).Nodup := (List.nodup_dedup _).filter _
  rw [List.perm_ext_iff_of_nodup distinct distinct']
  intro sha
  rw [indexedShas, List.mem_filter, List.mem_dedup, List.mem_filterMap, ← groups.shas]
  constructor
  · intro sha_mem
    rcases List.mem_map.1 sha_mem with ⟨r, r_mem, rfl⟩
    rcases List.mem_filter.1 r_mem with ⟨old, indexed⟩
    exact ⟨List.mem_map_of_mem old, indexed⟩
  · rintro ⟨sha_mem, indexed⟩
    rcases List.mem_map.1 sha_mem with ⟨r, r_mem, rfl⟩
    exact List.mem_map_of_mem (List.mem_filter.2 ⟨r_mem, indexed⟩)

theorem blames_of_groups (groups : Blamer.Groups blame lines ranges) {storage : ExplainStorage}
    (answers : storage.Answers db) {query : ExplainQuery} {result : ExplainResult}
    (returned : explainRanges Hydrator.toRfc3339 storage ranges query = .ok result) :
    Blames db blame lines query result.hits := by
  have newest := explainRanges_newest_first answers groups.distinct returned
  rcases Fallible.bind_eq_ok.1 returned with ⟨hydrated, hydrates, ⟨⟩⟩
  have pairs := (Hydrator.hydrateBlameResults_eq_ok answers hydrates).1
  have distinct := Hydrator.hydrateBlameResults_distinct answers groups.distinct hydrates
  have shas : (hydrated.hits.map ExplainHit.commitSha).Perm (indexedShas db blame lines) := by
    have firsts := congrArg (List.map Prod.fst) pairs
    simp only [List.map_map, Function.comp_def] at firsts
    rw [firsts]
    exact indexedShas_perm groups
  have sorted := List.mergeSort_perm hydrated.hits newestFirst
  have shown : ∀ hit ∈ (hydrated.hits.mergeSort newestFirst).take (clampK query.k),
      hit ∈ hydrated.hits := fun hit hit_mem => sorted.subset (List.mem_of_mem_take hit_mem)
  constructor
  · intro hit hit_mem
    have pair_mem := List.mem_map_of_mem
      (f := fun hit : ExplainHit => (hit.commitSha, hit.blameLines)) (shown hit hit_mem)
    rw [pairs] at pair_mem
    rcases List.mem_map.1 pair_mem with ⟨r, r_mem, same⟩
    rcases Prod.mk.inj same with ⟨same_sha, same_lines⟩
    rw [← same_lines, ← same_sha]
    exact groups.owned r (List.mem_of_mem_filter r_mem)
  · intro hit hit_mem
    exact shas.subset (List.mem_map_of_mem (shown hit hit_mem))
  · exact ((List.take_sublist _ _).map ExplainHit.commitSha).nodup
      ((sorted.map ExplainHit.commitSha).nodup_iff.2 distinct)
  · rw [assembleExplainResult, List.length_take, sorted.length_eq, ← shas.length_eq,
      List.length_map]
  · intro years sha sha_mem hidden hit hit_mem
    rcases newest with ⟨_, same, front⟩
    cases hydrates.symm.trans same
    have by_time := List.perm_insertionSort (Newer (indexedTs db)) hydrated.hits
    have kept := front fun hit hit_mem => years _
      (shas.subset (List.mem_map_of_mem (by_time.subset (List.mem_of_mem_take hit_mem))))
    rw [kept] at hidden hit_mem
    rcases List.mem_map.1 (shas.symm.subset sha_mem) with ⟨other, other_mem, rfl⟩
    have in_order := List.pairwise_insertionSort (Newer (indexedTs db)) hydrated.hits
    rw [← List.take_append_drop (clampK query.k) (hydrated.hits.insertionSort _)] at in_order by_time
    have left_out : other ∈ (hydrated.hits.insertionSort (Newer (indexedTs db))).drop
        (clampK query.k) := by
      rcases List.mem_append.1 (by_time.symm.subset other_mem) with taken | dropped
      · exact absurd (List.mem_map_of_mem taken) hidden
      · exact dropped
    rcases (List.pairwise_append.1 in_order).2.2 hit hit_mem other left_out with later | ⟨tie, -⟩
    · exact later.le
    · exact tie.ge

/-- The lines are those of the requested range that the file on disk has, and the blame is run only
when there are any. -/
theorem groups_of_explainChange {rfc3339 : Hydrator.DateFormat} {storage : ExplainStorage}
    {repo : GitRepo} {query : ExplainQuery} {result : ExplainResult}
    (returned : explainChange rfc3339 storage repo query = .ok result) :
    ∃ lines blame ranges, Blamer.clampedLines repo query.file query.lineStart.toNat
        query.lineEnd.toNat = .ok lines ∧ (lines ≠ [] → repo.blameFile query.file = .ok blame) ∧
      Blamer.Groups blame lines ranges ∧
      explainRanges rfc3339 storage ranges query = .ok result := by
  rcases Fallible.bind_eq_ok.1 returned with ⟨ranges, blamed, explained⟩
  rcases Fallible.bind_eq_ok.1 blamed with ⟨lines, clamped, grouped⟩
  rw [Blamer.blameLines] at grouped
  split_ifs at grouped with empty
  · cases grouped
    rw [List.isEmpty_iff] at empty
    subst empty
    exact ⟨[], fun _ => none, [], clamped, fun some_line => absurd rfl some_line,
      Blamer.groups_groupLines (fun _ => none) [], explained⟩
  · rcases Fallible.bind_eq_ok.1 grouped with ⟨blame, read, ⟨⟩⟩
    exact ⟨lines, blame, _, clamped, fun _ => read, Blamer.groups_groupLines blame lines, explained⟩

/-- The hits of an explanation are those of the commits that the requested lines on disk are blamed
on. -/
theorem explained_lines (storage : ExplainStorage) (answers : storage.Answers db) (repo : GitRepo)
    (query : ExplainQuery) {result : ExplainResult}
    (returned : explainChange Hydrator.toRfc3339 storage repo query = .ok result) :
    ∃ lines blame, Blamer.clampedLines repo query.file query.lineStart.toNat query.lineEnd.toNat =
        .ok lines ∧ (lines ≠ [] → repo.blameFile query.file = .ok blame) ∧
      Blames db blame lines query result.hits := by
  rcases groups_of_explainChange returned with
    ⟨lines, blame, ranges, clamped, read, groups, explained⟩
  exact ⟨lines, blame, clamped, read, blames_of_groups groups answers explained⟩

end Whole

end Explain

end Ohara
