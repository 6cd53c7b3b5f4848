import Mathlib.Data.List.Flatten
import Mathlib.Order.Bounds.Basic
import Ohara.Explain.Neighbours
import Ohara.Library.Fallible

/-!
# The account an explain result gives of its lines

Both passes over the blame ranges, the scan for the bounds and the total and the loop that splits
the ranges into hits and skipped commits, as functions of the list of all lines. The counters are
32 bits wide and the scan takes the largest line number for "no line seen".
-/

namespace Ohara

/-- The storage may refuse a read; otherwise it looks the commits up in the tables of `db`. -/
def ExplainStorage.Answers (storage : ExplainStorage) (db : Database) : Prop :=
    ∀ shas commitMap, storage.getCommitsBySha shas = .ok commitMap →
      ∀ sha ∈ shas, commitMap sha = Commit.get db sha

theorem explainStorage_answers (sorter : Selection.Sorter) (db : Database) :
    (db.explainStorage sorter).Answers db := by
  intro shas commitMap read sha _
  cases read
  rfl

namespace Hydrator

open BinaryRounding (nearest)
open Fallible

/-- All blamed lines. -/
def allLines (ranges : List BlameRange) : List Nat :=
    ranges.flatMap BlameRange.lines

/-- The ranges whose commits are indexed. -/
def indexedRanges (db : Database) (ranges : List BlameRange) : List BlameRange :=
    ranges.filter fun range => (Commit.get db range.commitSha).isSome

/-- A read of the storage that failed. -/
def ReadFails (storage : ExplainStorage) (ranges : List BlameRange) (query : ExplainQuery)
    (e : OhraError) : Prop :=
    storage.getCommitsBySha (ranges.map BlameRange.commitSha) = .error e ∨
    (query.includeDiff = true ∧ ∃ range ∈ ranges,
      storage.getHunksForFileInCommit range.commitSha query.file = .error e) ∨
    (query.includeRelated = true ∧ ∃ range ∈ ranges,
      storage.getNeighboringFileCommits query.file range.commitSha 2 2 = .error e)

/-- What a result says about the blamed lines. The coverage is an `f32`: the one nearest to the
quotient. -/
structure Accounts (db : Database) (ranges : List BlameRange) (query : ExplainQuery)
    (hydrated : HydratedBlame) : Prop where
  hits : hydrated.hits.map (fun hit => (hit.commitSha, hit.blameLines)) =
    (indexedRanges db ranges).map fun range => (range.commitSha, range.lines)
  distinct : (hydrated.hits.map ExplainHit.commitSha).Nodup
  coverage : hydrated.coverage =
    if allLines ranges = [] then 0
    else nearest 23
      (((allLines (indexedRanges db ranges)).length : ℚ) / (allLines ranges).length)
  no_lines : allLines ranges = [] →
    hydrated.clampedRange = (query.lineStart.toNat, query.lineEnd.toNat)
  clamped : allLines ranges ≠ [] →
    IsLeast {line | line ∈ allLines ranges} hydrated.clampedRange.1 ∧
      IsGreatest {line | line ∈ allLines ranges} hydrated.clampedRange.2
  limitation : hydrated.limitation.isSome = true ↔
    allLines ranges = [] ∨ ∃ range ∈ ranges, Commit.get db range.commitSha = none

/-! ## The two passes -/

theorem wrapU32_wrapU32_add (n k : Nat) : wrapU32 (wrapU32 n + k) = wrapU32 (n + k) := by
  simp [wrapU32]

theorem wrapU32_eq_self {n : Nat} (small : n < 2 ^ 32) : wrapU32 n = n :=
  Nat.mod_eq_of_lt small

theorem foldl_scan (lines : List Nat) (minLine maxLine total : Nat) :
    lines.foldl
      (fun (minLine, maxLine, total) l =>
        (if l < minLine then l else minLine, if l > maxLine then l else maxLine,
          wrapU32 (total + 1)))
      (minLine, maxLine, wrapU32 total) =
    (lines.foldl min minLine, lines.foldl max maxLine, wrapU32 (total + lines.length)) := by
  induction lines generalizing minLine maxLine total with
  | nil => rfl
  | cons l rest ih =>
      have lower : (if l < minLine then l else minLine) = min minLine l := by
        split <;> omega
      have upper : (if l > maxLine then l else maxLine) = max maxLine l := by
        split <;> omega
      simp only [List.foldl_cons, lower, upper, wrapU32_wrapU32_add, ih, List.length_cons]
      rw [Nat.add_right_comm, Nat.add_assoc]

theorem scanLines_eq (ranges : List BlameRange) :
    scanLines ranges = ((allLines ranges).foldl min u32Max, (allLines ranges).foldl max 0,
      wrapU32 (allLines ranges).length) := by
  have scanned := foldl_scan (allLines ranges) u32Max 0 0
  rwa [Nat.zero_add] at scanned

/-- The scan finds the bounds and the number of the lines, unless it takes them for no lines. -/
theorem clampedRange_cases {ranges : List BlameRange} (query : ExplainQuery)
    (typed : ∀ l ∈ allLines ranges, l ≤ u32Max) :
    (∀ l ∈ allLines ranges, l = u32Max) ∧
        clampedRange ranges query = (query.lineStart.toNat, query.lineEnd.toNat, 0) ∨
      (∃ l ∈ allLines ranges, l ≠ u32Max) ∧ ∃ least greatest,
        IsLeast {l | l ∈ allLines ranges} least ∧
        IsGreatest {l | l ∈ allLines ranges} greatest ∧
        clampedRange ranges query = (least, greatest, wrapU32 (allLines ranges).length) := by
  rw [clampedRange, scanLines_eq]
  by_cases none_seen : allLines ranges = []
  · left
    simp [none_seen]
  · have some_range : ranges.isEmpty = false := by
      cases ranges with
      | nil => exact absurd rfl none_seen
      | cons range rest => rfl
    have least := (allLines ranges).min_mem none_seen
    have greatest := (allLines ranges).max_mem none_seen
    rw [List.foldl_min_eq_min none_seen, List.foldl_max_eq_max none_seen, Nat.zero_max,
      min_eq_right (typed _ least), some_range]
    by_cases only_largest : (allLines ranges).min none_seen = u32Max
    · left
      constructor
      · intro l l_mem
        have above := List.min_le_of_mem l_mem
        have below := typed l l_mem
        omega
      · simp [only_largest]
    · right
      refine ⟨⟨_, least, only_largest⟩, _, _, ⟨least, ?_⟩, ⟨greatest, ?_⟩, by simp [only_largest]⟩
      · intro l l_mem
        exact List.min_le_of_mem l_mem
      · intro l l_mem
        exact List.le_max_of_mem l_mem

section Split

variable {rfc3339 : DateFormat} {storage : ExplainStorage} {query : ExplainQuery}
  {commitMap : String → Option CommitMeta}

theorem excerpt_eq_error {commit : CommitMeta} {e : OhraError}
    (failed : excerpt storage query commit = .error e) :
    query.includeDiff = true ∧
      storage.getHunksForFileInCommit commit.commitSha query.file = .error e := by
  rw [excerpt] at failed
  split at failed
  · next included =>
      rcases bind_eq_error.1 failed with read | ⟨hunks, _, done⟩
      · exact ⟨included, read⟩
      · cases done
  · cases failed

theorem hydrateRanges_eq_error {ranges : List BlameRange} {e : OhraError}
    (keyed : ∀ range ∈ ranges, ∀ commit, commitMap range.commitSha = some commit →
      commit.commitSha = range.commitSha)
    (failed : hydrateRanges rfc3339 storage query commitMap ranges = .error e) :
    query.includeDiff = true ∧ ∃ range ∈ ranges,
      storage.getHunksForFileInCommit range.commitSha query.file = .error e := by
  induction ranges with
  | nil => cases failed
  | cons range rest ih =>
      rw [List.forall_mem_cons] at keyed
      have later : hydrateRanges rfc3339 storage query commitMap rest = .error e →
          query.includeDiff = true ∧ ∃ other ∈ range :: rest,
            storage.getHunksForFileInCommit other.commitSha query.file = .error e := by
        intro rest_failed
        rcases ih keyed.2 rest_failed with ⟨included, other, other_mem, read⟩
        exact ⟨included, other, List.mem_cons_of_mem _ other_mem, read⟩
      rw [hydrateRanges] at failed
      cases found : commitMap range.commitSha with
      | none =>
          rw [found] at failed
          rcases bind_eq_error.1 failed with rest_failed | ⟨_, _, done⟩
          · exact later rest_failed
          · cases done
      | some commit =>
          rw [found] at failed
          rcases bind_eq_error.1 failed with first | ⟨_, _, failed⟩
          · rcases excerpt_eq_error first with ⟨included, read⟩
            rw [keyed.1 commit found] at read
            exact ⟨included, range, List.mem_cons_self, read⟩
          · rcases bind_eq_error.1 failed with rest_failed | ⟨_, _, done⟩
            · exact later rest_failed
            · cases done

/-- The hit is of the commit the range was blamed on, and carries the range's lines. -/
def HitOf (rfc3339 : DateFormat) (commitMap : String → Option CommitMeta) (range : BlameRange)
    (hit : ExplainHit) : Prop :=
    ∃ commit, commitMap range.commitSha = some commit ∧ hit.commitSha = commit.commitSha ∧
      hit.blameLines = range.lines ∧ hit.commitDate = rfc3339 commit.ts

/-- Every range goes to the hits or to the skipped commits, in order. -/
theorem hydrateRanges_eq_ok {ranges : List BlameRange} {hits : List ExplainHit}
    {skipped : List String} {indexed : Nat}
    (split : hydrateRanges rfc3339 storage query commitMap ranges = .ok (hits, skipped, indexed)) :
    let kept := ranges.filter fun range => (commitMap range.commitSha).isSome
    List.Forall₂ (HitOf rfc3339 commitMap) kept hits ∧
      (skipped = [] ↔ ∀ range ∈ ranges, commitMap range.commitSha ≠ none) ∧
      indexed = wrapU32 (allLines kept).length := by
  induction ranges generalizing hits skipped indexed with
  | nil =>
      cases split
      simp [allLines, wrapU32]
  | cons range rest ih =>
      rw [hydrateRanges] at split
      cases found : commitMap range.commitSha with
      | none =>
          rw [found] at split
          rcases bind_eq_ok.1 split with ⟨⟨_, _, _⟩, rest_split, ⟨⟩⟩
          have rest_spec := ih rest_split
          simp_all
      | some commit =>
          rw [found] at split
          rcases bind_eq_ok.1 split with ⟨_, _, split⟩
          rcases bind_eq_ok.1 split with ⟨⟨_, _, _⟩, rest_split, ⟨⟩⟩
          rcases ih rest_split with ⟨rest_hits, rest_skipped, rfl⟩
          have kept : (range :: rest).filter (fun range => (commitMap range.commitSha).isSome) =
              range :: rest.filter fun range => (commitMap range.commitSha).isSome := by
            simp [found]
          intro all_kept
          rw [show all_kept = _ from kept]
          refine ⟨List.Forall₂.cons ⟨commit, found, rfl, rfl, rfl⟩ rest_hits, ?_, ?_⟩
          · simp [found, rest_skipped]
          · rw [Nat.add_comm, wrapU32_wrapU32_add, Nat.add_comm]
            simp [allLines]

theorem hits_of_forall₂ {kept : List BlameRange} {hits : List ExplainHit}
    (keyed : ∀ range ∈ kept, ∀ commit, commitMap range.commitSha = some commit →
      commit.commitSha = range.commitSha)
    (made : List.Forall₂ (HitOf rfc3339 commitMap) kept hits) :
    hits.map (fun hit => (hit.commitSha, hit.blameLines)) =
      kept.map fun range => (range.commitSha, range.lines) := by
  induction made with
  | nil => rfl
  | cons first _ ih =>
      rw [List.forall_mem_cons] at keyed
      rcases first with ⟨commit, found, sha, lines, _⟩
      rw [List.map_cons, List.map_cons, ih keyed.2, sha, lines, keyed.1 commit found]

theorem HitOf.exists_range {kept : List BlameRange} {hits : List ExplainHit}
    (made : List.Forall₂ (HitOf rfc3339 commitMap) kept hits) :
    ∀ hit ∈ hits, ∃ range ∈ kept, HitOf rfc3339 commitMap range hit := by
  induction made with
  | nil => simp
  | cons first _ ih =>
      simp only [List.forall_mem_cons, List.exists_mem_cons_iff]
      exact ⟨Or.inl first, fun hit hit_mem => Or.inr (ih hit hit_mem)⟩

theorem collectRelatedCommits_eq_error {file : String} {anchors : List String}
    {out : List RelatedCommit} {hits : List ExplainHit} {e : OhraError}
    (failed : collectRelatedCommits rfc3339 storage file anchors out hits = .error e) :
    ∃ hit ∈ hits, storage.getNeighboringFileCommits file hit.commitSha 2 2 = .error e := by
  induction hits generalizing out with
  | nil => cases failed
  | cons hit rest ih =>
      rw [collectRelatedCommits] at failed
      rcases bind_eq_error.1 failed with read | ⟨neighbours, _, rest_failed⟩
      · exact ⟨hit, List.mem_cons_self, read⟩
      · rcases ih rest_failed with ⟨other, other_mem, read⟩
        exact ⟨other, List.mem_cons_of_mem _ other_mem, read⟩

theorem enrich_eq_error {hits : List ExplainHit} {e : OhraError}
    (failed : enrich rfc3339 storage query hits = .error e) :
    query.includeRelated = true ∧ ∃ hit ∈ hits,
      storage.getNeighboringFileCommits query.file hit.commitSha 2 2 = .error e := by
  rw [enrich] at failed
  split at failed
  · cases failed
  · next wanted =>
      split at failed
      · cases failed
      · rcases bind_eq_error.1 failed with collected | ⟨_, _, done⟩
        · exact ⟨by simpa using wanted, collectRelatedCommits_eq_error collected⟩
        · cases done

end Split

/-! ## The result -/

section Result

variable {rfc3339 : DateFormat} {storage : ExplainStorage} {db : Database} {query : ExplainQuery}
  {ranges : List BlameRange}

theorem commitSha_of_get {sha : String} {commit : CommitMeta}
    (found : Commit.get db sha = some commit) : commit.commitSha = sha := by
  rw [Commit.get, Option.map_eq_some_iff] at found
  rcases found with ⟨row, looked_up, rfl⟩
  exact (Rows.mem_of_lookup_eq_some looked_up).2

section Lookup

variable {commitMap : String → Option CommitMeta} (answers : storage.Answers db)
  (read : storage.getCommitsBySha (ranges.map BlameRange.commitSha) = .ok commitMap)

include answers read

theorem commitMap_eq {range : BlameRange} (range_mem : range ∈ ranges) :
    commitMap range.commitSha = Commit.get db range.commitSha :=
  answers _ _ read _ (List.mem_map_of_mem range_mem)

theorem commitMap_keyed : ∀ range ∈ ranges, ∀ commit, commitMap range.commitSha = some commit →
    commit.commitSha = range.commitSha := by
  intro range range_mem commit found
  rw [commitMap_eq answers read range_mem] at found
  exact commitSha_of_get found

theorem hydrateRanges_indexed {hits : List ExplainHit} {skipped : List String} {indexed : Nat}
    (split : hydrateRanges rfc3339 storage query commitMap ranges = .ok (hits, skipped, indexed)) :
    hits.map (fun hit => (hit.commitSha, hit.blameLines)) =
        (indexedRanges db ranges).map (fun range => (range.commitSha, range.lines)) ∧
      (skipped = [] ↔ ¬∃ range ∈ ranges, Commit.get db range.commitSha = none) ∧
      indexed = wrapU32 (allLines (indexedRanges db ranges)).length := by
  rcases hydrateRanges_eq_ok split with ⟨made, none_skipped, counted⟩
  have hit_lines := hits_of_forall₂ (fun range kept => commitMap_keyed answers read range
    (List.mem_of_mem_filter kept)) made
  have same_ranges : (ranges.filter fun range => (commitMap range.commitSha).isSome) =
      indexedRanges db ranges := by
    apply List.filter_congr
    intro range range_mem
    rw [commitMap_eq answers read range_mem]
  rw [same_ranges] at hit_lines counted
  refine ⟨hit_lines, ?_, counted⟩
  rw [none_skipped]
  push Not
  apply forall₂_congr
  intro range range_mem
  rw [commitMap_eq answers read range_mem]

end Lookup

theorem readFails_of_error (answers : storage.Answers db) {e : OhraError}
    (failed : hydrateBlameResults rfc3339 storage ranges query = .error e) :
    ReadFails storage ranges query e := by
  rw [hydrateBlameResults] at failed
  rcases bind_eq_error.1 failed with read | ⟨commitMap, read, failed⟩
  · exact Or.inl read
  · rcases bind_eq_error.1 failed with unsplit | ⟨⟨hits, skipped, indexed⟩, split, failed⟩
    · exact Or.inr (Or.inl (hydrateRanges_eq_error (commitMap_keyed answers read) unsplit))
    · rcases bind_eq_error.1 failed with unenriched | ⟨_, _, done⟩
      · rcases enrich_eq_error unenriched with ⟨wanted, hit, hit_mem, unread⟩
        have hit_lines := (hydrateRanges_indexed answers read split).1
        have listed := List.mem_map_of_mem
          (f := fun hit : ExplainHit => (hit.commitSha, hit.blameLines)) hit_mem
        rw [hit_lines] at listed
        rcases List.mem_map.1 listed with ⟨range, kept, same⟩
        have same_sha : range.commitSha = hit.commitSha := congrArg Prod.fst same
        rw [← same_sha] at unread
        exact Or.inr (Or.inr ⟨wanted, range, List.mem_of_mem_filter kept, unread⟩)
      · cases done

/-- The counters and the note of a result, by the scan's total. -/
theorem hydrateBlameResults_eq_ok (answers : storage.Answers db) {hydrated : HydratedBlame}
    (returned : hydrateBlameResults rfc3339 storage ranges query = .ok hydrated) :
    let (least, greatest, total) := clampedRange ranges query
    hydrated.hits.map (fun hit => (hit.commitSha, hit.blameLines)) =
        (indexedRanges db ranges).map (fun range => (range.commitSha, range.lines)) ∧
      hydrated.coverage = coverageOf (wrapU32 (allLines (indexedRanges db ranges)).length) total ∧
      hydrated.clampedRange = (least, greatest) ∧
      (hydrated.limitation.isSome = true ↔
        total = 0 ∨ ∃ range ∈ ranges, Commit.get db range.commitSha = none) := by
  rw [hydrateBlameResults] at returned
  rcases bind_eq_ok.1 returned with ⟨commitMap, read, returned⟩
  rcases bind_eq_ok.1 returned with ⟨⟨hits, skipped, indexed⟩, split, returned⟩
  rcases bind_eq_ok.1 returned with ⟨⟨related, note⟩, _, ⟨⟩⟩
  rcases hydrateRanges_indexed answers read split with ⟨hit_lines, none_skipped, rfl⟩
  refine ⟨hit_lines, rfl, rfl, ?_⟩
  rw [buildLimitation]
  split_ifs with no_total empty
  · simp [no_total]
  · rw [List.isEmpty_iff, none_skipped] at empty
    simp [no_total, empty]
  · rw [List.isEmpty_iff, none_skipped, not_not] at empty
    simp [empty]

theorem hydrateBlameResults_distinct (answers : storage.Answers db)
    (distinct : (ranges.map BlameRange.commitSha).Nodup) {hydrated : HydratedBlame}
    (returned : hydrateBlameResults rfc3339 storage ranges query = .ok hydrated) :
    (hydrated.hits.map ExplainHit.commitSha).Nodup := by
  have same_shas := congrArg (List.map Prod.fst) (hydrateBlameResults_eq_ok answers returned).1
  simp only [List.map_map, Function.comp_def] at same_shas
  rw [same_shas]
  exact (List.filter_sublist.map BlameRange.commitSha).nodup distinct

/-- Reduced to 32 bits and rounded to 24, the numbers have the quotient they had. -/
def KeepsQuotient (indexed total : Nat) : Prop :=
    if total % 2 ^ 32 = 0 then indexed = 0
    else
      nearest 23 (nearest 23 (indexed % 2 ^ 32 : ℕ) / nearest 23 (total % 2 ^ 32 : ℕ)) =
        nearest 23 ((indexed : ℚ) / total)

/-- When the counters and the clamped range say what they should: the counters have the quotient of
the true numbers, and a scan that saw the largest line number only is right about seeing nothing. -/
def Countable (db : Database) (ranges : List BlameRange) (query : ExplainQuery) : Prop :=
    let total := (allLines ranges).length
    let indexed := (allLines (indexedRanges db ranges)).length
    if ∀ l ∈ allLines ranges, l = u32Max then
      total = 0 ∨ indexed = 0 ∧ query.lineStart.toNat = u32Max ∧ query.lineEnd.toNat = u32Max
    else KeepsQuotient indexed total

theorem nearest_quotient_eq_zero_iff {indexed total : Nat} (some_line : total ≠ 0) :
    nearest 23 ((indexed : ℚ) / total) = 0 ↔ indexed = 0 := by
  rw [BinaryRounding.nearest_eq_zero_iff (by positivity), div_eq_zero_iff]
  simp [some_line]

theorem coverageOf_eq_quotient_iff {indexed total : Nat} (some_line : total ≠ 0) :
    coverageOf (wrapU32 indexed) (wrapU32 total) = nearest 23 ((indexed : ℚ) / total) ↔
      KeepsQuotient indexed total := by
  rw [coverageOf, KeepsQuotient, wrapU32, wrapU32]
  split
  · rw [eq_comm, nearest_quotient_eq_zero_iff some_line]
  · exact Iff.rfl

theorem exists_unindexed (some_line : allLines ranges ≠ [])
    (none_indexed : (allLines (indexedRanges db ranges)).length = 0) :
    ∃ range ∈ ranges, Commit.get db range.commitSha = none := by
  rcases List.exists_mem_of_ne_nil _ some_line with ⟨l, l_mem⟩
  rcases List.mem_flatMap.1 l_mem with ⟨range, range_mem, l_range⟩
  refine ⟨range, range_mem, ?_⟩
  by_contra indexed
  have kept : range ∈ indexedRanges db ranges :=
    List.mem_filter.2 ⟨range_mem, Option.isSome_iff_ne_none.2 indexed⟩
  rw [List.length_eq_zero_iff] at none_indexed
  have l_kept : l ∈ allLines (indexedRanges db ranges) := List.mem_flatMap.2 ⟨range, kept, l_range⟩
  rw [none_indexed] at l_kept
  cases l_kept

/-- Without a line below the largest number the scan reports no lines. -/
theorem accounts_iff_of_largest {hydrated : HydratedBlame}
    (hits : hydrated.hits.map (fun hit => (hit.commitSha, hit.blameLines)) =
      (indexedRanges db ranges).map fun range => (range.commitSha, range.lines))
    (distinct : (hydrated.hits.map ExplainHit.commitSha).Nodup)
    (largest : ∀ l ∈ allLines ranges, l = u32Max) (no_coverage : hydrated.coverage = 0)
    (queried : hydrated.clampedRange = (query.lineStart.toNat, query.lineEnd.toNat))
    (noted : hydrated.limitation.isSome = true) :
    Accounts db ranges query hydrated ↔
      (allLines ranges).length = 0 ∨ (allLines (indexedRanges db ranges)).length = 0 ∧
        query.lineStart.toNat = u32Max ∧ query.lineEnd.toNat = u32Max := by
  by_cases none_seen : allLines ranges = []
  · simp only [none_seen, List.length_nil, true_or, iff_true]
    exact ⟨hits, distinct, by simp [no_coverage, none_seen], fun _ => queried,
      fun some_line => absurd none_seen some_line, by simp [noted, none_seen]⟩
  · have total_ne : (allLines ranges).length ≠ 0 := by simpa using none_seen
    simp only [total_ne, false_or]
    constructor
    · intro account
      have bounds := account.clamped none_seen
      rw [queried] at bounds
      refine ⟨?_, largest _ bounds.1.1, largest _ bounds.2.1⟩
      have quotient := account.coverage
      rw [no_coverage, if_neg none_seen, eq_comm] at quotient
      exact (nearest_quotient_eq_zero_iff total_ne).1 quotient
    · rintro ⟨none_indexed, start_largest, end_largest⟩
      refine ⟨hits, distinct, ?_, fun no_line => absurd no_line none_seen, ?_, ?_⟩
      · simp [no_coverage, none_indexed]
      · intro _
        rcases List.exists_mem_of_ne_nil _ none_seen with ⟨l, l_mem⟩
        have l_largest := largest l l_mem
        subst l_largest
        rw [queried, start_largest, end_largest]
        exact ⟨⟨l_mem, fun l l_mem => (largest l l_mem).ge⟩,
          ⟨l_mem, fun l l_mem => (largest l l_mem).le⟩⟩
      · simp [noted, exists_unindexed none_seen none_indexed]

/-- With such a line the bounds are right, and the counters decide. -/
theorem accounts_iff_of_seen {hydrated : HydratedBlame} {least greatest : Nat}
    (hits : hydrated.hits.map (fun hit => (hit.commitSha, hit.blameLines)) =
      (indexedRanges db ranges).map fun range => (range.commitSha, range.lines))
    (distinct : (hydrated.hits.map ExplainHit.commitSha).Nodup)
    (some_line : allLines ranges ≠ [])
    (bounds : IsLeast {l | l ∈ allLines ranges} least ∧
      IsGreatest {l | l ∈ allLines ranges} greatest)
    (clamped : hydrated.clampedRange = (least, greatest))
    (coverage : hydrated.coverage = coverageOf (wrapU32 (allLines (indexedRanges db ranges)).length)
      (wrapU32 (allLines ranges).length))
    (noted : hydrated.limitation.isSome = true ↔ wrapU32 (allLines ranges).length = 0 ∨
      ∃ range ∈ ranges, Commit.get db range.commitSha = none) :
    Accounts db ranges query hydrated ↔
      KeepsQuotient (allLines (indexedRanges db ranges)).length (allLines ranges).length := by
  have total_ne : (allLines ranges).length ≠ 0 := by simpa using some_line
  rw [← coverageOf_eq_quotient_iff total_ne, ← coverage]
  constructor
  · intro account
    rw [account.coverage, if_neg some_line]
  · intro quotient
    refine ⟨hits, distinct, by rw [if_neg some_line, quotient],
      fun none_seen => absurd none_seen some_line, fun _ => clamped ▸ bounds, ?_⟩
    rw [noted]
    simp only [some_line, false_or, or_iff_right_iff_imp]
    intro wrapped
    rw [coverage, coverageOf, if_pos wrapped, eq_comm] at quotient
    exact exists_unindexed some_line ((nearest_quotient_eq_zero_iff total_ne).1 quotient)

/-- For blame ranges of distinct commits over any tables, a request either fails with a read of the
storage or accounts for every line exactly when the lines can be counted. -/
theorem hydrate_accounts_iff (answers : storage.Answers db)
    (typed : ∀ l ∈ allLines ranges, l ≤ u32Max)
    (distinct : (ranges.map BlameRange.commitSha).Nodup) (rfc3339 : DateFormat)
    (query : ExplainQuery) :
    match hydrateBlameResults rfc3339 storage ranges query with
    | .error e => ReadFails storage ranges query e
    | .ok hydrated => Accounts db ranges query hydrated ↔ Countable db ranges query := by
  cases result : hydrateBlameResults rfc3339 storage ranges query with
  | error e => exact readFails_of_error answers result
  | ok hydrated =>
      have account := hydrateBlameResults_eq_ok answers result
      have distinct_hits := hydrateBlameResults_distinct answers distinct result
      rcases clampedRange_cases query typed with ⟨largest, scanned⟩ |
        ⟨⟨l, l_mem, below⟩, least, greatest, low, high, scanned⟩
      · rw [scanned] at account
        rcases account with ⟨hits, coverage, clamped, noted⟩
        rw [Countable, if_pos largest]
        exact accounts_iff_of_largest hits distinct_hits largest coverage clamped (by simp [noted])
      · rw [scanned] at account
        rcases account with ⟨hits, coverage, clamped, noted⟩
        rw [Countable, if_neg fun largest => below (largest l l_mem)]
        exact accounts_iff_of_seen hits distinct_hits (List.ne_nil_of_mem l_mem) ⟨low, high⟩
          clamped coverage noted

end Result

/-- One commit in the index. -/
def oneCommit : Database :=
    { Database.empty with commitRecord := [⟨"a", none, false, 0, none, "", ""⟩] }

/-- A query for one line. -/
def oneLineQuery (line : UInt32) : ExplainQuery :=
    ⟨"f", line, line, 5, false, false⟩

/-- The lines of an indexed commit and one of an older commit. -/
def twoRanges : List BlameRange :=
    [⟨"a", [3, 4]⟩, ⟨"b", [7]⟩]

theorem hydrate_accounts_iff_two_ranges :
    match hydrateBlameResults (fun _ => "") (oneCommit.explainStorage Selection.Sorter.stable)
      twoRanges (oneLineQuery 3) with
    | .error e => ReadFails (oneCommit.explainStorage Selection.Sorter.stable) twoRanges
        (oneLineQuery 3) e
    | .ok hydrated => Accounts oneCommit twoRanges (oneLineQuery 3) hydrated ↔
        Countable oneCommit twoRanges (oneLineQuery 3) :=
  hydrate_accounts_iff (explainStorage_answers Selection.Sorter.stable oneCommit)
    (show ∀ l ∈ allLines twoRanges, l ≤ u32Max by decide)
    (show (twoRanges.map BlameRange.commitSha).Nodup by decide) (fun _ => "") (oneLineQuery 3)

/-- The line `4294967295` of an indexed commit is taken for no line. -/
theorem not_accounts_largest_line :
    ∃ hydrated,
      hydrateBlameResults (fun _ => "") (oneCommit.explainStorage Selection.Sorter.stable)
        [⟨"a", [4294967295]⟩] (oneLineQuery 4294967295) = .ok hydrated ∧
      ¬Accounts oneCommit [⟨"a", [4294967295]⟩] (oneLineQuery 4294967295) hydrated := by
  refine ⟨_, rfl, ?_⟩
  intro account
  have coverage := account.coverage
  have indexed : indexedRanges oneCommit [⟨"a", [4294967295]⟩] = [⟨"a", [4294967295]⟩] := by
    decide
  have whole : nearest 23 1 = 1 := by
    exact_mod_cast @BinaryRounding.nearest_natCast 23 1 (by norm_num)
  rw [indexed] at coverage
  simp [allLines, coverageOf, whole] at coverage

/-- Up to `2 ^ 24` lines, one of them below the largest number, can be counted. -/
theorem countable_of_small {db : Database} {ranges : List BlameRange} (query : ExplainQuery)
    (few : (allLines ranges).length ≤ 2 ^ 24) {l : Nat} (l_mem : l ∈ allLines ranges)
    (below : l ≠ u32Max) : Countable db ranges query := by
  have fewer : (allLines (indexedRanges db ranges)).length ≤ (allLines ranges).length := by
    apply List.Sublist.length_le
    exact List.filter_sublist.flatMap BlameRange.lines
  have some_line : (allLines ranges).length ≠ 0 :=
    (List.length_pos_of_mem l_mem).ne'
  rw [Countable, if_neg fun largest => below (largest l l_mem),
    ← coverageOf_eq_quotient_iff some_line, wrapU32_eq_self (by omega), wrapU32_eq_self (by omega),
    coverageOf, if_neg some_line, BinaryRounding.nearest_natCast (fewer.trans few),
    BinaryRounding.nearest_natCast few]

/-- Beyond them, a single line that is not indexed is lost in the rounding. -/
example : coverageOf 16777216 16777217 = 1 ∧ ¬KeepsQuotient 16777216 16777217 := by
  unfold KeepsQuotient
  decide +kernel

end Hydrator

end Ohara
