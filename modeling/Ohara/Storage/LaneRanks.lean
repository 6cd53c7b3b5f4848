import Mathlib.Tactic.Linarith
import Ohara.Retriever.Pipeline
import Ohara.Storage.LaneCuts

/-!
# What the BM25 lanes rank by

The symbol-name lane returns the front of its reference: every hunk that satisfies the filters and
whose file has a matched symbol, by the best rank of the symbols of its file. The similarity the
BM25 lanes attach to a hit falls where the match gets better.
-/

namespace Ohara

open Retriever Selection

variable {K : Type} [Field K] [LinearOrder K] {db : Database} {contents : IndexContents}
  {language : Option String} {sinceUnix : Option Int}

namespace Symbol

variable {matched : List (FtsSymbolNameRow × K)} {sorter : Sorter} {k : UInt8}

/-- The hunks that satisfy the filters and whose file has a matched symbol, each with the best rank
of the matched symbols of its file, by that rank. -/
structure Reference (db : Database) (language : Option String) (sinceUnix : Option Int)
    (matched : List (FtsSymbolNameRow × K)) (reference : List (LaneRow × K)) : Prop where
  nodup : (reference.map fun row => row.1.hunkId).Nodup
  hunks : ∀ row : LaneRow, row ∈ reference.map Prod.fst ↔
    row ∈ db.matching language sinceUnix ∧
      ∃ file ∈ perSymbol db matched, file.1 = row.hunk.filePathId
  attained : ∀ row ∈ reference, (row.1.hunk.filePathId, row.2) ∈ perSymbol db matched
  best : ∀ row ∈ reference, ∀ file ∈ perSymbol db matched, file.1 = row.1.hunk.filePathId →
    row.2 ≤ file.2
  sorted : reference.Pairwise fun a b => a.2 ≤ b.2

omit [Field K] [LinearOrder K] in
theorem mem_perHunk {row : LaneRow × K} :
    row ∈ perHunk (db.withContents contents) language sinceUnix matched ↔
      row.1 ∈ (db.withContents contents).matching language sinceUnix ∧
        (row.1.hunk.filePathId, row.2) ∈ perSymbol (db.withContents contents) matched := by
  have nodup : ((db.withContents contents).hunk.map HunkRow.id).Nodup := by
    rw [Database.withContents, map_row_id]
    exact contents.hunk_ids_nodup
  rw [perHunk, mem_filteredRows, mem_joinRows, mem_matching]
  constructor
  · rintro ⟨⟨found, joined⟩, passing⟩
    refine ⟨⟨joined, passing⟩, ?_⟩
    rcases List.mem_flatMap.1 found with ⟨file, file_mem, found_file⟩
    rcases List.mem_map.1 found_file with ⟨hunk, hunk_mem, same⟩
    rcases List.mem_filter.1 hunk_mem with ⟨hunk_stored, in_file⟩
    rw [decide_eq_true_eq] at in_file
    injection same with same_id same_rank
    have joined_stored := (Rows.mem_of_lookup_eq_some (joinHunk_eq_some.1 joined).1).1
    have same_hunk : hunk = row.1.hunk :=
      List.inj_on_of_nodup_map nodup hunk_stored joined_stored same_id
    rw [← same_hunk, in_file, ← same_rank]
    exact file_mem
  · rintro ⟨⟨joined, passing⟩, file_mem⟩
    have joined_stored := (Rows.mem_of_lookup_eq_some (joinHunk_eq_some.1 joined).1).1
    refine ⟨⟨List.mem_flatMap.2 ⟨_, file_mem, List.mem_map.2 ⟨row.1.hunk, ?_, rfl⟩⟩, joined⟩,
      passing⟩
    exact List.mem_filter.2 ⟨joined_stored, by simp⟩

omit [Field K] in
/-- Row number one of each partition, sorted by rank, is a ranking of the joined rows. -/
theorem ranking_rowNumberOne (sorter : Sorter) (rows : List (LaneRow × K)) :
    Ranking (fun row => row.1.hunkId) Prod.snd rows
      (sorter.orderBy Prod.snd (rowNumberOne sorter rows)) := by
  have perm := sorter.perm Prod.snd (rowNumberOne sorter rows)
  have partitions := ranking_firsts (fun row : LaneRow × K => row.1.hunkId)
    (sorter.perm (fun row => toLex (row.1.hunkId, row.2)) rows)
    (sorter.sorted (fun row => toLex (row.1.hunkId, row.2)) rows)
  refine ⟨?_, ?_, ?_, ?_, sorter.sorted Prod.snd _⟩
  · intro row row_mem
    exact partitions.mem row (perm.subset row_mem)
  · intro row row_mem
    exact (perm.map _).symm.subset (partitions.keys row row_mem)
  · exact (perm.map _).nodup_iff.2 partitions.nodup
  · intro row row_mem other other_mem same
    have least := partitions.best row (perm.subset row_mem) other other_mem same
    rcases Prod.Lex.toLex_le_toLex.1 least with before | ⟨-, rank_le⟩
    · exact absurd same before.ne'
    · exact rank_le

omit [Field K] in
theorem reference_of_ranking {reference : List (LaneRow × K)}
    (ranking : Ranking (fun row => row.1.hunkId) Prod.snd
      (perHunk (db.withContents contents) language sinceUnix matched) reference) :
    Reference (db.withContents contents) language sinceUnix matched reference where
  nodup := ranking.nodup
  hunks row := by
    constructor
    · intro row_mem
      rcases List.mem_map.1 row_mem with ⟨ranked, ranked_mem, rfl⟩
      have joined := mem_perHunk.1 (ranking.mem ranked ranked_mem)
      exact ⟨joined.1, _, joined.2, rfl⟩
    · rintro ⟨matching, file, file_mem, same_file⟩
      have joined : (row, file.2) ∈
          perHunk (db.withContents contents) language sinceUnix matched :=
        mem_perHunk.2 ⟨matching, same_file ▸ file_mem⟩
      rcases List.mem_map.1 (ranking.keys _ joined) with ⟨ranked, ranked_mem, same_id⟩
      have ranked_joined := (mem_matching.1 (mem_perHunk.1 (ranking.mem _ ranked_mem)).1).1
      have row_joined := (mem_matching.1 matching).1
      rw [show ranked.1.hunkId = row.hunkId from same_id, row_joined] at ranked_joined
      injection ranked_joined with same_row
      exact same_row ▸ List.mem_map_of_mem ranked_mem
  attained row row_mem := (mem_perHunk.1 (ranking.mem row row_mem)).2
  best row row_mem file file_mem same_file := by
    have joined : (row.1, file.2) ∈
        perHunk (db.withContents contents) language sinceUnix matched :=
      mem_perHunk.2 ⟨(mem_perHunk.1 (ranking.mem row row_mem)).1, same_file ▸ file_mem⟩
    exact ranking.best row row_mem _ joined rfl
  sorted := ranking.sorted

omit [LinearOrder K] in
theorem collect_eq {k : Nat} {out hits : List (HunkHit K)} {rows : List (LaneRow × K)}
    (read : List.Forall₂ (fun (row : LaneRow × K) hit =>
      rowToHit row.1 (Hunk.bm25Similarity row.2) = .ok hit) rows hits)
    (room : out.length < k) (fresh : ((out ++ hits).map HunkHit.hunkId).Nodup) :
    collect k out rows = .ok (out ++ hits.take (k - out.length)) := by
  induction read generalizing out with
  | nil => simp [collect]
  | @cons row hit rows hits read_row _ ih =>
      have new : hit.hunkId ∉ out.map HunkHit.hunkId := by
        rw [List.map_append, List.nodup_append] at fresh
        intro seen
        exact fresh.2.2 _ seen _ (by simp) rfl
      rw [collect, read_row, Fallible.ok_bind, if_neg new]
      by_cases full : (out ++ [hit]).length = k
      · rw [if_pos full]
        have one_left : k - out.length = 1 := by
          rw [List.length_append, List.length_singleton] at full
          omega
        rw [one_left]
        rfl
      · rw [if_neg full]
        rw [List.length_append, List.length_singleton] at full
        have more : k - out.length = k - (out ++ [hit]).length + 1 := by
          rw [List.length_append, List.length_singleton]
          omega
        rw [ih (by simp; omega) (by simpa using fresh), more, List.take_succ_cons]
        simp

omit [LinearOrder K] in
/-- The oversampled cut is cut again by the loop. -/
theorem collect_take (k : UInt8) {reference : List (LaneRow × K)} {found : List (Nat × K)}
    (filtered : ∀ row ∈ reference,
      row ∈ filteredRows (db.withContents contents) language sinceUnix found)
    (distinct : (reference.map fun row => row.1.hunkId).Nodup) :
    collect k.toNat [] (reference.take (k.toNat * symbolLaneOversample)) =
      (reference.take k.toNat).mapM fun row => rowToHit row.1 (Hunk.bm25Similarity row.2) := by
  rcases rows_defined reference filtered (Hunk.bm25Similarity (K := K)) with ⟨hits, read⟩
  rw [Fallible.mapM_eq_ok] at read
  have read_front : ∀ n, List.Forall₂ (fun (row : LaneRow × K) hit =>
      rowToHit row.1 (Hunk.bm25Similarity row.2) = .ok hit) (reference.take n) (hits.take n) :=
    fun n => List.forall₂_take n read
  have fresh : ∀ n, ((hits.take n).map HunkHit.hunkId).Nodup := by
    intro n
    have distinct_front := (((List.take_sublist n reference).map _).nodup distinct).map
      (Nat.cast_injective (R := Int))
    rw [List.map_map] at distinct_front
    rwa [map_hunkId_of_read (read_front n)]
  rw [Fallible.mapM_eq_ok.2 (read_front k.toNat)]
  rcases Nat.eq_zero_or_pos k.toNat with none_asked | some_asked
  · rw [none_asked]
    simp [collect]
  · rw [collect_eq (read_front _) some_asked (by simpa using fresh _), List.nil_append,
      List.length_nil, Nat.sub_zero, List.take_take, symbolLaneOversample]
    congr 2
    omega

/-- The symbol-name lane returns the front of the reference. -/
theorem bm25ByName_eq_reference (u : Unicode) (sorter : Sorter) (fts : FtsIndex FtsSymbolNameRow K)
    (db : Database) (contents : IndexContents) (query : String) (k : UInt8)
    (language : Option String) (sinceUnix : Option Int) (matched : List (FtsSymbolNameRow × K))
    (answered : fts (sanitizeFts5Query u query) (db.withContents contents).ftsSymbolName =
      .ok matched) :
    ∃ reference hits,
      Reference (db.withContents contents) language sinceUnix matched reference ∧
      (reference.take k.toNat).mapM (fun row => rowToHit row.1 (Hunk.bm25Similarity row.2)) =
        .ok hits ∧
      bm25ByName u sorter fts (db.withContents contents) query k language sinceUnix = .ok hits ∧
      hits.length = min k.toNat reference.length := by
  have ranking := ranking_rowNumberOne sorter
    (perHunk (db.withContents contents) language sinceUnix matched)
  have collected := collect_take k ranking.mem ranking.nodup
  rcases rows_defined _ (fun row row_mem => ranking.mem row (List.mem_of_mem_take row_mem))
    (Hunk.bm25Similarity (K := K)) with ⟨hits, read⟩
  refine ⟨_, hits, reference_of_ranking ranking, read, ?_, ?_⟩
  · rw [bm25ByName, answered, Fallible.ok_bind, ← read]
    exact collected
  · rw [← (Fallible.mapM_eq_ok.1 read).length_eq, List.length_take]

/-- Two languages again: two hunks and two symbols of the Rust file, one of each of the Python
file. -/
def threeSymbols : IndexContents :=
    { Hunk.twoLanguages [] [] with
      hunks := [Hunk.storedHunk 1 1 Hunk.zeroVector [], Hunk.storedHunk 2 2 Hunk.unitVector [],
        Hunk.storedHunk 3 1 Hunk.unitVector []]
      hunk_ids_nodup := by simp [Hunk.storedHunk]
      hunk_commit := by simp [Hunk.storedHunk, Hunk.twoLanguages, CommitRecord.sha]
      hunk_path := by simp [Hunk.storedHunk, Hunk.twoLanguages]
      symbols := [⟨1, 1, ⟨"a.rs", "rust", .function, "retry", none, [], 0, 9, "b", "fn retry"⟩⟩,
        ⟨2, 1, ⟨"a.rs", "rust", .function, "retry_now", none, [], 9, 20, "b", "fn retry_now"⟩⟩,
        ⟨3, 2, ⟨"b.py", "python", .function, "retry", none, [], 0, 9, "b", "def retry"⟩⟩]
      symbol_ids_nodup := by simp
      symbol_path := by simp [Hunk.twoLanguages] }

/-- The Rust file has the worst match and the best. -/
def threeMatches : List (FtsSymbolNameRow × ℚ) :=
    [(⟨1, "function", "retry", "[]"⟩, -1), (⟨3, "function", "retry", "[]"⟩, -2),
      (⟨2, "function", "retry_now", "[]"⟩, -3)]

theorem bm25ByName_eq_reference_best_symbol : ∃ reference hits,
    Reference (Database.empty.withContents threeSymbols) none none threeMatches reference ∧
    bm25ByName Unicode.ascii Sorter.stable (fun _ _ => .ok threeMatches)
      (Database.empty.withContents threeSymbols) "retry" 2 none none = .ok hits ∧
    hits.length = min 2 reference.length ∧ hits.map HunkHit.hunkId = [1, 3] := by
  have shown : (bm25ByName Unicode.ascii Sorter.stable (fun _ _ => .ok threeMatches)
      (Database.empty.withContents threeSymbols) "retry" 2 none none).toOption.map
        (fun hits => hits.map HunkHit.hunkId) = some [1, 3] := by decide +kernel
  rcases bm25ByName_eq_reference Unicode.ascii Sorter.stable (fun _ _ => .ok threeMatches)
      Database.empty threeSymbols "retry" 2 none none threeMatches rfl with
    ⟨reference, hits, spec, -, result, length⟩
  refine ⟨reference, hits, spec, result, length, ?_⟩
  simpa [result, Except.toOption] using shown

end Symbol

/-! ## Similarities -/

/-- The lanes that rank by `bm25`, with what FTS5 answers them. -/
inductive Bm25Lane (K : Type) where
  | text (fts : FtsIndex FtsHunkRow K)
  | semanticText (fts : FtsIndex FtsHunkRow K)
  | symbolName (fts : FtsIndex FtsSymbolNameRow K)

namespace Bm25Lane

/-- The lane as the storage layer runs it. -/
def search (lane : Bm25Lane K) (u : Unicode) (sorter : Sorter) (db : Database) (query : String)
    (k : UInt8) (language : Option String) (sinceUnix : Option Int) :
    Except OhraError (List (HunkHit K)) :=
    match lane with
    | text fts => Hunk.bm25ByText u sorter fts db query k language sinceUnix
    | semanticText fts => Hunk.bm25BySemanticText u sorter fts db query k language sinceUnix
    | symbolName fts => Symbol.bm25ByName u sorter fts db query k language sinceUnix

/-- The rows of a lane's hits in the order of its statement, with the raw ranks of FTS5. -/
def delivered (lane : Bm25Lane K) (u : Unicode) (sorter : Sorter) (db : Database) (query : String)
    (k : UInt8) (language : Option String) (sinceUnix : Option Int) :
    Except OhraError (List (LaneRow × K)) :=
    match lane with
    | text fts => do
        let matched ← fts (sanitizeFts5Query u query) db.ftsHunkText
        return Hunk.bm25Rows sorter db k language sinceUnix matched
    | semanticText fts => do
        let matched ← fts (sanitizeFts5Query u query) db.ftsHunkSemantic
        return Hunk.bm25Rows sorter db k language sinceUnix matched
    | symbolName fts => do
        let matched ← fts (sanitizeFts5Query u query) db.ftsSymbolName
        return (Symbol.bm25Rows sorter db k language sinceUnix matched).take k.toNat

variable {u : Unicode} {sorter : Sorter} {query : String} {k : UInt8}

theorem search_eq (lane : Bm25Lane K) :
    lane.search u sorter (db.withContents contents) query k language sinceUnix =
      (lane.delivered u sorter (db.withContents contents) query k language sinceUnix >>=
        fun rows => rows.mapM fun row => rowToHit row.1 (Hunk.bm25Similarity row.2)) := by
  cases lane with
  | text fts =>
      rw [search, delivered, Hunk.bm25ByText]
      cases fts (sanitizeFts5Query u query) (db.withContents contents).ftsHunkText <;> rfl
  | semanticText fts =>
      rw [search, delivered, Hunk.bm25BySemanticText]
      cases fts (sanitizeFts5Query u query) (db.withContents contents).ftsHunkSemantic <;> rfl
  | symbolName fts =>
      rw [search, delivered, Symbol.bm25ByName]
      cases fts (sanitizeFts5Query u query) (db.withContents contents).ftsSymbolName with
      | error e => rfl
      | ok matched =>
          have ranking := Symbol.ranking_rowNumberOne sorter
            (Symbol.perHunk (db.withContents contents) language sinceUnix matched)
          have collected := Symbol.collect_take k ranking.mem ranking.nodup
          rw [Fallible.ok_bind, Fallible.ok_bind, Fallible.pure_eq_ok, Fallible.ok_bind,
            Symbol.bm25Rows, collected, List.take_take, Symbol.symbolLaneOversample]
          congr 2
          omega

omit [Field K] in
theorem delivered_sorted {lane : Bm25Lane K} {rows : List (LaneRow × K)}
    (returned : lane.delivered u sorter db query k language sinceUnix = .ok rows) :
    rows.Pairwise fun a b => a.2 ≤ b.2 := by
  have front : ∀ n (found : List (LaneRow × K)),
      ((sorter.orderBy Prod.snd found).take n).Pairwise fun a b => a.2 ≤ b.2 :=
    fun n found => (sorter.sorted Prod.snd found).sublist (List.take_sublist n _)
  cases lane with
  | text fts =>
      rcases Fallible.bind_eq_ok.1 returned with ⟨matched, -, result⟩
      cases result
      exact front _ _
  | semanticText fts =>
      rcases Fallible.bind_eq_ok.1 returned with ⟨matched, -, result⟩
      cases result
      exact front _ _
  | symbolName fts =>
      rcases Fallible.bind_eq_ok.1 returned with ⟨matched, -, result⟩
      cases result
      exact (front _ _).sublist (List.take_sublist _ _)

/-- The better of two matches gets the smaller similarity. -/
theorem bm25Similarity_lt [IsStrictOrderedRing K] {r s : K} (better : r < s) (rank : s ≤ 0) :
    Hunk.bm25Similarity r < Hunk.bm25Similarity s := by
  apply one_div_lt_one_div_of_lt
  · linarith
  · linarith

omit [Field K] in
theorem delivered_before {lane : Bm25Lane K} {rows : List (LaneRow × K)}
    (returned : lane.delivered u sorter db query k language sinceUnix = .ok rows) {i j : Nat}
    {a b : LaneRow × K} (at_i : rows[i]? = some a) (at_j : rows[j]? = some b)
    (better : a.2 < b.2) : i < j := by
  have sorted := delivered_sorted returned
  rw [List.pairwise_iff_getElem] at sorted
  rcases List.getElem?_eq_some_iff.1 at_i with ⟨i_lt, rfl⟩
  rcases List.getElem?_eq_some_iff.1 at_j with ⟨j_lt, rfl⟩
  rcases Nat.lt_trichotomy i j with before | same | after
  · exact before
  · subst same
    exact absurd better (lt_irrefl _)
  · exact absurd better (not_lt.2 (sorted j i j_lt i_lt after))

/-- The similarity of a better match is never greater, so sorting by similarity does not give the
order of the statement back. -/
theorem bm25_similarity_inverted (lane : Bm25Lane ℚ) (u : Unicode) (sorter : Sorter)
    (db : Database) (contents : IndexContents) (query : String) (k : UInt8)
    (language : Option String) (sinceUnix : Option Int) (rows : List (LaneRow × ℚ))
    (hits : List (HunkHit ℚ))
    (returned : lane.delivered u sorter (db.withContents contents) query k language sinceUnix =
      .ok rows)
    (found : lane.search u sorter (db.withContents contents) query k language sinceUnix =
      .ok hits)
    (a b : (LaneRow × ℚ) × HunkHit ℚ) (a_mem : a ∈ rows.zip hits) (b_mem : b ∈ rows.zip hits)
    (better : a.1.2 < b.1.2) (rank : b.1.2 ≤ 0) :
    ¬b.2.similarity < a.2.similarity ∧
      resort (hits.map fun hit => (hit, hit.similarity)) ≠ hits := by
  have read : List.Forall₂ (fun (row : LaneRow × ℚ) hit =>
      rowToHit row.1 (Hunk.bm25Similarity row.2) = .ok hit) rows hits := by
    rw [search_eq, returned, Fallible.ok_bind] at found
    exact Fallible.mapM_eq_ok.1 found
  have similarity_eq : ∀ pair ∈ rows.zip hits,
      pair.2.similarity = Hunk.bm25Similarity pair.1.2 := by
    intro pair pair_mem
    exact (rowToHit_eq_ok ((List.forall₂_iff_zip.1 read).2 pair_mem)).2
  have inverted : a.2.similarity < b.2.similarity := by
    rw [similarity_eq a a_mem, similarity_eq b b_mem]
    exact bm25Similarity_lt better rank
  refine ⟨lt_asymm inverted, ?_⟩
  intro reproduced
  have falling : (resort (hits.map fun hit => (hit, hit.similarity))).Pairwise
      fun a b => b.similarity ≤ a.similarity := resort_sorted (by simp)
  rw [reproduced, List.pairwise_iff_getElem] at falling
  rcases List.getElem?_of_mem a_mem with ⟨i, at_i⟩
  rcases List.getElem?_of_mem b_mem with ⟨j, at_j⟩
  rw [List.getElem?_zip_eq_some] at at_i at_j
  have before := delivered_before returned at_i.1 at_j.1 better
  rcases List.getElem?_eq_some_iff.1 at_i.2 with ⟨i_lt, hit_i⟩
  rcases List.getElem?_eq_some_iff.1 at_j.2 with ⟨j_lt, hit_j⟩
  have falls := falling i j i_lt j_lt before
  rw [hit_i, hit_j] at falls
  exact absurd inverted (not_lt.2 falls)

/-- A text lane whose query matches two hunks, the first one better. -/
def twoMatches : Bm25Lane ℚ :=
    text fun _ _ => .ok [(⟨1, "+x"⟩, -2), (⟨2, "+x"⟩, -1)]

/-- The row of a hunk of `Hunk.twoLanguages`. -/
def matchedRow (id : Nat) (path language : String) : LaneRow where
  hunk := (Hunk.storedHunk id id Hunk.zeroVector []).row
  filePath := ⟨id, path, some language⟩
  commit := ⟨"c1", none, false, 1, none, "m", ""⟩

/-- A hit of one of the two files. -/
def matchedHit (id : Nat) (path language : String) (similarity : ℚ) : HunkHit ℚ where
  hunkId := id
  hunk := ⟨"c1", path, some language, .added, "+x"⟩
  commitMeta := ⟨"c1", none, false, none, 1, "m"⟩
  similarity := similarity

theorem delivered_twoMatches : twoMatches.delivered Unicode.ascii Sorter.stable
    (Database.empty.withContents (Hunk.twoLanguages [] [])) "x" 5 none none =
      .ok [(matchedRow 1 "a.rs" "rust", -2), (matchedRow 2 "b.py" "python", -1)] := by
  rfl

theorem search_twoMatches : twoMatches.search Unicode.ascii Sorter.stable
    (Database.empty.withContents (Hunk.twoLanguages [] [])) "x" 5 none none =
      .ok [matchedHit 1 "a.rs" "rust" (1 / 3), matchedHit 2 "b.py" "python" (1 / 2)] := by
  have third : Hunk.bm25Similarity (-2 : ℚ) = 1 / 3 := by norm_num [Hunk.bm25Similarity]
  have half : Hunk.bm25Similarity (-1 : ℚ) = 1 / 2 := by norm_num [Hunk.bm25Similarity]
  rw [search_eq, delivered_twoMatches, Fallible.ok_bind, Fallible.mapM_eq_ok, ← third, ← half]
  exact .cons rfl (.cons rfl .nil)

theorem bm25_similarity_inverted_two_matches :
    resort ([matchedHit 1 "a.rs" "rust" (1 / 3), matchedHit 2 "b.py" "python" (1 / 2)].map
      fun hit => (hit, hit.similarity)) ≠
        [matchedHit 1 "a.rs" "rust" (1 / 3), matchedHit 2 "b.py" "python" (1 / 2)] :=
  (bm25_similarity_inverted twoMatches Unicode.ascii Sorter.stable Database.empty
    (Hunk.twoLanguages [] []) "x" 5 none none _ _ delivered_twoMatches search_twoMatches
    ((matchedRow 1 "a.rs" "rust", -2), matchedHit 1 "a.rs" "rust" (1 / 3))
    ((matchedRow 2 "b.py" "python", -1), matchedHit 2 "b.py" "python" (1 / 2))
    (by simp) (by simp) (by norm_num) (by norm_num)).2

/-- The hit of rank `-2` has a similarity of a third, the one of rank `-1` a half. -/
theorem not_bm25_similarity_higher :
    ¬∀ (lane : Bm25Lane ℚ) (contents : IndexContents) (query : String) (k : UInt8)
      (rows : List (LaneRow × ℚ)) (hits : List (HunkHit ℚ)),
      lane.delivered Unicode.ascii Sorter.stable (Database.empty.withContents contents) query k
        none none = .ok rows →
      lane.search Unicode.ascii Sorter.stable (Database.empty.withContents contents) query k
        none none = .ok hits →
      ∀ a ∈ rows.zip hits, ∀ b ∈ rows.zip hits, a.1.2 < b.1.2 → b.1.2 ≤ 0 →
        b.2.similarity < a.2.similarity := by
  intro always
  have higher := always twoMatches (Hunk.twoLanguages [] []) "x" 5 _ _ delivered_twoMatches
    search_twoMatches ((matchedRow 1 "a.rs" "rust", -2), matchedHit 1 "a.rs" "rust" (1 / 3))
    (by simp) ((matchedRow 2 "b.py" "python", -1), matchedHit 2 "b.py" "python" (1 / 2))
    (by simp) (by norm_num) (by norm_num)
  norm_num [matchedHit] at higher

end Bm25Lane

end Ohara
