import Ohara.Retriever.FindPattern
import Ohara.Retriever.Pipeline
import Ohara.Storage.LaneCuts

/-!
# What `find_pattern` answers

Every hit shows one row of the database: a hunk with its path and its commit, which passes the
filters of an enabled lane that finds it. The rows are distinct, and the hydration never fails.
-/

namespace Ohara

namespace FindPattern

open Retriever QueryUnderstanding Selection

variable {K : Type} [Field K] [LinearOrder K]

/-! ## Lanes -/

/-- What the index of a lane has on the row. -/
def Backend.Finds (backend : Backend K) (query : PatternQuery) (row : LaneRow) : LaneId → Prop
  | .vec => ∃ embs qEmb k, backend.embedBatch [query.query] = .ok embs ∧
      embs.getLast? = some qEmb ∧ row.hunkId ∈
        (Hunk.nearest backend.vec0 backend.distance backend.db qEmb k).map Prod.fst
  | .bm25Text => ∃ matched, backend.ftsHunks (sanitizeFts5Query backend.unicode query.query)
        backend.db.ftsHunkText = .ok matched ∧ ∃ found ∈ matched, found.1.hunkId = row.hunkId
  | .bm25SemText => ∃ matched, backend.ftsHunks (sanitizeFts5Query backend.unicode query.query)
        backend.db.ftsHunkSemantic = .ok matched ∧ ∃ found ∈ matched, found.1.hunkId = row.hunkId
  | .bm25HistSym => ∃ symbol ∈ backend.db.hunkSymbol,
      isCandidate backend.unicode query.query symbol = true ∧ symbol.hunkId = row.hunkId
  | .bm25HeadSym => ∃ matched, backend.ftsSymbols (sanitizeFts5Query backend.unicode query.query)
        backend.db.ftsSymbolName = .ok matched ∧
      ∃ file ∈ Symbol.perSymbol backend.db matched, ∃ hunk ∈ backend.db.hunk,
        hunk.filePathId = file.1 ∧ hunk.id = row.hunkId

/-- A hit that a lane reads off a row. -/
structure Reads (db : Database) (language : Option String) (sinceUnix : Option Int)
    (found : LaneRow → Prop) (hit : HunkHit K) (row : LaneRow) : Prop where
  joined : db.joinHunk row.hunkId = some row
  passes : passes language sinceUnix row = true
  found : found row
  read : ∃ similarity, rowToHit row similarity = .ok hit

section Reading

variable {db : Database} {language : Option String} {sinceUnix : Option Int} {γ : Type}

omit [Field K] [LinearOrder K] in
/-- Rows that were filtered, sorted, cut and read. -/
theorem reads_of_row {found : List (Nat × γ)} {row : LaneRow × γ}
    (row_mem : row ∈ filteredRows db language sinceUnix found) {similarity : K} {hit : HunkHit K}
    (read : rowToHit row.1 similarity = .ok hit) {p : LaneRow → Prop}
    (finds : (row.1.hunkId, row.2) ∈ found → p row.1) :
    Reads db language sinceUnix p hit row.1 := by
  rcases mem_filteredRows.1 row_mem with ⟨joined_mem, passing⟩
  rcases mem_joinRows.1 joined_mem with ⟨found_mem, joined⟩
  exact ⟨joined, passing, finds found_mem, similarity, read⟩

omit [Field K] [LinearOrder K] in
theorem exists_row_of_mapM {rows : List (LaneRow × γ)} {similarity : γ → K}
    {hits : List (HunkHit K)}
    (read : rows.mapM (fun row => rowToHit row.1 (similarity row.2)) = .ok hits)
    {hit : HunkHit K} (hit_mem : hit ∈ hits) :
    ∃ row ∈ rows, rowToHit row.1 (similarity row.2) = .ok hit := by
  have paired := Fallible.mapM_eq_ok.1 read
  clear read
  induction paired with
  | nil => cases hit_mem
  | @cons row first rows hits read_row _ ih =>
      rcases List.mem_cons.1 hit_mem with rfl | later
      · exact ⟨row, by simp, read_row⟩
      · rcases ih later with ⟨other, other_mem, read_other⟩
        exact ⟨other, by simp [other_mem], read_other⟩

omit [LinearOrder K] in
theorem exists_row_of_collect {k : Nat} {out hits : List (HunkHit K)}
    {rows : List (LaneRow × K)} (collected : Symbol.collect k out rows = .ok hits)
    {hit : HunkHit K} (hit_mem : hit ∈ hits) :
    hit ∈ out ∨ ∃ row ∈ rows, rowToHit row.1 (Hunk.bm25Similarity row.2) = .ok hit := by
  induction rows generalizing out with
  | nil =>
      cases collected
      exact Or.inl hit_mem
  | cons row rest ih =>
      rcases Fallible.bind_eq_ok.1 collected with ⟨first, read_row, after⟩
      have later : ∀ {out' : List (HunkHit K)}, Symbol.collect k out' rest = .ok hits →
          (hit ∈ out' → hit ∈ out ∨ hit = first) →
          hit ∈ out ∨ ∃ row' ∈ row :: rest,
            rowToHit row'.1 (Hunk.bm25Similarity row'.2) = .ok hit := by
        intro out' collected' known
        rcases ih collected' with before | ⟨row', row'_mem, read'⟩
        · rcases known before with old | rfl
          · exact Or.inl old
          · exact Or.inr ⟨row, by simp, read_row⟩
        · exact Or.inr ⟨row', by simp [row'_mem], read'⟩
      split at after
      · exact later after Or.inl
      · split at after
        · cases after
          rcases List.mem_append.1 hit_mem with old | new
          · exact Or.inl old
          · rw [List.mem_singleton.1 new]
            exact Or.inr ⟨row, by simp, read_row⟩
        · exact later after (by simp)

end Reading

section Lanes

variable {backend : Backend K} {clock : LaneId → Int} {query : PatternQuery} {repoId : RepoId}
  {k : Nat} {hits : List (HunkHit K)} {hit : HunkHit K}

omit [LinearOrder K] in
theorem gated_eq_ok {id : LaneId} {now : Int}
    {search : String → UInt8 → Option String → Option Int → Except OhraError (List (HunkHit K))}
    (found : backend.gated id now search query repoId k = .ok hits) (hit_mem : hit ∈ hits) :
    (profileOf K backend.unicode now query).isLaneEnabled id = true ∧
      search query.query (storageK k) query.language
        (sinceUnix backend.unicode now query) = .ok hits := by
  unfold Backend.gated at found
  split at found
  · exact ⟨‹_›, found⟩
  · cases found
    cases hit_mem

theorem vec_reads {now : Int} (found : backend.vecLane now query repoId k = .ok hits)
    (hit_mem : hit ∈ hits) :
    (profileOf K backend.unicode now query).isLaneEnabled .vec = true ∧
      ∃ row, Reads backend.db query.language (sinceUnix backend.unicode now query)
        (fun row => backend.Finds query row .vec) hit row := by
  rcases gated_eq_ok found hit_mem with ⟨enabled, searched⟩
  refine ⟨enabled, ?_⟩
  rcases Fallible.bind_eq_ok.1 searched with ⟨embs, embedded, nearest⟩
  split at nearest
  · rename_i qEmb last
    let similarity : K → K := fun away => 1 / (1 + away)
    have rows_read : (backend.sorter.orderBy Prod.snd (filteredRows backend.db query.language
        (sinceUnix backend.unicode now query) (Hunk.nearest backend.vec0 backend.distance
          backend.db qEmb (storageK k)))).mapM
        (fun row => rowToHit row.1 (similarity row.2)) = .ok hits := nearest
    rcases exists_row_of_mapM rows_read hit_mem with ⟨row, row_mem, read⟩
    have filtered := ((backend.sorter.perm _ _).mem_iff).1 row_mem
    refine ⟨row.1, reads_of_row filtered read fun found_mem => ?_⟩
    exact ⟨embs, qEmb, _, embedded, last, List.mem_map_of_mem found_mem⟩
  · cases nearest

/-- The two lanes over the texts of hunks. -/
theorem bm25_reads {table : List FtsHunkRow} {text : String} {k : UInt8}
    {language : Option String} {since : Option Int} {matched : List (FtsHunkRow × K)}
    (matches_eq : backend.ftsHunks text table = .ok matched)
    (read : (Hunk.bm25Rows backend.sorter backend.db k language since matched).mapM
      (fun row => rowToHit row.1 (Hunk.bm25Similarity row.2)) = .ok hits)
    (hit_mem : hit ∈ hits) :
    ∃ row, Reads backend.db language since
      (fun row => ∃ matched, backend.ftsHunks text table = .ok matched ∧
        ∃ found ∈ matched, found.1.hunkId = row.hunkId) hit row := by
  rcases exists_row_of_mapM read hit_mem with ⟨row, row_mem, read_row⟩
  have filtered := ((backend.sorter.perm _ _).mem_iff).1 (List.mem_of_mem_take row_mem)
  refine ⟨row.1, reads_of_row filtered read_row fun found_mem => ?_⟩
  rcases List.mem_map.1 found_mem with ⟨found, found_matched, same⟩
  exact ⟨matched, matches_eq, found, found_matched, congrArg Prod.fst same⟩

theorem text_reads {now : Int} (found : backend.bm25TextLane now query repoId k = .ok hits)
    (hit_mem : hit ∈ hits) :
    (profileOf K backend.unicode now query).isLaneEnabled .bm25Text = true ∧
      ∃ row, Reads backend.db query.language (sinceUnix backend.unicode now query)
        (fun row => backend.Finds query row .bm25Text) hit row := by
  rcases gated_eq_ok found hit_mem with ⟨enabled, searched⟩
  rcases Fallible.bind_eq_ok.1 searched with ⟨matched, matches_eq, read⟩
  exact ⟨enabled, bm25_reads matches_eq read hit_mem⟩

theorem semText_reads {now : Int} (found : backend.bm25SemTextLane now query repoId k = .ok hits)
    (hit_mem : hit ∈ hits) :
    (profileOf K backend.unicode now query).isLaneEnabled .bm25SemText = true ∧
      ∃ row, Reads backend.db query.language (sinceUnix backend.unicode now query)
        (fun row => backend.Finds query row .bm25SemText) hit row := by
  rcases gated_eq_ok found hit_mem with ⟨enabled, searched⟩
  rcases Fallible.bind_eq_ok.1 searched with ⟨matched, matches_eq, read⟩
  exact ⟨enabled, bm25_reads matches_eq read hit_mem⟩

theorem histSym_reads {now : Int} (found : backend.bm25HistSymLane now query repoId k = .ok hits)
    (hit_mem : hit ∈ hits) :
    (profileOf K backend.unicode now query).isLaneEnabled .bm25HistSym = true ∧
      ∃ row, Reads backend.db query.language (sinceUnix backend.unicode now query)
        (fun row => backend.Finds query row .bm25HistSym) hit row := by
  rcases gated_eq_ok found hit_mem with ⟨enabled, searched⟩
  refine ⟨enabled, ?_⟩
  rcases Fallible.bind_eq_ok.1 searched with ⟨all, read, deduplicated⟩
  cases deduplicated
  rcases exists_row_of_mapM read (mem_of_mem_firsts hit_mem) with ⟨row, row_mem, read_row⟩
  have filtered := ((backend.sorter.perm _ _).mem_iff).1 (List.mem_of_mem_take row_mem)
  refine ⟨row.1, reads_of_row filtered read_row fun found_mem => ?_⟩
  rcases List.mem_map.1 found_mem with ⟨symbol, symbol_mem, same⟩
  rcases List.mem_filter.1 symbol_mem with ⟨stored, candidate⟩
  exact ⟨symbol, stored, candidate, congrArg Prod.fst same⟩

theorem headSym_reads {now : Int} (found : backend.bm25HeadSymLane now query repoId k = .ok hits)
    (hit_mem : hit ∈ hits) :
    (profileOf K backend.unicode now query).isLaneEnabled .bm25HeadSym = true ∧
      ∃ row, Reads backend.db query.language (sinceUnix backend.unicode now query)
        (fun row => backend.Finds query row .bm25HeadSym) hit row := by
  rcases gated_eq_ok found hit_mem with ⟨enabled, searched⟩
  refine ⟨enabled, ?_⟩
  rcases Fallible.bind_eq_ok.1 searched with ⟨matched, matches_eq, collected⟩
  rcases exists_row_of_collect collected hit_mem with nothing | ⟨row, row_mem, read_row⟩
  · cases nothing
  · have numbered := ((backend.sorter.perm _ _).mem_iff).1 (List.mem_of_mem_take row_mem)
    have filtered := ((backend.sorter.perm _ _).mem_iff).1 (mem_of_mem_firsts numbered)
    refine ⟨row.1, reads_of_row filtered read_row fun found_mem => ?_⟩
    rcases List.mem_flatMap.1 found_mem with ⟨file, file_mem, found_file⟩
    rcases List.mem_map.1 found_file with ⟨hunk, hunk_mem, same⟩
    rcases List.mem_filter.1 hunk_mem with ⟨stored, in_file⟩
    exact ⟨matched, matches_eq, file, file_mem, hunk, stored, of_decide_eq_true in_file,
      congrArg Prod.fst same⟩

/-- Whatever a lane returns it reads off the rows that its index finds and its filters pass. -/
theorem lane_reads {id : LaneId} (found : backend.lane clock id query repoId k = .ok hits)
    (hit_mem : hit ∈ hits) :
    (profileOf K backend.unicode (clock id) query).isLaneEnabled id = true ∧
      ∃ row, Reads backend.db query.language (sinceUnix backend.unicode (clock id) query)
        (fun row => backend.Finds query row id) hit row := by
  cases id with
  | vec => exact vec_reads found hit_mem
  | bm25Text => exact text_reads found hit_mem
  | bm25SemText => exact semText_reads found hit_mem
  | bm25HistSym => exact histSym_reads found hit_mem
  | bm25HeadSym => exact headSym_reads found hit_mem

end Lanes

/-! ## What a hit shows -/

/-- The names of the symbols of a hunk, those with the surest attribution first. -/
def SymbolsOf (db : Database) (hunkId : Nat) (names : List String) : Prop :=
    ∃ symbols : List HunkSymbolRow,
      symbols.Perm (db.hunkSymbol.filter fun symbol => decide (symbol.hunkId = hunkId)) ∧
      symbols.Pairwise (fun a b => HunkSymbol.readRank a ≤ HunkSymbol.readRank b) ∧
      names = symbols.map HunkSymbolRow.symbolName

/-- The hit shows the row. -/
structure Shows (rfc3339 : Hydrator.DateFormat) (db : Database) (hit : PatternHit K)
    (row : LaneRow) : Prop where
  commitSha : hit.commitSha = row.hunk.commitSha
  commit : (hit.commitMessage, hit.commitAuthor, hit.commitDate) =
    (row.commit.message, row.commit.author, rfc3339 row.commit.ts)
  filePath : hit.filePath = row.filePath.path
  changeKind : hit.changeKind = row.hunk.changeKind
  excerpt : (hit.diffExcerpt, hit.diffTruncated) =
    truncateDiff row.hunk.diffText diffExcerptMaxLines
  symbols : SymbolsOf db row.hunkId hit.relatedHeadSymbols

theorem changeKindText_of_read {s : String} {kind : ChangeKind}
    (read : strToChangeKind s = .ok kind) : changeKindText kind = s := by
  unfold strToChangeKind at read
  split_ifs at read with added modified deleted renamed
  · cases read
    exact added.symm
  · cases read
    exact modified.symm
  · cases read
    exact deleted.symm
  · cases read
    exact renamed.symm

theorem symbolsOf_rowsOf (sorter : Sorter) (db : Database) {hunkIds : List Int} {hunkId : Nat}
    (requested : (hunkId : Int) ∈ hunkIds) :
    SymbolsOf db hunkId (((HunkSymbol.rowsOf sorter db hunkIds hunkId).map
      HunkSymbolRow.symbol).map HunkSymbol.name) := by
  refine ⟨HunkSymbol.rowsOf sorter db hunkIds hunkId, ?_, HunkSymbol.rowsOf_sorted, ?_⟩
  · apply (HunkSymbol.rowsOf_perm requested).trans
    simpa using sorter.perm HunkSymbol.readRank
      (db.hunkSymbol.filter fun symbol => decide ((symbol.hunkId : Int) = hunkId))
  · rw [List.map_map]
    rfl

/-- The hit was read from the row, and may have been scored again since. -/
def ReadFrom (hit : HunkHit K) (row : LaneRow) : Prop :=
    ∃ (similarity : K) (found : HunkHit K), rowToHit row similarity = .ok found ∧
      hit.payload = found.payload

omit [Field K] [LinearOrder K] in
theorem ReadFrom.fields {hit : HunkHit K} {row : LaneRow} (read : ReadFrom hit row) :
    hit.hunkId = (row.hunkId : Int) ∧
      hit.commitMeta = ⟨row.hunk.commitSha, row.commit.parentSha, row.commit.isMerge,
        row.commit.author, row.commit.ts, row.commit.message⟩ ∧
      ∃ kind, strToChangeKind row.hunk.changeKind = .ok kind ∧
        hit.hunk = ⟨row.hunk.commitSha, row.filePath.path, row.filePath.language, kind,
          row.hunk.diffText⟩ := by
  rcases read with ⟨similarity, found, read, payload⟩
  rcases Fallible.bind_eq_ok.1 read with ⟨kind, kind_read, is_found⟩
  rw [Fallible.pure_eq_ok, Except.ok.injEq] at is_found
  rw [← is_found] at payload
  rcases Prod.ext_iff.1 payload with ⟨same_id, rest⟩
  rcases Prod.ext_iff.1 rest with ⟨same_hunk, same_meta⟩
  exact ⟨same_id, same_meta, kind, kind_read, same_hunk⟩

omit [LinearOrder K] in
/-- A row that a raw hit was read from is shown by the hit that is returned for it. -/
theorem shows_of_readFrom {exp : K → K} {rfc3339 : Hydrator.DateFormat}
    {weights : RankingWeights K} {nowUnix : Int} {sorter : Sorter} {db : Database}
    {hunkIds : List Int} {attrs : Int → Option (List HunkSymbol)}
    (hydrated : ∀ id, attrs id = if id ∈ hunkIds then
      some ((HunkSymbol.rowsOf sorter db hunkIds id).map HunkSymbolRow.symbol) else none)
    {hit : HunkHit K} (requested : hit.hunkId ∈ hunkIds) {row : LaneRow} (read : ReadFrom hit row) :
    Shows rfc3339 db (patternHit exp rfc3339 weights nowUnix attrs hit) row := by
  rcases read.fields with ⟨same_id, same_meta, kind, kind_read, same_hunk⟩
  refine ⟨?_, ?_, ?_, ?_, ?_, ?_⟩
  · simp [patternHit, same_meta]
  · simp [patternHit, same_meta]
  · simp [patternHit, same_hunk]
  · simp [patternHit, same_hunk, changeKindText_of_read kind_read]
  · simp [patternHit, same_hunk]
  · have requested : (row.hunkId : Int) ∈ hunkIds := same_id ▸ requested
    have named := symbolsOf_rowsOf sorter db requested
    simpa [patternHit, symbolNames, same_id, hydrated, requested] using named

/-! ## The answer -/

/-- A row is one that an enabled lane finds and its filters pass. -/
def Backend.Matched (backend : Backend K) (clock : LaneId → Int) (query : PatternQuery)
    (row : LaneRow) : Prop :=
    backend.db.joinHunk row.hunkId = some row ∧ ∃ id,
      (profileOf K backend.unicode (clock id) query).isLaneEnabled id = true ∧
      passes query.language (sinceUnix backend.unicode (clock id) query) row = true ∧
      backend.Finds query row id

/-- What a list of hits owes the rows of the database: each hit shows a row, and as many rows are
shown as the lanes found and the bounds of the query allow. -/
structure Answers (rfc3339 : Hydrator.DateFormat) (backend : Backend K)
    (weights : RankingWeights K) (clock : LaneId → Int) (repoId : RepoId) (query : PatternQuery)
    (hits : List (PatternHit K)) : Prop where
  shown : ∃ rows : List LaneRow, (rows.map LaneRow.hunkId).Nodup ∧
    (∀ row ∈ rows, backend.Matched clock query row) ∧
    List.Forall₂ (Shows rfc3339 backend.db) hits rows
  sorted : hits.Pairwise fun a b => b.combinedScore ≤ a.combinedScore
  length : ∃ lists : List (List (HunkHit K)),
    laneResults (laneIds.map (backend.lane clock)) weights query repoId = lists.map .ok ∧
    hits.length = min (finalK query)
      (min weights.rerankTopK (lists.flatten.map HunkHit.hunkId).dedup.length)

theorem finalK_le (query : PatternQuery) : finalK query ≤ 20 := by
  simp only [finalK]
  omega

section Answer

variable {backend : Backend K} {clock : LaneId → Int} {query : PatternQuery} {repoId : RepoId}
  {weights : RankingWeights K} {lists : List (List (HunkHit K))}

/-- Every hit of a lane shows a row that matches. -/
theorem matched_of_mem_lists (found : laneResults (laneIds.map (backend.lane clock)) weights query
      repoId = lists.map .ok) {hit : HunkHit K} (hit_mem : hit ∈ lists.flatten) :
    ∃ row similarity, backend.Matched clock query row ∧ rowToHit row similarity = .ok hit := by
  rcases List.mem_flatten.1 hit_mem with ⟨hits, hits_mem, hit_mem⟩
  have returned : Except.ok hits ∈ laneResults (laneIds.map (backend.lane clock)) weights query
      repoId := found ▸ List.mem_map_of_mem hits_mem
  rw [laneResults, List.map_map] at returned
  rcases List.mem_map.1 returned with ⟨id, -, searched⟩
  rcases lane_reads searched hit_mem with ⟨enabled, row, reads⟩
  rcases reads.read with ⟨similarity, read⟩
  exact ⟨row, similarity, ⟨reads.joined, id, enabled, reads.passes, reads.found⟩, read⟩

omit [Field K] [LinearOrder K] in
/-- The rows behind hits that were retrieved from the lanes. -/
theorem exists_rows {hits : List (HunkHit K)} {p : HunkHit K → LaneRow → Prop}
    (each : ∀ hit ∈ hits, ∃ row, p hit row) : ∃ rows, List.Forall₂ p hits rows := by
  induction hits with
  | nil => exact ⟨[], .nil⟩
  | cons hit rest ih =>
      rw [List.forall_mem_cons] at each
      rcases each.1 with ⟨row, is_row⟩
      rcases ih each.2 with ⟨rows, are_rows⟩
      exact ⟨row :: rows, .cons is_row are_rows⟩

omit [Field K] [LinearOrder K] in
theorem map_hunkId_of_rows {hits : List (HunkHit K)} {rows : List LaneRow}
    (read : List.Forall₂ (fun hit row => hit.hunkId = ((LaneRow.hunkId row : Nat) : Int)) hits
      rows) :
    hits.map HunkHit.hunkId = (rows.map LaneRow.hunkId).map Nat.cast := by
  induction read with
  | nil => rfl
  | cons same _ ih => rw [List.map_cons, List.map_cons, List.map_cons, ih, same]

/-- The hits of a retrieval were read from distinct rows that match. -/
theorem rows_of_retrieved {exp : K → K} {nowUnix : Int} {finalK : Nat}
    (found : laneResults (laneIds.map (backend.lane clock)) weights query repoId = lists.map .ok)
    {ranked hits : List (HunkHit K)}
    (retrieved : Retrieved exp weights finalK nowUnix lists ranked hits) :
    ∃ rows : List LaneRow, (rows.map LaneRow.hunkId).Nodup ∧
      (∀ row ∈ rows, backend.Matched clock query row) ∧
      List.Forall₂ (fun hit row => hit ∈ hits ∧ ReadFrom hit row) hits rows := by
  have each : ∀ hit ∈ hits, ∃ row, hit.hunkId = (LaneRow.hunkId row : Int) ∧
      backend.Matched clock query row ∧ hit ∈ hits ∧ ReadFrom hit row := by
    intro hit hit_mem
    rcases retrieved.reported hit hit_mem with ⟨lane_hit, lane_hit_mem, payload⟩
    rcases matched_of_mem_lists found lane_hit_mem with ⟨row, similarity, matching, read⟩
    have same_id : hit.hunkId = lane_hit.hunkId := congrArg Prod.fst payload
    refine ⟨row, ?_, matching, hit_mem, similarity, lane_hit, read, payload⟩
    rw [same_id, (rowToHit_eq_ok read).1]
  rcases exists_rows each with ⟨rows, shown⟩
  refine ⟨rows, ?_, ?_, shown.imp fun _ _ all => all.2.2⟩
  · have ids := map_hunkId_of_rows (shown.imp fun _ _ all => all.1)
    exact (ids ▸ retrieved.distinct).of_map Nat.cast
  · intro row row_mem
    rcases List.forall₂_iff_get.1 shown with ⟨-, at_index⟩
    rcases List.mem_iff_get.1 row_mem with ⟨i, rfl⟩
    exact (at_index i (by rw [shown.length_eq]; exact i.2) i.2).2.1

theorem answers_of_retrieved {exp : K → K} {rfc3339 : Hydrator.DateFormat} {nowUnix : Int}
    (found : laneResults (laneIds.map (backend.lane clock)) weights query repoId = lists.map .ok)
    {ranked hits : List (HunkHit K)}
    (retrieved : Retrieved exp weights (finalK query) nowUnix lists ranked hits)
    {attrs : Int → Option (List HunkSymbol)}
    (hydrated : ∀ id, attrs id = if id ∈ hits.map HunkHit.hunkId then
      some ((HunkSymbol.rowsOf backend.sorter backend.db (hits.map HunkHit.hunkId) id).map
        HunkSymbolRow.symbol) else none) :
    Answers rfc3339 backend weights clock repoId query
      (hits.map (patternHit exp rfc3339 weights nowUnix attrs)) := by
  rcases rows_of_retrieved found retrieved with ⟨rows, distinct, matching, read⟩
  refine ⟨⟨rows, distinct, matching, ?_⟩, ?_, ?_⟩
  · rw [List.forall₂_map_left_iff]
    apply read.imp
    rintro hit row ⟨hit_mem, is_read⟩
    exact shows_of_readFrom hydrated (List.mem_map_of_mem hit_mem) is_read
  · rw [List.pairwise_map]
    exact retrieved.sorted
  · refine ⟨lists, found, ?_⟩
    rw [List.length_map]
    exact retrieved.length

/-- A lane that fails is an enabled one. -/
theorem enabled_of_error {id : LaneId} {k : Nat} {e : OhraError}
    (failed : backend.lane clock id query repoId k = .error e) :
    (profileOf K backend.unicode (clock id) query).isLaneEnabled id = true := by
  have gate : ∀ {search : String → UInt8 → Option String → Option Int →
      Except OhraError (List (HunkHit K))},
      backend.gated id (clock id) search query repoId k = .error e →
        (profileOf K backend.unicode (clock id) query).isLaneEnabled id = true := by
    intro search failed
    unfold Backend.gated at failed
    split at failed
    · assumption
    · cases failed
  cases id with
  | vec =>
      unfold Backend.lane Backend.vecLane at failed
      exact gate failed
  | bm25Text => exact gate failed
  | bm25SemText => exact gate failed
  | bm25HistSym => exact gate failed
  | bm25HeadSym => exact gate failed

omit [Field K] [LinearOrder K] in
/-- A gathering fails with the error of a lane. -/
theorem mem_of_gather_error {results : List (Except OhraError (List (HunkHit K)))} {e : OhraError}
    (failed : gather results = .error e) : .error e ∈ results := by
  unfold gather at failed
  generalize ({ byId := [], rankings := [] } : Gathered K) = gathered at failed
  induction results generalizing gathered with
  | nil => cases failed
  | cons result rest ih =>
      rw [List.foldlM_cons] at failed
      rcases Fallible.bind_eq_error.1 failed with stopped | ⟨next, -, later⟩
      · cases result with
        | error first =>
            cases stopped
            exact List.mem_cons_self
        | ok hits => cases stopped
      · exact List.mem_cons_of_mem _ (ih _ later)

/-- A retrieval fails with the error of a lane or of the reranker. -/
theorem run_error {exp : K → K} {lanes : List (Lane K)} {reranker : Option (Reranker K)}
    {finalK : Nat} {nowUnix : Int} {e : OhraError}
    (failed : run exp lanes weights reranker query repoId finalK nowUnix = .error e) :
    .error e ∈ laneResults lanes weights query repoId ∨
      ∃ r ∈ reranker, ∃ candidates, r query.query candidates = .error e := by
  rcases Fallible.bind_eq_error.1 failed with stopped | ⟨gathered, -, after⟩
  · exact Or.inl (mem_of_gather_error stopped)
  · simp only [pure, Except.pure] at after
    split at after
    · cases after
    · rcases Fallible.bind_eq_error.1 after with refused | ⟨ranked, -, returned⟩
      · cases reranker with
        | none => cases refused
        | some r => exact Or.inr ⟨r, rfl, _, (crossEncode_error_iff.1 refused).2⟩
      · cases returned

omit [Field K] [LinearOrder K] in
/-- The hydration has at most as many ids as `final_k`, which a statement can bind. -/
theorem hydrate_defined {hits : List (HunkHit K)} (few : hits.length ≤ finalK query) :
    ∃ attrs, HunkSymbol.getForHunks backend.sorter backend.db (hits.map HunkHit.hunkId) =
        some attrs ∧
      ∀ id, attrs id = if id ∈ hits.map HunkHit.hunkId then
        some ((HunkSymbol.rowsOf backend.sorter backend.db (hits.map HunkHit.hunkId) id).map
          HunkSymbolRow.symbol) else none := by
  apply HunkSymbol.getForHunks_of_within
  have small := finalK_le query
  simp only [List.length_map, HunkSymbol.maxVariableNumber]
  omega

/-- A retrieval returns at most `final_k` hits. -/
theorem length_run_le {exp : K → K} {lanes : List (Lane K)} {reranker : Option (Reranker K)}
    {finalK : Nat} {nowUnix : Int} {rawHits : List (HunkHit K)}
    (ran : run exp lanes weights reranker query repoId finalK nowUnix = .ok rawHits) :
    rawHits.length ≤ finalK := by
  rcases Fallible.bind_eq_ok.1 ran with ⟨gathered, -, after⟩
  simp only [pure, Except.pure] at after
  split at after
  · cases after
    exact Nat.zero_le _
  · rcases Fallible.bind_eq_ok.1 after with ⟨ranked, -, taken⟩
    cases taken
    exact List.length_take_le _ _

/-- What is retrieved is hydrated. -/
theorem findPatternWithProfile_eq {exp : K → K} {rfc3339 : Hydrator.DateFormat}
    {attached : Option (Reranker K)} {nowUnix : Int} {rawHits : List (HunkHit K)}
    {attrs : Int → Option (List HunkSymbol)}
    (ran : run exp (laneIds.map (backend.lane clock))
      ((profileOf K backend.unicode nowUnix query).effectiveWeights weights)
      (selectReranker attached query) query repoId (finalK query) nowUnix = .ok rawHits)
    (got : HunkSymbol.getForHunks backend.sorter backend.db (rawHits.map HunkHit.hunkId) =
      some attrs) :
    findPatternWithProfile exp rfc3339 backend weights attached clock repoId query nowUnix =
      .ok (rawHits.map (patternHit exp rfc3339
        ((profileOf K backend.unicode nowUnix query).effectiveWeights weights) nowUnix attrs),
        profileOf K backend.unicode nowUnix query) := by
  simp only [findPatternWithProfile, ran, Fallible.ok_bind, got]
  cases rawHits with
  | nil => rfl
  | cons hit rest => rfl

/-- A retrieval that returns had hits from every lane. -/
theorem retrieved_of_run {exp : K → K} {reranker : Option (Reranker K)} {nowUnix : Int}
    (oneScore : ∀ r ∈ reranker, ∀ text candidates scores, r text candidates = .ok scores →
      scores.length = candidates.length)
    {finalK : Nat} {rawHits : List (HunkHit K)}
    (ran : run exp (laneIds.map (backend.lane clock)) weights reranker query repoId finalK nowUnix =
      .ok rawHits) :
    ∃ lists ranked,
      laneResults (laneIds.map (backend.lane clock)) weights query repoId = lists.map .ok ∧
      (∃ pool, rerankPool exp reranker query pool = .ok ranked) ∧
      Retrieved exp weights finalK nowUnix lists ranked rawHits := by
  rcases Fallible.all_ok_or_error
    (laneResults (laneIds.map (backend.lane clock)) weights query repoId) with
    ⟨lists, found⟩ | ⟨e, failed⟩
  · rw [run_eq exp _ _ _ found] at ran
    rcases Fallible.bind_eq_ok.1 ran with ⟨ranked, reranked, taken⟩
    cases taken
    exact ⟨lists, ranked, found, ⟨_, reranked⟩,
      retrieved_of_ranked (rerankPool_payloads oneScore reranked)⟩
  · rcases run_of_lane_error exp reranker finalK nowUnix failed with ⟨first, stopped⟩
    cases ran.symm.trans stopped

/-- What is returned answers the query. -/
theorem answers_of_ok {exp : K → K} {rfc3339 : Hydrator.DateFormat}
    {attached : Option (Reranker K)} {nowUnix : Int}
    (oneScore : ∀ r ∈ attached, ∀ text candidates scores, r text candidates = .ok scores →
      scores.length = candidates.length)
    {hits : List (PatternHit K)} {profile : RetrievalProfile K}
    (returned : findPatternWithProfile exp rfc3339 backend weights attached clock repoId query
      nowUnix = .ok (hits, profile)) :
    Answers rfc3339 backend (profile.effectiveWeights weights) clock repoId query hits ∧
      profile = profileOf K backend.unicode nowUnix query := by
  have selected : ∀ r ∈ selectReranker attached query, ∀ text candidates scores,
      r text candidates = .ok scores → scores.length = candidates.length := by
    intro r r_mem
    exact oneScore r (Option.mem_filter_iff.1 r_mem).1
  rcases Fallible.bind_eq_ok.1 returned with ⟨rawHits, ran, -⟩
  rcases retrieved_of_run selected ran with ⟨lists, ranked, found, -, retrieved⟩
  rcases hydrate_defined (length_run_le ran) with ⟨attrs, got, hydrated⟩
  cases (findPatternWithProfile_eq ran got).symm.trans returned
  exact ⟨answers_of_retrieved found retrieved hydrated, rfl⟩

/-- What is refused was refused by an enabled lane or by the reranker. -/
theorem refused_of_error {exp : K → K} {rfc3339 : Hydrator.DateFormat}
    {attached : Option (Reranker K)} {nowUnix : Int} {e : OhraError}
    (failed : findPatternWithProfile exp rfc3339 backend weights attached clock repoId query
      nowUnix = .error e) :
    (∃ id k, (profileOf K backend.unicode (clock id) query).isLaneEnabled id = true ∧
      backend.lane clock id query repoId k = .error e) ∨
    ∃ r ∈ selectReranker attached query, ∃ candidates, r query.query candidates = .error e := by
  rcases Fallible.bind_eq_error.1 failed with stopped | ⟨rawHits, ran, -⟩
  · rcases run_error stopped with lane_failed | refused
    · rw [laneResults, List.map_map] at lane_failed
      rcases List.mem_map.1 lane_failed with ⟨id, -, lane_failed⟩
      exact Or.inl ⟨id, _, enabled_of_error lane_failed, lane_failed⟩
    · exact Or.inr refused
  · rcases @hydrate_defined K backend query rawHits (length_run_le ran) with ⟨attrs, got, -⟩
    cases (findPatternWithProfile_eq ran got).symm.trans failed

end Answer

namespace TwoFiles

/-- A hunk in Rust and one in Python, which every text query matches. -/
def backend : Backend ℚ where
  unicode := Unicode.ascii
  vec0 := Sorter.stable
  sorter := Sorter.stable
  distance := Hunk.apart
  ftsHunks _ rows := .ok (rows.map fun row => (row, -1))
  ftsSymbols _ rows := .ok (rows.map fun row => (row, -1))
  embedBatch texts := .ok (texts.map fun _ => Hunk.zeroVector)
  db := Database.empty.withContents (Hunk.twoLanguages
    [⟨.function, "retry", none, .exactSpan⟩] [⟨.function, "retry", none, .hunkHeader⟩])

/-- What the query finds there. -/
def answer : Except OhraError (List (PatternHit ℚ) × RetrievalProfile ℚ) :=
    findPatternWithProfile ThreeHunks.exp (fun _ => "") backend ThreeHunks.weights
      (some ThreeHunks.undecided) (fun _ => 0) ⟨"r"⟩ ThreeHunks.query 0

end TwoFiles

end FindPattern

end Ohara
