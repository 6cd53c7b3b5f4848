import Ohara.Storage.Contents

/-!
# What readers see of the index

The hunks of a commit and the symbols of the snapshot with paths in place of row ids, as a reader of
the tables joins them, and how each storage operation changes them: a batch replaces the hunks of
its commits, a snapshot replaces the symbols, and everything else is seen as before.
-/

namespace Ohara

/-- An attribution without its row ids. -/
structure HunkSymbolView where
  symbolKind : String
  symbolName : String
  qualifiedName : Option String
  attributionKind : String
deriving DecidableEq, Repr

/-- A hunk as a reader sees it, less its language, which is a column of its path. -/
structure HunkView where
  path : Option String
  changeKind : String
  diffText : String
  semanticText : String
  diffEmb : Option (List UInt8)
  symbols : List HunkSymbolView
deriving DecidableEq, Repr

/-- A symbol as a reader sees it. -/
structure SymbolView where
  path : Option String
  kind : String
  name : String
  qualifiedName : Option String
  siblingNames : String
  spanStart : Nat
  spanEnd : Nat
  blobSha : String
  sourceText : String
deriving DecidableEq, Repr

/-- The attribution as it is seen. -/
def HunkSymbol.view (symbol : HunkSymbol) : HunkSymbolView where
  symbolKind := symbol.kind.toStr
  symbolName := symbol.name
  qualifiedName := symbol.qualifiedName
  attributionKind := symbol.attribution.asStr

/-- How a record is seen once it is stored. -/
def HunkRecord.view (record : HunkRecord) : HunkView where
  path := some record.hunk.filePath
  changeKind := record.hunk.changeKind.toStr
  diffText := record.hunk.diffText
  semanticText := record.storedSemanticText
  diffEmb := some (vecToBytes record.diffEmb)
  symbols := (record.symbols.foldl IndexContents.attach []).map HunkSymbol.view

/-- How a symbol is seen under a path. -/
def Symbol.viewAt (path : Option String) (symbol : Symbol) : SymbolView where
  path := path
  kind := symbol.kind.toStr
  name := symbol.name
  qualifiedName := symbol.qualifiedName
  siblingNames := jsonStringArray symbol.siblingNames
  spanStart := symbol.spanStart.toNat
  spanEnd := symbol.spanEnd.toNat
  blobSha := symbol.blobSha
  sourceText := symbol.sourceText

/-- How a symbol is seen once it is stored. -/
def Symbol.view (symbol : Symbol) : SymbolView :=
    symbol.viewAt (some symbol.filePath)

/-- The commit of the hunk. -/
def HunkRecord.sha (record : HunkRecord) : String :=
    record.hunk.commitSha

namespace Database

variable (db : Database)

/-- The commits with a row. -/
def shas : List String :=
    db.commitRecord.map CommitRow.sha

/-- The path with a row id. -/
def pathOf (id : Nat) : Option String :=
    (Rows.lookup Prod.fst id (db.filePath.map fun row => (row.id, row.path))).map Prod.snd

/-- The hunk of a row, without ids. -/
def hunkView (row : HunkRow) : HunkView where
  path := db.pathOf row.filePathId
  changeKind := row.changeKind
  diffText := row.diffText
  semanticText := row.semanticText
  diffEmb := (Rows.lookup VecHunkRow.hunkId row.id db.vecHunk).map VecHunkRow.diffEmb
  symbols := (db.hunkSymbol.filter fun symbol => decide (symbol.hunkId = row.id)).map
    fun symbol => ⟨symbol.symbolKind, symbol.symbolName, symbol.qualifiedName,
      symbol.attributionKind⟩

/-- The hunks of a commit. -/
def hunkViews (sha : String) : List HunkView :=
    (db.hunk.filter fun row => decide (row.commitSha = sha)).map db.hunkView

/-- The symbols of the snapshot. -/
def symbolViews : List SymbolView :=
    db.symbol.map fun row =>
      { path := db.pathOf row.filePathId, kind := row.kind, name := row.name,
        qualifiedName := row.qualifiedName, siblingNames := row.siblingNames,
        spanStart := row.spanStart, spanEnd := row.spanEnd, blobSha := row.blobSha,
        sourceText := row.sourceText }

end Database

namespace IndexContents

/-- The commits of the contents. -/
def shas (contents : IndexContents) : List String :=
    contents.commits.map CommitRecord.sha

/-- The ids and paths of the contents. -/
def paths (contents : IndexContents) : List (Nat × String) :=
    contents.filePaths.map fun row => (row.id, row.path)

/-- The path with a row id. -/
def pathOf (contents : IndexContents) (id : Nat) : Option String :=
    (Rows.lookup Prod.fst id contents.paths).map Prod.snd

/-- The hunk, without ids. -/
def view (contents : IndexContents) (hunk : StoredHunk) : HunkView where
  path := contents.pathOf hunk.filePathId
  changeKind := hunk.changeKind.toStr
  diffText := hunk.diffText
  semanticText := hunk.semanticText
  diffEmb := some (vecToBytes hunk.diffEmb)
  symbols := hunk.symbols.map HunkSymbol.view

/-- The hunks of a commit, as they are seen. -/
def hunkViews (contents : IndexContents) (sha : String) : List HunkView :=
    (contents.hunks.filter fun hunk => decide (hunk.commitSha = sha)).map contents.view

/-- The symbols of the snapshot, as they are seen. -/
def symbolViews (contents : IndexContents) : List SymbolView :=
    contents.symbols.map fun stored => stored.symbol.viewAt (contents.pathOf stored.filePathId)

variable {contents contents' : IndexContents}

theorem map_fst_paths (contents : IndexContents) :
    contents.paths.map Prod.fst = contents.filePaths.map FilePathRow.id := by
  simp [paths]

theorem paths_upsertPath (path : String) (language : Option String) (contents : IndexContents) :
    (contents.upsertPath path language).paths =
      if path ∈ contents.filePaths.map FilePathRow.path then contents.paths
      else contents.paths ++ [(Rows.nextRowid (contents.filePaths.map FilePathRow.id), path)] :=
  Rows.map_upsert (FilePathRow.coalesceLanguage language) (fun _ => rfl) _ _

theorem pathOf_upsertPath {path : String} {language : Option String} {id : Nat}
    (known : id ∈ contents.filePaths.map FilePathRow.id) :
    (contents.upsertPath path language).pathOf id = contents.pathOf id := by
  simp only [pathOf, paths_upsertPath]
  split
  · rfl
  · rw [← map_fst_paths] at known
    cases found : Rows.lookup Prod.fst id contents.paths with
    | none => exact absurd known (Rows.lookup_eq_none_iff.1 found)
    | some row => simp [Rows.lookup_append, found]

theorem pathOf_of_mem {row : FilePathRow} (row_mem : row ∈ contents.filePaths) :
    contents.pathOf row.id = some row.path := by
  have nodup : (contents.paths.map Prod.fst).Nodup := by
    rw [map_fst_paths]
    exact contents.filePath_ids_nodup
  have pair_mem : (row.id, row.path) ∈ contents.paths :=
    List.mem_map.2 ⟨row, row_mem, rfl⟩
  rw [pathOf, Rows.lookup_eq_some_of_mem nodup pair_mem]
  rfl

theorem pathOf_pathId (path : String) (language : Option String) (contents : IndexContents) :
    (contents.upsertPath path language).pathOf
      ((contents.upsertPath path language).pathId path) = some path := by
  rcases lookup_upsertPath path language contents with ⟨row, found, same_id⟩
  rcases Rows.mem_of_lookup_eq_some found with ⟨row_mem, same_path⟩
  rw [← same_id, pathOf_of_mem row_mem, same_path]

theorem hunkViews_upsertPath (path : String) (language : Option String)
    (contents : IndexContents) (sha : String) :
    (contents.upsertPath path language).hunkViews sha = contents.hunkViews sha := by
  apply List.map_congr_left
  intro hunk mem
  have known := contents.hunk_path hunk (List.mem_of_mem_filter mem)
  simp only [view, pathOf_upsertPath known]

theorem addHunk_cases {record : HunkRecord} (added : contents.addHunk record = some contents') :
    ∃ known, record.diffEmb.length = vectorDimension ∧
      contents' = contents.withHunk record known := by
  simp only [addHunk] at added
  split at added
  · next accepted =>
      cases added
      exact ⟨accepted.1, accepted.2, rfl⟩
  · cases added

/-- One more hunk of a commit is seen after those it has. -/
theorem hunkViews_addHunk {record : HunkRecord} (added : contents.addHunk record = some contents')
    (sha : String) : contents'.hunkViews sha =
      contents.hunkViews sha ++ if record.sha = sha then [record.view] else [] := by
  rcases addHunk_cases added with ⟨known, -, rfl⟩
  have old := hunkViews_upsertPath record.hunk.filePath record.hunk.language contents sha
  have split : (contents.withHunk record known).hunkViews sha =
      (contents.upsertPath record.hunk.filePath record.hunk.language).hunkViews sha ++
        if record.sha = sha then [record.view] else [] := by
    simp only [hunkViews, withHunk, List.filter_append, List.map_append]
    congr 1
    by_cases same : record.sha = sha
    · have same_hunk : record.hunk.commitSha = sha := same
      have located := pathOf_pathId record.hunk.filePath record.hunk.language contents
      simp only [storedHunk, same_hunk, decide_true, List.filter_cons_of_pos, List.filter_nil,
        List.map_cons, List.map_nil, same, if_true, List.cons.injEq, and_true]
      simpa [view, HunkRecord.view, pathOf, paths] using located
    · have other_hunk : ¬ record.hunk.commitSha = sha := same
      simp [storedHunk, other_hunk, same]
  rw [split, old]

theorem hunkViews_addHunks {records : List HunkRecord}
    (added : records.foldlM addHunk contents = some contents') (sha : String) :
    contents'.hunkViews sha = contents.hunkViews sha ++
      (records.filter fun record => decide (record.sha = sha)).map HunkRecord.view := by
  induction records generalizing contents with
  | nil =>
      cases added
      simp
  | cons record rest ih =>
      rw [List.foldlM_cons] at added
      rcases Option.bind_eq_some_iff.1 added with ⟨middle, head, tail⟩
      rw [ih tail, hunkViews_addHunk head]
      by_cases same : record.sha = sha
      · simp [same]
      · simp [same]

theorem hunkViews_deleteHunks (contents : IndexContents) (gone sha : String) :
    (contents.deleteHunks gone).hunkViews sha =
      if sha = gone then [] else contents.hunkViews sha := by
  by_cases same : sha = gone
  · subst same
    simp [hunkViews, deleteHunks, Rows.deleteKey]
  · simp only [hunkViews, deleteHunks, Rows.deleteKey, List.filter_filter, same, if_false]
    have kept : (contents.hunks.filter fun hunk =>
        decide (hunk.commitSha = sha) && decide (hunk.commitSha ≠ gone)) =
        contents.hunks.filter fun hunk => decide (hunk.commitSha = sha) := by
      apply List.filter_congr
      intro hunk _
      by_cases mine : hunk.commitSha = sha
      · simp [mine, same]
      · simp [mine]
    rw [kept]
    rfl

theorem hunkViews_deleteHunks_list (gone : List String) (contents : IndexContents)
    (sha : String) : (gone.foldl deleteHunks contents).hunkViews sha =
      if sha ∈ gone then [] else contents.hunkViews sha := by
  induction gone generalizing contents with
  | nil => simp
  | cons head rest ih =>
      rw [List.foldl_cons, ih, hunkViews_deleteHunks]
      by_cases same : sha = head
      · simp [same]
      · simp [same]

theorem mem_batchShas {records : List HunkRecord} {sha : String} :
    sha ∈ Hunk.batchShas records ↔ sha ∈ records.map HunkRecord.sha := by
  rw [Hunk.batchShas, mem_dedupNeighbours, List.mem_insertionSort]
  rfl

/-- A batch replaces the hunks of its commits and leaves those of the others. -/
theorem hunkViews_putHunks {records : List HunkRecord}
    (put : contents.putHunks records = some contents') (sha : String) :
    contents'.hunkViews sha =
      if sha ∈ records.map HunkRecord.sha then
        (records.filter fun record => decide (record.sha = sha)).map HunkRecord.view
      else contents.hunkViews sha := by
  simp only [putHunks] at put
  split at put
  · next empty =>
      cases put
      simp [List.isEmpty_iff.1 empty]
  · rw [hunkViews_addHunks put, hunkViews_deleteHunks_list]
    simp only [mem_batchShas]
    split
    · simp
    · next other =>
        have none_mine : records.filter (fun record => decide (record.sha = sha)) = [] := by
          apply List.filter_eq_nil_iff.2
          intro record record_mem mine
          have same : record.sha = sha := by simpa using mine
          exact other (same ▸ List.mem_map_of_mem record_mem)
        simp [none_mine]

theorem hunkViews_putCommit {record : CommitRecord}
    (put : contents.putCommit record = some contents') (sha : String) :
    contents'.hunkViews sha = contents.hunkViews sha := by
  simp only [putCommit] at put
  split at put
  · cases put
    rfl
  · cases put

theorem mem_shas_putCommit {record : CommitRecord}
    (put : contents.putCommit record = some contents') {sha : String} :
    sha ∈ contents'.shas ↔ sha ∈ contents.shas ∨ sha = record.sha := by
  simp only [putCommit] at put
  split at put
  · cases put
    exact Rows.mem_map_insertOrReplace
  · cases put

theorem symbolViews_putCommit {record : CommitRecord}
    (put : contents.putCommit record = some contents') :
    contents'.symbolViews = contents.symbolViews := by
  simp only [putCommit] at put
  split at put
  · cases put
    rfl
  · cases put

/-! ## Commits and symbols under the other operations -/

theorem commits_addHunk {record : HunkRecord} {contents contents' : IndexContents}
    (added : contents.addHunk record = some contents') : contents'.commits = contents.commits := by
  rcases addHunk_cases added with ⟨known, -, rfl⟩
  rfl

theorem commits_addHunks {records : List HunkRecord} {contents contents' : IndexContents}
    (added : records.foldlM addHunk contents = some contents') :
    contents'.commits = contents.commits := by
  induction records generalizing contents with
  | nil =>
      cases added
      rfl
  | cons record rest ih =>
      rw [List.foldlM_cons] at added
      rcases Option.bind_eq_some_iff.1 added with ⟨middle, head, tail⟩
      exact (ih tail).trans (commits_addHunk head)

theorem commits_deleteHunks (shas : List String) (contents : IndexContents) :
    (shas.foldl deleteHunks contents).commits = contents.commits := by
  induction shas generalizing contents with
  | nil => rfl
  | cons sha rest ih => exact ih _

theorem commits_putHunks {records : List HunkRecord} {contents contents' : IndexContents}
    (put : contents.putHunks records = some contents') :
    contents'.commits = contents.commits := by
  unfold putHunks at put
  split at put
  · cases put
    rfl
  · exact (commits_addHunks put).trans (commits_deleteHunks _ _)

theorem commits_putSymbols (symbols : List Symbol) (contents : IndexContents) :
    (contents.putSymbols symbols).commits = contents.commits := by
  unfold putSymbols
  suffices kept : ∀ cleared : IndexContents,
      (symbols.foldl addSymbol cleared).commits = cleared.commits from kept _
  intro cleared
  induction symbols generalizing cleared with
  | nil => rfl
  | cons symbol rest ih => exact ih _

theorem symbolViews_upsertPath (path : String) (language : Option String)
    (contents : IndexContents) :
    (contents.upsertPath path language).symbolViews = contents.symbolViews := by
  apply List.map_congr_left
  intro stored mem
  simp only [pathOf_upsertPath (contents.symbol_path stored mem)]

theorem symbolViews_addHunks {records : List HunkRecord}
    (added : records.foldlM addHunk contents = some contents') :
    contents'.symbolViews = contents.symbolViews := by
  induction records generalizing contents with
  | nil =>
      cases added
      rfl
  | cons record rest ih =>
      rw [List.foldlM_cons] at added
      rcases Option.bind_eq_some_iff.1 added with ⟨middle, head, tail⟩
      rcases addHunk_cases head with ⟨known, -, rfl⟩
      rw [ih tail]
      exact symbolViews_upsertPath record.hunk.filePath record.hunk.language contents

theorem symbolViews_deleteHunks (gone : List String) (contents : IndexContents) :
    (gone.foldl deleteHunks contents).symbolViews = contents.symbolViews := by
  induction gone generalizing contents with
  | nil => rfl
  | cons sha rest ih => exact ih _

theorem symbolViews_putHunks {records : List HunkRecord}
    (put : contents.putHunks records = some contents') :
    contents'.symbolViews = contents.symbolViews := by
  simp only [putHunks] at put
  split at put
  · cases put
    rfl
  · rw [symbolViews_addHunks put, symbolViews_deleteHunks]

theorem symbolViews_addSymbol (contents : IndexContents) (symbol : Symbol) :
    (contents.addSymbol symbol).symbolViews = contents.symbolViews ++ [symbol.view] := by
  have old := symbolViews_upsertPath symbol.filePath (some symbol.language) contents
  have located := pathOf_pathId symbol.filePath (some symbol.language) contents
  rw [← old, Symbol.view, ← located]
  simp [symbolViews, addSymbol, pathOf, paths, upsertPath]

theorem addSymbols_spec (symbols : List Symbol) (contents : IndexContents) :
    (symbols.foldl addSymbol contents).symbolViews =
        contents.symbolViews ++ symbols.map Symbol.view ∧
      ∀ sha, (symbols.foldl addSymbol contents).hunkViews sha = contents.hunkViews sha := by
  induction symbols generalizing contents with
  | nil => simp
  | cons symbol rest ih =>
      rcases ih (contents.addSymbol symbol) with ⟨symbols_rest, views_rest⟩
      refine ⟨?_, fun sha => ?_⟩
      · rw [List.foldl_cons, symbols_rest, symbolViews_addSymbol]
        simp
      · rw [List.foldl_cons, views_rest]
        exact hunkViews_upsertPath symbol.filePath (some symbol.language) contents sha

@[simp]
theorem symbolViews_clearSymbols (contents : IndexContents) :
    contents.clearSymbols.symbolViews = [] :=
  rfl

@[simp]
theorem hunkViews_clearSymbols (contents : IndexContents) (sha : String) :
    contents.clearSymbols.hunkViews sha = contents.hunkViews sha :=
  rfl

@[simp]
theorem symbolViews_putSymbols (symbols : List Symbol) (contents : IndexContents) :
    (contents.putSymbols symbols).symbolViews = symbols.map Symbol.view := by
  simp [putSymbols, (addSymbols_spec symbols contents.clearSymbols).1]

@[simp]
theorem hunkViews_putSymbols (symbols : List Symbol) (contents : IndexContents) (sha : String) :
    (contents.putSymbols symbols).hunkViews sha = contents.hunkViews sha := by
  simp [putSymbols, (addSymbols_spec symbols contents.clearSymbols).2]

/-! ## The tables of contents -/

variable (db : Database) (contents)

@[simp]
theorem shas_withContents : (db.withContents contents).shas = contents.shas :=
  map_row_sha contents.commits

@[simp]
theorem pathOf_withContents (id : Nat) :
    (db.withContents contents).pathOf id = contents.pathOf id :=
  rfl

theorem hunkView_withContents {hunk : StoredHunk} (hunk_mem : hunk ∈ contents.hunks) :
    (db.withContents contents).hunkView hunk.row = contents.view hunk := by
  have vector : Rows.lookup VecHunkRow.hunkId hunk.id (contents.hunks.map StoredHunk.vecRow) =
      some hunk.vecRow := by
    have nodup : ((contents.hunks.map StoredHunk.vecRow).map VecHunkRow.hunkId).Nodup := by
      rw [List.map_map]
      exact contents.hunk_ids_nodup
    have mem : hunk.vecRow ∈ contents.hunks.map StoredHunk.vecRow := List.mem_map_of_mem hunk_mem
    exact Rows.lookup_eq_some_of_mem nodup mem
  have symbols : (contents.hunks.flatMap StoredHunk.symbolRows).filter
      (fun symbol => decide (symbol.hunkId = hunk.id)) = hunk.symbolRows := by
    rw [Rows.filter_flatMap StoredHunk.symbolRows _ (fun other => decide (other.id = hunk.id)),
      Rows.filter_key_eq_singleton contents.hunk_ids_nodup hunk_mem]
    · simp
    · intro other _ item item_mem
      rcases List.mem_map.1 item_mem with ⟨symbol, -, rfl⟩
      rfl
  have same : (db.withContents contents).hunkView hunk.row =
      { path := contents.pathOf hunk.filePathId
        changeKind := hunk.changeKind.toStr
        diffText := hunk.diffText
        semanticText := hunk.semanticText
        diffEmb := (Rows.lookup VecHunkRow.hunkId hunk.id
          (contents.hunks.map StoredHunk.vecRow)).map VecHunkRow.diffEmb
        symbols := ((contents.hunks.flatMap StoredHunk.symbolRows).filter
          (fun symbol => decide (symbol.hunkId = hunk.id))).map fun symbol =>
            ⟨symbol.symbolKind, symbol.symbolName, symbol.qualifiedName,
              symbol.attributionKind⟩ } := rfl
  rw [same, vector, symbols]
  simp [view, StoredHunk.symbolRows, StoredHunk.vecRow, HunkSymbol.row, HunkSymbol.view]

@[simp]
theorem hunkViews_withContents (sha : String) :
    (db.withContents contents).hunkViews sha = contents.hunkViews sha := by
  have rows : ((db.withContents contents).hunk.filter fun row => decide (row.commitSha = sha)) =
      (contents.hunks.filter fun hunk => decide (hunk.commitSha = sha)).map StoredHunk.row :=
    Rows.filter_map StoredHunk.row _ _ (fun _ _ => rfl)
  rw [Database.hunkViews, rows, List.map_map]
  apply List.map_congr_left
  intro hunk mem
  exact hunkView_withContents contents db (List.mem_of_mem_filter mem)

@[simp]
theorem symbolViews_withContents :
    (db.withContents contents).symbolViews = contents.symbolViews := by
  simp only [Database.symbolViews, symbolViews, Database.withContents, List.map_map]
  rfl

end IndexContents

end Ohara
