import Ohara.Storage.Effects
import Ohara.Storage.Language

/-!
# What a batch replaces

`put_many` deletes by commit before it inserts, and the language of a hunk is a column of its path,
which every insert may overwrite. Put twice, a batch changes nothing but row ids. A file of one of
its commits that the batch has no record of loses its hunks, and a hunk of another commit takes the
language the batch names for its path, so the batch replaces by commit and file exactly where no
hunk it does not mention is in its way.
-/

namespace Ohara

namespace Database

/-- The `hunk` rows of a commit and a path. -/
def rowsAt (db : Database) (sha path : String) : List HunkRow :=
    db.hunk.filter fun row => decide (row.commitSha = sha ∧ db.pathOf row.filePathId = some path)

/-- A hunk with the language of its path, as it is put and as it is found. -/
structure FoundHunk extends HunkView where
  language : Option String
deriving DecidableEq

/-- The hunk with the language of its path. -/
def foundHunk (db : Database) (row : HunkRow) : FoundHunk where
  toHunkView := db.hunkView row
  language := (Rows.lookup FilePathRow.id row.filePathId db.filePath).bind FilePathRow.language

/-- The hunks of a commit and a path. -/
def hunksAt (db : Database) (sha path : String) : List FoundHunk :=
    (db.rowsAt sha path).map db.foundHunk

/-- The hunks of a commit and a path without their language. -/
def viewsAt (db : Database) (sha path : String) : List HunkView :=
    (db.rowsAt sha path).map db.hunkView

/-- The language a path is stored with. -/
def languageOf (db : Database) (path : String) : Option String :=
    (Rows.lookup FilePathRow.path path db.filePath).bind FilePathRow.language

theorem viewsAt_eq (db : Database) (sha path : String) :
    db.viewsAt sha path =
      (db.hunkViews sha).filter fun view => decide (view.path = some path) := by
  rw [viewsAt, rowsAt, hunkViews, List.filter_map, List.filter_filter]
  congr 1
  apply List.filter_congr
  intro row _
  rw [Bool.eq_iff_iff, decide_eq_true_iff, Bool.and_eq_true, decide_eq_true_iff, and_comm]
  exact and_congr_left fun _ => decide_eq_true_iff.symm

/-- The databases differ in the ids of their hunks at most. -/
structure SameButHunkIds (db db' : Database) : Prop where
  hunkViews : ∀ sha, db'.hunkViews sha = db.hunkViews sha
  mirrors : ∃ embeddingOf, MirrorsInStep db' embeddingOf
  others : db' = { db with
    hunk := db'.hunk
    vecHunk := db'.vecHunk
    ftsHunkText := db'.ftsHunkText
    ftsHunkSemantic := db'.ftsHunkSemantic
    hunkSymbol := db'.hunkSymbol }

end Database

/-- How a record is found once it is stored under the language it names. -/
def HunkRecord.found (record : HunkRecord) : Database.FoundHunk where
  toHunkView := record.view
  language := record.hunk.language

/-- The record is of this commit and path. -/
def HunkRecord.At (sha path : String) (record : HunkRecord) : Prop :=
    record.sha = sha ∧ record.hunk.filePath = path
deriving Decidable

/-- A put batch replaced the hunks of its commits and paths, and putting it again does nothing. -/
structure ReplacesByFile (records : List HunkRecord) (db db' : Database) : Prop where
  mentioned : ∀ sha path, (∃ record ∈ records, record.At sha path) →
    db'.hunksAt sha path =
      (records.filter fun record => decide (record.At sha path)).map HunkRecord.found
  unmentioned : ∀ sha path, (∀ record ∈ records, ¬record.At sha path) →
    db'.rowsAt sha path = db.rowsAt sha path ∧ db'.hunksAt sha path = db.hunksAt sha path
  again : ∃ db'', Hunk.putMany records db' = .ok db'' ∧ db'.SameButHunkIds db''

/-- No hunk in the index, and no other record, is in the way of a record of the batch. -/
structure Replaceable (records : List HunkRecord) (db : Database) : Prop where
  covered : ∀ sha ∈ records.map HunkRecord.sha, ∀ path, db.hunksAt sha path ≠ [] →
    ∃ record ∈ records, record.At sha path
  alike : ∀ record ∈ records, ∀ other ∈ records,
    other.hunk.filePath = record.hunk.filePath → other.hunk.language = record.hunk.language
  unnamed : ∀ record ∈ records, record.hunk.language = none →
    db.languageOf record.hunk.filePath = none
  kept : ∀ record ∈ records, ∀ sha, (∀ other ∈ records, ¬other.At sha record.hunk.filePath) →
    db.hunksAt sha record.hunk.filePath ≠ [] →
      db.languageOf record.hunk.filePath = record.hunk.language

/-! ## Paths -/

/-- The languages written are settled from the last write backwards. -/
theorem foldl_writeLanguage_or (path : String) (writes : List (String × Option String))
    (old : Option String) : writes.foldl (writeLanguage path) old =
      (writes.foldl (writeLanguage path) none).or old := by
  induction writes generalizing old with
  | nil => rfl
  | cons write rest ih =>
      rw [List.foldl_cons, List.foldl_cons, ih, ih (writeLanguage path none write), Option.or_assoc]
      congr 1
      unfold writeLanguage
      split <;> simp

/-- Writes that name one language for a path leave it, where they name any. -/
theorem foldl_writeLanguage_alike {path : String} {language : Option String}
    {writes : List (String × Option String)}
    (alike : ∀ write ∈ writes, write.1 = path → write.2 = language) (old : Option String) :
    writes.foldl (writeLanguage path) old =
      if path ∈ writes.map Prod.fst then language.or old else old := by
  induction writes generalizing old with
  | nil => rfl
  | cons write rest ih =>
      rw [List.forall_mem_cons] at alike
      rw [List.foldl_cons, ih alike.2, writeLanguage]
      by_cases here : write.1 = path
      · rw [if_pos here, alike.1 here, ← Option.or_assoc, Option.or_self, ite_self,
          if_pos (by simp [here])]
      · have elsewhere : path ∈ (write :: rest).map Prod.fst ↔ path ∈ rest.map Prod.fst := by
          rw [List.map_cons, List.mem_cons, or_iff_right (Ne.symm here)]
        simp only [if_neg here, elsewhere]

theorem foldl_writeLanguage_idem (path : String) (writes : List (String × Option String))
    (old : Option String) :
    writes.foldl (writeLanguage path) (writes.foldl (writeLanguage path) old) =
      writes.foldl (writeLanguage path) old := by
  rw [foldl_writeLanguage_or path writes old, foldl_writeLanguage_or path writes (Option.or _ _),
    ← Option.or_assoc, Option.or_self]

namespace IndexContents

variable {contents contents' : IndexContents} {records : List HunkRecord}

/-- The paths with their ids, and the language of each, are the path table. -/
theorem filePaths_eq (contents : IndexContents) :
    contents.filePaths =
      contents.paths.map fun row => ⟨row.1, row.2, contents.languageOf row.2⟩ := by
  rw [paths, List.map_map]
  have same : ∀ row ∈ contents.filePaths,
      (⟨row.id, row.path, contents.languageOf row.path⟩ : FilePathRow) = row := by
    intro row row_mem
    have found := Rows.lookup_eq_some_of_mem contents.filePath_paths_nodup row_mem
    rw [languageOf, found]
    rfl
  exact (List.map_id _).symm.trans (List.map_congr_left fun row row_mem => (same row row_mem).symm)

/-- A batch whose paths are recorded records no other. -/
theorem paths_addHunks (added : records.foldlM addHunk contents = some contents')
    (recorded : ∀ record ∈ records,
      record.hunk.filePath ∈ contents.filePaths.map FilePathRow.path) :
    contents'.paths = contents.paths := by
  induction records generalizing contents with
  | nil =>
      cases added
      rfl
  | cons record rest ih =>
      rw [List.foldlM_cons] at added
      rcases Option.bind_eq_some_iff.1 added with ⟨middle, head, tail⟩
      rcases addHunk_cases head with ⟨known, -, rfl⟩
      rw [List.forall_mem_cons] at recorded
      have same_paths : (contents.withHunk record known).paths = contents.paths :=
        (paths_upsertPath _ _ contents).trans (if_pos recorded.1)
      have same_names : (contents.withHunk record known).filePaths.map FilePathRow.path =
          contents.filePaths.map FilePathRow.path :=
        (map_path_upsertedPaths _ _ contents).trans (if_pos recorded.1)
      rw [ih tail (by rw [same_names]; exact recorded.2), same_paths]

/-- What adding a batch leaves of the contents it is added to. -/
structure Extends (records : List HunkRecord) (contents contents' : IndexContents) : Prop where
  symbols : contents'.symbols = contents.symbols
  names : ∀ path, path ∈ contents'.filePaths.map FilePathRow.path ↔
    path ∈ contents.filePaths.map FilePathRow.path ∨
      path ∈ records.map fun record => record.hunk.filePath
  ids : ∀ id ∈ contents.filePaths.map FilePathRow.id,
    id ∈ contents'.filePaths.map FilePathRow.id ∧ contents'.pathOf id = contents.pathOf id
  hunks : ∀ sha ∉ records.map HunkRecord.sha,
    contents'.hunks.filter (fun hunk => decide (hunk.commitSha = sha)) =
      contents.hunks.filter fun hunk => decide (hunk.commitSha = sha)

theorem extends_addHunk {record : HunkRecord} (added : contents.addHunk record = some contents') :
    Extends [record] contents contents' := by
  rcases addHunk_cases added with ⟨known, -, rfl⟩
  constructor
  · rfl
  · intro path
    have names := map_path_upsertedPaths record.hunk.filePath record.hunk.language contents
    change path ∈ (contents.upsertedPaths record.hunk.filePath record.hunk.language).map _ ↔ _
    rw [names]
    split
    · next recorded =>
        constructor
        · exact Or.inl
        · rintro (old | new)
          · exact old
          · rw [List.mem_singleton.1 new]
            exact recorded
    · simp
  · intro id id_mem
    exact ⟨mem_id_upsertedPaths id_mem, pathOf_upsertPath id_mem⟩
  · intro sha other
    have distinct : ¬record.hunk.commitSha = sha :=
      fun same => other (by simp [HunkRecord.sha, same])
    simp [withHunk, storedHunk, distinct]

theorem extends_addHunks (added : records.foldlM addHunk contents = some contents') :
    Extends records contents contents' := by
  induction records generalizing contents with
  | nil =>
      cases added
      exact ⟨rfl, by simp, fun id id_mem => ⟨id_mem, rfl⟩, fun _ _ => rfl⟩
  | cons record rest ih =>
      rw [List.foldlM_cons] at added
      rcases Option.bind_eq_some_iff.1 added with ⟨middle, head, tail⟩
      have first := extends_addHunk head
      have others := ih tail
      constructor
      · rw [others.symbols, first.symbols]
      · intro path
        rw [others.names, first.names]
        simp [or_assoc]
      · intro id id_mem
        have in_middle := first.ids id id_mem
        have at_end := others.ids id in_middle.1
        exact ⟨at_end.1, at_end.2.trans in_middle.2⟩
      · intro sha absent
        rw [List.map_cons, List.mem_cons, not_or] at absent
        rw [others.hunks sha absent.2, first.hunks sha (by simpa using absent.1)]

theorem hunks_deleteHunks {gone : List String} {sha : String} (kept : sha ∉ gone)
    (contents : IndexContents) :
    (gone.foldl deleteHunks contents).hunks.filter (fun hunk => decide (hunk.commitSha = sha)) =
      contents.hunks.filter fun hunk => decide (hunk.commitSha = sha) := by
  induction gone generalizing contents with
  | nil => rfl
  | cons head rest ih =>
      rw [List.mem_cons, not_or] at kept
      rw [List.foldl_cons, ih kept.2]
      simp only [deleteHunks, Rows.deleteKey, List.filter_filter]
      apply List.filter_congr
      intro hunk _
      by_cases mine : hunk.commitSha = sha
      · simp [mine, kept.1]
      · simp [mine]

theorem symbols_deleteHunks (gone : List String) (contents : IndexContents) :
    (gone.foldl deleteHunks contents).symbols = contents.symbols := by
  induction gone generalizing contents with
  | nil => rfl
  | cons head rest ih => exact ih _

theorem extends_putHunks (put : contents.putHunks records = some contents') :
    Extends records contents contents' := by
  unfold putHunks at put
  split at put
  · next empty =>
      cases put
      rw [List.isEmpty_iff.1 empty]
      exact ⟨rfl, by simp, fun id id_mem => ⟨id_mem, rfl⟩, fun _ _ => rfl⟩
  · have added := extends_addHunks put
    have same_paths := filePaths_deleteHunks (Hunk.batchShas records) contents
    constructor
    · rw [added.symbols, symbols_deleteHunks]
    · intro path
      rw [added.names, same_paths]
    · intro id id_mem
      have kept := added.ids id (by rw [same_paths]; exact id_mem)
      refine ⟨kept.1, kept.2.trans ?_⟩
      rw [pathOf, pathOf, paths, paths, same_paths]
    · intro sha absent
      rw [added.hunks sha absent, hunks_deleteHunks (by rwa [mem_batchShas])]

theorem filePaths_putHunks_again {contents'' : IndexContents}
    (put : contents.putHunks records = some contents')
    (again : contents'.putHunks records = some contents'') :
    contents''.filePaths = contents'.filePaths := by
  have same_paths : contents''.paths = contents'.paths := by
    unfold putHunks at again
    split at again
    · cases again
      rfl
    · have same_rows := filePaths_deleteHunks (Hunk.batchShas records) contents'
      have recorded : ∀ record ∈ records, record.hunk.filePath ∈
          ((Hunk.batchShas records).foldl deleteHunks contents').filePaths.map
            FilePathRow.path := by
        intro record record_mem
        rw [same_rows, (extends_putHunks put).names]
        exact Or.inr (List.mem_map_of_mem record_mem)
      rw [paths_addHunks again recorded, paths, paths, same_rows]
  have same_languages : ∀ path, contents''.languageOf path = contents'.languageOf path := by
    intro path
    have first := languageOf_call
      (show contents.call (.putHunks records) = some contents' from put) path
    have second := languageOf_call
      (show contents'.call (.putHunks records) = some contents'' from again) path
    rw [second, first, foldl_writeLanguage_idem]
  rw [filePaths_eq, filePaths_eq contents', same_paths]
  simp only [same_languages]

end IndexContents

namespace Hunk

variable {records : List HunkRecord} {db db' : Database}

/-- A batch put a second time is accepted and differs in the ids of its hunks. -/
theorem putMany_again (laid : db.Laid) (put : putMany records db = .ok db') :
    ∃ db'', putMany records db' = .ok db'' ∧ db'.SameButHunkIds db'' := by
  have first := putMany_spec laid put
  have accepted : ∀ record ∈ records,
      record.sha ∈ db'.shas ∧ record.diffEmb.length = vectorDimension := by
    rw [first.shas]
    exact (putMany_defined laid).1 ⟨db', put⟩
  rcases (putMany_defined first.laid).2 accepted with ⟨db'', again⟩
  have second := putMany_spec first.laid again
  refine ⟨db'', again, ?_, ?_, ?_⟩
  · intro sha
    rw [second.hunkViews, first.hunkViews]
    split
    · rfl
    · rfl
  · rcases second.laid with ⟨contents, laid⟩
    rw [laid]
    refine ⟨fun sha => (Rows.lookup CommitRecord.sha sha contents.commits).map
      CommitRecord.messageEmb, mirrorsInStep_withContents ?_⟩
    intro record record_mem
    rw [Rows.lookup_eq_some_of_mem contents.commits_nodup record_mem]
    rfl
  · rcases laid with ⟨contents, laid⟩
    have refined := putMany_withContents records db contents
    rw [← laid, put] at refined
    rcases Option.map_eq_some_iff.1 refined.symm with ⟨contents', accepted', rfl⟩
    have refined_again := putMany_withContents records db contents'
    rw [again] at refined_again
    rcases Option.map_eq_some_iff.1 refined_again.symm with ⟨contents'', accepted'', rfl⟩
    have filePaths := IndexContents.filePaths_putHunks_again accepted' accepted''
    have commits := IndexContents.commits_putHunks accepted''
    have symbols := (IndexContents.extends_putHunks accepted'').symbols
    simp only [Database.withContents, filePaths, commits, symbols]

theorem rowsAt_putMany {sha : String} (laid : db.Laid) (put : putMany records db = .ok db')
    (other : sha ∉ records.map HunkRecord.sha) (path : String) :
    db'.rowsAt sha path = db.rowsAt sha path := by
  rcases laid with ⟨contents, laid⟩
  have refined := putMany_withContents records db contents
  rw [← laid, put] at refined
  rcases Option.map_eq_some_iff.1 refined.symm with ⟨contents', accepted, rfl⟩
  have kept := IndexContents.extends_putHunks accepted
  have rows : ∀ contents : IndexContents, (db.withContents contents).rowsAt sha path =
      ((contents.hunks.filter fun hunk => decide (hunk.commitSha = sha)).filter fun hunk =>
        decide (contents.pathOf hunk.filePathId = some path)).map StoredHunk.row := by
    intro contents
    rw [List.filter_filter]
    apply Rows.filter_map StoredHunk.row
    intro hunk _
    rw [Bool.eq_iff_iff, decide_eq_true_iff, Bool.and_eq_true, decide_eq_true_iff,
      decide_eq_true_iff, and_comm]
    rfl
  have rows_before : db.rowsAt sha path = (db.withContents contents).rowsAt sha path := by
    rw [← laid]
  rw [rows_before, rows, rows, kept.hunks sha other]
  congr 1
  apply List.filter_congr
  intro hunk hunk_mem
  have known := contents.hunk_path hunk (List.mem_of_mem_filter hunk_mem)
  rw [(kept.ids hunk.filePathId known).2]

/-- What a put batch leaves of a commit and path, whether the batch mentions it or not. -/
theorem viewsAt_putMany (laid : db.Laid) (put : putMany records db = .ok db') (sha path : String) :
    db'.viewsAt sha path =
      if sha ∈ records.map HunkRecord.sha then
        (records.filter fun record => decide (record.At sha path)).map HunkRecord.view
      else db.viewsAt sha path := by
  rw [Database.viewsAt_eq, Database.viewsAt_eq, (putMany_spec laid put).hunkViews]
  split
  · rw [List.filter_map, List.filter_filter]
    congr 1
    apply List.filter_congr
    intro record _
    rw [Bool.eq_iff_iff]
    simp [HunkRecord.view, HunkRecord.At, and_comm]
  · rfl

/-! ## The language of a hunk -/

/-- The hunks of a path are found under the language of the path. -/
theorem hunksAt_eq (laid : db.Laid) (sha path : String) :
    db.hunksAt sha path =
      (db.viewsAt sha path).map fun view => ⟨view, db.languageOf path⟩ := by
  rcases laid with ⟨contents, laid⟩
  have filePaths : db.filePath = contents.filePaths := by
    rw [laid]
    rfl
  rw [Database.hunksAt, Database.viewsAt, List.map_map]
  apply List.map_congr_left
  intro row row_mem
  have located : db.pathOf row.filePathId = some path :=
    (of_decide_eq_true (List.mem_filter.1 row_mem).2).2
  rcases Option.map_eq_some_iff.1 located with ⟨⟨id, _⟩, found, rfl⟩
  rcases Rows.mem_of_lookup_eq_some found with ⟨pair_mem, same_id⟩
  rcases List.mem_map.1 pair_mem with ⟨filePath, filePath_mem, same_pair⟩
  cases same_pair
  rw [filePaths] at filePath_mem
  have by_id := Rows.lookup_eq_some_of_mem contents.filePath_ids_nodup filePath_mem
  have by_path := Rows.lookup_eq_some_of_mem contents.filePath_paths_nodup filePath_mem
  change filePath.id = row.filePathId at same_id
  simp [Database.foundHunk, Database.languageOf, filePaths, ← same_id, by_id, by_path]

theorem hunksAt_eq_nil_iff {sha path : String} :
    db.hunksAt sha path = [] ↔ db.rowsAt sha path = [] :=
  List.map_eq_nil_iff

theorem viewsAt_eq_nil_iff {sha path : String} :
    db.viewsAt sha path = [] ↔ db.rowsAt sha path = [] :=
  List.map_eq_nil_iff

theorem languageOf_putMany (laid : db.Laid) (put : putMany records db = .ok db') (path : String) :
    db'.languageOf path =
      (StorageCall.putHunks records).pathWrites.foldl (writeLanguage path)
        (db.languageOf path) := by
  rcases laid with ⟨contents, laid⟩
  have refined := putMany_withContents records db contents
  rw [← laid, put] at refined
  rcases Option.map_eq_some_iff.1 refined.symm with ⟨contents', accepted, rfl⟩
  have written := IndexContents.languageOf_call
    (show contents.call (.putHunks records) = some contents' from accepted) path
  have before : db.languageOf path = contents.languageOf path := by
    rw [laid]
    rfl
  rw [before]
  exact written

/-- The language of a path after a batch whose records of the path name one language. -/
theorem languageOf_putMany_alike (laid : db.Laid) (put : putMany records db = .ok db')
    {path : String} {language : Option String}
    (alike : ∀ record ∈ records, record.hunk.filePath = path → record.hunk.language = language) :
    db'.languageOf path =
      if ∃ record ∈ records, record.hunk.filePath = path then language.or (db.languageOf path)
      else db.languageOf path := by
  have written : ∀ write ∈ (StorageCall.putHunks records).pathWrites,
      write.1 = path → write.2 = language := by
    simpa [StorageCall.pathWrites] using alike
  have named : path ∈ (StorageCall.putHunks records).pathWrites.map Prod.fst ↔
      ∃ record ∈ records, record.hunk.filePath = path := by
    simp [StorageCall.pathWrites]
  rw [languageOf_putMany laid put, foldl_writeLanguage_alike written]
  simp only [named]

/-- The path of each record is stored with the language the record names. -/
def NamesKept (records : List HunkRecord) (db' : Database) : Prop :=
    ∀ record ∈ records, db'.languageOf record.hunk.filePath = record.hunk.language

theorem namesKept_iff (laid : db.Laid) (put : putMany records db = .ok db') :
    NamesKept records db' ↔
      (∀ record ∈ records, ∀ other ∈ records,
        other.hunk.filePath = record.hunk.filePath →
          other.hunk.language = record.hunk.language) ∧
        ∀ record ∈ records, record.hunk.language = none →
          db.languageOf record.hunk.filePath = none := by
  constructor
  · intro kept
    refine ⟨?_, ?_⟩
    · intro record record_mem other other_mem same
      rw [← kept record record_mem, ← kept other other_mem, same]
    · intro record record_mem unnamed
      have written := languageOf_putMany laid put record.hunk.filePath
      rw [kept record record_mem, unnamed, foldl_writeLanguage_or] at written
      exact (Option.or_eq_none_iff.1 written.symm).2
  · rintro ⟨alike, unnamed⟩ record record_mem
    rw [languageOf_putMany_alike laid put (alike record record_mem),
      if_pos ⟨record, record_mem, rfl⟩]
    cases language : record.hunk.language with
    | none => exact unnamed record record_mem language
    | some _ => rfl

theorem mentioned_iff (laid : db.Laid) (put : putMany records db = .ok db') :
    (∀ sha path, (∃ record ∈ records, record.At sha path) →
      db'.hunksAt sha path =
        (records.filter fun record => decide (record.At sha path)).map HunkRecord.found) ↔
      NamesKept records db' := by
  have laid' := (putMany_spec laid put).laid
  have stored : ∀ record ∈ records, db'.hunksAt record.sha record.hunk.filePath =
      (records.filter fun other => decide (other.At record.sha record.hunk.filePath)).map
        fun other => ⟨other.view, db'.languageOf record.hunk.filePath⟩ := by
    intro record record_mem
    rw [hunksAt_eq laid', viewsAt_putMany laid put, if_pos (List.mem_map_of_mem record_mem),
      List.map_map]
    rfl
  constructor
  · intro mentioned record record_mem
    have replaced := mentioned _ _ ⟨record, record_mem, rfl, rfl⟩
    rw [stored record record_mem, List.map_inj_left] at replaced
    have mine : record ∈ records.filter fun other =>
        decide (other.At record.sha record.hunk.filePath) :=
      List.mem_filter.2 ⟨record_mem, decide_eq_true ⟨rfl, rfl⟩⟩
    exact congrArg Database.FoundHunk.language (replaced record mine)
  · rintro kept sha path ⟨record, record_mem, rfl, rfl⟩
    rw [stored record record_mem]
    apply List.map_congr_left
    intro other other_mem
    have same := of_decide_eq_true (List.mem_filter.1 other_mem).2
    rw [HunkRecord.found, ← kept other (List.mem_of_mem_filter other_mem), same.2]

/-- Where no hunk is left of a commit the batch has records of, a hunk is unchanged when its path
keeps its language. -/
theorem hunksAt_unmentioned_iff (laid : db.Laid) (put : putMany records db = .ok db')
    {sha path : String} (unmentioned : ∀ record ∈ records, ¬record.At sha path) :
    (db'.rowsAt sha path = db.rowsAt sha path ∧ db'.hunksAt sha path = db.hunksAt sha path) ↔
      (db.hunksAt sha path ≠ [] →
        sha ∉ records.map HunkRecord.sha ∧ db'.languageOf path = db.languageOf path) := by
  have views := viewsAt_putMany laid put sha path
  by_cases sha_mem : sha ∈ records.map HunkRecord.sha
  · rw [if_pos sha_mem, List.filter_eq_nil_iff.2 (by simpa using unmentioned),
      List.map_nil] at views
    have nothing_left := viewsAt_eq_nil_iff.1 views
    have nothing_found := hunksAt_eq_nil_iff.2 nothing_left
    constructor
    · rintro ⟨-, same⟩ stored
      exact absurd (same.symm.trans nothing_found) stored
    · intro gone
      have nothing_before : db.hunksAt sha path = [] := by
        by_contra stored
        exact (gone stored).1 sha_mem
      rw [nothing_left, nothing_found, nothing_before, hunksAt_eq_nil_iff.1 nothing_before]
      exact ⟨rfl, rfl⟩
  · rw [if_neg sha_mem] at views
    have rows := rowsAt_putMany laid put sha_mem path
    rw [hunksAt_eq laid, hunksAt_eq (putMany_spec laid put).laid, views]
    cases stored : db.viewsAt sha path with
    | nil => simp [rows]
    | cons view rest => simp +contextual [rows, sha_mem]

/-- A batch replaces by commit and file exactly when each hunk stored under one of its commits is
of a commit and file the batch has a record of, and no record names another language than the other
records of its path do and than its path has under a hunk that is not mentioned. -/
theorem putMany_replacesByFile_iff (records : List HunkRecord) (db db' : Database)
    (laid : db.Laid) (put : putMany records db = .ok db') :
    ReplacesByFile records db db' ↔ Replaceable records db := by
  constructor
  · intro replaces
    have names := (mentioned_iff laid put).1 replaces.mentioned
    rcases (namesKept_iff laid put).1 names with ⟨alike, unnamed⟩
    refine ⟨?_, alike, unnamed, ?_⟩
    · intro sha sha_mem path stored
      by_contra absent
      have unmentioned : ∀ record ∈ records, ¬record.At sha path := by
        intro record record_mem mentioned
        exact absent ⟨record, record_mem, mentioned⟩
      have unchanged := replaces.unmentioned sha path unmentioned
      exact ((hunksAt_unmentioned_iff laid put unmentioned).1 unchanged stored).1 sha_mem
    · intro record record_mem sha unmentioned stored
      have unchanged := replaces.unmentioned sha _ unmentioned
      have same := ((hunksAt_unmentioned_iff laid put unmentioned).1 unchanged stored).2
      rw [← same, names record record_mem]
  · intro replaceable
    have names := (namesKept_iff laid put).2 ⟨replaceable.alike, replaceable.unnamed⟩
    refine ⟨(mentioned_iff laid put).2 names, ?_, putMany_again laid put⟩
    intro sha path unmentioned
    rw [hunksAt_unmentioned_iff laid put unmentioned]
    intro stored
    refine ⟨?_, ?_⟩
    · intro sha_mem
      rcases replaceable.covered sha sha_mem path stored with ⟨record, record_mem, mentioned⟩
      exact unmentioned record record_mem mentioned
    · by_cases written : ∃ record ∈ records, record.hunk.filePath = path
      · rcases written with ⟨record, record_mem, rfl⟩
        rw [names record record_mem, replaceable.kept record record_mem sha unmentioned stored]
      · have alike : ∀ record ∈ records, record.hunk.filePath = path →
            record.hunk.language = none := by
          intro record record_mem same
          exact absurd ⟨record, record_mem, same⟩ written
        rw [languageOf_putMany_alike laid put alike, if_neg written]

/-- A commit is stored and none of its hunks. -/
def oneCommit : Database :=
    Database.empty.withContents { IndexContents.empty with
      commits := [⟨⟨"c1", none, false, none, 1, "m"⟩, List.replicate vectorDimension 0, ""⟩]
      commits_nodup := by simp
      hunk_commit := by simp [IndexContents.empty] }

/-- A hunk of the commit `c1`. -/
def addedLine (path : String) : HunkRecord where
  hunk := ⟨"c1", path, some "rust", .added, "+x"⟩
  diffEmb := List.replicate vectorDimension 0
  semanticText := ""
  symbols := []

/-- Lines of files of the commit can be put whenever the commit is stored. -/
theorem putMany_addedLines {db : Database} (laid : db.Laid) (stored : "c1" ∈ db.shas)
    (paths : List String) : ∃ db', putMany (paths.map addedLine) db = .ok db' :=
  (putMany_defined laid).2 (by simp [addedLine, HunkRecord.sha, stored])

/-- A file is put, and then put again together with a second one. -/
theorem putMany_replacesByFile_again : ∃ db db',
    putMany [addedLine "a.rs"] oneCommit = .ok db ∧
      putMany [addedLine "a.rs", addedLine "b.rs"] db = .ok db' ∧
        ReplacesByFile [addedLine "a.rs", addedLine "b.rs"] db db' := by
  have laid : oneCommit.Laid := ⟨_, rfl⟩
  rcases putMany_addedLines laid (by decide) ["a.rs"] with ⟨db, put⟩
  have first := putMany_spec laid put
  rcases putMany_addedLines first.laid (by rw [first.shas]; decide) ["a.rs", "b.rs"] with
    ⟨db', put'⟩
  refine ⟨db, db', put, put', (putMany_replacesByFile_iff _ db db' first.laid put').2 ?_⟩
  have only_first : ∀ sha path, db.hunksAt sha path ≠ [] → sha = "c1" ∧ path = "a.rs" := by
    intro sha path stored
    rw [hunksAt_eq first.laid, viewsAt_putMany laid put, Ne, List.map_eq_nil_iff] at stored
    split at stored
    · by_contra other
      apply stored
      rw [List.map_eq_nil_iff, List.filter_eq_nil_iff]
      intro record record_mem mentioned
      rw [List.mem_singleton.1 record_mem] at mentioned
      have same := of_decide_eq_true mentioned
      exact other ⟨same.1.symm, same.2.symm⟩
    · exact absurd rfl stored
  have languages : ∀ record ∈ [addedLine "a.rs", addedLine "b.rs"],
      record.hunk.language = some "rust" := by
    simp [addedLine]
  refine ⟨?_, ?_, ?_, ?_⟩
  · intro sha _ path stored
    rcases only_first sha path stored with ⟨rfl, rfl⟩
    exact ⟨addedLine "a.rs", by simp, rfl, rfl⟩
  · intro record record_mem other other_mem _
    rw [languages record record_mem, languages other other_mem]
  · intro record record_mem unnamed
    rw [languages record record_mem] at unnamed
    cases unnamed
  · intro record _ sha unmentioned stored
    rcases only_first sha _ stored with ⟨rfl, same_path⟩
    exact absurd ⟨rfl, same_path.symm⟩ (unmentioned (addedLine "a.rs") (by simp))

/-- Of two files of a commit, put one after the other, the first loses its hunks. -/
theorem not_replacesByFile_second : ¬∀ (records : List HunkRecord) (db db' : Database),
    db.Laid → putMany records db = .ok db' → ReplacesByFile records db db' := by
  intro always
  have laid : oneCommit.Laid := ⟨_, rfl⟩
  rcases putMany_addedLines laid (by decide) ["a.rs"] with ⟨db, put⟩
  have first := putMany_spec laid put
  rcases putMany_addedLines first.laid (by rw [first.shas]; decide) ["b.rs"] with ⟨db', put'⟩
  have replaces := always _ db db' first.laid put'
  have kept := (replaces.unmentioned "c1" "a.rs" (by decide)).2
  have before := viewsAt_putMany laid put "c1" "a.rs"
  have after := viewsAt_putMany first.laid put' "c1" "a.rs"
  rw [if_pos (by decide)] at before after
  rw [hunksAt_eq first.laid, hunksAt_eq (putMany_spec first.laid put').laid, before, after] at kept
  exact absurd (congrArg List.length kept) (by simp [addedLine, HunkRecord.At, HunkRecord.sha])

end Hunk

end Ohara
