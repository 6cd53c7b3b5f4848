import Ohara.Parse.Extract
import Ohara.Storage.Lanes
import Ohara.Storage.Mirror

/-!
# The language of a stored path

`upsert_file_path` keeps the last language that was not null, so a path's language is settled by
the hunks and the snapshot symbols that were ever written for it. The diff walk names no language
for the extensions of Java and Kotlin; a hunk of such a file is admitted under its language only
once some snapshot held a symbol of the file.
-/

namespace Ohara

/-- The upserts of `file_path` a call runs. -/
def StorageCall.pathWrites : StorageCall → List (String × Option String)
  | .putHunks records => records.map fun record => (record.hunk.filePath, record.hunk.language)
  | .putHeadSymbols symbols => symbols.map fun symbol => (symbol.filePath, some symbol.language)
  | .putCommit _ => []
  | .clearHeadSymbols => []

/-- What one upsert leaves of the language of `path`. -/
def writeLanguage (path : String) (old : Option String) (write : String × Option String) :
    Option String :=
    if write.1 = path then write.2.or old else old

/-- The language the committed calls have written for a path; the latest call is first. -/
def languageWritten (path : String) : List StorageCall → Option String
  | [] => none
  | call :: earlier => call.pathWrites.foldl (writeLanguage path) (languageWritten path earlier)

namespace IndexContents

/-- The stored language of a path. -/
def languageOf (contents : IndexContents) (path : String) : Option String :=
    (Rows.lookup FilePathRow.path path contents.filePaths).bind FilePathRow.language

variable {contents contents' : IndexContents}

theorem languageOf_upsertPath (path other : String) (language : Option String)
    (contents : IndexContents) :
    (contents.upsertPath path language).languageOf other =
      writeLanguage other (contents.languageOf other) (path, language) := by
  simp only [languageOf, upsertPath, upsertedPaths, writeLanguage]
  split
  · next same =>
      subst same
      have written := Rows.lookup_upsert_self FilePathRow.path
        (FilePathRow.coalesceLanguage language) (fun _ => rfl) (contents.newPathRow path language)
        contents.filePaths
      change Rows.lookup FilePathRow.path path _ = _ at written
      rw [written]
      change (some (((Rows.lookup FilePathRow.path path contents.filePaths).map _).getD _)).bind _ =
        _
      cases Rows.lookup FilePathRow.path path contents.filePaths with
      | none => cases language <;> rfl
      | some row => rfl
  · next distinct =>
      rw [Rows.lookup_upsert_of_ne FilePathRow.path (FilePathRow.coalesceLanguage language)
        (fun _ => rfl) (Ne.symm distinct)]

theorem languageOf_addHunks {records : List HunkRecord}
    (added : records.foldlM addHunk contents = some contents') (path : String) :
    contents'.languageOf path =
      (StorageCall.putHunks records).pathWrites.foldl (writeLanguage path)
        (contents.languageOf path) := by
  induction records generalizing contents with
  | nil =>
      cases added
      rfl
  | cons record rest ih =>
      rw [List.foldlM_cons] at added
      rcases Option.bind_eq_some_iff.1 added with ⟨next, first, others⟩
      rcases addHunk_cases first with ⟨known, -, rfl⟩
      rw [ih others]
      have written := languageOf_upsertPath record.hunk.filePath path record.hunk.language contents
      exact congrArg (fun language => List.foldl (writeLanguage path) language
        ((StorageCall.putHunks rest).pathWrites)) written

theorem filePaths_deleteHunks (shas : List String) (contents : IndexContents) :
    (shas.foldl deleteHunks contents).filePaths = contents.filePaths := by
  induction shas generalizing contents with
  | nil => rfl
  | cons sha rest ih =>
      rw [List.foldl_cons, ih]
      rfl

theorem languageOf_addSymbols (symbols : List Symbol) (contents : IndexContents) (path : String) :
    (symbols.foldl addSymbol contents).languageOf path =
      (StorageCall.putHeadSymbols symbols).pathWrites.foldl (writeLanguage path)
        (contents.languageOf path) := by
  induction symbols generalizing contents with
  | nil => rfl
  | cons symbol rest ih =>
      rw [List.foldl_cons, ih]
      have written := languageOf_upsertPath symbol.filePath path (some symbol.language) contents
      exact congrArg (fun language => List.foldl (writeLanguage path) language
        ((StorageCall.putHeadSymbols rest).pathWrites)) written

/-- A call writes the languages of its upserts, and no other. -/
theorem languageOf_call {call : StorageCall} (called : contents.call call = some contents')
    (path : String) : contents'.languageOf path =
      call.pathWrites.foldl (writeLanguage path) (contents.languageOf path) := by
  cases call with
  | putCommit record =>
      simp only [IndexContents.call, putCommit] at called
      split at called
      · cases called
        rfl
      · cases called
  | putHunks records =>
      simp only [IndexContents.call, putHunks] at called
      split at called
      · next empty =>
          cases called
          rw [List.isEmpty_iff.1 empty]
          rfl
      · rw [languageOf_addHunks called, languageOf, filePaths_deleteHunks, ← languageOf]
  | putHeadSymbols symbols =>
      cases called
      exact languageOf_addSymbols symbols contents.clearSymbols path
  | clearHeadSymbols =>
      cases called
      rfl

/-- The hunks seen after a call were seen before it or are the call's. -/
theorem mem_hunkViews_call {call : StorageCall} (called : contents.call call = some contents')
    {sha : String} {view : HunkView} (view_mem : view ∈ contents'.hunkViews sha) :
    view ∈ contents.hunkViews sha ∨
      ∃ records, call = .putHunks records ∧ view ∈ records.map HunkRecord.view := by
  cases call with
  | putCommit record =>
      rw [hunkViews_putCommit called] at view_mem
      exact Or.inl view_mem
  | putHunks records =>
      rw [hunkViews_putHunks called] at view_mem
      split at view_mem
      · rcases List.mem_map.1 view_mem with ⟨record, record_mem, rfl⟩
        exact Or.inr ⟨records, rfl, List.mem_map_of_mem (List.mem_of_mem_filter record_mem)⟩
      · exact Or.inl view_mem
  | putHeadSymbols symbols =>
      cases called
      rw [hunkViews_putSymbols] at view_mem
      exact Or.inl view_mem
  | clearHeadSymbols =>
      cases called
      rw [hunkViews_clearSymbols] at view_mem
      exact Or.inl view_mem

/-- A hunk is admitted under a language when its path is stored with it. -/
theorem admits_iff_languageOf {db : Database} {hunk : StoredHunk} {path language : String}
    (hunk_mem : hunk ∈ contents.hunks) (located : contents.pathOf hunk.filePathId = some path) :
    (db.withContents contents).Admits hunk.row language ↔
      contents.languageOf path = some language := by
  rw [admits_iff hunk_mem]
  rcases List.mem_map.1 (contents.hunk_path hunk hunk_mem) with ⟨row, row_mem, same_id⟩
  have same_path : row.path = path := by
    rw [← same_id, pathOf_of_mem row_mem] at located
    exact Option.some.inj located
  have found := Rows.lookup_eq_some_of_mem contents.filePath_paths_nodup row_mem
  rw [languageOf, ← same_path, found, Option.bind_some]
  constructor
  · intro stored
    exact stored row row_mem same_id
  · intro stored other other_mem other_id
    have same_row : other = row :=
      List.inj_on_of_nodup_map contents.filePath_ids_nodup other_mem row_mem
        (other_id.trans same_id.symm)
    exact same_row ▸ stored

end IndexContents

/-! ## What the committed calls wrote -/

theorem foldl_writeLanguage_eq_some {path language : String} {old : Option String}
    {writes : List (String × Option String)}
    (written : writes.foldl (writeLanguage path) old = some language) :
    old = some language ∨ (path, some language) ∈ writes := by
  induction writes generalizing old with
  | nil => exact Or.inl written
  | cons write rest ih =>
      rcases ih written with first | later
      · unfold writeLanguage at first
        split at first
        · next same =>
            rcases write with ⟨target, language'⟩
            cases language' with
            | none => exact Or.inl first
            | some language' =>
                cases same
                cases first
                exact Or.inr List.mem_cons_self
        · exact Or.inl first
      · exact Or.inr (List.mem_cons_of_mem _ later)

theorem isSome_foldl_writeLanguage {path : String} {old : Option String}
    {writes : List (String × Option String)}
    (known : old.isSome ∨ ∃ language, (path, some language) ∈ writes) :
    (writes.foldl (writeLanguage path) old).isSome := by
  induction writes generalizing old with
  | nil =>
      rcases known with old_known | ⟨language, absent⟩
      · exact old_known
      · cases absent
  | cons write rest ih =>
      apply ih
      rcases known with old_known | ⟨language, write_mem⟩
      · left
        unfold writeLanguage
        split
        · simp [old_known]
        · exact old_known
      · rcases List.mem_cons.1 write_mem with rfl | later
        · left
          simp [writeLanguage]
        · exact Or.inr ⟨language, later⟩

theorem mem_of_languageWritten {path language : String} {committed : List StorageCall}
    (written : languageWritten path committed = some language) :
    ∃ call ∈ committed, (path, some language) ∈ call.pathWrites := by
  induction committed with
  | nil => cases written
  | cons call earlier ih =>
      rcases foldl_writeLanguage_eq_some written with before | now
      · rcases ih before with ⟨call, call_mem, write_mem⟩
        exact ⟨call, List.mem_cons_of_mem _ call_mem, write_mem⟩
      · exact ⟨call, List.mem_cons_self, now⟩

/-- A written language is never lost. -/
theorem isSome_languageWritten {path language : String} {committed : List StorageCall}
    {call : StorageCall} (call_mem : call ∈ committed)
    (write_mem : (path, some language) ∈ call.pathWrites) :
    (languageWritten path committed).isSome := by
  induction committed with
  | nil => cases call_mem
  | cons first earlier ih =>
      apply isSome_foldl_writeLanguage
      rcases List.mem_cons.1 call_mem with rfl | before
      · exact Or.inr ⟨language, write_mem⟩
      · exact Or.inl (ih before)

namespace CallLog

/-- The log accounts for every stored language and every stored hunk. -/
structure Traced (log : CallLog) (contents : IndexContents) : Prop where
  layout : log.db = Database.empty.withContents contents
  languages : ∀ path, contents.languageOf path = languageWritten path log.committed
  hunks : ∀ sha, ∀ view ∈ contents.hunkViews sha,
    ∃ records, .putHunks records ∈ log.committed ∧ view ∈ records.map HunkRecord.view

theorem traced_empty : empty.Traced IndexContents.empty where
  layout := rfl
  languages _ := rfl
  hunks _ view view_mem := by cases view_mem

theorem serve_traced {log : CallLog} {contents : IndexContents} (traced : log.Traced contents)
    (event : CallEvent) : ∃ contents', (log.serve event).Traced contents' := by
  rcases serve_cases traced.layout event with unchanged | ⟨contents', accepted, committed⟩
  · rw [unchanged]
    exact ⟨contents, traced⟩
  · rw [committed]
    refine ⟨contents', rfl, ?_, ?_⟩
    · intro path
      rw [IndexContents.languageOf_call accepted, traced.languages]
      rfl
    · intro sha view view_mem
      rcases IndexContents.mem_hunkViews_call accepted view_mem with before | ⟨records, same, now⟩
      · rcases traced.hunks sha view before with ⟨records, put, stored⟩
        exact ⟨records, List.mem_cons_of_mem _ put, stored⟩
      · exact ⟨records, same ▸ List.mem_cons_self, now⟩

theorem serveAll_traced {log : CallLog} {contents : IndexContents} (traced : log.Traced contents)
    (events : List CallEvent) : ∃ contents', (log.serveAll events).Traced contents' := by
  induction events generalizing log contents with
  | nil => exact ⟨contents, traced⟩
  | cons event rest ih =>
      rcases serve_traced traced event with ⟨contents', traced'⟩
      exact ih traced'

theorem committed_serve {log : CallLog} {event : CallEvent} {call : StorageCall}
    (call_mem : call ∈ (log.serve event).committed) : call ∈ log.committed ∨ call = event.call := by
  unfold serve at call_mem
  split at call_mem
  · exact Or.inl call_mem
  · split at call_mem
    · rcases List.mem_cons.1 call_mem with rfl | before
      · exact Or.inr rfl
      · exact Or.inl before
    · exact Or.inl call_mem

theorem committed_serveAll {log : CallLog} {events : List CallEvent} {call : StorageCall}
    (call_mem : call ∈ (log.serveAll events).committed) :
    call ∈ log.committed ∨ ∃ event ∈ events, call = event.call := by
  induction events generalizing log with
  | nil => exact Or.inl call_mem
  | cons event rest ih =>
      rcases ih call_mem with served | ⟨later, later_mem, same⟩
      · rcases committed_serve served with before | now
        · exact Or.inl before
        · exact Or.inr ⟨event, List.mem_cons_self, now⟩
      · exact Or.inr ⟨later, List.mem_cons_of_mem _ later_mem, same⟩

end CallLog

/-! ## Runs of the indexer -/

/-- A hunk of the diff walk, with what the later stages add to it. -/
structure DiffRecord where
  sha : String
  filePath : String
  changeKind : ChangeKind
  diffText : String
  diffEmb : Vector
  semanticText : String
  symbols : List HunkSymbol

/-- The hunk that the indexer makes of a diff. -/
def DiffRecord.record (diff : DiffRecord) : HunkRecord where
  hunk := makeHunk diff.sha diff.filePath diff.changeKind diff.diffText
  diffEmb := diff.diffEmb
  semanticText := diff.semanticText
  symbols := diff.symbols

/-- The calls of the indexer, with what it reads from the repository in place of the rows. -/
inductive IndexerCall where
  | putCommit (record : CommitRecord)
  | putHunks (diffs : List DiffRecord)
  | putHeadSymbols (tree : List TreeFile)
  | clearHeadSymbols

/-- The call, as the storage receives it. -/
def IndexerCall.storageCall (grammars : Grammars) : IndexerCall → StorageCall
  | .putCommit record => .putCommit record
  | .putHunks diffs => .putHunks (diffs.map DiffRecord.record)
  | .putHeadSymbols tree => .putHeadSymbols (extractHeadSymbols grammars tree)
  | .clearHeadSymbols => .clearHeadSymbols

/-- Serve calls of the indexer, some of them interrupted, from an empty index. -/
def indexerRun (grammars : Grammars) (calls : List (IndexerCall × Bool)) : CallLog :=
    CallLog.empty.serveAll (calls.map fun call => ⟨call.1.storageCall grammars, call.2⟩)

theorem committed_indexerRun {grammars : Grammars} {calls : List (IndexerCall × Bool)}
    {call : StorageCall} (call_mem : call ∈ (indexerRun grammars calls).committed) :
    ∃ source : IndexerCall, call = source.storageCall grammars := by
  rcases CallLog.committed_serveAll call_mem with absent | ⟨event, event_mem, rfl⟩
  · cases absent
  · rcases List.mem_map.1 event_mem with ⟨source, -, rfl⟩
    exact ⟨source.1, rfl⟩

/-- A language the indexer writes for a path is the diff walk's or the extractor's. -/
theorem pathWrites_storageCall {grammars : Grammars} {source : IndexerCall} {path language : String}
    (write_mem : (path, some language) ∈ (source.storageCall grammars).pathWrites) :
    detectLanguage path = some language ∨
      (∃ extractor, dispatch path = some extractor ∧ language = extractor.language) ∧
      ∃ symbols, source.storageCall grammars = .putHeadSymbols symbols ∧
        ∃ symbol ∈ symbols, symbol.filePath = path := by
  cases source with
  | putCommit record => cases write_mem
  | clearHeadSymbols => cases write_mem
  | putHunks diffs =>
      simp only [IndexerCall.storageCall, StorageCall.pathWrites, List.map_map,
        List.mem_map] at write_mem
      rcases write_mem with ⟨diff, -, written⟩
      rcases Prod.mk.inj written with ⟨rfl, detected⟩
      exact Or.inl detected
  | putHeadSymbols tree =>
      rcases List.mem_map.1 write_mem with ⟨symbol, symbol_mem, written⟩
      rcases Prod.mk.inj written with ⟨rfl, stamped⟩
      rcases language_of_headSymbol symbol_mem with ⟨extractor, dispatched, language_eq⟩
      refine Or.inr ⟨⟨extractor, dispatched, ?_⟩, _, rfl, symbol, symbol_mem, rfl⟩
      rw [← language_eq]
      exact (Option.some.inj stamped).symm

/-- The indexer writes the language the diff walk names for a hunk. -/
theorem pathWrites_of_hunk {grammars : Grammars} {source : IndexerCall} {records : List HunkRecord}
    {record : HunkRecord} (same : .putHunks records = source.storageCall grammars)
    (record_mem : record ∈ records) :
    (record.hunk.filePath, detectLanguage record.hunk.filePath) ∈
      (StorageCall.putHunks records).pathWrites := by
  cases source with
  | putHunks diffs =>
      cases same
      rcases List.mem_map.1 record_mem with ⟨diff, -, rfl⟩
      exact List.mem_map.2 ⟨diff.record, record_mem, rfl⟩
  | putCommit record => cases same
  | putHeadSymbols tree => cases same
  | clearHeadSymbols => cases same

/--
After any calls of the indexer, the lanes admit a stored hunk under the language its path is
dispatched to exactly when the diff walk names that language too or some committed snapshot held
a symbol of the path.
-/
theorem language_filter_iff (grammars : Grammars) (calls : List (IndexerCall × Bool))
    (row : HunkRow) (path : String) (extractor : Extractor)
    (stored : row ∈ (indexerRun grammars calls).db.hunk)
    (located : (indexerRun grammars calls).db.pathOf row.filePathId = some path)
    (dispatched : dispatch path = some extractor) :
    (indexerRun grammars calls).db.Admits row extractor.language ↔
      detectLanguage path = some extractor.language ∨
      ∃ symbols, .putHeadSymbols symbols ∈ (indexerRun grammars calls).committed ∧
        ∃ symbol ∈ symbols, symbol.filePath = path := by
  have writers : ∀ {call : StorageCall},
      call ∈ (indexerRun grammars calls).committed →
        ∃ source : IndexerCall, call = source.storageCall grammars := committed_indexerRun
  rcases CallLog.serveAll_traced CallLog.traced_empty
    (calls.map fun call => ⟨call.1.storageCall grammars, call.2⟩) with ⟨contents, traced⟩
  change (indexerRun grammars calls).Traced contents at traced
  generalize indexerRun grammars calls = log at stored located writers traced ⊢
  rw [traced.layout] at stored located ⊢
  rcases List.mem_map.1 stored with ⟨hunk, hunk_mem, rfl⟩
  rw [IndexContents.admits_iff_languageOf hunk_mem located, traced.languages]
  constructor
  · intro written
    rcases mem_of_languageWritten written with ⟨call, call_mem, write_mem⟩
    rcases writers call_mem with ⟨source, rfl⟩
    rcases pathWrites_storageCall write_mem with detected | ⟨-, symbols, same, held⟩
    · exact Or.inl detected
    · exact Or.inr ⟨symbols, same ▸ call_mem, held⟩
  · intro known
    have written_some : (languageWritten path log.committed).isSome := by
      rcases known with detected | ⟨symbols, put, symbol, symbol_mem, rfl⟩
      · have seen : contents.view hunk ∈ contents.hunkViews hunk.commitSha :=
          List.mem_map_of_mem (List.mem_filter.2 ⟨hunk_mem, decide_eq_true rfl⟩)
        rcases traced.hunks _ _ seen with ⟨records, put, viewed⟩
        rcases List.mem_map.1 viewed with ⟨record, record_mem, same_view⟩
        rcases writers put with ⟨source, same⟩
        have same_path : record.hunk.filePath = path :=
          Option.some.inj ((congrArg HunkView.path same_view).trans located)
        have write_mem := pathWrites_of_hunk same record_mem
        rw [same_path, detected] at write_mem
        exact isSome_languageWritten put write_mem
      · exact isSome_languageWritten put (List.mem_map.2 ⟨symbol, symbol_mem, rfl⟩)
    rcases Option.isSome_iff_exists.1 written_some with ⟨language, written⟩
    rcases mem_of_languageWritten written with ⟨call, call_mem, write_mem⟩
    rcases writers call_mem with ⟨source, rfl⟩
    rw [written]
    rcases pathWrites_storageCall write_mem with detected | ⟨⟨other, dispatched', rfl⟩, -⟩
    · rw [detectLanguage_of_dispatch dispatched detected]
    · rw [Option.some.inj (dispatched'.symm.trans dispatched)]

/-! One commit that adds one file, and a snapshot of a tree without it. -/

namespace OneFile

/-- The commit of the example. -/
def commit : CommitRecord where
  commitMeta :=
    { commitSha := "c1", parentSha := none, isMerge := false, author := none, ts := 0,
      message := "add retry" }
  messageEmb := List.replicate vectorDimension 0
  ulid := "01"

/-- A hunk of a file. -/
def diff (path : String) : DiffRecord where
  sha := "c1"
  filePath := path
  changeKind := .added
  diffText := "+ retry()"
  diffEmb := List.replicate vectorDimension 0
  semanticText := "retry"
  symbols := []

/-- No definitions anywhere. -/
def grammars : Grammars :=
    fun _ _ => .ok []

/-- A commit with one hunk is put. -/
def calls (path : String) : List (IndexerCall × Bool) :=
    [(.putCommit commit, false), (.putHunks [diff path], false), (.putHeadSymbols [], false)]

/-- Its row. -/
def row : HunkRow where
  id := 1
  commitSha := "c1"
  filePathId := 1
  changeKind := "added"
  diffText := "+ retry()"
  semanticText := "retry"

end OneFile

open OneFile in
theorem language_filter_of_rust_file :
    (indexerRun grammars (calls "src/retry.rs")).db.Admits row "rust" :=
  (language_filter_iff grammars (calls "src/retry.rs") row "src/retry.rs" .rust (by decide +kernel)
    (by decide +kernel) (by decide)).2 (Or.inl (by decide))

open OneFile in
/-- The file is gone from the tree, so no snapshot names its language. -/
theorem deleted_java_file_hidden :
    row ∈ (indexerRun grammars (calls "Retry.java")).db.hunk ∧
    (indexerRun grammars (calls "Retry.java")).db.pathOf row.filePathId = some "Retry.java" ∧
    dispatch "Retry.java" = some .java ∧
    ¬ (indexerRun grammars (calls "Retry.java")).db.Admits row "java" := by
  refine ⟨by decide +kernel, by decide +kernel, by decide, ?_⟩
  intro admits
  have kept := admits (.knn [1]) none ⟨row, ⟨1, "Retry.java", none⟩, commit.row⟩
    (by decide +kernel) rfl
  exact absurd kept (by decide +kernel)

end Ohara
