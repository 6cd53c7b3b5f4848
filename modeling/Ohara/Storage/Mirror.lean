import Ohara.Storage.Refinement
import Ohara.Storage.Views

/-!
# The mirrors stay in step

Seven tables are kept next to `commit_record`, `hunk` and `symbol` by hand-written deletes and
inserts. Any sequence of storage calls, each committed or rolled back, keeps them in step: the
tables are at every moment the layout of some contents, and a layout has its mirrors in step.
-/

namespace Ohara

/-- The calls that write the index. -/
inductive StorageCall where
  | putCommit (record : CommitRecord)
  | putHunks (records : List HunkRecord)
  | putHeadSymbols (symbols : List Symbol)
  | clearHeadSymbols

/-- The body of the call's transaction. -/
def StorageCall.body : StorageCall → Database → Except SqlError Database
  | .putCommit record => Commit.put record
  | .putHunks records => Hunk.putMany records
  | .putHeadSymbols symbols => Symbol.putMany symbols
  | .clearHeadSymbols => Symbol.clearAll

/-- A call, and whether its transaction is interrupted from outside and so rolled back. -/
structure CallEvent where
  call : StorageCall
  interrupted : Bool

/-- The database with the calls that have committed, latest first. -/
structure CallLog where
  db : Database
  committed : List StorageCall

namespace CallLog

/-- The migrations have run and nothing was called. -/
def empty : CallLog where
  db := Database.empty
  committed := []

/-- Serve one call: it commits, or everything it did is rolled back. -/
def serve (log : CallLog) (event : CallEvent) : CallLog :=
    if event.interrupted then log
    else
      match transaction event.call.body log.db with
      | (.ok (), db) => { db := db, committed := event.call :: log.committed }
      | (.error _, db) => { log with db := db }

/-- Serve the calls in order. -/
def serveAll (log : CallLog) (events : List CallEvent) : CallLog :=
    events.foldl serve log

end CallLog

/-- The embedding a commit was last put with. -/
def lastPutEmbedding (sha : String) : List StorageCall → Option Vector
  | [] => none
  | .putCommit record :: earlier =>
      if record.commitMeta.commitSha = sha then some record.messageEmb
      else lastPutEmbedding sha earlier
  | _ :: earlier => lastPutEmbedding sha earlier

/-- Every row has its mirror rows, and no mirror row is left over. -/
structure MirrorsInStep (db : Database) (embeddingOf : String → Option Vector) : Prop where
  vecHunk : ∀ hunk ∈ db.hunk, ∃ row,
    db.vecHunk.filter (fun row => decide (row.hunkId = hunk.id)) = [row]
  ftsHunkText : ∀ hunk ∈ db.hunk,
    db.ftsHunkText.filter (fun row => decide (row.hunkId = hunk.id)) = [⟨hunk.id, hunk.diffText⟩]
  ftsHunkSemantic : ∀ hunk ∈ db.hunk,
    db.ftsHunkSemantic.filter (fun row => decide (row.hunkId = hunk.id)) =
      [⟨hunk.id, if hunk.semanticText.isEmpty then hunk.diffText else hunk.semanticText⟩]
  no_ghost_vecHunk : ∀ row ∈ db.vecHunk, row.hunkId ∈ db.hunk.map HunkRow.id
  no_ghost_ftsHunkText : ∀ row ∈ db.ftsHunkText, row.hunkId ∈ db.hunk.map HunkRow.id
  no_ghost_ftsHunkSemantic : ∀ row ∈ db.ftsHunkSemantic, row.hunkId ∈ db.hunk.map HunkRow.id
  no_ghost_hunkSymbol : ∀ row ∈ db.hunkSymbol, row.hunkId ∈ db.hunk.map HunkRow.id
  ftsCommit : ∀ commit ∈ db.commitRecord,
    db.ftsCommit.filter (fun row => decide (row.sha = commit.sha)) = [⟨commit.sha, commit.message⟩]
  vecCommit : ∀ commit ∈ db.commitRecord, ∃ embedding, embeddingOf commit.sha = some embedding ∧
    db.vecCommit.filter (fun row => decide (row.commitSha = commit.sha)) =
      [⟨commit.sha, vecToBytes embedding⟩]
  ftsSymbolName : ∀ symbol ∈ db.symbol,
    db.ftsSymbolName.filter (fun row => decide (row.symbolId = symbol.id)) =
      [⟨symbol.id, symbol.kind, symbol.name, symbol.siblingNames⟩]
  symbol : ∀ row ∈ db.ftsSymbolName, ∃ symbol,
    db.symbol.filter (fun symbol => decide (symbol.id = row.symbolId)) = [symbol]

/-- The tables that hold hunks are the same. -/
def SameHunkTables (db db' : Database) : Prop :=
    db'.hunk = db.hunk ∧ db'.vecHunk = db.vecHunk ∧ db'.ftsHunkText = db.ftsHunkText ∧
      db'.ftsHunkSemantic = db.ftsHunkSemantic ∧ db'.hunkSymbol = db.hunkSymbol

namespace IndexContents

/-- The contents a call leaves, when it is not refused. -/
def call : StorageCall → IndexContents → Option IndexContents
  | .putCommit record, contents => contents.putCommit record
  | .putHunks records, contents => contents.putHunks records
  | .putHeadSymbols symbols, contents => some (contents.putSymbols symbols)
  | .clearHeadSymbols, contents => some contents.clearSymbols

end IndexContents

theorem body_withContents (call : StorageCall) (db : Database) (contents : IndexContents) :
    (call.body (db.withContents contents)).toOption =
      (contents.call call).map db.withContents := by
  cases call with
  | putCommit record => exact Commit.put_withContents record db contents
  | putHunks records => exact Hunk.putMany_withContents records db contents
  | putHeadSymbols symbols =>
      exact congrArg Except.toOption (Symbol.putMany_withContents symbols db contents)
  | clearHeadSymbols =>
      exact congrArg Except.toOption (Symbol.clearAll_withContents db contents)

theorem mirrorsInStep_withContents {db : Database} {contents : IndexContents}
    {embeddingOf : String → Option Vector}
    (embeddings : ∀ record ∈ contents.commits,
      embeddingOf record.sha = some record.messageEmb) :
    MirrorsInStep (db.withContents contents) embeddingOf where
  vecHunk := by
    intro row row_mem
    rcases List.mem_map.1 row_mem with ⟨hunk, hunk_mem, rfl⟩
    exact ⟨hunk.vecRow, Rows.filter_mirror_eq_singleton StoredHunk.vecRow (fun _ => rfl)
      contents.hunk_ids_nodup hunk_mem⟩
  ftsHunkText := by
    intro row row_mem
    rcases List.mem_map.1 row_mem with ⟨hunk, hunk_mem, rfl⟩
    exact Rows.filter_mirror_eq_singleton StoredHunk.textRow (fun _ => rfl)
      contents.hunk_ids_nodup hunk_mem
  ftsHunkSemantic := by
    intro row row_mem
    rcases List.mem_map.1 row_mem with ⟨hunk, hunk_mem, rfl⟩
    have content : (if hunk.row.semanticText.isEmpty then hunk.row.diffText
        else hunk.row.semanticText) = hunk.semanticText := by
      split
      · exact hunk.semantic_fallback ‹_›
      · rfl
    rw [content]
    exact Rows.filter_mirror_eq_singleton StoredHunk.semanticRow (fun _ => rfl)
      contents.hunk_ids_nodup hunk_mem
  no_ghost_vecHunk := by
    intro row row_mem
    rcases List.mem_map.1 row_mem with ⟨hunk, hunk_mem, rfl⟩
    exact List.mem_map.2 ⟨hunk.row, List.mem_map_of_mem hunk_mem, rfl⟩
  no_ghost_ftsHunkText := by
    intro row row_mem
    rcases List.mem_map.1 row_mem with ⟨hunk, hunk_mem, rfl⟩
    exact List.mem_map.2 ⟨hunk.row, List.mem_map_of_mem hunk_mem, rfl⟩
  no_ghost_ftsHunkSemantic := by
    intro row row_mem
    rcases List.mem_map.1 row_mem with ⟨hunk, hunk_mem, rfl⟩
    exact List.mem_map.2 ⟨hunk.row, List.mem_map_of_mem hunk_mem, rfl⟩
  no_ghost_hunkSymbol := (withContents_foreignKeys db contents).2.2.2
  ftsCommit := by
    intro row row_mem
    rcases List.mem_map.1 row_mem with ⟨record, record_mem, rfl⟩
    exact Rows.filter_mirror_eq_singleton CommitRecord.ftsRow (fun _ => rfl)
      contents.commits_nodup record_mem
  vecCommit := by
    intro row row_mem
    rcases List.mem_map.1 row_mem with ⟨record, record_mem, rfl⟩
    exact ⟨record.messageEmb, embeddings record record_mem,
      Rows.filter_mirror_eq_singleton CommitRecord.vecRow (fun _ => rfl)
        contents.commits_nodup record_mem⟩
  ftsSymbolName := by
    intro row row_mem
    rcases List.mem_map.1 row_mem with ⟨stored, stored_mem, rfl⟩
    exact Rows.filter_mirror_eq_singleton StoredSymbol.nameRow (fun _ => rfl)
      contents.symbol_ids_nodup stored_mem
  symbol := by
    intro row row_mem
    rcases List.mem_map.1 row_mem with ⟨stored, stored_mem, rfl⟩
    exact ⟨stored.row, Rows.filter_mirror_eq_singleton StoredSymbol.row (fun _ => rfl)
      contents.symbol_ids_nodup stored_mem⟩

namespace CallLog

/-- The log's tables are the layout of `contents`, whose embeddings are the last put ones. -/
def Holds (log : CallLog) (contents : IndexContents) : Prop :=
    log.db = Database.empty.withContents contents ∧
      ∀ sha, (Rows.lookup CommitRecord.sha sha contents.commits).map CommitRecord.messageEmb =
        lastPutEmbedding sha log.committed

theorem holds_empty : empty.Holds IndexContents.empty :=
  ⟨rfl, fun _ => rfl⟩

/-- A committed call moves the last put embeddings with the contents. -/
theorem lookup_call {call : StorageCall} {contents contents' : IndexContents}
    {committed : List StorageCall} (called : contents.call call = some contents')
    (embeddings : ∀ sha, (Rows.lookup CommitRecord.sha sha contents.commits).map
      CommitRecord.messageEmb = lastPutEmbedding sha committed) (sha : String) :
    (Rows.lookup CommitRecord.sha sha contents'.commits).map CommitRecord.messageEmb =
      lastPutEmbedding sha (call :: committed) := by
  cases call with
  | putCommit record =>
      simp only [IndexContents.call, IndexContents.putCommit] at called
      split at called
      · cases called
        by_cases same : record.sha = sha
        · subst same
          rw [Rows.lookup_insertOrReplace_self, lastPutEmbedding]
          exact (if_pos rfl).symm
        · rw [Rows.lookup_insertOrReplace_of_ne (Ne.symm same), embeddings sha, lastPutEmbedding]
          exact (if_neg same).symm
      · cases called
  | putHunks records =>
      rw [IndexContents.commits_putHunks called]
      exact embeddings sha
  | putHeadSymbols symbols =>
      cases called
      rw [IndexContents.commits_putSymbols]
      exact embeddings sha
  | clearHeadSymbols =>
      cases called
      exact embeddings sha

/-- A call either leaves the log or commits and moves the contents as it says. -/
theorem serve_cases {log : CallLog} {contents : IndexContents}
    (layout : log.db = Database.empty.withContents contents) (event : CallEvent) :
    log.serve event = log ∨ ∃ contents', contents.call event.call = some contents' ∧
      log.serve event =
        { db := Database.empty.withContents contents'
          committed := event.call :: log.committed } := by
  have refined := body_withContents event.call Database.empty contents
  rw [← layout] at refined
  unfold serve transaction
  split
  · exact Or.inl rfl
  · cases called : event.call.body log.db with
    | error e => exact Or.inl rfl
    | ok db =>
        rw [called] at refined
        rcases Option.map_eq_some_iff.1 refined.symm with ⟨contents', accepted, rfl⟩
        exact Or.inr ⟨contents', accepted, rfl⟩

theorem serve_holds {log : CallLog} {contents : IndexContents} (holds : log.Holds contents)
    (event : CallEvent) : ∃ contents', (log.serve event).Holds contents' := by
  rcases holds with ⟨layout, embeddings⟩
  rcases serve_cases layout event with unchanged | ⟨contents', accepted, committed⟩
  · rw [unchanged]
    exact ⟨contents, layout, embeddings⟩
  · rw [committed]
    exact ⟨contents', rfl, lookup_call accepted embeddings⟩

theorem serveAll_holds {log : CallLog} {contents : IndexContents} (holds : log.Holds contents)
    (events : List CallEvent) : ∃ contents', (log.serveAll events).Holds contents' := by
  induction events generalizing log contents with
  | nil => exact ⟨contents, holds⟩
  | cons event rest ih =>
      rcases serve_holds holds event with ⟨contents', holds'⟩
      exact ih holds'

end CallLog

/-- Re-putting a commit leaves the hunk tables alone, whether it commits or is refused. -/
theorem put_sameHunkTables (record : CommitRecord) {db : Database} (foreignKeys : db.ForeignKeys) :
    SameHunkTables db (transaction (Commit.put record) db).2 := by
  unfold transaction
  rw [Commit.put_eq record foreignKeys]
  split
  · rename_i put
    split at put
    · cases put
      exact ⟨rfl, rfl, rfl, rfl, rfl⟩
    · cases put
  · exact ⟨rfl, rfl, rfl, rfl, rfl⟩

/-- After any calls the mirrors are in step, and a further `put_commit` leaves all hunks alone. -/
theorem mirrors_in_step (events : List CallEvent) :
    MirrorsInStep (CallLog.empty.serveAll events).db
        (fun sha => lastPutEmbedding sha (CallLog.empty.serveAll events).committed) ∧
      ∀ record, SameHunkTables (CallLog.empty.serveAll events).db
        (transaction (Commit.put record) (CallLog.empty.serveAll events).db).2 := by
  rcases CallLog.serveAll_holds CallLog.holds_empty events with ⟨contents, layout, embeddings⟩
  rw [layout]
  refine ⟨mirrorsInStep_withContents ?_, ?_⟩
  · intro record record_mem
    have found := Rows.lookup_eq_some_of_mem contents.commits_nodup record_mem
    rw [← embeddings, found]
    rfl
  · intro record
    exact put_sameHunkTables record (withContents_foreignKeys _ _)

end Ohara
