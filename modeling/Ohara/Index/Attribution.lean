import Ohara.Index.Command
import Ohara.Index.CommitWrites

/-!
# The symbols a hunk is recorded to touch

`AttributionKind::ExactSpan` says that a changed line lies in the span of the symbol. The stages
record every symbol of the hunk's file that way, so the rows of a commit mean what they say exactly
when its hunks change every symbol of their files.
-/

namespace Ohara

/-! ## Lines -/

/-- The line, from one, of a byte position; it saturates as a `u32`. -/
def lineAt (bytes : List UInt8) (pos : Nat) : Nat :=
    min ((bytes.take pos).count 0x0a + 1) (2 ^ 32 - 1)

/-- `byte_span_to_line_span`: the first and the last line of a range of bytes. -/
def byteSpanToLineSpan (spanStart spanEnd : UInt32) (source : String) : Nat × Nat :=
    let bytes := source.toList.flatMap String.utf8EncodeChar
    let start := min spanStart.toNat bytes.length
    let stop := min spanEnd.toNat bytes.length
    let lineStart := lineAt bytes start
    let lineEnd := if stop = 0 then lineStart else lineAt bytes (stop - 1)
    (lineStart, max lineEnd lineStart)

/-- The number that digits spell; anything else counts as zero. -/
def decimalValue (digits : List Char) : Nat :=
    if digits.all Char.isDigit then
      digits.foldl (fun value c => 10 * value + (c.toNat - '0'.toNat)) 0
    else 0

/-- The post-image line a hunk header `@@ -A,B +C,D @@` starts at: `C`, or the line after it when the
hunk leaves no line. -/
def postImageStart (header : List Char) : Option Nat :=
    match (header.splitOn ' ')[2]? with
    | some ('+' :: range) =>
        match range.splitOn ',' with
        | [start] => some (decimalValue start)
        | start :: count :: _ =>
            some (if decimalValue count = 0 then decimalValue start + 1 else decimalValue start)
        | [] => none
    | _ => none

/-- The changes below the current header, from the post-image line that comes next. An added line is
on one line; a removed one was between two. -/
def changesFrom : Option Nat → List (List Char) → List (Nat × Nat)
  | _, [] => []
  | next, line :: rest =>
      if line.take 2 = ['@', '@'] then changesFrom (postImageStart line) rest
      else
        match next, line with
        | some n, '+' :: _ => (n, n) :: changesFrom (some (n + 1)) rest
        | some n, '-' :: _ => (n - 1, n) :: changesFrom (some n) rest
        | some n, ' ' :: _ => changesFrom (some (n + 1)) rest
        | next, _ => changesFrom next rest

/-- Where a diff changes the post-image, as first and last lines. -/
def changedLines (diffText : String) : List (Nat × Nat) :=
    changesFrom none (splitLines [] diffText.toList)

/-- A changed line lies in the span of the symbol. -/
def Symbol.Changed (symbol : Symbol) (source diffText : String) : Prop :=
    ∃ change ∈ changedLines diffText,
      (byteSpanToLineSpan symbol.spanStart symbol.spanEnd source).1 ≤ change.1 ∧
        change.2 ≤ (byteSpanToLineSpan symbol.spanStart symbol.spanEnd source).2

instance (symbol : Symbol) (source diffText : String) :
    Decidable (symbol.Changed source diffText) := by
  unfold Symbol.Changed
  infer_instance

example : changedLines "--- a/f\n+++ b/f\n@@ -1,3 +1,3 @@ def f():\n a\n-b\n+c\n d\n" =
    [(1, 2), (2, 2)] := by
  decide

/-! ## What the rows say -/

/-- The row is that of the symbol. -/
def HunkSymbolView.Names (row : HunkSymbolView) (symbol : Symbol) : Prop :=
    row.symbolKind = symbol.kind.toStr ∧ row.symbolName = symbol.name ∧
      row.qualifiedName = symbol.qualifiedName

/-- The key the symbol has in `hunk_symbol`, among those of a hunk. -/
def Symbol.hunkKey (symbol : Symbol) : String × String :=
    (symbol.kind.toStr, symbol.name)

/-- The symbols cannot be told apart in a row. -/
def Symbol.SameName (symbol other : Symbol) : Prop :=
    symbol.kind = other.kind ∧ symbol.name = other.name ∧
      symbol.qualifiedName = other.qualifiedName

theorem SymbolKind.toStr_injective : Function.Injective SymbolKind.toStr := by
  intro kind other same
  cases kind <;> cases other <;> first | rfl | simp [SymbolKind.toStr] at same

namespace CommitEnv

variable {env : CommitEnv} {commit : CommitMeta} {work : CommitWork}

/-- Each exact span of the hunk names a symbol of the post-image that the hunk changes. -/
def ExactSpansHold (env : CommitEnv) (sha : String) (view : HunkView) : Prop :=
    ∀ row ∈ view.symbols, row.attributionKind = AttributionKind.exactSpan.asStr →
      ∃ path source symbol, view.path = some path ∧
        env.source.fileAtCommit sha path = .ok (some source) ∧ symbol ∈ env.extract path source ∧
          row.Names symbol ∧ symbol.Changed source view.diffText

/-- The hunk changes every symbol of its file; of several that share a row it is the last one that
has the row. -/
def ChangesEverySymbol (env : CommitEnv) (hunk : Hunk) (source : String) : Prop :=
    ∀ symbol, Rows.IsLast Symbol.hunkKey symbol (env.extract hunk.filePath source) →
      ∃ changed ∈ env.extract hunk.filePath source, symbol.SameName changed ∧
        changed.Changed source hunk.diffText

/-- The symbols parsed from a file; none when it is absent or too large. -/
def parsedSymbols (env : CommitEnv) (path : String) (file : Option String) : List Symbol :=
    (AttributeStage.extractSymbols env.extract path file).getD []

theorem parsedSymbols_some {path source : String} :
    env.parsedSymbols path (some source) =
      if source.utf8ByteSize ≤ AttributeStage.maxAttributableSourceBytes then
        env.extract path source else [] := by
  simp only [parsedSymbols, AttributeStage.extractSymbols]
  split
  · split
    · next empty => simp [empty]
    · rfl
  · rfl

/-- Every row of the work carries the symbols of its file. -/
theorem readCommit_symbols {db : Database} (read : env.readCommit db commit = .ok (some work)) :
    ∀ row ∈ PersistStage.hunkRows work.output, ∃ file,
      env.source.fileAtCommit commit.commitSha row.hunk.filePath = .ok file ∧
        row.symbols = (env.parsedSymbols row.hunk.filePath file).map PersistStage.hunkSymbol := by
  rcases readCommit_stages read with
    ⟨hunks, attributed, cached, -, symbols_found, embed, -⟩
  intro row row_mem
  rcases List.mem_map.1 row_mem with ⟨hunk, hunk_mem, rfl⟩
  have attributed_mem : hunk.attributed ∈ attributed := by
    rw [← embedded_hunks embed]
    exact List.mem_map_of_mem hunk_mem
  have record_mem : hunk.attributed.record ∈
      retainKept env.isIgnored (hunks.map (HunkChunkStage.chunk commit)) := by
    rw [← AttributeStage.attributed_records AttributeStage.memoized_nil symbols_found]
    exact List.mem_map_of_mem attributed_mem
  rcases List.mem_map.1 (List.mem_of_mem_filter record_mem) with ⟨source_hunk, -, chunked⟩
  rcases AttributeStage.attributed_symbols AttributeStage.memoized_nil symbols_found _ attributed_mem
    with ⟨file, fetched, symbols⟩
  have path : hunk.attributed.record.sourceHunk.filePath = hunk.attributed.record.filePath := by
    rw [← chunked]
    rfl
  refine ⟨file, ?_, ?_⟩
  · rw [← fetched, ← path]
    rfl
  · rw [parsedSymbols, show (PersistStage.hunkRow hunk).hunk.filePath = _ from path, ← symbols]
    rfl

theorem mem_view_symbols {record : HunkRecord} {symbols : List Symbol}
    (recorded : record.symbols = symbols.map PersistStage.hunkSymbol) {row : HunkSymbolView} :
    row ∈ record.view.symbols ↔
      ∃ symbol, Rows.IsLast Symbol.hunkKey symbol symbols ∧
        (PersistStage.hunkSymbol symbol).view = row := by
  simp only [HunkRecord.view, recorded, List.mem_map]
  constructor
  · rintro ⟨stored, stored_mem, rfl⟩
    rcases Rows.mem_foldl_insertOrReplace.1 stored_mem with ⟨stored_mem, -⟩ | last
    · cases stored_mem
    · rcases Rows.isLast_map.1 last with ⟨symbol, parsed_last, rfl⟩
      exact ⟨symbol, parsed_last, rfl⟩
  · rintro ⟨symbol, last, rfl⟩
    exact ⟨_, Rows.mem_foldl_insertOrReplace.2 (Or.inr (Rows.isLast_map.2 ⟨symbol, last, rfl⟩)), rfl⟩

/-- The rows of one hunk mean what they say exactly when it changes every symbol of its file. -/
theorem exactSpansHold_iff {sha : String} {record : HunkRecord} {file : Option String}
    (fetched : env.source.fileAtCommit sha record.hunk.filePath = .ok file)
    (recorded : record.symbols =
      (env.parsedSymbols record.hunk.filePath file).map PersistStage.hunkSymbol) :
    env.ExactSpansHold sha record.view ↔ ∀ source,
      env.source.fileAtCommit sha record.hunk.filePath = .ok (some source) →
      source.utf8ByteSize ≤ AttributeStage.maxAttributableSourceBytes →
        env.ChangesEverySymbol record.hunk source := by
  constructor
  · intro hold source present small symbol last
    rw [fetched] at present
    cases present
    rw [parsedSymbols_some, if_pos small] at recorded
    have row_mem := (mem_view_symbols recorded).2 ⟨symbol, last, rfl⟩
    rcases hold _ row_mem rfl with ⟨path, source', changed, found, read, extracted, names, change⟩
    cases found
    rw [fetched] at read
    cases read
    rcases names with ⟨kind, name, qualified⟩
    exact ⟨changed, extracted, ⟨SymbolKind.toStr_injective kind, name, qualified⟩, change⟩
  · intro changes row row_mem _
    rcases (mem_view_symbols recorded).1 row_mem with ⟨symbol, last, rfl⟩
    cases file with
    | none => cases last.mem
    | some source =>
        rw [parsedSymbols_some] at last
        split at last
        · next small =>
            rcases changes source fetched small symbol last with
              ⟨changed, extracted, ⟨kind, name, qualified⟩, change⟩
            refine ⟨record.hunk.filePath, source, changed, rfl, fetched, extracted, ?_, change⟩
            exact ⟨congrArg SymbolKind.toStr kind, name, qualified⟩
        · cases last.mem

end CommitEnv

/-! ## Commits of one file -/

namespace OneFile

/-- A symbol of the file, from its byte range. -/
def symbol (name : String) (spanStart spanEnd : UInt32) : Symbol :=
    { OneCommit.symbol with
      name := name
      spanStart := spanStart
      spanEnd := spanEnd }

/-- A hunk of the file, from its diff. -/
def hunk (diff : String) : Hunk :=
    { OneCommit.hunk with
      changeKind := .modified
      diffText := diff }

/-- Each commit changes the file by the diffs, to the source. -/
def repository (source : String) (diffs : List String) : Repository :=
    { OneCommit.repository with
      source :=
        { hunksForCommit := fun sha =>
            .ok (diffs.map fun diff => { hunk diff with commitSha := sha })
          fileAtCommit := fun _ _ => .ok (some source)
          detectLanguage := fun _ => none
          hunk_sha := by simp
          hunk_language := by simp [hunk, OneCommit.hunk] } }

/-- A run whose parsers find the symbols in every source. -/
def invocation (symbols : List Symbol) : Invocation :=
    { OneCommit.invocation .off with
      binary := { OneCommit.binary "2" with extract := fun _ _ => symbols } }

/-- A repository with this post-image, these hunks and these symbols of the file. -/
def env (source : String) (diffs : List String) (symbols : List Symbol) : CommitEnv :=
    (invocation symbols).commitEnv (repository source diffs)

/-- An index with the row of the commit. -/
def committed : Store :=
    { Store.fresh with
      db := Database.empty.withContents
        { IndexContents.empty with
          commits := [⟨OneCommit.commit, [], ""⟩]
          commits_nodup := by simp
          hunk_commit := by simp [IndexContents.empty] } }

theorem laid_committed : committed.db.Laid :=
  Database.laid_withContents _ _

/-- A hunk as it reaches the storage. -/
def embedded (source : String) (symbols : List Symbol) (diff : String) : EmbeddedHunk where
  attributed := AttributeStage.attributeRecord (fun _ _ => symbols)
    (HunkChunkStage.chunk OneCommit.commit (hunk diff)) (some source)
  embedding := List.replicate 384 0

/-- The commit as it is put. -/
def work (source : String) (diffs : List String) (symbols : List Symbol) : CommitWork where
  result := CommitWorkResult.ofRecords
    (diffs.map fun diff => HunkChunkStage.chunk OneCommit.commit (hunk diff))
  output :=
    { commitEmbedding := List.replicate 384 0
      hunks := diffs.map (embedded source symbols) }
  entries := diffs.map fun diff =>
    (⟨(symbols.map Symbol.name).headD "" ++ ("\nm\n\n" ++ diff)⟩, List.replicate 384 0)

/-- Two functions, the first of which is changed. -/
def functions : String :=
    "def a(): return 1\ndef b(): pass\n"

/-- The body of the first function changes. -/
def firstChanged : String :=
    "@@ -1,2 +1,2 @@\n-def a(): return 0\n+def a(): return 1\n def b(): pass\n"

/-- The function that changes. -/
def first : Symbol := symbol "a" 0 17

/-- The function that stays. -/
def second : Symbol := symbol "b" 18 31

/-- A class with a method, of which two lines are changed, one by one. -/
def methodInClass : String :=
    "class C:\n def m():\n  x\n  y\n"

/-- Two hunks inside one method. -/
def methodChanges : List String :=
    ["@@ -3 +3 @@\n-  v\n+  x\n", "@@ -4 +4 @@\n-  w\n+  y\n"]

/-- A class and its method. -/
def nested : List Symbol := [symbol "C" 0 27, symbol "m" 10 27]

end OneFile

namespace CommitEnv

variable {env : CommitEnv} {commit : CommitMeta} {work : CommitWork}

/-- What is put for a commit with hunks is what is seen of it. -/
theorem FromSource.hunkViews_putHunks {store store' : Store}
    (fromSource : env.FromSource commit work)
    (laid : store.db.Laid) (put : env.putHunks commit work store = .ok store')
    (some_hunk : work.output.hunks ≠ []) :
    store'.db.hunkViews commit.commitSha =
      (PersistStage.hunkRows work.output).map HunkRecord.view := by
  rcases putHunks_ok laid put with ⟨db', put_db, rfl⟩
  rcases List.exists_mem_of_ne_nil _ some_hunk with ⟨hunk, hunk_mem⟩
  have row_mem : PersistStage.hunkRow hunk ∈ PersistStage.hunkRows work.output :=
    List.mem_map_of_mem hunk_mem
  rw [db_afterHunks, put_db.hunkViews, if_pos, List.filter_eq_self.2]
  · intro record record_mem
    simpa using fromSource.sha record_mem
  · rw [← fromSource.sha row_mem]
    exact List.mem_map_of_mem row_mem

/-- What a commit stores says that its hunks touched a symbol only where they did, if and only if
each hunk of a file that is parsed changes every symbol of it. -/
theorem exactSpans_hold_iff {db : Database} {store store' : Store}
    (read : env.readCommit db commit = .ok (some work)) (laid : store.db.Laid)
    (put : env.putHunks commit work store = .ok store') :
    (work.output.hunks ≠ [] → ∀ view ∈ store'.db.hunkViews commit.commitSha,
      env.ExactSpansHold commit.commitSha view) ↔
      ∀ hunks, env.source.hunksForCommit commit.commitSha = .ok hunks →
        ∀ hunk ∈ keptHunks env.isIgnored hunks, ∀ source,
          env.source.fileAtCommit commit.commitSha hunk.filePath = .ok (some source) →
          source.utf8ByteSize ≤ AttributeStage.maxAttributableSourceBytes →
            env.ChangesEverySymbol hunk source := by
  have fromSource := readCommit_some read
  have stored := fromSource.hunkViews_putHunks laid put
  rcases fromSource.hunks with ⟨hunks, listed, rows, -⟩
  have symbols := readCommit_symbols read
  have per_row : (∀ record ∈ PersistStage.hunkRows work.output,
      env.ExactSpansHold commit.commitSha record.view) ↔
      ∀ hunk ∈ keptHunks env.isIgnored hunks, ∀ source,
          env.source.fileAtCommit commit.commitSha hunk.filePath = .ok (some source) →
          source.utf8ByteSize ≤ AttributeStage.maxAttributableSourceBytes →
            env.ChangesEverySymbol hunk source := by
    rw [← rows, List.forall_mem_map]
    apply forall₂_congr
    intro record record_mem
    rcases symbols record record_mem with ⟨file, fetched, recorded⟩
    exact exactSpansHold_iff fetched recorded
  constructor
  · intro hold hunks' listed'
    rw [listed] at listed'
    cases listed'
    apply per_row.1
    intro record record_mem
    have some_hunk : work.output.hunks ≠ [] := by
      rintro empty
      simp [PersistStage.hunkRows, empty] at record_mem
    apply hold some_hunk
    rw [stored some_hunk]
    exact List.mem_map_of_mem record_mem
  · intro changes some_hunk
    rw [stored some_hunk, List.forall_mem_map]
    exact per_row.2 (changes hunks listed)

set_option maxRecDepth 8000 in
/-- Where each hunk changes the class and its method, the rows hold. -/
theorem exactSpans_hold_of_nested : ∃ store',
    (OneFile.env OneFile.methodInClass OneFile.methodChanges OneFile.nested).putHunks
        OneCommit.commit (OneFile.work OneFile.methodInClass OneFile.methodChanges OneFile.nested)
        OneFile.committed = .ok store' ∧
      (store'.db.hunkViews "a").length = 2 ∧
      ∀ view ∈ store'.db.hunkViews "a", (OneFile.env OneFile.methodInClass OneFile.methodChanges
        OneFile.nested).ExactSpansHold "a" view := by
  have put : ∃ store', (OneFile.env OneFile.methodInClass OneFile.methodChanges
      OneFile.nested).putHunks OneCommit.commit (OneFile.work OneFile.methodInClass
        OneFile.methodChanges OneFile.nested) OneFile.committed = .ok store' := ⟨_, rfl⟩
  rcases put with ⟨store', put⟩
  have read : (OneFile.env OneFile.methodInClass OneFile.methodChanges OneFile.nested).readCommit
      Database.empty OneCommit.commit = .ok (some (OneFile.work OneFile.methodInClass
        OneFile.methodChanges OneFile.nested)) := rfl
  have stored := (readCommit_some read).hunkViews_putHunks OneFile.laid_committed put
    (List.cons_ne_nil _ _)
  refine ⟨store', put, (congrArg List.length stored).trans rfl, ?_⟩
  apply (exactSpans_hold_iff read OneFile.laid_committed put).2 _ (List.cons_ne_nil _ _)
  intro hunks listed hunk hunk_mem source present small symbol last
  cases listed
  cases present
  have changed : ∀ diff ∈ OneFile.methodChanges, ∀ symbol ∈ OneFile.nested,
      symbol.Changed OneFile.methodInClass diff := by
    decide
  rcases List.mem_map.1 (List.mem_of_mem_filter hunk_mem) with ⟨diff, diff_mem, rfl⟩
  exact ⟨symbol, last.mem, ⟨rfl, rfl, rfl⟩, changed diff diff_mem symbol last.mem⟩

set_option maxRecDepth 8000 in
/-- The second function is recorded as touched, too. -/
theorem second_function_recorded : ∃ work store store',
    (OneFile.env OneFile.functions [OneFile.firstChanged]
        [OneFile.first, OneFile.second]).readCommit Database.empty OneCommit.commit =
        .ok (some work) ∧
      store.db.Laid ∧
      (OneFile.env OneFile.functions [OneFile.firstChanged]
        [OneFile.first, OneFile.second]).putHunks OneCommit.commit work store = .ok store' ∧
      work.output.hunks ≠ [] ∧
      ¬ ∀ view ∈ store'.db.hunkViews "a", (OneFile.env OneFile.functions [OneFile.firstChanged]
        [OneFile.first, OneFile.second]).ExactSpansHold "a" view := by
  have read : (OneFile.env OneFile.functions [OneFile.firstChanged]
      [OneFile.first, OneFile.second]).readCommit Database.empty OneCommit.commit =
        .ok (some (OneFile.work OneFile.functions [OneFile.firstChanged]
          [OneFile.first, OneFile.second])) := rfl
  have put : ∃ store', (OneFile.env OneFile.functions [OneFile.firstChanged]
      [OneFile.first, OneFile.second]).putHunks OneCommit.commit (OneFile.work OneFile.functions
        [OneFile.firstChanged] [OneFile.first, OneFile.second]) OneFile.committed = .ok store' :=
    ⟨_, rfl⟩
  rcases put with ⟨store', put⟩
  refine ⟨_, _, store', read, OneFile.laid_committed, put, List.cons_ne_nil _ _, ?_⟩
  intro hold
  have stored := (readCommit_some read).hunkViews_putHunks OneFile.laid_committed put
    (List.cons_ne_nil _ _)
  have row_mem : PersistStage.hunkRow (OneFile.embedded OneFile.functions
      [OneFile.first, OneFile.second] OneFile.firstChanged) ∈
      PersistStage.hunkRows (OneFile.work OneFile.functions [OneFile.firstChanged]
        [OneFile.first, OneFile.second]).output :=
    List.mem_cons_self
  have exact_span : HunkSymbolView.mk "function" "b" none "exact_span" ∈
      (PersistStage.hunkRow (OneFile.embedded OneFile.functions [OneFile.first, OneFile.second]
        OneFile.firstChanged)).view.symbols := by
    decide
  have view_mem : (PersistStage.hunkRow (OneFile.embedded OneFile.functions
      [OneFile.first, OneFile.second] OneFile.firstChanged)).view ∈ store'.db.hunkViews "a" := by
    rw [show "a" = OneCommit.commit.commitSha from rfl, stored]
    exact List.mem_map_of_mem row_mem
  rcases hold _ view_mem _ exact_span rfl with
    ⟨path, source, symbol, -, read, extracted, names, change⟩
  cases read
  have untouched : ¬ OneFile.second.Changed OneFile.functions OneFile.firstChanged := by
    decide
  rcases List.mem_pair.1 extracted with rfl | rfl
  · exact absurd names.2.1 (by decide)
  · exact untouched change

end CommitEnv

end Ohara
