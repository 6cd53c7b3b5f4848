import Ohara.Storage.Contents

/-!
# The storage calls refine the contents

Each call is run on the tables of some contents. Every statement meets its foreign keys, so the
call is refused exactly where the contents refuse it (a vector of the wrong dimension, a hunk of a
commit that is not stored), and otherwise leaves the tables of the contents' answer.
-/

namespace Ohara

theorem execute_bind {effect : Database → Database} {db : Database} {α : Type}
    {next : Database → Except SqlError α} (foreignKeys : (effect db).ForeignKeys) :
    (execute effect db >>= next) = next (effect db) := by
  rw [execute_ok foreignKeys]
  rfl

theorem pure_bind_ok {ε α β : Type} (a : α) (next : α → Except ε β) :
    (Except.ok a >>= next) = next a :=
  rfl

theorem insertVecCommit_ok {sha : String} {vector : Vector} {db : Database}
    (foreignKeys : db.ForeignKeys) (dimension : vector.length = vectorDimension)
    (fresh : sha ∉ db.vecCommit.map VecCommitRow.commitSha) :
    insertVecCommit sha (vecToBytes vector) db =
      .ok { db with vecCommit := db.vecCommit ++ [⟨sha, vecToBytes vector⟩] } := by
  unfold insertVecCommit
  rw [if_neg (by simp [length_vecToBytes, dimension]), if_neg fresh]
  exact execute_ok foreignKeys

theorem insertVecCommit_error {sha : String} {vector : Vector} {db : Database}
    (dimension : vector.length ≠ vectorDimension) :
    insertVecCommit sha (vecToBytes vector) db = .error (.dimension "vec_commit") := by
  unfold insertVecCommit
  rw [if_pos]
  rw [length_vecToBytes]
  omega

theorem insertVecHunk_ok {hunkId : Nat} {vector : Vector} {db : Database}
    (foreignKeys : db.ForeignKeys) (dimension : vector.length = vectorDimension)
    (fresh : hunkId ∉ db.vecHunk.map VecHunkRow.hunkId) :
    insertVecHunk hunkId (vecToBytes vector) db =
      .ok { db with vecHunk := db.vecHunk ++ [⟨hunkId, vecToBytes vector⟩] } := by
  unfold insertVecHunk
  rw [if_neg (by simp [length_vecToBytes, dimension]), if_neg fresh]
  exact execute_ok foreignKeys

theorem insertVecHunk_error {hunkId : Nat} {vector : Vector} {db : Database}
    (dimension : vector.length ≠ vectorDimension) :
    insertVecHunk hunkId (vecToBytes vector) db = .error (.dimension "vec_hunk") := by
  unfold insertVecHunk
  rw [if_pos]
  rw [length_vecToBytes]
  omega

theorem upsertFilePath_withContents (path : String) (language : Option String) (db : Database)
    (contents : IndexContents) :
    upsertFilePath path language (db.withContents contents) =
      .ok (db.withContents (contents.upsertPath path language),
        (contents.upsertPath path language).pathId path) := by
  rcases IndexContents.lookup_upsertPath path language contents with ⟨row, found, sameId⟩
  have upserted := withContents_foreignKeys db (contents.upsertPath path language)
  unfold upsertFilePath
  rw [execute_bind upserted]
  have found' : Rows.lookup FilePathRow.path path
      (Rows.upsert FilePathRow.path
        ⟨Rows.nextRowid ((db.withContents contents).filePath.map FilePathRow.id), path, language⟩
        (FilePathRow.coalesceLanguage language) (db.withContents contents).filePath) = some row :=
    found
  simp only [found', ← sameId]
  rfl

namespace Commit

theorem put_eq (record : CommitRecord) {db : Database} (foreignKeys : db.ForeignKeys) :
    put record db =
      if record.messageEmb.length = vectorDimension then
        .ok { db with
          commitRecord := Rows.insertOrReplace CommitRow.sha record.row db.commitRecord
          vecCommit := Rows.insertOrReplace VecCommitRow.commitSha record.vecRow db.vecCommit
          ftsCommit := Rows.insertOrReplace FtsCommitRow.sha record.ftsRow db.ftsCommit }
      else
        .error (.dimension "vec_commit") := by
  have replaced : ({ db with
      commitRecord := Rows.insertOrReplace CommitRow.sha record.row db.commitRecord } :
        Database).ForeignKeys := by
    refine ⟨?_, foreignKeys.2⟩
    intro row row_mem
    exact Rows.mem_map_insertOrReplace.2 (.inl (foreignKeys.1 row row_mem))
  unfold put
  rw [execute_bind foreignKeys, execute_bind foreignKeys, execute_bind replaced]
  split
  · rw [insertVecCommit_ok ?foreignKeys ‹_› ?fresh]
    case foreignKeys => exact replaced
    case fresh => simp
    exact if_pos replaced
  · rw [insertVecCommit_error ‹_›]
    rfl

theorem put_withContents (record : CommitRecord) (db : Database) (contents : IndexContents) :
    (put record (db.withContents contents)).toOption =
      (contents.putCommit record).map db.withContents := by
  rw [put_eq record (withContents_foreignKeys db contents)]
  unfold IndexContents.putCommit
  split
  · have rows : Rows.insertOrReplace CommitRow.sha record.row
        (contents.commits.map CommitRecord.row) =
          (Rows.insertOrReplace CommitRecord.sha record contents.commits).map CommitRecord.row :=
      Rows.insertOrReplace_map _ _ _ (fun _ _ => Iff.rfl) _ _
    have vectors : Rows.insertOrReplace VecCommitRow.commitSha record.vecRow
        (contents.commits.map CommitRecord.vecRow) =
          (Rows.insertOrReplace CommitRecord.sha record contents.commits).map CommitRecord.vecRow :=
      Rows.insertOrReplace_map _ _ _ (fun _ _ => Iff.rfl) _ _
    have texts : Rows.insertOrReplace FtsCommitRow.sha record.ftsRow
        (contents.commits.map CommitRecord.ftsRow) =
          (Rows.insertOrReplace CommitRecord.sha record contents.commits).map CommitRecord.ftsRow :=
      Rows.insertOrReplace_map _ _ _ (fun _ _ => Iff.rfl) _ _
    simp only [Database.withContents, rows, vectors, texts, Except.toOption, Option.map_some]
  · rfl

end Commit

namespace Hunk

/-- Among stored hunks, the ids of a commit belong to the hunks of that commit. -/
theorem mem_idsOfCommit_iff {db : Database} {contents : IndexContents} {hunk : StoredHunk}
    (hunk_mem : hunk ∈ contents.hunks) (sha : String) :
    hunk.id ∈ idsOfCommit (db.withContents contents) sha ↔ hunk.commitSha = sha := by
  have rows : (db.withContents contents).hunk = contents.hunks.map StoredHunk.row := rfl
  simp only [idsOfCommit, rows, List.mem_map, List.mem_filter, decide_eq_true_eq]
  constructor
  · rintro ⟨row, ⟨⟨other, other_mem, rfl⟩, ofCommit⟩, sameId⟩
    have same : other = hunk :=
      List.inj_on_of_nodup_map contents.hunk_ids_nodup other_mem hunk_mem sameId
    exact same ▸ ofCommit
  · intro ofCommit
    exact ⟨hunk.row, ⟨⟨hunk, hunk_mem, rfl⟩, ofCommit⟩, rfl⟩

theorem deleteCommit_eq (sha : String) {db : Database} (foreignKeys : db.ForeignKeys) :
    deleteCommit db sha = .ok { db with
      ftsHunkText := db.ftsHunkText.filter fun row => decide (row.hunkId ∉ idsOfCommit db sha)
      ftsHunkSemantic := db.ftsHunkSemantic.filter fun row =>
        decide (row.hunkId ∉ idsOfCommit db sha)
      vecHunk := db.vecHunk.filter fun row => decide (row.hunkId ∉ idsOfCommit db sha)
      hunk := Rows.deleteKey HunkRow.commitSha sha db.hunk
      hunkSymbol := db.hunkSymbol.filter fun row =>
        decide (row.hunkId ∉ idsOfCommit db sha) } := by
  have cascaded : ({ db with
      hunk := Rows.deleteKey HunkRow.commitSha sha db.hunk
      hunkSymbol := db.hunkSymbol.filter fun row =>
        decide (row.hunkId ∉ idsOfCommit db sha) } : Database).ForeignKeys := by
    refine ⟨?_, ?_, foreignKeys.2.2.1, ?_⟩
    · intro row row_mem
      exact foreignKeys.1 row (Rows.mem_deleteKey.1 row_mem).1
    · intro row row_mem
      exact foreignKeys.2.1 row (Rows.mem_deleteKey.1 row_mem).1
    · intro row row_mem
      rcases List.mem_filter.1 row_mem with ⟨row_mem_old, kept⟩
      rcases List.mem_map.1 (foreignKeys.2.2.2 row row_mem_old) with ⟨hunk, hunk_mem, sameId⟩
      have other : hunk.commitSha ≠ sha := by
        intro ofCommit
        apply of_decide_eq_true kept
        exact List.mem_map.2 ⟨hunk, List.mem_filter.2 ⟨hunk_mem, by simpa using ofCommit⟩, sameId⟩
      exact List.mem_map.2 ⟨hunk, Rows.mem_deleteKey.2 ⟨hunk_mem, other⟩, sameId⟩
  unfold deleteCommit
  rw [execute_bind foreignKeys, execute_bind foreignKeys, execute_bind foreignKeys]
  exact if_pos cascaded

theorem deleteCommit_withContents (sha : String) (db : Database) (contents : IndexContents) :
    deleteCommit (db.withContents contents) sha =
      .ok (db.withContents (contents.deleteHunks sha)) := by
  rw [deleteCommit_eq sha (withContents_foreignKeys db contents)]
  let keepItem : Nat → Bool := fun id =>
    decide (id ∉ idsOfCommit (db.withContents contents) sha)
  let keepHunk : StoredHunk → Bool := fun hunk => decide (hunk.commitSha ≠ sha)
  have kept : ∀ hunk ∈ contents.hunks, keepItem hunk.id = keepHunk hunk := by
    intro hunk hunk_mem
    simp only [keepItem, keepHunk, ne_eq, decide_not, mem_idsOfCommit_iff hunk_mem]
  have rows : Rows.deleteKey HunkRow.commitSha sha (contents.hunks.map StoredHunk.row) =
      (Rows.deleteKey StoredHunk.commitSha sha contents.hunks).map StoredHunk.row :=
    Rows.deleteKey_map (fun _ => rfl) _ _
  have texts := Rows.filter_map StoredHunk.textRow (fun row => keepItem row.hunkId) keepHunk kept
  have semantics :=
    Rows.filter_map StoredHunk.semanticRow (fun row => keepItem row.hunkId) keepHunk kept
  have vectors := Rows.filter_map StoredHunk.vecRow (fun row => keepItem row.hunkId) keepHunk kept
  have blocks : ∀ hunk ∈ contents.hunks, ∀ row ∈ hunk.symbolRows,
      keepItem row.hunkId = keepHunk hunk := by
    intro hunk hunk_mem row row_mem
    rcases List.mem_map.1 row_mem with ⟨symbol, _, rfl⟩
    exact kept hunk hunk_mem
  have symbols :=
    Rows.filter_flatMap StoredHunk.symbolRows (fun row => keepItem row.hunkId) keepHunk blocks
  exact congrArg Except.ok (Database.ext rfl rfl rfl rfl rfl rows vectors texts semantics symbols
    rfl rfl rfl rfl rfl rfl)

theorem deleteCommits_withContents (shas : List String) (db : Database)
    (contents : IndexContents) :
    shas.foldlM deleteCommit (db.withContents contents) =
      .ok (db.withContents (shas.foldl IndexContents.deleteHunks contents)) := by
  induction shas generalizing contents with
  | nil => rfl
  | cons sha rest ih =>
      rw [List.foldlM_cons, deleteCommit_withContents]
      exact ih _

theorem putForHunk_eq {db : Database} {hunkId : Nat} (symbols attached : List HunkSymbol)
    (others : List HunkSymbolRow) (foreignKeys : db.ForeignKeys)
    (known : hunkId ∈ db.hunk.map HunkRow.id) (fresh : ∀ row ∈ others, row.hunkId ≠ hunkId)
    (rows : db.hunkSymbol = others ++ attached.map (HunkSymbol.row hunkId)) :
    putForHunk hunkId symbols db = .ok { db with
      hunkSymbol := others ++
        (symbols.foldl IndexContents.attach attached).map (HunkSymbol.row hunkId) } := by
  induction symbols generalizing db attached with
  | nil =>
      rw [putForHunk, List.foldlM_nil, List.foldl_nil, ← rows]
      rfl
  | cons symbol rest ih =>
      have replaced : Rows.insertOrReplace HunkSymbolRow.key (symbol.row hunkId) db.hunkSymbol =
          others ++ (IndexContents.attach attached symbol).map (HunkSymbol.row hunkId) := by
        have untouched : Rows.deleteKey HunkSymbolRow.key (HunkSymbolRow.key (symbol.row hunkId))
            others = others := by
          apply Rows.deleteKey_eq_self
          intro key_mem
          rcases List.mem_map.1 key_mem with ⟨row, row_mem, sameKey⟩
          exact fresh row row_mem (congrArg Prod.fst sameKey)
        have attachedRows := Rows.insertOrReplace_map
          (fun symbol : HunkSymbol => (symbol.kind.toStr, symbol.name)) HunkSymbolRow.key
          (HunkSymbol.row hunkId) (by simp [HunkSymbolRow.key, HunkSymbol.row]) symbol attached
        rw [IndexContents.attach, ← attachedRows, rows]
        simp only [Rows.insertOrReplace, Rows.deleteKey, List.filter_append] at untouched ⊢
        rw [untouched, List.append_assoc]
      have attachedKeys : ({ db with
          hunkSymbol := Rows.insertOrReplace HunkSymbolRow.key (symbol.row hunkId)
            db.hunkSymbol } : Database).ForeignKeys := by
        refine ⟨foreignKeys.1, foreignKeys.2.1, foreignKeys.2.2.1, ?_⟩
        intro row row_mem
        rcases Rows.mem_insertOrReplace.1 row_mem with ⟨row_mem_old, _⟩ | rfl
        · exact foreignKeys.2.2.2 row row_mem_old
        · exact known
      rw [putForHunk, List.foldlM_cons, execute_bind attachedKeys]
      exact ih (IndexContents.attach attached symbol) attachedKeys known replaced

/-- The inserts of one record, refused for an unknown commit or a vector of the wrong dimension. -/
theorem insertRows_eq (record : HunkRecord) {filePathId hunkId : Nat} {db : Database}
    (foreignKeys : db.ForeignKeys) (known : filePathId ∈ db.filePath.map FilePathRow.id)
    (fresh : hunkId ∉ db.hunk.map HunkRow.id)
    (freshVector : hunkId ∉ db.vecHunk.map VecHunkRow.hunkId) :
    (insertRows record filePathId hunkId db).toOption =
      if record.hunk.commitSha ∈ db.commitRecord.map CommitRow.sha ∧
          record.diffEmb.length = vectorDimension then
        some { db with
          hunk := db.hunk ++ [newRow record filePathId hunkId]
          vecHunk := db.vecHunk ++ [⟨hunkId, vecToBytes record.diffEmb⟩]
          ftsHunkText := db.ftsHunkText ++ [⟨hunkId, record.hunk.diffText⟩]
          ftsHunkSemantic := db.ftsHunkSemantic ++ [⟨hunkId, record.storedSemanticText⟩]
          hunkSymbol := db.hunkSymbol ++
            (record.symbols.foldl IndexContents.attach []).map (HunkSymbol.row hunkId) }
      else none := by
  unfold insertRows
  by_cases stored : record.hunk.commitSha ∈ db.commitRecord.map CommitRow.sha
  · have inserted : ({ db with hunk := db.hunk ++ [newRow record filePathId hunkId] } :
        Database).ForeignKeys := by
      refine ⟨?_, ?_, foreignKeys.2.2.1, ?_⟩
      · intro row row_mem
        rcases List.mem_append.1 row_mem with old | new
        · exact foreignKeys.1 row old
        · rw [List.mem_singleton.1 new]
          exact stored
      · intro row row_mem
        rcases List.mem_append.1 row_mem with old | new
        · exact foreignKeys.2.1 row old
        · rw [List.mem_singleton.1 new]
          exact known
      · intro row row_mem
        rw [List.map_append]
        exact List.mem_append_left _ (foreignKeys.2.2.2 row row_mem)
    rw [execute_bind inserted]
    by_cases dimension : record.diffEmb.length = vectorDimension
    · rw [if_pos ⟨stored, dimension⟩, insertVecHunk_ok inserted dimension freshVector, pure_bind_ok,
        execute_bind inserted, execute_bind inserted]
      refine congrArg Except.toOption
        (putForHunk_eq record.symbols [] db.hunkSymbol ?_ ?_ ?_ ?_)
      · exact inserted
      · rw [List.map_append]
        exact List.mem_append_right _ (List.mem_singleton_self _)
      · intro row row_mem same
        exact fresh (same ▸ foreignKeys.2.2.2 row row_mem)
      · simp
    · rw [if_neg (fun both => dimension both.2), insertVecHunk_error dimension]
      rfl
  · have refused : ¬ ({ db with hunk := db.hunk ++ [newRow record filePathId hunkId] } :
        Database).ForeignKeys := by
      intro inserted
      exact stored (inserted.1 _ (List.mem_append_right _ (List.mem_singleton_self _)))
    rw [if_neg (fun both => stored both.1), execute, if_neg refused]
    rfl

theorem insertRecord_withContents (record : HunkRecord) (db : Database)
    (contents : IndexContents) :
    (insertRecord (db.withContents contents) record).toOption =
      (contents.addHunk record).map db.withContents := by
  let located := contents.upsertPath record.hunk.filePath record.hunk.language
  have fresh := Rows.nextRowid_not_mem (located.hunks.map StoredHunk.id)
  unfold insertRecord
  rw [upsertFilePath_withContents, pure_bind_ok]
  refine (insertRows_eq record (withContents_foreignKeys db located)
    (IndexContents.pathId_upsertPath_mem _ _ _) ?_ ?_).trans ?_
  · exact Rows.nextRowid_not_mem _
  · have ids : ((db.withContents located).vecHunk).map VecHunkRow.hunkId =
        (db.withContents located).hunk.map HunkRow.id := by
      change (contents.hunks.map StoredHunk.vecRow).map VecHunkRow.hunkId =
        (contents.hunks.map StoredHunk.row).map HunkRow.id
      rw [List.map_map, List.map_map]
      rfl
    rw [ids]
    exact Rows.nextRowid_not_mem _
  · have sameShas : ((db.withContents located).commitRecord).map CommitRow.sha =
        contents.commits.map CommitRecord.sha := map_row_sha _
    have sameIds : ((db.withContents located).hunk).map HunkRow.id =
        contents.hunks.map StoredHunk.id := map_row_id _
    rw [sameShas, sameIds]
    by_cases accepted : record.hunk.commitSha ∈ contents.commits.map CommitRecord.sha ∧
        record.diffEmb.length = vectorDimension
    · rw [if_pos accepted, IndexContents.addHunk, dif_pos accepted]
      have appended : ∀ {μ : Type} (mirror : StoredHunk → μ),
          (contents.withHunk record accepted.1).hunks.map mirror =
            contents.hunks.map mirror ++ [mirror (IndexContents.storedHunk
              (Rows.nextRowid (contents.hunks.map StoredHunk.id))
              (located.pathId record.hunk.filePath) record)] := by
        intro μ mirror
        exact List.map_append
      have symbols : (contents.withHunk record accepted.1).hunks.flatMap StoredHunk.symbolRows =
          contents.hunks.flatMap StoredHunk.symbolRows ++
            (record.symbols.foldl IndexContents.attach []).map
              (HunkSymbol.row (Rows.nextRowid (contents.hunks.map StoredHunk.id))) := by
        simp [IndexContents.withHunk, StoredHunk.symbolRows, IndexContents.storedHunk]
      exact congrArg some (Database.ext rfl rfl rfl rfl rfl (appended StoredHunk.row).symm
        (appended StoredHunk.vecRow).symm (appended StoredHunk.textRow).symm
        (appended StoredHunk.semanticRow).symm symbols.symm rfl rfl rfl rfl rfl rfl)
    · rw [if_neg accepted, IndexContents.addHunk, dif_neg accepted]
      rfl

theorem insertRecords_withContents (records : List HunkRecord) (db : Database)
    (contents : IndexContents) :
    (records.foldlM insertRecord (db.withContents contents)).toOption =
      (records.foldlM IndexContents.addHunk contents).map db.withContents := by
  induction records generalizing contents with
  | nil => rfl
  | cons record rest ih =>
      have head := insertRecord_withContents record db contents
      rw [List.foldlM_cons, List.foldlM_cons]
      cases added : contents.addHunk record with
      | none =>
          rw [added] at head
          cases inserted : insertRecord (db.withContents contents) record with
          | error e => rfl
          | ok db' =>
              rw [inserted] at head
              cases head
      | some contents' =>
          rw [added] at head
          cases inserted : insertRecord (db.withContents contents) record with
          | error e =>
              rw [inserted] at head
              cases head
          | ok db' =>
              rw [inserted] at head
              cases head
              exact ih contents'

theorem putMany_withContents (records : List HunkRecord) (db : Database)
    (contents : IndexContents) :
    (putMany records (db.withContents contents)).toOption =
      (contents.putHunks records).map db.withContents := by
  unfold putMany IndexContents.putHunks
  split
  · rfl
  · rw [deleteCommits_withContents, pure_bind_ok]
    exact insertRecords_withContents records db _

end Hunk

namespace Symbol

theorem clearAll_withContents (db : Database) (contents : IndexContents) :
    clearAll (db.withContents contents) = .ok (db.withContents contents.clearSymbols) := by
  have foreignKeys := withContents_foreignKeys db contents
  unfold clearAll
  rw [execute_bind foreignKeys, execute_bind foreignKeys, execute_bind foreignKeys]
  exact if_pos (withContents_foreignKeys db contents.clearSymbols)

theorem putOne_eq (symbol : Symbol) {filePathId : Nat} {db : Database}
    (foreignKeys : db.ForeignKeys) (known : filePathId ∈ db.filePath.map FilePathRow.id) :
    putOne filePathId symbol db = .ok { db with
      symbol := db.symbol ++
        [symbol.row (Rows.nextRowid (db.symbol.map SymbolRow.id)) filePathId]
      ftsSymbolName := db.ftsSymbolName ++
        [symbol.ftsNameRow (Rows.nextRowid (db.symbol.map SymbolRow.id))] } := by
  have inserted : ({ db with
      symbol := db.symbol ++
        [symbol.row (Rows.nextRowid (db.symbol.map SymbolRow.id)) filePathId] } :
          Database).ForeignKeys := by
    refine ⟨foreignKeys.1, foreignKeys.2.1, ?_, foreignKeys.2.2.2⟩
    intro row row_mem
    rcases List.mem_append.1 row_mem with old | new
    · exact foreignKeys.2.2.1 row old
    · rw [List.mem_singleton.1 new]
      exact known
  unfold putOne
  rw [execute_bind inserted]
  exact if_pos inserted

theorem insertSymbol_withContents (symbol : Symbol) (db : Database) (contents : IndexContents) :
    insertSymbol (db.withContents contents) symbol =
      .ok (db.withContents (contents.addSymbol symbol)) := by
  let located := contents.upsertPath symbol.filePath (some symbol.language)
  have ids : ((db.withContents located).symbol).map SymbolRow.id =
      contents.symbols.map StoredSymbol.id := by
    change (contents.symbols.map StoredSymbol.row).map SymbolRow.id = _
    rw [List.map_map]
    rfl
  have appended : ∀ {μ : Type} (mirror : StoredSymbol → μ),
      (contents.addSymbol symbol).symbols.map mirror = contents.symbols.map mirror ++
        [mirror ⟨Rows.nextRowid (contents.symbols.map StoredSymbol.id),
          located.pathId symbol.filePath, symbol⟩] := by
    intro μ mirror
    exact List.map_append
  unfold insertSymbol
  rw [upsertFilePath_withContents, pure_bind_ok]
  refine (putOne_eq symbol (withContents_foreignKeys db located)
    (IndexContents.pathId_upsertPath_mem _ _ _)).trans ?_
  rw [ids]
  exact congrArg Except.ok (Database.ext rfl rfl rfl rfl rfl rfl rfl rfl rfl rfl
    (appended StoredSymbol.row).symm rfl (appended StoredSymbol.nameRow).symm rfl rfl rfl)

theorem putMany_withContents (symbols : List Symbol) (db : Database) (contents : IndexContents) :
    putMany symbols (db.withContents contents) =
      .ok (db.withContents (contents.putSymbols symbols)) := by
  unfold putMany IndexContents.putSymbols
  rw [clearAll_withContents, pure_bind_ok]
  generalize contents.clearSymbols = cleared
  induction symbols generalizing cleared with
  | nil => rfl
  | cons symbol rest ih =>
      rw [List.foldlM_cons, insertSymbol_withContents]
      exact ih _

end Symbol

end Ohara
