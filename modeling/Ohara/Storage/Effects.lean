import Ohara.Storage.EmbedCache
import Ohara.Storage.Refinement
import Ohara.Storage.Repo
import Ohara.Storage.Views

/-!
# What the storage calls change

The calls of the indexer by what a reader sees before and after them. They hold of tables that are
the layout of some contents, which is what every call leaves.
-/

namespace Ohara

namespace Database

/-- The index tables are the layout of some contents. -/
def Laid (db : Database) : Prop :=
    ∃ contents : IndexContents, db = db.withContents contents

/-- A commit's row and the bytes of its embedding. -/
def commitView (db : Database) (sha : String) : Option CommitRow × Option (List UInt8) :=
    (Rows.lookup CommitRow.sha sha db.commitRecord,
      (Rows.lookup VecCommitRow.commitSha sha db.vecCommit).map VecCommitRow.messageEmb)

/-- The tables next to the index are the same. -/
structure SameAside (db db' : Database) : Prop where
  repo : db'.repo = db.repo
  indexMetadata : db'.indexMetadata = db.indexMetadata
  chunkEmbedCache : db'.chunkEmbedCache = db.chunkEmbedCache

/-- The index tables are the same. -/
structure SameIndex (db db' : Database) : Prop where
  laid : db.Laid → db'.Laid
  shas : db'.shas = db.shas
  commitView : db'.commitView = db.commitView
  hunkViews : db'.hunkViews = db.hunkViews
  symbolViews : db'.symbolViews = db.symbolViews

theorem laid_empty : Database.empty.Laid :=
  ⟨IndexContents.empty, rfl⟩

theorem laid_withContents (db : Database) (contents : IndexContents) :
    (db.withContents contents).Laid :=
  ⟨contents, rfl⟩

theorem sameAside_withContents (db : Database) (contents : IndexContents) :
    SameAside db (db.withContents contents) :=
  ⟨rfl, rfl, rfl⟩

/-- Tables next to the index can be replaced. -/
theorem sameIndex_aside (db : Database) (repo : List RepoRow)
    (indexMetadata : List IndexMetadataRow) (chunkEmbedCache : List ChunkEmbedCacheRow) :
    SameIndex db { db with
      repo := repo, indexMetadata := indexMetadata, chunkEmbedCache := chunkEmbedCache } where
  laid := by
    rintro ⟨contents, laid⟩
    exact ⟨contents, by rw [laid]; rfl⟩
  shas := rfl
  commitView := rfl
  hunkViews := rfl
  symbolViews := rfl

theorem commitView_withContents (db : Database) (contents : IndexContents) (sha : String) :
    (db.withContents contents).commitView sha =
      let record := Rows.lookup CommitRecord.sha sha contents.commits
      (record.map CommitRecord.row, record.map fun record => vecToBytes record.messageEmb) := by
  have rows : ∀ {μ : Type} (key : μ → String) (mirror : CommitRecord → μ),
      (∀ record, key (mirror record) = record.sha) →
      Rows.lookup key sha (contents.commits.map mirror) =
        (Rows.lookup CommitRecord.sha sha contents.commits).map mirror := by
    intro μ key mirror same_key
    simp only [Rows.lookup, List.find?_map]
    congr 2
    funext record
    simp [same_key]
  simp only [commitView, Database.withContents]
  rw [rows CommitRow.sha CommitRecord.row (fun _ => rfl),
    rows VecCommitRow.commitSha CommitRecord.vecRow (fun _ => rfl), Option.map_map]
  rfl

end Database

/-- A commit that was put has its row and embedding, and nothing else is seen to change. -/
structure PutCommit (record : CommitRecord) (db db' : Database) : Prop where
  laid : db'.Laid
  aside : db.SameAside db'
  shas : ∀ sha, sha ∈ db'.shas ↔ sha ∈ db.shas ∨ sha = record.sha
  commitView : ∀ sha, db'.commitView sha =
    if sha = record.sha then (some record.row, some (vecToBytes record.messageEmb))
    else db.commitView sha
  hunkViews : db'.hunkViews = db.hunkViews
  symbolViews : db'.symbolViews = db.symbolViews

theorem Commit.put_spec {record : CommitRecord} {db db' : Database} (laid : db.Laid)
    (put : Commit.put record db = .ok db') : PutCommit record db db' := by
  rcases laid with ⟨contents, laid⟩
  have refined := Commit.put_withContents record db contents
  rw [← laid, put] at refined
  rcases Option.map_eq_some_iff.1 refined.symm with ⟨contents', accepted, rfl⟩
  have commits : contents'.commits =
      Rows.insertOrReplace CommitRecord.sha record contents.commits := by
    simp only [IndexContents.putCommit] at accepted
    split at accepted
    · cases accepted
      rfl
    · cases accepted
  constructor
  · exact db.laid_withContents contents'
  · exact db.sameAside_withContents contents'
  · intro sha
    rw [laid]
    simpa using IndexContents.mem_shas_putCommit accepted
  · intro sha
    rw [Database.commitView_withContents, commits, laid, Database.commitView_withContents]
    by_cases same : sha = record.sha
    · subst same
      simp
    · simp [same, Rows.lookup_insertOrReplace_of_ne same]
  · funext sha
    rw [laid]
    simpa using IndexContents.hunkViews_putCommit accepted sha
  · rw [laid]
    simpa using IndexContents.symbolViews_putCommit accepted

theorem Commit.put_defined {record : CommitRecord} {db : Database} (laid : db.Laid) :
    (∃ db', Commit.put record db = .ok db') ↔ record.messageEmb.length = vectorDimension := by
  rcases laid with ⟨contents, laid⟩
  have foreignKeys := withContents_foreignKeys db contents
  rw [← laid] at foreignKeys
  rw [Commit.put_eq record foreignKeys]
  split
  · next dimension => simp [dimension]
  · next dimension => simp [dimension]

/-- A put batch replaces the hunks of its commits, and nothing else is seen to change. -/
structure PutHunks (records : List HunkRecord) (db db' : Database) : Prop where
  laid : db'.Laid
  aside : db.SameAside db'
  shas : db'.shas = db.shas
  commitView : db'.commitView = db.commitView
  hunkViews : ∀ sha, db'.hunkViews sha =
    if sha ∈ records.map HunkRecord.sha then
      (records.filter fun record => decide (record.sha = sha)).map HunkRecord.view
    else db.hunkViews sha
  symbolViews : db'.symbolViews = db.symbolViews

theorem Hunk.putMany_spec {records : List HunkRecord} {db db' : Database} (laid : db.Laid)
    (put : Hunk.putMany records db = .ok db') : PutHunks records db db' := by
  rcases laid with ⟨contents, laid⟩
  have refined := Hunk.putMany_withContents records db contents
  rw [← laid, put] at refined
  rcases Option.map_eq_some_iff.1 refined.symm with ⟨contents', accepted, rfl⟩
  have commits := IndexContents.commits_putHunks accepted
  constructor
  · exact db.laid_withContents contents'
  · exact db.sameAside_withContents contents'
  · rw [laid]
    simp [IndexContents.shas, commits]
  · funext sha
    rw [Database.commitView_withContents, commits, laid, Database.commitView_withContents]
  · intro sha
    rw [laid]
    simpa using IndexContents.hunkViews_putHunks accepted sha
  · rw [laid]
    simpa using IndexContents.symbolViews_putHunks accepted

namespace IndexContents

theorem addHunks_defined {records : List HunkRecord} {contents : IndexContents} :
    (records.foldlM addHunk contents).isSome ↔ ∀ record ∈ records,
      record.sha ∈ contents.shas ∧ record.diffEmb.length = vectorDimension := by
  induction records generalizing contents with
  | nil => simp
  | cons record rest ih =>
      rw [List.foldlM_cons, List.forall_mem_cons]
      cases added : contents.addHunk record with
      | none =>
          have refused : ¬ (record.sha ∈ contents.shas ∧
              record.diffEmb.length = vectorDimension) := by
            intro accepted
            have stored : contents.addHunk record = some (contents.withHunk record accepted.1) :=
              dif_pos accepted
            rw [added] at stored
            cases stored
          simp [refused]
      | some contents' =>
          rcases addHunk_cases added with ⟨known, dimension, -⟩
          have same_shas : contents'.shas = contents.shas := by
            rw [shas, commits_addHunk added]
            rfl
          have accepted : record.sha ∈ contents.shas ∧
              record.diffEmb.length = vectorDimension := ⟨known, dimension⟩
          have rest_defined := @ih contents'
          rw [same_shas] at rest_defined
          simpa [accepted] using rest_defined

theorem putHunks_defined {records : List HunkRecord} {contents : IndexContents} :
    (contents.putHunks records).isSome ↔ ∀ record ∈ records,
      record.sha ∈ contents.shas ∧ record.diffEmb.length = vectorDimension := by
  rw [putHunks]
  split
  · next empty => simp [List.isEmpty_iff.1 empty]
  · rw [addHunks_defined, shas, commits_deleteHunks]
    rfl

end IndexContents

theorem Hunk.putMany_defined {records : List HunkRecord} {db : Database} (laid : db.Laid) :
    (∃ db', Hunk.putMany records db = .ok db') ↔ ∀ record ∈ records,
      record.sha ∈ db.shas ∧ record.diffEmb.length = vectorDimension := by
  rcases laid with ⟨contents, laid⟩
  have refined := Hunk.putMany_withContents records db contents
  rw [← laid] at refined
  have same_shas : db.shas = contents.shas := by
    rw [laid, IndexContents.shas_withContents]
  rw [same_shas, ← IndexContents.putHunks_defined]
  cases put : Hunk.putMany records db with
  | error e =>
      rw [put] at refined
      simpa [Except.toOption] using refined
  | ok db' =>
      rw [put] at refined
      rcases Option.map_eq_some_iff.1 refined.symm with ⟨contents', accepted, -⟩
      simp [accepted]

/-- The symbols were replaced, and nothing else is seen to change. -/
structure PutSymbols (symbols : List SymbolView) (db db' : Database) : Prop where
  laid : db'.Laid
  aside : db.SameAside db'
  shas : db'.shas = db.shas
  hunkViews : db'.hunkViews = db.hunkViews
  symbolViews : db'.symbolViews = symbols

theorem Symbol.clearAll_spec {db : Database} (laid : db.Laid) :
    ∃ db', Symbol.clearAll db = .ok db' ∧ PutSymbols [] db db' := by
  rcases laid with ⟨contents, laid⟩
  refine ⟨db.withContents contents.clearSymbols, ?_, ?_⟩
  · rw [← Symbol.clearAll_withContents, ← laid]
  · constructor
    · exact db.laid_withContents contents.clearSymbols
    · exact db.sameAside_withContents contents.clearSymbols
    · rw [laid]
      rfl
    · funext sha
      rw [laid]
      simp
    · simp

theorem Symbol.putMany_spec (symbols : List Symbol) {db : Database} (laid : db.Laid) :
    ∃ db', Symbol.putMany symbols db = .ok db' ∧
      PutSymbols (symbols.map Symbol.view) db db' := by
  rcases laid with ⟨contents, laid⟩
  refine ⟨db.withContents (contents.putSymbols symbols), ?_, ?_⟩
  · rw [← Symbol.putMany_withContents, ← laid]
  · constructor
    · exact db.laid_withContents (contents.putSymbols symbols)
    · exact db.sameAside_withContents (contents.putSymbols symbols)
    · rw [laid]
      simp [IndexContents.shas, IndexContents.commits_putSymbols]
    · funext sha
      rw [laid]
      simp
    · simp

theorem EmbedCache.putMany_spec (entries : List (ContentHash × Vector)) (embedModel : String)
    (db : Database) : ∃ rows, EmbedCache.putMany entries embedModel db =
      { db with chunkEmbedCache := rows } := by
  induction entries generalizing db with
  | nil => exact ⟨db.chunkEmbedCache, rfl⟩
  | cons entry rest ih =>
      rcases ih (EmbedCache.putOne embedModel db entry) with ⟨rows, put_rest⟩
      exact ⟨rows, put_rest⟩

theorem IndexMetadata.putMany_spec (id : RepoId) (components : List (String × String))
    (db : Database) : ∃ rows, IndexMetadata.putMany id components db =
      { db with indexMetadata := rows } := by
  induction components generalizing db with
  | nil => exact ⟨db.indexMetadata, rfl⟩
  | cons component rest ih =>
      rcases ih (IndexMetadata.putOne id db component) with ⟨rows, put_rest⟩
      exact ⟨rows, put_rest⟩

theorem Commit.commitExists_iff_shas {db : Database} {sha : String} :
    Commit.commitExists db sha = true ↔ sha ∈ db.shas :=
  Commit.commitExists_iff

/-! ## The watermark and the recorded components -/

/-- Opening a repository leaves its watermark. -/
theorem Repo.getStatus_upsert (id : RepoId) (path first : String) (db : Database) :
    Repo.getStatus id (Repo.upsert id path first db) = Repo.getStatus id db := by
  simp only [Repo.getStatus, Repo.upsert]
  rw [Rows.lookup_upsert_self RepoRow.id (fun old => { old with path := path })
    (fun _ => rfl) ⟨id.value, path, first, none⟩]
  cases Rows.lookup RepoRow.id id.value db.repo with
  | none => rfl
  | some row => rfl

theorem Repo.getStatus_setWatermark {id : RepoId} {sha : String} {db : Database}
    (known : id.value ∈ db.repo.map RepoRow.id) :
    Repo.getStatus id (Repo.setWatermark id sha db) = some sha := by
  have kept : ∀ row : RepoRow,
      (if row.id = id.value then { row with lastIndexedCommit := some sha } else row).id =
        row.id := by
    intro row
    split <;> rfl
  simp only [Repo.getStatus, Repo.setWatermark]
  rw [Rows.lookup_map kept]
  cases found : Rows.lookup RepoRow.id id.value db.repo with
  | none => exact absurd known (Rows.lookup_eq_none_iff.1 found)
  | some row => simp [(Rows.mem_of_lookup_eq_some found).2]

theorem Repo.mem_upsert (id : RepoId) (path first : String) (db : Database) :
    id.value ∈ (Repo.upsert id path first db).repo.map RepoRow.id :=
  Rows.mem_map_upsert_self (fun old => { old with path := path }) (fun _ => rfl)
    ⟨id.value, path, first, none⟩ db.repo

theorem IndexMetadata.get_eq_lookup (id : RepoId) (component : String) (db : Database) :
    (IndexMetadata.get id db).get component =
      (Rows.lookup (fun row : IndexMetadataRow => (row.repoId, row.component))
        (id.value, component) db.indexMetadata).map IndexMetadataRow.version := by
  simp only [StoredIndexMetadata.get, IndexMetadata.get]
  induction db.indexMetadata with
  | nil => rfl
  | cons row rest ih =>
      by_cases mine : row.repoId = id.value
      · by_cases found : component = row.component
        · simp [mine, found, Rows.lookup]
        · have other : ¬ row.component = component := fun same => found same.symm
          have unequal : (component == row.component) = false := by simpa using found
          simpa [mine, other, unequal, Rows.lookup, List.lookup_cons] using ih
      · simpa [mine, Rows.lookup] using ih

theorem IndexMetadata.get_putOne (id : RepoId) (component : String × String) (k : String)
    (db : Database) : (IndexMetadata.get id (IndexMetadata.putOne id db component)).get k =
      if k = component.1 then some component.2 else (IndexMetadata.get id db).get k := by
  rw [IndexMetadata.get_eq_lookup, IndexMetadata.get_eq_lookup]
  simp only [IndexMetadata.putOne]
  by_cases same : k = component.1
  · subst same
    rw [Rows.lookup_upsert_self (fun row : IndexMetadataRow => (row.repoId, row.component))
      (fun old => { old with version := component.2 }) (fun _ => rfl)
      ⟨id.value, component.1, component.2⟩]
    cases Rows.lookup (fun row : IndexMetadataRow => (row.repoId, row.component))
        (id.value, component.1) db.indexMetadata with
    | none => simp
    | some row => simp
  · rw [Rows.lookup_upsert_of_ne (fun row : IndexMetadataRow => (row.repoId, row.component))
      (fun old => { old with version := component.2 }) (fun _ => rfl)]
    · simp [same]
    · simpa using same

/-- After a put a component has one of the versions put for it, or, without any, its old one. -/
theorem IndexMetadata.get_putMany (id : RepoId) (components : List (String × String)) (k : String)
    (db : Database) :
    (∃ version, (k, version) ∈ components ∧
      (IndexMetadata.get id (IndexMetadata.putMany id components db)).get k = some version) ∨
    (k ∉ components.map Prod.fst ∧
      (IndexMetadata.get id (IndexMetadata.putMany id components db)).get k =
        (IndexMetadata.get id db).get k) := by
  induction components generalizing db with
  | nil => exact Or.inr ⟨by simp, rfl⟩
  | cons component rest ih =>
      rcases ih (IndexMetadata.putOne id db component) with ⟨version, put, found⟩ | ⟨absent, kept⟩
      · exact Or.inl ⟨version, by simp [put], found⟩
      · rw [IndexMetadata.get_putOne] at kept
        by_cases same : k = component.1
        · rw [if_pos same] at kept
          exact Or.inl ⟨component.2, by simp [same], kept⟩
        · rw [if_neg same] at kept
          refine Or.inr ⟨?_, kept⟩
          simp only [List.map_cons, List.mem_cons, not_or]
          exact ⟨same, absent⟩

end Ohara
