import Mathlib.Tactic.IntervalCases
import Ohara.Index.Verdict
import Ohara.Storage.Effects
import Ohara.Storage.LaneCuts
import Ohara.Storage.Mirror

/-!
# Migrations

The six versions of the schema on the tables of the latest. A column that a version does not have
yet holds the default it will be added with, and a table that it does not have yet is empty. The
runner commits each pending migration with its history row; it can be cut off between any two of
them, and goes on with the first pending one when it is called again.
-/

namespace Ohara

namespace Database

/-- What the schema of a version holds of the tables. -/
def asOf (version : Nat) (db : Database) : Database :=
    { db with
      symbol := if version < 2 then db.symbol.map fun row => { row with siblingNames := "[]" }
        else db.symbol
      ftsHunkText := if version < 2 then [] else db.ftsHunkText
      ftsSymbolName := if version < 2 then [] else db.ftsSymbolName
      indexMetadata := if version < 3 then [] else db.indexMetadata
      hunk := if version < 4 then db.hunk.map fun row => { row with semanticText := "" }
        else db.hunk
      hunkSymbol := if version < 4 then [] else db.hunkSymbol
      ftsHunkSemantic := if version < 4 then [] else db.ftsHunkSemantic
      chunkEmbedCache := if version < 5 then [] else db.chunkEmbedCache
      commitRecord := if version < 6 then db.commitRecord.map fun row => { row with ulid := "" }
        else db.commitRecord }

/-- `V2__fts_text_and_symbol_name.sql`. -/
def ftsTextAndSymbolName (db : Database) : Database :=
    let symbol := db.symbol.map fun row => { row with siblingNames := "[]" }
    { db with
      symbol := symbol
      ftsHunkText := db.hunk.map fun row => ⟨row.id, row.diffText⟩
      ftsSymbolName := symbol.map fun row => ⟨row.id, row.kind, row.name, row.siblingNames⟩ }

/-- `V3__index_metadata.sql`. -/
def createIndexMetadata (db : Database) : Database :=
    { db with indexMetadata := db.repo.map fun row => ⟨row.id, "schema", "3"⟩ }

/-- `V4__historical_symbol_attribution.sql`. -/
def historicalSymbolAttribution (db : Database) : Database :=
    let added := db.hunk.map fun row => { row with semanticText := "" }
    let hunk := added.map fun row =>
      if row.semanticText = "" then { row with semanticText := row.diffText } else row
    { db with
      hunk := hunk
      hunkSymbol := []
      ftsHunkSemantic := hunk.map fun row => ⟨row.id, row.semanticText⟩ }

/-- `V5__chunk_embed_cache.sql`. -/
def createChunkEmbedCache (db : Database) : Database :=
    { db with chunkEmbedCache := [] }

/-- `V6__commit_ulid.sql`. -/
def commitUlid (db : Database) : Database :=
    { db with commitRecord := db.commitRecord.map fun row => { row with ulid := "" } }

/-- The migration that leads to a version. -/
def migrate : Nat → Database → Database
  | 2 => ftsTextAndSymbolName
  | 3 => createIndexMetadata
  | 4 => historicalSymbolAttribution
  | 5 => createChunkEmbedCache
  | 6 => commitUlid
  | _ => id

end Database

/-- The version of the last migration. -/
def latestVersion : Nat := 6

/-- The tables with the version that `refinery_schema_history` has last. -/
structure Versioned where
  version : Nat
  db : Database

namespace Versioned

/-- The next pending migration commits; there is none at the latest version. -/
def migrateOne (s : Versioned) : Versioned :=
    if s.version < latestVersion then ⟨s.version + 1, s.db.migrate (s.version + 1)⟩ else s

/-- `migrations::run`, cut off after `n` migrations. -/
def run (s : Versioned) (n : Nat) : Versioned :=
    migrateOne^[n] s

/-- The runs of the binaries that open the index one after the other. -/
def runAll (s : Versioned) (attempts : List Nat) : Versioned :=
    attempts.foldl run s

end Versioned

/-! ## The contents that are brought along -/

namespace IndexContents

/-- Symbols without siblings. -/
def withoutSiblings (stored : StoredSymbol) : StoredSymbol :=
    { stored with symbol := { stored.symbol with siblingNames := [] } }

/-- A hunk whose diff stands in for its semantic text, and which has no symbols. -/
def withDiffText (hunk : StoredHunk) : StoredHunk where
  id := hunk.id
  commitSha := hunk.commitSha
  filePathId := hunk.filePathId
  changeKind := hunk.changeKind
  diffText := hunk.diffText
  semanticText := hunk.diffText
  diffEmb := hunk.diffEmb
  symbols := []
  semantic_fallback := fun _ => rfl

/-- A commit as it was stored before it had a ULID. -/
def withoutUlid (record : CommitRecord) : CommitRecord :=
    { record with ulid := "" }

/-- The contents with what a migration fills in. -/
def backfill : Nat → IndexContents → IndexContents
  | 2, contents =>
      { contents with
        symbols := contents.symbols.map withoutSiblings
        symbol_ids_nodup := by
          rw [List.map_map]
          exact contents.symbol_ids_nodup
        symbol_path := by
          intro stored stored_mem
          rcases List.mem_map.1 stored_mem with ⟨old, old_mem, rfl⟩
          exact contents.symbol_path old old_mem }
  | 4, contents =>
      { contents with
        hunks := contents.hunks.map withDiffText
        hunk_ids_nodup := by
          rw [List.map_map]
          exact contents.hunk_ids_nodup
        hunk_commit := by
          intro hunk hunk_mem
          rcases List.mem_map.1 hunk_mem with ⟨old, old_mem, rfl⟩
          exact contents.hunk_commit old old_mem
        hunk_path := by
          intro hunk hunk_mem
          rcases List.mem_map.1 hunk_mem with ⟨old, old_mem, rfl⟩
          exact contents.hunk_path old old_mem }
  | 6, contents =>
      { contents with
        commits := contents.commits.map withoutUlid
        commits_nodup := by
          rw [List.map_map]
          exact contents.commits_nodup
        hunk_commit := by
          rw [List.map_map]
          exact contents.hunk_commit }
  | _, contents => contents

end IndexContents

/-- The tables are the layout of the contents, as far as the version has them. -/
def Database.LaidAt (version : Nat) (db : Database) (contents : IndexContents) : Prop :=
    ∃ aside : Database, db = (aside.withContents contents).asOf version

namespace Database

variable {db : Database} {contents : IndexContents}

theorem laidAt_ftsTextAndSymbolName (laid : db.LaidAt 1 contents) :
    db.ftsTextAndSymbolName.LaidAt 2 (contents.backfill 2) := by
  rcases laid with ⟨aside, rfl⟩
  refine ⟨aside, ?_⟩
  apply Database.ext <;> simp [asOf, withContents, ftsTextAndSymbolName, IndexContents.backfill]
  · exact fun _ _ => rfl
  · exact fun _ _ => rfl
  · exact fun _ _ => rfl

theorem laidAt_createIndexMetadata (laid : db.LaidAt 2 contents) :
    db.createIndexMetadata.LaidAt 3 contents := by
  rcases laid with ⟨aside, rfl⟩
  refine ⟨aside.createIndexMetadata, ?_⟩
  apply Database.ext <;> simp [asOf, withContents, createIndexMetadata]

/-- The diff text of every hunk becomes its semantic text, also when it is empty. -/
theorem laidAt_historicalSymbolAttribution (laid : db.LaidAt 3 contents) :
    db.historicalSymbolAttribution.LaidAt 4 (contents.backfill 4) := by
  rcases laid with ⟨aside, rfl⟩
  refine ⟨aside, ?_⟩
  apply Database.ext <;>
    simp [asOf, withContents, historicalSymbolAttribution, IndexContents.backfill]
  · exact fun _ _ => rfl
  · exact fun _ _ => rfl
  · exact fun _ _ => rfl
  · exact fun _ _ => rfl
  · exact fun _ _ => rfl

theorem laidAt_createChunkEmbedCache (laid : db.LaidAt 4 contents) :
    db.createChunkEmbedCache.LaidAt 5 contents := by
  rcases laid with ⟨aside, rfl⟩
  refine ⟨aside.createChunkEmbedCache, ?_⟩
  apply Database.ext <;> simp [asOf, withContents, createChunkEmbedCache]

theorem laidAt_commitUlid (laid : db.LaidAt 5 contents) :
    db.commitUlid.LaidAt 6 (contents.backfill 6) := by
  rcases laid with ⟨aside, rfl⟩
  refine ⟨aside, ?_⟩
  apply Database.ext <;> simp [asOf, withContents, commitUlid, IndexContents.backfill]
  · exact fun _ _ => rfl
  · exact fun _ _ => rfl
  · exact fun _ _ => rfl

theorem laidAt_migrate {version : Nat} (first : 1 ≤ version) (pending : version < latestVersion)
    (laid : db.LaidAt version contents) :
    (db.migrate (version + 1)).LaidAt (version + 1) (contents.backfill (version + 1)) := by
  unfold latestVersion at pending
  interval_cases version
  · exact laidAt_ftsTextAndSymbolName laid
  · exact laidAt_createIndexMetadata laid
  · exact laidAt_historicalSymbolAttribution laid
  · exact laidAt_createChunkEmbedCache laid
  · exact laidAt_commitUlid laid

/-! ## What a migration leaves -/

/-- The row that a repository is given when the metadata table is created. -/
def schemaRow (row : RepoRow) : IndexMetadataRow where
  repoId := row.id
  component := "schema"
  version := "3"

/-- A hunk row whose diff stands in for its semantic text. -/
def withDiffText (row : HunkRow) : HunkRow :=
    { row with semanticText := row.diffText }

/-- The tables after a migration, but for those that it fills. -/
structure Migrated (version : Nat) (db db' : Database) : Prop where
  repo : db'.repo = db.repo
  commitRecord : db'.commitRecord = db.commitRecord
  vecCommit : db'.vecCommit = db.vecCommit
  filePath : db'.filePath = db.filePath
  vecHunk : db'.vecHunk = db.vecHunk
  hunkSymbol : db'.hunkSymbol = db.hunkSymbol
  symbol : db'.symbol = db.symbol
  chunkEmbedCache : db'.chunkEmbedCache = db.chunkEmbedCache
  hunk : db'.hunk = if version = 4 then db.hunk.map withDiffText else db.hunk
  indexMetadata : db'.indexMetadata =
    if version = 3 then db.repo.map schemaRow else db.indexMetadata

theorem migrated {version : Nat} (first : 1 ≤ version) (pending : version < latestVersion)
    (laid : db.LaidAt version contents) :
    Migrated (version + 1) db (db.migrate (version + 1)) := by
  unfold latestVersion at pending
  rcases laid with ⟨aside, rfl⟩
  interval_cases version
  · constructor <;> simp [asOf, withContents, migrate, ftsTextAndSymbolName]
  · constructor <;> simp [asOf, withContents, migrate, createIndexMetadata, schemaRow]
  · constructor <;> simp [asOf, withContents, migrate, historicalSymbolAttribution, withDiffText]
  · constructor <;> simp [asOf, withContents, migrate, createChunkEmbedCache]
  · constructor <;> simp [asOf, withContents, migrate, commitUlid]

namespace Migrated

variable {version : Nat} {db' : Database}

theorem commitView (migrated : Migrated version db db') : db'.commitView = db.commitView := by
  funext sha
  simp only [Database.commitView, migrated.commitRecord, migrated.vecCommit]

theorem pathOf (migrated : Migrated version db db') : db'.pathOf = db.pathOf := by
  funext id
  simp only [Database.pathOf, migrated.filePath]

theorem symbolViews (migrated : Migrated version db db') : db'.symbolViews = db.symbolViews := by
  simp only [Database.symbolViews, migrated.symbol, migrated.pathOf]

theorem hunkView (migrated : Migrated version db db') : db'.hunkView = db.hunkView := by
  funext row
  simp only [Database.hunkView, migrated.pathOf, migrated.vecHunk, migrated.hunkSymbol]

end Migrated

end Database

/-- A hunk of an index that was brought from one version to another. -/
def HunkView.brought (version version' : Nat) (view : HunkView) : HunkView :=
    if version < 4 ∧ 4 ≤ version' then { view with semanticText := view.diffText } else view

theorem HunkView.brought_self (version : Nat) (view : HunkView) :
    view.brought version version = view := by
  rw [brought, if_neg]
  omega

/-- A step of the way: only the migration to version 4 touches the hunks. -/
theorem HunkView.brought_succ {start version : Nat} (reached : start ≤ version) (view : HunkView) :
    view.brought start (version + 1) = if version + 1 = 4 then
      { view.brought start version with semanticText := (view.brought start version).diffText }
      else view.brought start version := by
  unfold brought
  split_ifs <;> first | rfl | omega

theorem Database.Migrated.hunkViews {db db' : Database} {version : Nat}
    (migrated : Database.Migrated version db db') (sha : String) :
    db'.hunkViews sha = (db.hunkViews sha).map fun view =>
      if version = 4 then { view with semanticText := view.diffText } else view := by
  rw [Database.hunkViews, migrated.hunkView, migrated.hunk]
  by_cases fourth : version = 4
  · simp only [fourth, if_true, List.filter_map, List.map_map, Database.hunkViews]
    rfl
  · simp [fourth, Database.hunkViews]

/-- An index that was brought along from a version: what it was is still there, and the tables of
the version it is at are in step. -/
structure Upgraded (start : Nat) (before : Database) (s : Versioned) : Prop where
  reached : start ≤ s.version
  known : s.version ≤ latestVersion
  laid : ∃ contents, s.db.LaidAt s.version contents
  repo : s.db.repo = before.repo
  commitView : s.db.commitView = before.commitView
  hunkViews : ∀ sha, s.db.hunkViews sha =
    (before.hunkViews sha).map (HunkView.brought start s.version)
  symbolViews : s.db.symbolViews = before.symbolViews
  chunkEmbedCache : s.db.chunkEmbedCache = before.chunkEmbedCache
  indexMetadata : s.db.indexMetadata = if start < 3 ∧ 3 ≤ s.version then
    before.repo.map Database.schemaRow else before.indexMetadata

namespace Upgraded

variable {start : Nat} {before : Database} {s : Versioned}

theorem migrateOne (first : 1 ≤ start) (upgraded : Upgraded start before s) :
    Upgraded start before s.migrateOne := by
  unfold Versioned.migrateOne
  split
  · next pending =>
      rcases upgraded.laid with ⟨contents, laid⟩
      have at_least := le_trans first upgraded.reached
      have migrated := Database.migrated at_least pending laid
      refine ⟨?_, pending, ⟨_, Database.laidAt_migrate at_least pending laid⟩, ?_, ?_, ?_, ?_, ?_,
        ?_⟩
      · exact Nat.le_succ_of_le upgraded.reached
      · rw [migrated.repo, upgraded.repo]
      · rw [migrated.commitView, upgraded.commitView]
      · intro sha
        rw [migrated.hunkViews, upgraded.hunkViews, List.map_map]
        apply List.map_congr_left
        intro view _
        exact (HunkView.brought_succ upgraded.reached view).symm
      · rw [migrated.symbolViews, upgraded.symbolViews]
      · rw [migrated.chunkEmbedCache, upgraded.chunkEmbedCache]
      · have reached := upgraded.reached
        rw [migrated.indexMetadata, upgraded.indexMetadata, upgraded.repo]
        change _ = if start < 3 ∧ 3 ≤ s.version + 1 then _ else _
        split_ifs <;> first | rfl | omega
  · exact upgraded

theorem run (first : 1 ≤ start) (upgraded : Upgraded start before s) (n : Nat) :
    Upgraded start before (s.run n) := by
  induction n generalizing s with
  | zero => exact upgraded
  | succ n ih => exact ih (upgraded.migrateOne first)

theorem runAll (first : 1 ≤ start) (upgraded : Upgraded start before s) (attempts : List Nat) :
    Upgraded start before (s.runAll attempts) := by
  induction attempts generalizing s with
  | nil => exact upgraded
  | cons n rest ih => exact ih (upgraded.run first n)

end Upgraded

theorem Versioned.version_run (s : Versioned) (n : Nat) (known : s.version ≤ latestVersion) :
    (s.run n).version = min (s.version + n) latestVersion := by
  induction n generalizing s with
  | zero => simp [run, known]
  | succ n ih =>
      have next : (s.run (n + 1)).version = (s.migrateOne.run n).version := rfl
      rw [next]
      unfold migrateOne
      split
      · next pending =>
          rw [ih ⟨s.version + 1, s.db.migrate (s.version + 1)⟩ pending]
          simp only [Nat.add_assoc, Nat.add_comm n 1]
      · rw [ih s known]
        omega

/-- At the latest version the tables have everything. -/
theorem Upgraded.laid_latest {start : Nat} {before : Database} {s : Versioned}
    (upgraded : Upgraded start before s) (latest : s.version = latestVersion) :
    ∃ contents : IndexContents, s.db = s.db.withContents contents := by
  rcases upgraded.laid with ⟨contents, aside, laid⟩
  rw [latest] at laid
  refine ⟨contents, ?_⟩
  rw [laid]
  rfl

theorem upgraded_start {start : Nat} {db : Database} {contents : IndexContents}
    (known : start ≤ latestVersion) (laid : db.LaidAt start contents) :
    Upgraded start db ⟨start, db⟩ where
  reached := le_refl _
  known := known
  laid := ⟨contents, laid⟩
  repo := rfl
  commitView := rfl
  hunkViews := by
    intro sha
    have same : HunkView.brought start start = id := funext (HunkView.brought_self start)
    rw [same, List.map_id]
  symbolViews := rfl
  chunkEmbedCache := rfl
  indexMetadata := by
    change db.indexMetadata = if start < 3 ∧ 3 ≤ start then _ else _
    rw [if_neg (by omega)]

/-- What an index has at the latest version. -/
structure Current (start : Nat) (before : Database) (s : Versioned) : Prop where
  latest : s.version = latestVersion
  upgraded : Upgraded start before s
  laid : s.db.Laid
  mirrors : ∃ embeddingOf, MirrorsInStep s.db embeddingOf

theorem Upgraded.current {start : Nat} {before : Database} {s : Versioned}
    (upgraded : Upgraded start before s) (latest : s.version = latestVersion) :
    Current start before s := by
  rcases upgraded.laid_latest latest with ⟨contents, laid⟩
  refine ⟨latest, upgraded, ⟨contents, laid⟩, fun sha =>
    (Rows.lookup CommitRecord.sha sha contents.commits).map CommitRecord.messageEmb, ?_⟩
  rw [laid]
  apply mirrorsInStep_withContents
  intro record record_mem
  rw [Rows.lookup_eq_some_of_mem contents.commits_nodup record_mem]
  rfl

/--
Wherever the runs of the migrations over an index of any version are cut off, what the index had is
kept and its tables are in step, and a run that is not cut off makes it an index of the latest
version with all mirrors.
-/
theorem upgrade_brings_index (start : Nat) (first : 1 ≤ start) (known : start ≤ latestVersion)
    (db : Database) (contents : IndexContents) (laid : db.LaidAt start contents)
    (attempts : List Nat) :
    Upgraded start db (Versioned.runAll ⟨start, db⟩ attempts) ∧
      ∀ n, latestVersion ≤ (Versioned.runAll ⟨start, db⟩ attempts).version + n →
        Current start db ((Versioned.runAll ⟨start, db⟩ attempts).run n) := by
  have upgraded := (upgraded_start known laid).runAll first attempts
  refine ⟨upgraded, ?_⟩
  intro n enough
  apply (upgraded.run first n).current
  rw [Versioned.version_run _ n upgraded.known]
  exact min_eq_right enough

/-- The tables of the first version, of one repository with two hunks. -/
def firstIndex : Database :=
    ({ Database.empty with repo := [⟨"r", "/r", "c1", some "c1"⟩] }.withContents
      (Hunk.twoLanguages [] [])).asOf 1

/-- Three migrations before the process is killed, and a run that goes through. -/
theorem upgrade_brings_first_index :
    Current 1 firstIndex ((Versioned.runAll ⟨1, firstIndex⟩ [3]).run 6) := by
  have brought := upgrade_brings_index 1 (le_refl 1) (by decide) firstIndex
    (Hunk.twoLanguages [] []) ⟨_, rfl⟩ [3]
  exact brought.2 6 (by decide)

/-! ## How an upgraded index is assessed -/

/-- Of an index from before the metadata table only the schema is on record, as `3`. -/
theorem Upgraded.recorded {start : Nat} {before : Database} {s : Versioned}
    (upgraded : Upgraded start before s) (early : start < 3) (created : 3 ≤ s.version)
    {id : RepoId} (opened : id.value ∈ before.repo.map RepoRow.id) (component : String) :
    (IndexMetadata.get id s.db).get component = if component = "schema" then some "3" else none := by
  have rows := upgraded.indexMetadata
  rw [if_pos ⟨early, created⟩] at rows
  have components : (IndexMetadata.get id s.db).components =
      (before.repo.filter fun row => decide (row.id = id.value)).map fun _ => ("schema", "3") := by
    rw [IndexMetadata.get, rows, List.filter_map, List.map_map]
    rfl
  have some_row : before.repo.filter (fun row => decide (row.id = id.value)) ≠ [] := by
    rcases List.mem_map.1 opened with ⟨row, row_mem, same⟩
    exact List.ne_nil_of_mem (List.mem_filter.2 ⟨row_mem, by simpa using same⟩)
  rw [StoredIndexMetadata.get, components, List.map_const']
  cases found : (before.repo.filter fun row => decide (row.id = id.value)).length with
  | zero => exact absurd (List.length_eq_zero_iff.1 found) some_row
  | succ n =>
      by_cases same : component = "schema"
      · simp [List.replicate_succ, same]
      · rw [if_neg same, List.lookup_eq_none_iff]
        intro pair pair_mem
        rw [List.eq_of_mem_replicate pair_mem]
        simpa using same

/-- Its other components are not recorded, and still it is not reported as unknown. -/
theorem upgraded_needs_refresh (start : Nat) (first : 1 ≤ start) (early : start < 3)
    (db : Database) (contents : IndexContents) (laid : db.LaidAt start contents)
    (attempts : List Nat) (created : 3 ≤ (Versioned.runAll ⟨start, db⟩ attempts).version)
    (id : RepoId) (opened : id.value ∈ db.repo.map RepoRow.id) (runtime : RuntimeIndexMetadata)
    (newer : runtime.schemaVersion ≠ "3") :
    CompatibilityStatus.assess runtime
        (IndexMetadata.get id (Versioned.runAll ⟨start, db⟩ attempts).db) =
      .queryCompatibleNeedsRefresh
        (CompatibilityStatus.mismatchReason "schema" "3" runtime.schemaVersion) := by
  have known : start ≤ latestVersion := by
    unfold latestVersion
    omega
  have upgraded := (upgraded_start known laid).runAll first attempts
  have recorded := upgraded.recorded early created opened
  simp [CompatibilityStatus.assess, RuntimeIndexMetadata.vectorAffecting,
    RuntimeIndexMetadata.derived, CompatibilityStatus.checkComponents, recorded, Ne.symm newer]

theorem first_index_needs_refresh :
    CompatibilityStatus.assess CompatibilityStatus.bareRuntime
        (IndexMetadata.get ⟨"r"⟩ (Versioned.runAll ⟨1, firstIndex⟩ [3, 6]).db) =
      .queryCompatibleNeedsRefresh (CompatibilityStatus.mismatchReason "schema" "3" "4") :=
  upgraded_needs_refresh 1 (le_refl 1) (by decide) firstIndex (Hunk.twoLanguages [] []) ⟨_, rfl⟩
    [3, 6] (by decide) ⟨"r"⟩ (by decide) CompatibilityStatus.bareRuntime (by decide)

end Ohara
