import Ohara.Storage.Schema

/-!
# The `repo` and `index_metadata` tables

The watermark of a repository and the component versions its index was recorded under. No foreign
key mentions these tables, so their statements are not refused.
-/

namespace Ohara

namespace Repo

/-- `repo::upsert`: a known repository keeps its watermark. -/
def upsert (id : RepoId) (path firstCommitSha : String) (db : Database) : Database :=
    { db with
      repo := Rows.upsert RepoRow.id ⟨id.value, path, firstCommitSha, none⟩
        (fun old => { old with path := path }) db.repo }

/-- `repo::get_status`, of which the indexer reads `last_indexed_commit`. -/
def getStatus (id : RepoId) (db : Database) : Option String :=
    (Rows.lookup RepoRow.id id.value db.repo).bind RepoRow.lastIndexedCommit

/-- `set_last_indexed_commit`. -/
def setWatermark (id : RepoId) (sha : String) (db : Database) : Database :=
    { db with
      repo := db.repo.map fun row =>
        if row.id = id.value then { row with lastIndexedCommit := some sha } else row }

end Repo

/-- The recorded version of each component of one repository. -/
structure StoredIndexMetadata where
  components : List (String × String)

namespace IndexMetadata

/-- The recorded components of the repository. -/
def get (id : RepoId) (db : Database) : StoredIndexMetadata where
  components := (db.indexMetadata.filter fun row => decide (row.repoId = id.value)).map
    fun row => (row.component, row.version)

/-- The upsert of one component. -/
def putOne (id : RepoId) (db : Database) (component : String × String) : Database :=
    { db with
      indexMetadata := Rows.upsert (fun row => (row.repoId, row.component))
        ⟨id.value, component.1, component.2⟩
        (fun old => { old with version := component.2 }) db.indexMetadata }

/-- `index_metadata::put_many`: components that are not passed keep their rows. -/
def putMany (id : RepoId) (components : List (String × String)) (db : Database) : Database :=
    components.foldl (putOne id) db

end IndexMetadata

/-- The recorded version of a component. -/
def StoredIndexMetadata.get (stored : StoredIndexMetadata) (component : String) : Option String :=
    stored.components.lookup component

end Ohara
