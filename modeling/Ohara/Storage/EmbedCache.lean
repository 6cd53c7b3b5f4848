import Ohara.Library.Chunks
import Ohara.Storage.Schema

/-!
# The `chunk_embed_cache` table

Embeddings by the digest of the embedded text and the model.
-/

namespace Ohara

namespace EmbedCache

/-- Keys looked up by one statement. -/
def bindBatchSize : Nat := 500

/-- The rows one `IN` query returns. -/
def queryChunk (db : Database) (embedModel : String) (hashes : List ContentHash) :
    List (ContentHash × Vector) :=
    (db.chunkEmbedCache.filter fun row =>
      decide (row.embedModel = embedModel) && decide (⟨row.contentHash⟩ ∈ hashes)).map
        fun row => (⟨row.contentHash⟩, bytesToVec row.diffEmb)

/-- `embed_cache::get_many`: an entry for each hash that has a row. -/
def getMany (db : Database) (hashes : List ContentHash) (embedModel : String) :
    List (ContentHash × Vector) :=
    (Chunks.chunks bindBatchSize hashes).flatMap (queryChunk db embedModel)

/-- `INSERT OR IGNORE` of one entry. -/
def putOne (embedModel : String) (db : Database) (entry : ContentHash × Vector) : Database :=
    { db with
      chunkEmbedCache := Rows.insertOrIgnore (fun row => (row.contentHash, row.embedModel))
        ⟨entry.1.hex, embedModel, vecToBytes entry.2⟩ db.chunkEmbedCache }

/-- The entries in turn, each in place of one with its key. -/
def putMany (entries : List (ContentHash × Vector)) (embedModel : String) (db : Database) :
    Database :=
    entries.foldl (putOne embedModel) db

end EmbedCache

end Ohara
