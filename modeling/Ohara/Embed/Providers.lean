import Ohara.Index.EmbedEach

/-!
# The embedding providers

A provider is a loaded session behind `embed_batch`. The session compiled for CoreML knows one shape
only, so its provider sends every call with the same number of rows: it fills the last slice up with
empty texts, and cuts what comes back. None of that shows in the vectors of a commit.
-/

namespace Ohara

/-- `TextEmbedding::embed`, with the message of its error. -/
abbrev EmbedSession := List String → Except String (List Vector)

/-- The error of a session, as the provider reports it. -/
def embeddingError {α : Type} : Except String α → Except OhraError α
  | .ok v => .ok v
  | .error message => .error (.embedding message)

namespace FastEmbed

/-- The texts in one call; no call without a text. -/
def embedBatch (session : EmbedSession) (texts : List String) : Except OhraError (List Vector) :=
    if texts.isEmpty then .ok []
    else embeddingError (session texts)

/-- The quantized model. -/
def provider (session : EmbedSession) : Embedder where
  modelId := "bge-small-en-v1.5-q"
  dimension := 384
  embedBatch := embedBatch session

/-- The session gives every text of a batch the vector it gives the text alone. -/
def RowWise (session : EmbedSession) (embedOne : String → Option Vector) : Prop :=
    ∀ rows, rows ≠ [] → ∀ vectors, session rows = .ok vectors ↔
      rows.map embedOne = vectors.map some

end FastEmbed

namespace CoreMlFixed

/-- Rows of one call. -/
def fixedBatch : Nat := 32

/-- `Vec::resize` with empty texts. -/
def padRows (chunk : List String) (width : Nat) : List String :=
    chunk.take width ++ List.replicate (width - chunk.length) ""

/-- One call, of which the vectors of the texts are kept. -/
def embedChunk (session : EmbedSession) (out : List Vector) (chunk : List String) :
    Except String (List Vector) := do
    let vecs ← session (padRows chunk fixedBatch)
    return out ++ vecs.take chunk.length

/-- The texts in calls of the compiled number of rows. -/
def embedBatch (session : EmbedSession) (texts : List String) : Except OhraError (List Vector) :=
    if texts.isEmpty then .ok []
    else embeddingError ((Chunks.chunks fixedBatch texts).foldlM (embedChunk session) [])

/-- The full-precision model, compiled for one shape. -/
def provider (session : EmbedSession) : Embedder where
  modelId := "bge-small-en-v1.5"
  dimension := 384
  embedBatch := embedBatch session

/-- Of calls with the compiled number of rows, each row has the vector of its text; of other calls
nothing is known. -/
def RowWise (session : EmbedSession) (embedOne : String → Option Vector) : Prop :=
    ∀ rows, rows.length = fixedBatch → ∀ vectors, session rows = .ok vectors ↔
      rows.map embedOne = vectors.map some

end CoreMlFixed

theorem embeddingError_eq_ok {α : Type} {answered : Except String α} {v : α} :
    embeddingError answered = .ok v ↔ answered = .ok v := by
  cases answered with
  | ok v' => simp [embeddingError]
  | error message => simp [embeddingError]

theorem map_nil_iff {embedOne : String → Option Vector} {vectors : List Vector} :
    ([] : List String).map embedOne = vectors.map some ↔ vectors = [] := by
  rw [List.map_nil, eq_comm, List.map_eq_nil_iff]

namespace FastEmbed

variable {session : EmbedSession} {embedOne : String → Option Vector}

theorem provider_each (rowWise : RowWise session embedOne) :
    (provider session).EachText embedOne := by
  intro texts vectors
  cases texts with
  | nil =>
      rw [map_nil_iff, eq_comm]
      simp [provider, embedBatch]
  | cons text rest =>
      rw [← rowWise (text :: rest) (by simp) vectors, ← embeddingError_eq_ok]
      rfl

end FastEmbed

namespace CoreMlFixed

variable {session : EmbedSession} {embedOne : String → Option Vector}

theorem length_padRows {chunk : List String} {width : Nat} (fits : chunk.length ≤ width) :
    (padRows chunk width).length = width := by
  simp only [padRows, List.length_append, List.length_take, List.length_replicate]
  omega

theorem padRows_of_fits {chunk : List String} {width : Nat} (fits : chunk.length ≤ width) :
    padRows chunk width = chunk ++ List.replicate (width - chunk.length) "" := by
  rw [padRows, List.take_of_length_le fits]

/-- The rows that fill a call up do not change the vectors of the others. -/
theorem embedChunk_each (rowWise : RowWise session embedOne) (padding : (embedOne "").isSome)
    {chunk : List String} (fits : chunk.length ≤ fixedBatch) {out vectors : List Vector} :
    embedChunk session out chunk = .ok vectors ↔
      ∃ embs, chunk.map embedOne = embs.map some ∧ vectors = out ++ embs := by
  rcases Option.isSome_iff_exists.1 padding with ⟨blank, embedded_blank⟩
  rw [embedChunk, Fallible.bind_eq_ok]
  simp only [rowWise _ (length_padRows fits)]
  simp only [padRows_of_fits fits, List.map_append, List.map_replicate, embedded_blank]
  constructor
  · rintro ⟨vecs, embedded, ⟨⟩⟩
    rcases List.append_eq_map_iff.1 embedded with ⟨embs, fill, rfl, of_chunk, -⟩
    have count : embs.length = chunk.length := by
      simpa using congrArg List.length of_chunk
    refine ⟨embs, of_chunk.symm, ?_⟩
    rw [← count, List.take_left]
  · rintro ⟨embs, of_chunk, rfl⟩
    have count : embs.length = chunk.length := by
      simpa using (congrArg List.length of_chunk).symm
    refine ⟨embs ++ List.replicate (fixedBatch - chunk.length) blank, ?_, ?_⟩
    · rw [of_chunk, List.map_append, List.map_replicate]
    · rw [← count, List.take_left]
      rfl

theorem provider_each (rowWise : RowWise session embedOne) (padding : (embedOne "").isSome) :
    (provider session).EachText embedOne := by
  intro texts vectors
  cases texts with
  | nil =>
      rw [map_nil_iff, eq_comm]
      simp [provider, embedBatch]
  | cons text rest =>
      have batched : (provider session).embedBatch (text :: rest) = embeddingError
          ((Chunks.chunks fixedBatch (text :: rest)).foldlM (embedChunk session) []) := rfl
      have each_chunk : ∀ chunk ∈ Chunks.chunks fixedBatch (text :: rest), ∀ out result,
          embedChunk session out chunk = .ok result ↔
            ∃ embs, chunk.map embedOne = embs.map some ∧ result = out ++ embs := by
        intro chunk chunk_mem out result
        exact embedChunk_each rowWise padding (Chunks.length_le_of_mem_chunks chunk_mem)
      rw [batched, embeddingError_eq_ok, Chunks.foldlM_each each_chunk,
        Chunks.flatten_chunks (by decide)]
      simp

end CoreMlFixed

end Ohara
