import Ohara.Library.Chunks
import Ohara.Index.Stages

/-!
# The embed stage

One batch of texts for a commit: its message, then the inputs of its hunks that are neither cached
nor already in the batch. The stage is split at the write-back to the cache, since a run can end
between the two.
-/

namespace Ohara

/-- The embedding model behind `EmbeddingProvider`. -/
structure Embedder where
  modelId : String
  dimension : Nat
  embedBatch : List String → Except OhraError (List Vector)

/-- The fields of `EmbedStage`; `fromText` is the digest behind `ContentHash::from_text`. -/
structure EmbedStage where
  embedder : Embedder
  embedBatch : Nat
  embedMode : EmbedMode
  cache : Bool
  fromText : String → ContentHash

/-- A hunk with its vector. -/
structure EmbeddedHunk where
  attributed : AttributedHunk
  embedding : Vector
deriving DecidableEq, Repr

/-- The vectors of a commit. -/
structure EmbedOutput where
  commitEmbedding : Vector
  hunks : List EmbeddedHunk
deriving DecidableEq, Repr

namespace EmbedStage

/-- The text a mode embeds for a hunk. -/
def hunkInput (mode : EmbedMode) (hunk : AttributedHunk) : String :=
    match mode with
    | .diff => hunk.record.diffText
    | _ => hunk.effectiveSemanticText

/-- The inputs with their digests, in the order of the hunks. -/
def hunkInputs (stage : EmbedStage) (hunks : List AttributedHunk) :
    List (String × ContentHash) :=
    hunks.map fun hunk =>
      (hunkInput stage.embedMode hunk, stage.fromText (hunkInput stage.embedMode hunk))

/-- Whether the stage reads and writes the cache. -/
def consultsCache (stage : EmbedStage) : Bool :=
    stage.embedMode != .off && stage.cache

/-- The batch after the message: inputs whose digest is neither cached nor in the batch yet. -/
def uniqueMisses (cached : List (ContentHash × Vector)) :
    List (ContentHash × String) → List (String × ContentHash) → List (ContentHash × String)
  | misses, [] => misses
  | misses, (input, hash) :: rest =>
      if (cached.lookup hash).isSome || (misses.lookup hash).isSome then
        uniqueMisses cached misses rest
      else uniqueMisses cached (misses ++ [(hash, input)]) rest

/-- The vectors of the texts, in batches; a wrong number of vectors is an error. -/
def embedInChunks (stage : EmbedStage) (texts : List String) : Except OhraError (List Vector) :=
    (Chunks.chunks (max stage.embedBatch 1) texts).foldlM (fun out chunk => do
      let embs ← stage.embedder.embedBatch chunk
      if embs.length ≠ chunk.length then
        throw (.embedding ("embed_batch returned " ++ toString embs.length ++ " vectors for " ++
          toString chunk.length ++ " inputs"))
      else
        return out ++ embs) []

/-- Embed the message alone, for a commit without hunks. -/
def embedMessage (stage : EmbedStage) (message : String) : Except OhraError EmbedOutput := do
  let embs ← stage.embedder.embedBatch [message]
  match embs with
  | [] => throw (.embedding "embed_batch returned empty")
  | commitEmbedding :: _ => return { commitEmbedding := commitEmbedding, hunks := [] }

/-- Pair each hunk with its cached vector or, failing that, with the one just computed. -/
def assemble (cached entries : List (ContentHash × Vector)) (hunks : List AttributedHunk)
    (inputs : List (String × ContentHash)) : List EmbeddedHunk :=
    (hunks.zip inputs).map fun (hunk, _, hash) =>
      { attributed := hunk
        embedding :=
          match cached.lookup hash with
          | some embedding => embedding
          | none => (entries.lookup hash).getD [] }

/-- `EmbedStage::run` up to the write-back: the output, and the entries to write. -/
def run (stage : EmbedStage) (cached : List (ContentHash × Vector)) (message : String)
    (hunks : List AttributedHunk) :
    Except OhraError (EmbedOutput × List (ContentHash × Vector)) :=
    if hunks.isEmpty then do
      let output ← stage.embedMessage message
      return (output, [])
    else do
      let inputs := stage.hunkInputs hunks
      let misses := uniqueMisses cached [] inputs
      let allEmbs ← stage.embedInChunks (message :: misses.map Prod.snd)
      match allEmbs with
      | [] => throw (.embedding "embed_batch returned empty for non-empty input")
      | commitVec :: missVecs =>
          if missVecs.length ≠ misses.length then
            throw (.embedding ("miss vector count " ++ toString missVecs.length ++
              " != unique miss count " ++ toString misses.length))
          else
            let entries := (misses.map Prod.fst).zip missVecs
            return ({ commitEmbedding := commitVec, hunks := assemble cached entries hunks inputs },
              entries)

end EmbedStage

namespace PersistStage

/-- Every parsed symbol of the hunk's file is recorded as touched by the hunk. -/
def hunkSymbol (symbol : Symbol) : HunkSymbol where
  kind := symbol.kind
  name := symbol.name
  qualifiedName := symbol.qualifiedName
  attribution := .exactSpan

/-- The hunk as it is stored. -/
def hunkRow (hunk : EmbeddedHunk) : HunkRecord where
  hunk := hunk.attributed.record.sourceHunk
  diffEmb := hunk.embedding
  semanticText := hunk.attributed.effectiveSemanticText
  symbols := (hunk.attributed.symbols.getD []).map hunkSymbol

/-- The record `PersistStage::run` puts first. -/
def commitRecord (commit : CommitMeta) (output : EmbedOutput) : CommitRecord where
  commitMeta := commit
  messageEmb := output.commitEmbedding
  ulid := commitUlid commit.ts commit.commitSha

/-- The records `PersistStage::run` puts second. -/
def hunkRows (output : EmbedOutput) : List HunkRecord :=
    output.hunks.map hunkRow

end PersistStage

end Ohara
