import Ohara.Library.Fallible
import Ohara.Library.Memo
import Ohara.Index.Embed
import Ohara.Storage.EmbedCache

/-!
# A whole run of the embed stage

`EmbedStage::run` over the cache table, with the batches it sends to the embedder, the index of each
miss in the batch, and the lookups that panic when they find nothing. With a per-text embedder and a
cache that holds its vectors, the run with the cache is the run without it.
-/

namespace Ohara

/-- A batch that goes through holds the vector of each of its texts, in order. -/
def Embedder.PerText (embedder : Embedder) (vector : String → Vector) : Prop :=
    ∀ texts vectors, embedder.embedBatch texts = .ok vectors → vectors = texts.map vector

/-- Every cached vector is what the row's model makes of the text the row is filed under. -/
def EmbedCache.Consistent (fromText : String → ContentHash) (vector : String → String → Vector)
    (db : Database) : Prop :=
    ∀ row ∈ db.chunkEmbedCache, ∀ text, (fromText text).hex = row.contentHash →
      row.diffEmb = vecToBytes (vector row.embedModel text)

/-- How a run ends early. -/
inductive EmbedStop where
  | failed (error : OhraError)
  /-- A lookup that is expected to succeed found nothing. -/
  | panicked
deriving DecidableEq

/-- What a call of the stage leaves. -/
structure EmbedRun where
  output : EmbedOutput
  /-- The texts of each call of the embedder, in order. -/
  calls : List (List String)
  db : Database

namespace EmbedStage

/-- The loop that fills `batch_texts` and `hash_to_batch_idx`. -/
def fillBatch (cached : List (ContentHash × Vector)) :
    List String → List (ContentHash × Nat) → List (String × ContentHash) →
      List String × List (ContentHash × Nat)
  | batchTexts, hashToBatchIdx, [] => (batchTexts, hashToBatchIdx)
  | batchTexts, hashToBatchIdx, (input, hash) :: rest =>
      if (cached.lookup hash).isSome || (hashToBatchIdx.lookup hash).isSome then
        fillBatch cached batchTexts hashToBatchIdx rest
      else
        fillBatch cached (batchTexts ++ [input]) (hashToBatchIdx ++ [(hash, batchTexts.length)]) rest

/-- One call of the embedder, put on record. -/
def send (stage : EmbedStage) (calls : List (List String)) (texts : List String) :
    Except EmbedStop (List Vector × List (List String)) :=
    match stage.embedder.embedBatch texts with
    | .error e => .error (.failed e)
    | .ok embs => .ok (embs, calls ++ [texts])

/-- One pass of the loop of `embed_in_chunks`. -/
def sendChunk (stage : EmbedStage) (sent : List Vector × List (List String)) (chunk : List String) :
    Except EmbedStop (List Vector × List (List String)) := do
    let (embs, calls) ← stage.send sent.2 chunk
    if embs.length ≠ chunk.length then
      throw (.failed (.embedding ("embed_batch returned " ++ toString embs.length ++
        " vectors for " ++ toString chunk.length ++ " inputs")))
    else
      return (sent.1 ++ embs, calls)

/-- The vectors of the texts and the batches they were sent in. -/
def sendInChunks (stage : EmbedStage) (texts : List String) :
    Except EmbedStop (List Vector × List (List String)) :=
    (Chunks.chunks (max stage.embedBatch 1) texts).foldlM stage.sendChunk ([], [])

/-- One pass of the same loop without the record. -/
def embedChunk (stage : EmbedStage) (out : List Vector) (chunk : List String) :
    Except OhraError (List Vector) := do
    let embs ← stage.embedder.embedBatch chunk
    if embs.length ≠ chunk.length then
      throw (.embedding ("embed_batch returned " ++ toString embs.length ++ " vectors for " ++
        toString chunk.length ++ " inputs"))
    else
      return out ++ embs

theorem embedInChunks_eq (stage : EmbedStage) (texts : List String) :
    stage.embedInChunks texts =
      (Chunks.chunks (max stage.embedBatch 1) texts).foldlM stage.embedChunk [] :=
  rfl

/-- `miss_vecs[batch_idx - 1]`, with the panic for an index out of range. -/
def missVec (missVecs : List Vector) (batchIdx : Nat) : Except EmbedStop Vector :=
    match missVecs[batchIdx - 1]? with
    | some vector => .ok vector
    | none => .error .panicked

/-- The entries of the write-back. -/
def missEntries (hashToBatchIdx : List (ContentHash × Nat)) (missVecs : List Vector) :
    Except EmbedStop (List (ContentHash × Vector)) :=
    hashToBatchIdx.mapM fun (hash, batchIdx) => do
      let vector ← missVec missVecs batchIdx
      return (hash, vector)

/-- The vector of a hunk: cached, or at the index that the batch has for its digest. -/
def resolve (cached : List (ContentHash × Vector)) (hashToBatchIdx : List (ContentHash × Nat))
    (missVecs : List Vector) (hash : ContentHash) : Except EmbedStop Vector :=
    match cached.lookup hash with
    | some embedding => .ok embedding
    | none =>
        match hashToBatchIdx.lookup hash with
        | some batchIdx => missVec missVecs batchIdx
        | none => .error .panicked

/-- What the cache has for the hunks when the mode consults it. -/
def cachedFor (stage : EmbedStage) (db : Database) (hunks : List AttributedHunk) :
    List (ContentHash × Vector) :=
    if stage.consultsCache then
      EmbedCache.getMany db ((stage.hunkInputs hunks).map Prod.snd) stage.embedder.modelId
    else []

/-- `EmbedStage::run`. -/
def runOn (stage : EmbedStage) (db : Database) (message : String) (hunks : List AttributedHunk) :
    Except EmbedStop EmbedRun :=
    if hunks.isEmpty then do
      let (embs, calls) ← stage.send [] [message]
      match embs with
      | [] => throw (.failed (.embedding "embed_batch returned empty"))
      | commitEmbedding :: _ =>
          return { output := { commitEmbedding := commitEmbedding, hunks := [] }
                   calls := calls
                   db := db }
    else do
      let inputs := stage.hunkInputs hunks
      let cached := stage.cachedFor db hunks
      let (batchTexts, hashToBatchIdx) := fillBatch cached [message] [] inputs
      let (allEmbs, calls) ← stage.sendInChunks batchTexts
      match allEmbs with
      | [] => throw (.failed (.embedding "embed_batch returned empty for non-empty input"))
      | commitVec :: missVecs =>
          if missVecs.length ≠ hashToBatchIdx.length then
            throw (.failed (.embedding ("miss vector count " ++ toString missVecs.length ++
              " != unique miss count " ++ toString hashToBatchIdx.length)))
          else do
            let written ←
              if stage.consultsCache then do
                let entries ← missEntries hashToBatchIdx missVecs
                pure (EmbedCache.putMany entries stage.embedder.modelId db)
              else pure db
            let embedded ← (hunks.zip inputs).mapM fun (hunk, _, hash) => do
              let embedding ← resolve cached hashToBatchIdx missVecs hash
              pure ({ attributed := hunk, embedding := embedding } : EmbeddedHunk)
            return { output := { commitEmbedding := commitVec, hunks := embedded }
                     calls := calls
                     db := written }

/-! ## The run of the pipeline with its calls -/

/-- The index each miss has in the batch, behind the message. -/
def batchIndex (misses : List (ContentHash × String)) : List (ContentHash × Nat) :=
    (misses.map Prod.fst).zipIdx 1

variable {stage : EmbedStage} {db : Database} {cached entries : List (ContentHash × Vector)}
  {misses : List (ContentHash × String)} {missVecs : List Vector} {hash : ContentHash}
  {hunks : List AttributedHunk}

theorem length_batchIndex (misses : List (ContentHash × String)) :
    (batchIndex misses).length = misses.length := by
  simp [batchIndex]

theorem batchIndex_append (misses : List (ContentHash × String)) (miss : ContentHash × String) :
    batchIndex (misses ++ [miss]) = batchIndex misses ++ [(miss.1, misses.length + 1)] := by
  simp [batchIndex, List.zipIdx_append, Nat.add_comm]

theorem isSome_lookup_batchIndex (misses : List (ContentHash × String)) (hash : ContentHash) :
    ((batchIndex misses).lookup hash).isSome = (misses.lookup hash).isSome := by
  apply Bool.eq_iff_iff.2
  rw [Memo.isSome_lookup_iff, Memo.isSome_lookup_iff, batchIndex, List.zipIdx_map_fst]

/-- The loop collects the misses with their positions. -/
theorem fillBatch_eq (cached : List (ContentHash × Vector)) (message : String)
    (misses : List (ContentHash × String)) (inputs : List (String × ContentHash)) :
    fillBatch cached (message :: misses.map Prod.snd) (batchIndex misses) inputs =
      (message :: (uniqueMisses cached misses inputs).map Prod.snd,
        batchIndex (uniqueMisses cached misses inputs)) := by
  induction inputs generalizing misses with
  | nil => rfl
  | cons input rest ih =>
      rcases input with ⟨input, hash⟩
      rw [fillBatch, uniqueMisses, isSome_lookup_batchIndex]
      split
      · exact ih misses
      · rw [← ih (misses ++ [(hash, input)]), batchIndex_append]
        simp

/-- A recorded call returns what the call returns. -/
theorem sendChunks_eq (stage : EmbedStage) (chunks : List (List String)) (out : List Vector)
    (calls : List (List String)) :
    chunks.foldlM stage.sendChunk (out, calls) =
      (chunks.foldlM stage.embedChunk out).mapError EmbedStop.failed >>= fun vectors =>
        .ok (vectors, calls ++ chunks) := by
  induction chunks generalizing out calls with
  | nil => simp [Except.mapError]
  | cons chunk rest ih =>
      simp only [List.foldlM_cons, sendChunk, send, embedChunk]
      cases stage.embedder.embedBatch chunk with
      | error e => rfl
      | ok embs =>
          simp only [Fallible.ok_bind]
          by_cases count : embs.length = chunk.length
          · simp only [count, ne_eq, not_true, if_false, Fallible.pure_eq_ok, Fallible.ok_bind]
            rw [ih, List.append_assoc, List.singleton_append]
          · simp only [ne_eq, count, not_false_eq_true, if_true]
            rfl

theorem missVec_eq_ok {batchIdx : Nat} {vector : Vector} :
    missVec missVecs batchIdx = .ok vector ↔ missVecs[batchIdx - 1]? = some vector := by
  simp only [missVec]
  split
  · simp_all
  · simp_all

theorem missEntries_zipIdx (keys : List ContentHash) (n : Nat)
    (count : missVecs.length = n + keys.length) :
    missEntries (keys.zipIdx (n + 1)) missVecs = .ok (keys.zip (missVecs.drop n)) := by
  induction keys generalizing n with
  | nil => simp [missEntries]
  | cons key rest ih =>
      simp only [List.length_cons] at count
      have bound : n < missVecs.length := by omega
      have vector : missVec missVecs (n + 1) = .ok missVecs[n] := by
        rw [missVec_eq_ok]
        exact List.getElem?_eq_getElem bound
      have tail := ih (n + 1) (by omega)
      rw [missEntries] at tail
      rw [List.zipIdx_cons, missEntries, List.mapM_cons, tail, List.drop_eq_getElem_cons bound,
        List.zip_cons_cons]
      simp [vector]

/-- Every index of the batch is that of a vector. -/
theorem missEntries_batchIndex (count : missVecs.length = misses.length) :
    missEntries (batchIndex misses) missVecs = .ok ((misses.map Prod.fst).zip missVecs) := by
  have same : missVecs.length = 0 + (misses.map Prod.fst).length := by simp [count]
  rw [batchIndex]
  simpa using missEntries_zipIdx (misses.map Prod.fst) 0 same

theorem isSome_lookup_zip (count : missVecs.length = misses.length) :
    (((misses.map Prod.fst).zip missVecs).lookup hash).isSome = (misses.lookup hash).isSome := by
  apply Bool.eq_iff_iff.2
  rw [Memo.isSome_lookup_iff, Memo.isSome_lookup_iff, List.map_fst_zip]
  simp [count]

/-- The lookup that is expected to succeed does. -/
theorem resolve_batchIndex (count : missVecs.length = misses.length)
    (filed : (cached.lookup hash).isSome ∨ (misses.lookup hash).isSome) :
    resolve cached (batchIndex misses) missVecs hash =
      .ok (match cached.lookup hash with
        | some embedding => embedding
        | none => (((misses.map Prod.fst).zip missVecs).lookup hash).getD []) := by
  rw [resolve]
  cases hit : cached.lookup hash with
  | some embedding => rfl
  | none =>
      have missed : (misses.lookup hash).isSome := by simpa [hit] using filed
      rw [← isSome_lookup_zip count] at missed
      rcases Option.isSome_iff_exists.1 missed with ⟨embedding, found⟩
      have read : ((batchIndex misses).lookup hash).bind (fun i => missVecs[i - 1]?) = _ :=
        Memo.lookup_zipIdx_bind (misses.map Prod.fst) missVecs 1
      rw [found] at read
      rcases Option.bind_eq_some_iff.1 read with ⟨batchIdx, indexed, vector⟩
      simp [indexed, found, missVec_eq_ok.2 vector]

/-! ## What the batch holds -/

/-- Every digest of the inputs is cached or in the batch. -/
theorem mem_keys_uniqueMisses {inputs : List (String × ContentHash)} :
    hash ∈ (uniqueMisses cached misses inputs).map Prod.fst ↔
      hash ∈ misses.map Prod.fst ∨ hash ∈ inputs.map Prod.snd ∧ cached.lookup hash = none := by
  induction inputs generalizing misses with
  | nil => simp [uniqueMisses]
  | cons input rest ih =>
      rcases input with ⟨input, other⟩
      rw [uniqueMisses]
      split
      · next known =>
          rw [ih]
          have filed : (cached.lookup other).isSome ∨ other ∈ misses.map Prod.fst := by
            rw [← Memo.isSome_lookup_iff]
            simpa using known
          simp only [List.map_cons, List.mem_cons]
          constructor
          · rintro (collected | ⟨later, uncached⟩)
            · exact Or.inl collected
            · exact Or.inr ⟨Or.inr later, uncached⟩
          · rintro (collected | ⟨rfl | later, uncached⟩)
            · exact Or.inl collected
            · left
              simpa [uncached] using filed
            · exact Or.inr ⟨later, uncached⟩
      · next unknown =>
          rw [ih]
          have uncached : cached.lookup other = none := by
            simp only [Bool.or_eq_true, not_or, Bool.not_eq_true, Option.isSome_eq_false_iff,
              Option.isNone_iff_eq_none] at unknown
            exact unknown.1
          by_cases same : hash = other
          · simp [same, uncached]
          · simp [same]

theorem nodup_keys_uniqueMisses {inputs : List (String × ContentHash)}
    (nodup : (misses.map Prod.fst).Nodup) :
    ((uniqueMisses cached misses inputs).map Prod.fst).Nodup := by
  induction inputs generalizing misses with
  | nil => exact nodup
  | cons input rest ih =>
      rcases input with ⟨input, hash⟩
      rw [uniqueMisses]
      split
      · exact ih nodup
      · next unknown =>
          apply ih
          have fresh : hash ∉ misses.map Prod.fst := by
            rw [← Memo.isSome_lookup_iff]
            simp_all
          rw [List.map_append]
          exact nodup.append (List.nodup_singleton hash) (by simpa using fresh)

/-- Each miss is filed under its digest. -/
theorem uniqueMisses_keyed {digest : String → ContentHash} {inputs : List (String × ContentHash)}
    (keyed : ∀ miss ∈ misses, miss.1 = digest miss.2)
    (hashed : ∀ input ∈ inputs, input.2 = digest input.1) :
    ∀ miss ∈ uniqueMisses cached misses inputs, miss.1 = digest miss.2 := by
  induction inputs generalizing misses with
  | nil => exact keyed
  | cons input rest ih =>
      rcases input with ⟨input, hash⟩
      rw [List.forall_mem_cons] at hashed
      rw [uniqueMisses]
      split
      · exact ih keyed hashed.2
      · apply ih _ hashed.2
        intro miss miss_mem
        rcases List.mem_append.1 miss_mem with miss_mem | miss_mem
        · exact keyed miss miss_mem
        · rw [List.mem_singleton.1 miss_mem]
          exact hashed.1

/-! ## The recorded run is the run -/

/-- No lookup of the assembly panics. -/
theorem resolve_hunks (count : missVecs.length = misses.length) (hunks : List AttributedHunk)
    (inputs : List (String × ContentHash))
    (filed : ∀ input ∈ inputs, (cached.lookup input.2).isSome ∨ (misses.lookup input.2).isSome) :
    ((hunks.zip inputs).mapM fun (hunk, _, hash) => do
      let embedding ← resolve cached (batchIndex misses) missVecs hash
      pure ({ attributed := hunk, embedding := embedding } : EmbeddedHunk)) =
      .ok (assemble cached ((misses.map Prod.fst).zip missVecs) hunks inputs) := by
  induction hunks generalizing inputs with
  | nil => rfl
  | cons hunk rest ih =>
      cases inputs with
      | nil => rfl
      | cons input inputs =>
          rw [List.forall_mem_cons] at filed
          have tail := ih inputs filed.2
          have vector := resolve_batchIndex count filed.1
          rw [List.zip_cons_cons, List.mapM_cons, tail]
          simp only [vector, Fallible.ok_bind]
          rfl

/-- The batches a run sends. -/
def batches (stage : EmbedStage) (cached : List (ContentHash × Vector)) (message : String)
    (hunks : List AttributedHunk) : List (List String) :=
    if hunks.isEmpty then [[message]]
    else
      Chunks.chunks (max stage.embedBatch 1)
        (message :: (uniqueMisses cached [] (stage.hunkInputs hunks)).map Prod.snd)

theorem sendInChunks_eq (stage : EmbedStage) (texts : List String) :
    stage.sendInChunks texts =
      (stage.embedInChunks texts).mapError EmbedStop.failed >>= fun vectors =>
        .ok (vectors, Chunks.chunks (max stage.embedBatch 1) texts) := by
  rw [sendInChunks, sendChunks_eq, embedInChunks_eq]
  rfl

theorem hunkInputs_filed (stage : EmbedStage) (cached : List (ContentHash × Vector))
    (hunks : List AttributedHunk) :
    ∀ input ∈ stage.hunkInputs hunks, (cached.lookup input.2).isSome ∨
      ((uniqueMisses cached [] (stage.hunkInputs hunks)).lookup input.2).isSome := by
  intro input input_mem
  by_cases hit : (cached.lookup input.2).isSome
  · exact Or.inl hit
  · right
    rw [Memo.isSome_lookup_iff, mem_keys_uniqueMisses]
    exact Or.inr ⟨List.mem_map_of_mem input_mem, Option.not_isSome_iff_eq_none.1 hit⟩

/-- The run is `EmbedStage::run` with the cache as it finds it, and nothing in it panics. -/
theorem runOn_eq (stage : EmbedStage) (db : Database) (message : String)
    (hunks : List AttributedHunk) :
    stage.runOn db message hunks =
      match stage.run (stage.cachedFor db hunks) message hunks with
      | .error e => .error (.failed e)
      | .ok (output, entries) => .ok
          { output := output
            calls := stage.batches (stage.cachedFor db hunks) message hunks
            db :=
              if stage.consultsCache then EmbedCache.putMany entries stage.embedder.modelId db
              else db } := by
  rw [runOn, run, batches]
  split
  · rw [send, embedMessage]
    cases stage.embedder.embedBatch [message] with
    | error e => rfl
    | ok embs =>
        cases embs with
        | nil => rfl
        | cons commitEmbedding _ => simp [EmbedCache.putMany]
  · have filled : fillBatch (stage.cachedFor db hunks) [message] [] (stage.hunkInputs hunks) =
        (message :: (uniqueMisses (stage.cachedFor db hunks) [] (stage.hunkInputs hunks)).map Prod.snd,
          batchIndex (uniqueMisses (stage.cachedFor db hunks) [] (stage.hunkInputs hunks))) :=
      fillBatch_eq (stage.cachedFor db hunks) message [] (stage.hunkInputs hunks)
    have filed := stage.hunkInputs_filed (stage.cachedFor db hunks) hunks
    simp only [filled, sendInChunks_eq]
    generalize uniqueMisses (stage.cachedFor db hunks) [] (stage.hunkInputs hunks) = misses at filed
    cases stage.embedInChunks (message :: misses.map Prod.snd) with
    | error e => rfl
    | ok allEmbs =>
        cases allEmbs with
        | nil => rfl
        | cons commitVec missVecs =>
            simp only [Fallible.mapError_ok, Fallible.ok_bind, length_batchIndex]
            by_cases count : missVecs.length = misses.length
            · simp only [count, ne_eq, not_true, if_false]
              rw [missEntries_batchIndex count, resolve_hunks count hunks _ filed]
              split
              · rfl
              · rfl
            · simp only [ne_eq, count, not_false_eq_true, if_true]
              rfl

end EmbedStage

/-! ## The cache -/

namespace EmbedCache

variable {fromText : String → ContentHash} {vector : String → String → Vector} {db : Database}

theorem mem_getMany {hashes : List ContentHash} {embedModel : String}
    {entry : ContentHash × Vector} :
    entry ∈ getMany db hashes embedModel ↔ entry.1 ∈ hashes ∧ ∃ row ∈ db.chunkEmbedCache,
      row.embedModel = embedModel ∧ row.contentHash = entry.1.hex ∧
        bytesToVec row.diffEmb = entry.2 := by
  have positive : 0 < bindBatchSize := by decide
  simp only [getMany, List.mem_flatMap, queryChunk, List.mem_map, List.mem_filter,
    Bool.and_eq_true, decide_eq_true_eq]
  constructor
  · rintro ⟨chunk, chunk_mem, row, ⟨row_mem, model, asked⟩, rfl⟩
    exact ⟨Chunks.mem_of_mem_chunk positive chunk_mem asked, row, row_mem, model, rfl, rfl⟩
  · rintro ⟨asked, row, row_mem, model, hash, read⟩
    rcases Chunks.exists_chunk_of_mem positive asked with ⟨chunk, chunk_mem, asked⟩
    refine ⟨chunk, chunk_mem, row, ⟨row_mem, model, ?_⟩, ?_⟩
    · rw [hash]
      exact asked
    · rw [hash, read]

/-- What is read from a consistent cache are the vectors of the model. -/
theorem Consistent.sound_getMany (consistent : Consistent fromText vector db)
    (hashes : List ContentHash) (embedModel : String) :
    Memo.Sound fromText (vector embedModel) (getMany db hashes embedModel) := by
  intro entry entry_mem text same
  rcases mem_getMany.1 entry_mem with ⟨-, row, row_mem, rfl, hash, read⟩
  rw [← read, consistent row row_mem text (by rw [hash, same]), bytesToVec_vecToBytes]

theorem Consistent.putOne (consistent : Consistent fromText vector db) {embedModel : String}
    {entry : ContentHash × Vector}
    (sound : ∀ text, fromText text = entry.1 → entry.2 = vector embedModel text) :
    Consistent fromText vector (EmbedCache.putOne embedModel db entry) := by
  intro row row_mem text hash
  simp only [EmbedCache.putOne, Rows.insertOrIgnore] at row_mem
  split at row_mem
  · exact consistent row row_mem text hash
  · rcases List.mem_append.1 row_mem with row_mem | row_mem
    · exact consistent row row_mem text hash
    · rw [List.mem_singleton] at row_mem
      subst row_mem
      have same : fromText text = entry.1 := congrArg ContentHash.mk hash
      rw [sound text same]

/-- Writing a sound memo back keeps the cache consistent. -/
theorem Consistent.putMany (consistent : Consistent fromText vector db) {embedModel : String}
    {entries : List (ContentHash × Vector)}
    (sound : Memo.Sound fromText (vector embedModel) entries) :
    Consistent fromText vector (EmbedCache.putMany entries embedModel db) := by
  induction entries generalizing db with
  | nil => exact consistent
  | cons entry rest ih =>
      apply ih
      · exact consistent.putOne (sound entry List.mem_cons_self)
      · intro entry' entry_mem
        exact sound entry' (List.mem_cons_of_mem entry entry_mem)

end EmbedCache

namespace EmbedStage

variable {stage : EmbedStage} {db : Database} {vec : String → Vector}
  {cached entries : List (ContentHash × Vector)} {hunks : List AttributedHunk}

/-- The consulted cache has a vector for the text. -/
def Cached (stage : EmbedStage) (db : Database) (text : String) : Prop :=
    stage.consultsCache = true ∧ ∃ row ∈ db.chunkEmbedCache,
      row.embedModel = stage.embedder.modelId ∧ row.contentHash = (stage.fromText text).hex

/-- The vector of the message, and for each hunk that of its own input. -/
def directOutput (stage : EmbedStage) (vec : String → Vector) (message : String)
    (hunks : List AttributedHunk) : EmbedOutput where
  commitEmbedding := vec message
  hunks := hunks.map fun hunk =>
    { attributed := hunk, embedding := vec (hunkInput stage.embedMode hunk) }

theorem embedChunks_perText (perText : stage.embedder.PerText vec) {chunks : List (List String)}
    {out vectors : List Vector} (embedded : chunks.foldlM stage.embedChunk out = .ok vectors) :
    vectors = out ++ chunks.flatten.map vec := by
  induction chunks generalizing out with
  | nil =>
      cases embedded
      simp
  | cons chunk rest ih =>
      rw [List.foldlM_cons, Fallible.bind_eq_ok] at embedded
      rcases embedded with ⟨sofar, chunk_embedded, rest_embedded⟩
      rw [embedChunk, Fallible.bind_eq_ok] at chunk_embedded
      rcases chunk_embedded with ⟨embs, answered, checked⟩
      split at checked
      · cases checked
      · cases checked
        rw [ih rest_embedded, perText chunk embs answered]
        simp

/-- Cutting the batch into chunks does not show in the vectors. -/
theorem embedInChunks_perText (perText : stage.embedder.PerText vec) {texts : List String}
    {vectors : List Vector} (embedded : stage.embedInChunks texts = .ok vectors) :
    vectors = texts.map vec := by
  rw [embedInChunks_eq] at embedded
  rw [embedChunks_perText perText embedded, Chunks.flatten_chunks (by omega), List.nil_append]

theorem found_eq (cached_sound : Memo.Sound stage.fromText vec cached)
    (entries_sound : Memo.Sound stage.fromText vec entries) {text : String}
    (filed : (cached.lookup (stage.fromText text)).isSome ∨
      (entries.lookup (stage.fromText text)).isSome) :
    (match cached.lookup (stage.fromText text) with
      | some embedding => embedding
      | none => (entries.lookup (stage.fromText text)).getD []) = vec text := by
  cases hit : cached.lookup (stage.fromText text) with
  | some embedding => exact cached_sound.lookup hit
  | none =>
      rw [hit] at filed
      rcases Option.isSome_iff_exists.1 (filed.resolve_left (by simp)) with ⟨embedding, miss⟩
      simp only [miss, Option.getD_some]
      exact entries_sound.lookup miss

theorem assemble_eq (cached_sound : Memo.Sound stage.fromText vec cached)
    (entries_sound : Memo.Sound stage.fromText vec entries)
    (filed : ∀ input ∈ stage.hunkInputs hunks,
      (cached.lookup input.2).isSome ∨ (entries.lookup input.2).isSome) :
    assemble cached entries hunks (stage.hunkInputs hunks) = hunks.map fun hunk =>
      { attributed := hunk, embedding := vec (hunkInput stage.embedMode hunk) } := by
  induction hunks with
  | nil => rfl
  | cons hunk rest ih =>
      rw [hunkInputs, List.map_cons, List.forall_mem_cons] at filed
      rw [List.map_cons, ← ih filed.2, ← found_eq cached_sound entries_sound filed.1]
      rfl

/-- With sound vectors at hand a run that goes through is the direct one, and what it computed is
sound. -/
theorem run_perText {output : EmbedOutput} {message : String}
    (perText : stage.embedder.PerText vec) (collisionFree : Function.Injective stage.fromText)
    (cached_sound : Memo.Sound stage.fromText vec cached)
    (ran : stage.run cached message hunks = .ok (output, entries)) :
    output = stage.directOutput vec message hunks ∧ Memo.Sound stage.fromText vec entries := by
  rw [run] at ran
  split at ran
  · next empty =>
      rw [Fallible.bind_eq_ok] at ran
      rcases ran with ⟨output', embedded, returned⟩
      cases returned
      rw [embedMessage, Fallible.bind_eq_ok] at embedded
      rcases embedded with ⟨embs, answered, taken⟩
      rw [perText [message] embs answered] at taken
      cases taken
      rw [List.isEmpty_iff] at empty
      subst empty
      exact ⟨rfl, Memo.sound_nil⟩
  · simp only [Fallible.bind_eq_ok] at ran
    have filed := stage.hunkInputs_filed cached hunks
    have keyed : ∀ miss ∈ uniqueMisses cached [] (stage.hunkInputs hunks),
        miss.1 = stage.fromText miss.2 := by
      apply uniqueMisses_keyed
      · simp
      · simp [hunkInputs]
    generalize uniqueMisses cached [] (stage.hunkInputs hunks) = misses at ran filed keyed
    rcases ran with ⟨allEmbs, embedded, assembled⟩
    rw [embedInChunks_perText perText embedded, List.map_cons] at assembled
    simp only at assembled
    split at assembled
    · cases assembled
    · have entries_sound : Memo.Sound stage.fromText vec
          ((misses.map Prod.fst).zip ((misses.map Prod.snd).map vec)) := by
        have digests : misses.map Prod.fst = (misses.map Prod.snd).map stage.fromText := by
          rw [List.map_map]
          exact List.map_congr_left keyed
        rw [digests]
        exact Memo.sound_zip_map collisionFree _
      cases assembled
      refine ⟨?_, entries_sound⟩
      rw [directOutput, EmbedOutput.mk.injEq]
      refine ⟨rfl, assemble_eq cached_sound entries_sound ?_⟩
      intro input input_mem
      rw [isSome_lookup_zip (by simp)]
      exact filed input input_mem

theorem digests_hunkInputs (stage : EmbedStage) (hunks : List AttributedHunk) :
    (stage.hunkInputs hunks).map Prod.snd =
      (hunks.map (hunkInput stage.embedMode)).map stage.fromText := by
  rw [hunkInputs, List.map_map, List.map_map]
  rfl

/-- The cache answers for a text exactly when it holds a row for it. -/
theorem lookup_cachedFor_eq_none {text : String}
    (input : text ∈ hunks.map (hunkInput stage.embedMode)) :
    (stage.cachedFor db hunks).lookup (stage.fromText text) = none ↔ ¬ stage.Cached db text := by
  rw [Memo.lookup_eq_none_iff, not_iff_not, cachedFor, Cached]
  split
  · next consults =>
      have asked : stage.fromText text ∈ (stage.hunkInputs hunks).map Prod.snd := by
        rw [digests_hunkInputs]
        exact List.mem_map_of_mem input
      rw [List.mem_map]
      constructor
      · rintro ⟨entry, entry_mem, same⟩
        rcases EmbedCache.mem_getMany.1 entry_mem with ⟨-, row, row_mem, model, hash, -⟩
        exact ⟨consults, row, row_mem, model, by rw [hash, same]⟩
      · rintro ⟨-, row, row_mem, model, hash⟩
        exact ⟨(stage.fromText text, bytesToVec row.diffEmb),
          EmbedCache.mem_getMany.2 ⟨asked, row, row_mem, model, hash, rfl⟩, rfl⟩
  · next aside => simp [aside]

/-- Behind the message the batches hold the inputs that are not cached, each once. -/
theorem flatten_batches (collisionFree : Function.Injective stage.fromText) (message : String) :
    ∃ sent, (stage.batches (stage.cachedFor db hunks) message hunks).flatten = message :: sent ∧
      sent.Nodup ∧ ∀ text, text ∈ sent ↔
        text ∈ hunks.map (hunkInput stage.embedMode) ∧ ¬ stage.Cached db text := by
  rw [batches]
  split
  · next empty =>
      rw [List.isEmpty_iff] at empty
      exact ⟨[], rfl, List.nodup_nil, by simp [empty]⟩
  · have keyed : ∀ miss ∈ uniqueMisses (stage.cachedFor db hunks) [] (stage.hunkInputs hunks),
        miss.1 = stage.fromText miss.2 := by
      apply uniqueMisses_keyed
      · simp
      · simp [hunkInputs]
    have keys := @mem_keys_uniqueMisses (stage.cachedFor db hunks) []
    have digests : (uniqueMisses (stage.cachedFor db hunks) [] (stage.hunkInputs hunks)).map
        Prod.fst = ((uniqueMisses (stage.cachedFor db hunks) [] (stage.hunkInputs hunks)).map
        Prod.snd).map stage.fromText := by
      rw [List.map_map]
      exact List.map_congr_left keyed
    refine ⟨_, Chunks.flatten_chunks (by omega) _, ?_, ?_⟩
    · apply List.Nodup.of_map stage.fromText
      rw [← digests]
      exact nodup_keys_uniqueMisses List.nodup_nil
    · intro text
      rw [← List.mem_map_of_injective collisionFree, ← digests, keys, digests_hunkInputs,
        List.mem_map_of_injective collisionFree]
      constructor
      · rintro (collected | ⟨input, uncached⟩)
        · cases collected
        · exact ⟨input, (lookup_cachedFor_eq_none input).1 uncached⟩
      · rintro ⟨input, uncached⟩
        exact Or.inr ⟨input, (lookup_cachedFor_eq_none input).2 uncached⟩

theorem runOn_perText (stage : EmbedStage) {vector : String → String → Vector} {message : String}
    {ran : EmbedRun} (perText : stage.embedder.PerText (vector stage.embedder.modelId))
    (collisionFree : Function.Injective stage.fromText)
    (consistent : EmbedCache.Consistent stage.fromText vector db)
    (run : stage.runOn db message hunks = .ok ran) :
    ran.output = stage.directOutput (vector stage.embedder.modelId) message hunks ∧
      EmbedCache.Consistent stage.fromText vector ran.db ∧
      ran.calls = stage.batches (stage.cachedFor db hunks) message hunks := by
  have cached_sound : Memo.Sound stage.fromText (vector stage.embedder.modelId)
      (stage.cachedFor db hunks) := by
    rw [cachedFor]
    split
    · exact consistent.sound_getMany _ _
    · exact Memo.sound_nil
  rw [runOn_eq] at run
  split at run
  · cases run
  · next output entries produced =>
      rcases run_perText perText collisionFree cached_sound produced with ⟨direct, entries_sound⟩
      cases run
      refine ⟨direct, ?_, rfl⟩
      simp only
      split
      · exact consistent.putMany entries_sound
      · exact consistent

/-- A vector that tells texts of different lengths apart. -/
def lengthVector (text : String) : Vector :=
    [UInt32.ofNat text.length]

/-- An embedder of text lengths behind a cache, in batches of two. -/
def lengthStage : EmbedStage where
  embedder :=
    { modelId := "length"
      dimension := 1
      embedBatch := fun texts => .ok (texts.map lengthVector) }
  embedBatch := 2
  embedMode := .diff
  cache := true
  fromText := ContentHash.mk

/-- A hunk of which only the diff matters. -/
def diffHunk (diffText : String) : AttributedHunk where
  record :=
    { commitSha := "c"
      filePath := "f.rs"
      diffText := diffText
      semanticText := diffText
      sourceHunk :=
        { commitSha := "c"
          filePath := "f.rs"
          language := none
          changeKind := .modified
          diffText := diffText } }
  symbols := none
  attributedSemanticText := none

/-- One text is cached already. -/
def oneCached : Database :=
    { Database.empty with chunkEmbedCache := [⟨"bb", "length", vecToBytes [2]⟩] }

/-- A run with the cache gives what a run without it gives, sends each input that is not cached once
and no other, keeps the cache consistent, and finds every vector it expects. -/
theorem cached_run (stage : EmbedStage) (vector : String → String → Vector)
    (perText : stage.embedder.PerText (vector stage.embedder.modelId))
    (collisionFree : Function.Injective stage.fromText) (db : Database)
    (consistent : EmbedCache.Consistent stage.fromText vector db) (message : String)
    (hunks : List AttributedHunk) :
    stage.runOn db message hunks ≠ .error .panicked ∧
      ∀ ran, stage.runOn db message hunks = .ok ran →
        ran.output = stage.directOutput (vector stage.embedder.modelId) message hunks ∧
        (∀ uncached, { stage with cache := false }.runOn db message hunks = .ok uncached →
          ran.output = uncached.output) ∧
        EmbedCache.Consistent stage.fromText vector ran.db ∧
        ∃ sent, ran.calls.flatten = message :: sent ∧ sent.Nodup ∧ ∀ text, text ∈ sent ↔
          text ∈ hunks.map (hunkInput stage.embedMode) ∧ ¬ stage.Cached db text := by
  constructor
  · rw [runOn_eq]
    split
    · simp
    · simp
  · intro ran run
    rcases stage.runOn_perText perText collisionFree consistent run with ⟨direct, kept, calls⟩
    refine ⟨direct, ?_, kept, ?_⟩
    · intro uncached run_uncached
      rcases runOn_perText { stage with cache := false } perText collisionFree consistent
        run_uncached with ⟨direct_uncached, -, -⟩
      rw [direct, direct_uncached]
      rfl
    · rw [calls]
      exact flatten_batches collisionFree message

/-- Of four hunks with three texts, one is cached and one occurs twice. -/
theorem cached_run_of_duplicates : ∃ ran,
    lengthStage.runOn oneCached "message" (["a", "bb", "a", "ccc"].map diffHunk) = .ok ran ∧
      ran.output.hunks.map EmbeddedHunk.embedding = [[1], [2], [1], [3]] ∧
      EmbedCache.Consistent ContentHash.mk (fun _ => lengthVector) ran.db := by
  have perText : lengthStage.embedder.PerText lengthVector := by
    rintro texts vectors ⟨⟩
    rfl
  have collisionFree : Function.Injective lengthStage.fromText := by
    rintro text text' ⟨⟩
    rfl
  have consistent :
      EmbedCache.Consistent lengthStage.fromText (fun _ => lengthVector) oneCached := by
    intro row row_mem text hash
    rw [List.mem_singleton.1 row_mem] at hash ⊢
    rw [show text = "bb" from hash]
    rfl
  rcases cached_run lengthStage (fun _ => lengthVector) perText collisionFree oneCached consistent
    "message" (["a", "bb", "a", "ccc"].map diffHunk) with ⟨-, spec⟩
  rcases spec _ rfl with ⟨direct, -, kept, -⟩
  refine ⟨_, rfl, ?_, kept⟩
  rw [direct]
  rfl

end EmbedStage

end Ohara
