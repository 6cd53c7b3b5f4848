import Ohara.Index.EmbedRun

/-!
# Embedding text by text

With an embedder that treats each text of a batch on its own, failures included, the embed stage
gives every hunk what the cache has for its input or else what the embedder makes of it. How the
texts were batched, and by whom the cache was filled, does not show.
-/

namespace Ohara

/-- A batch goes through when each of its texts does, and holds their vectors in order. -/
def Embedder.EachText (embedder : Embedder) (embedOne : String → Option Vector) : Prop :=
    ∀ texts vectors, embedder.embedBatch texts = .ok vectors ↔
      texts.map embedOne = vectors.map some

namespace EmbedStage

variable {stage : EmbedStage} {embedOne : String → Option Vector}
  {cached entries : List (ContentHash × Vector)} {misses : List (ContentHash × String)}
  {hunks : List AttributedHunk} {message : String} {output : EmbedOutput}

theorem embedChunk_each (each : stage.embedder.EachText embedOne) {out vectors : List Vector}
    {chunk : List String} : stage.embedChunk out chunk = .ok vectors ↔
      ∃ embs, chunk.map embedOne = embs.map some ∧ vectors = out ++ embs := by
  rw [embedChunk, Fallible.bind_eq_ok]
  apply exists_congr
  intro embs
  rw [each chunk embs]
  apply and_congr_right
  intro embedded
  have count : embs.length = chunk.length := by
    simpa using (congrArg List.length embedded).symm
  constructor
  · intro checked
    simp only [count, ne_eq, not_true, if_false] at checked
    cases checked
    rfl
  · rintro rfl
    simp only [count, ne_eq, not_true, if_false]
    rfl

theorem embedChunks_each (each : stage.embedder.EachText embedOne) {chunks : List (List String)}
    {out vectors : List Vector} : chunks.foldlM stage.embedChunk out = .ok vectors ↔
      ∃ embs, chunks.flatten.map embedOne = embs.map some ∧ vectors = out ++ embs := by
  induction chunks generalizing out with
  | nil =>
      constructor
      · rintro ⟨⟩
        exact ⟨[], rfl, by simp⟩
      · rintro ⟨embs, embedded, rfl⟩
        cases embs with
        | nil => simp
        | cons vector rest => cases embedded
  | cons chunk rest ih =>
      simp only [List.foldlM_cons, Fallible.bind_eq_ok, embedChunk_each each, ih,
        List.flatten_cons, List.map_append]
      constructor
      · rintro ⟨-, ⟨embs, head, rfl⟩, tail_embs, tail, rfl⟩
        exact ⟨embs ++ tail_embs, by simp [head, tail], by simp⟩
      · rintro ⟨embs, embedded, rfl⟩
        rcases List.append_eq_map_iff.1 embedded with ⟨head_embs, tail_embs, rfl, head, tail⟩
        exact ⟨_, ⟨head_embs, head.symm, rfl⟩, tail_embs, tail.symm, by simp⟩

/-- Chunking does not show in what a batch gives. -/
theorem embedInChunks_each (each : stage.embedder.EachText embedOne) {texts : List String}
    {vectors : List Vector} : stage.embedInChunks texts = .ok vectors ↔
      texts.map embedOne = vectors.map some := by
  rw [embedInChunks_eq, embedChunks_each each, Chunks.flatten_chunks (by omega)]
  simp

/-- What the cache has for a text, or else what the embedder makes of it. -/
def vectorOf (stage : EmbedStage) (embedOne : String → Option Vector)
    (cached : List (ContentHash × Vector)) (text : String) : Option Vector :=
    (cached.lookup (stage.fromText text)).or (embedOne text)

/-- The message has its own vector, and each hunk the one `vec` has for its input. -/
structure EmbedsEach (stage : EmbedStage) (embedOne vec : String → Option Vector)
    (message : String) (hunks : List AttributedHunk) (output : EmbedOutput) : Prop where
  message : embedOne message = some output.commitEmbedding
  hunks : output.hunks.map (fun hunk => (hunk.attributed, some hunk.embedding)) =
    hunks.map fun hunk => (hunk, vec (hunkInput stage.embedMode hunk))

theorem EmbedsEach.unique {vec : String → Option Vector} {output' : EmbedOutput}
    (embeds : stage.EmbedsEach embedOne vec message hunks output)
    (embeds' : stage.EmbedsEach embedOne vec message hunks output') : output = output' := by
  have same_message := embeds.message.symm.trans embeds'.message
  have same_hunks := embeds.hunks.trans embeds'.hunks.symm
  have injective : Function.Injective fun hunk : EmbeddedHunk =>
      (hunk.attributed, some hunk.embedding) := by
    rintro ⟨attributed, embedding⟩ ⟨attributed', embedding'⟩ same
    simpa using same
  rcases output with ⟨commitEmbedding, embedded⟩
  rcases output' with ⟨commitEmbedding', embedded'⟩
  rw [EmbedOutput.mk.injEq]
  exact ⟨Option.some.inj same_message, List.map_injective_iff.2 injective same_hunks⟩

/-- Every entry is what the embedder made of a text with its digest. -/
def Computed (stage : EmbedStage) (embedOne : String → Option Vector)
    (entries : List (ContentHash × Vector)) : Prop :=
    ∀ entry ∈ entries, ∃ text, entry.1 = stage.fromText text ∧ embedOne text = some entry.2

theorem computed_zip {missVecs : List Vector}
    (keyed : ∀ miss ∈ misses, miss.1 = stage.fromText miss.2)
    (embedded : (misses.map Prod.snd).map embedOne = missVecs.map some) :
    stage.Computed embedOne ((misses.map Prod.fst).zip missVecs) := by
  induction misses generalizing missVecs with
  | nil =>
      intro entry mem
      cases mem
  | cons miss rest ih =>
      cases missVecs with
      | nil => cases embedded
      | cons vector missVecs =>
          simp only [List.map_cons, List.cons.injEq] at embedded
          rw [List.forall_mem_cons] at keyed
          intro entry mem
          simp only [List.map_cons, List.zip_cons_cons, List.mem_cons] at mem
          rcases mem with rfl | mem
          · exact ⟨miss.2, keyed.1, embedded.1⟩
          · exact ih keyed.2 embedded.2 entry mem

theorem Computed.lookup (computed : stage.Computed embedOne entries)
    (collisionFree : Function.Injective stage.fromText) {text : String} {vector : Vector}
    (found : entries.lookup (stage.fromText text) = some vector) :
    embedOne text = some vector := by
  rcases computed _ (Memo.mem_of_lookup found) with ⟨other, same, embedded⟩
  rw [collisionFree same]
  exact embedded

theorem found_each (computed : stage.Computed embedOne entries)
    (collisionFree : Function.Injective stage.fromText) {text : String}
    (filed : (cached.lookup (stage.fromText text)).isSome ∨
      (entries.lookup (stage.fromText text)).isSome) :
    some (match cached.lookup (stage.fromText text) with
      | some embedding => embedding
      | none => (entries.lookup (stage.fromText text)).getD []) =
      stage.vectorOf embedOne cached text := by
  rw [vectorOf]
  cases hit : cached.lookup (stage.fromText text) with
  | some embedding => rfl
  | none =>
      rw [hit] at filed
      rcases Option.isSome_iff_exists.1 (filed.resolve_left (by simp)) with ⟨embedding, miss⟩
      simp [miss, computed.lookup collisionFree miss]

theorem assemble_each (computed : stage.Computed embedOne entries)
    (collisionFree : Function.Injective stage.fromText)
    (filed : ∀ input ∈ stage.hunkInputs hunks,
      (cached.lookup input.2).isSome ∨ (entries.lookup input.2).isSome) :
    (assemble cached entries hunks (stage.hunkInputs hunks)).map
        (fun hunk => (hunk.attributed, some hunk.embedding)) =
      hunks.map fun hunk =>
        (hunk, stage.vectorOf embedOne cached (hunkInput stage.embedMode hunk)) := by
  induction hunks with
  | nil => rfl
  | cons hunk rest ih =>
      rw [hunkInputs, List.map_cons, List.forall_mem_cons] at filed
      rw [List.map_cons, ← ih filed.2, ← found_each computed collisionFree filed.1]
      rfl

theorem embedMessage_each (each : stage.embedder.EachText embedOne) :
    stage.embedMessage message = .ok output ↔
      embedOne message = some output.commitEmbedding ∧ output.hunks = [] := by
  rw [embedMessage, Fallible.bind_eq_ok]
  constructor
  · rintro ⟨embs, answered, first⟩
    rw [each] at answered
    cases embs with
    | nil => cases answered
    | cons commitEmbedding rest =>
        cases first
        simp only [List.map_cons, List.cons.injEq] at answered
        exact ⟨answered.1, rfl⟩
  · rcases output with ⟨commitEmbedding, embedded⟩
    rintro ⟨answered, rfl⟩
    exact ⟨[commitEmbedding], (each _ _).2 (by simp [answered]), rfl⟩

theorem keyed_misses (stage : EmbedStage) (cached : List (ContentHash × Vector))
    (hunks : List AttributedHunk) :
    ∀ miss ∈ uniqueMisses cached [] (stage.hunkInputs hunks), miss.1 = stage.fromText miss.2 := by
  apply uniqueMisses_keyed
  · simp
  · simp [hunkInputs]

/-- A run that goes through embeds each text, and computed what it is to write back. -/
theorem run_embeds (each : stage.embedder.EachText embedOne)
    (collisionFree : Function.Injective stage.fromText)
    (ran : stage.run cached message hunks = .ok (output, entries)) :
    stage.EmbedsEach embedOne (stage.vectorOf embedOne cached) message hunks output ∧
      stage.Computed embedOne entries := by
  rw [run] at ran
  split at ran
  · next empty =>
      rw [List.isEmpty_iff] at empty
      rcases Fallible.bind_eq_ok.1 ran with ⟨alone, embedded, returned⟩
      cases returned
      rcases (embedMessage_each each).1 embedded with ⟨answered, no_hunks⟩
      refine ⟨⟨answered, by rw [no_hunks, empty]; rfl⟩, ?_⟩
      intro entry mem
      cases mem
  · rcases Fallible.bind_eq_ok.1 ran with ⟨allEmbs, embedded, assembled⟩
    have keyed := stage.keyed_misses cached hunks
    have filed := stage.hunkInputs_filed cached hunks
    generalize uniqueMisses cached [] (stage.hunkInputs hunks) = misses
      at embedded assembled keyed filed
    rw [embedInChunks_each each] at embedded
    cases allEmbs with
    | nil => cases embedded
    | cons commitVec missVecs =>
        rw [List.map_cons, List.map_cons, List.cons.injEq] at embedded
        have count : missVecs.length = misses.length := by
          simpa using (congrArg List.length embedded.2).symm
        have computed := computed_zip keyed embedded.2
        simp only [count, ne_eq, not_true, if_false] at assembled
        cases assembled
        refine ⟨⟨embedded.1, assemble_each computed collisionFree ?_⟩, computed⟩
        intro input mem
        rw [isSome_lookup_zip count]
        exact filed input mem

/-- The input of each hunk has a vector. -/
theorem EmbedsEach.defined {vec : String → Option Vector}
    (embeds : stage.EmbedsEach embedOne vec message hunks output) {text : String}
    (input : text ∈ hunks.map (hunkInput stage.embedMode)) : (vec text).isSome := by
  rcases List.mem_map.1 input with ⟨hunk, hunk_mem, rfl⟩
  have paired : (hunk, vec (hunkInput stage.embedMode hunk)) ∈
      output.hunks.map fun hunk => (hunk.attributed, some hunk.embedding) := by
    rw [embeds.hunks]
    exact List.mem_map.2 ⟨hunk, hunk_mem, rfl⟩
  rcases List.mem_map.1 paired with ⟨embedded, -, same⟩
  rw [Prod.mk.injEq] at same
  rw [← same.2]
  rfl

/-- Where every text has a vector the run goes through. -/
theorem run_defined (each : stage.embedder.EachText embedOne)
    (collisionFree : Function.Injective stage.fromText)
    (embeds : stage.EmbedsEach embedOne (stage.vectorOf embedOne cached) message hunks output) :
    ∃ result, stage.run cached message hunks = .ok result := by
  rw [run]
  split
  · have alone : stage.embedMessage message = .ok ⟨output.commitEmbedding, []⟩ :=
      (embedMessage_each each).2 ⟨embeds.message, rfl⟩
    exact ⟨_, by rw [alone]; rfl⟩
  · have defined : ∀ text ∈ (uniqueMisses cached [] (stage.hunkInputs hunks)).map Prod.snd,
        (embedOne text).isSome := by
      intro text mem
      rcases List.mem_map.1 mem with ⟨miss, miss_mem, rfl⟩
      have key := mem_keys_uniqueMisses.1 (List.mem_map_of_mem miss_mem)
      rw [stage.keyed_misses cached hunks miss miss_mem, digests_hunkInputs,
        List.mem_map_of_injective collisionFree] at key
      rcases key.resolve_left (by simp) with ⟨input, uncached⟩
      simpa [vectorOf, uncached] using embeds.defined input
    rcases Fallible.exists_map_some defined with ⟨missVecs, embedded⟩
    have batch : stage.embedInChunks
        (message :: (uniqueMisses cached [] (stage.hunkInputs hunks)).map Prod.snd) =
        .ok (output.commitEmbedding :: missVecs) := by
      rw [embedInChunks_each each, List.map_cons, List.map_cons, embeds.message, embedded]
    have count : missVecs.length = (uniqueMisses cached [] (stage.hunkInputs hunks)).length := by
      simpa using (congrArg List.length embedded).symm
    simp only [batch, Fallible.ok_bind, count, ne_eq, not_true, if_false]
    exact ⟨_, rfl⟩

/-- The outputs the stage can give are those that embed each text. -/
theorem run_iff_embeds (each : stage.embedder.EachText embedOne)
    (collisionFree : Function.Injective stage.fromText) :
    (∃ entries, stage.run cached message hunks = .ok (output, entries)) ↔
      stage.EmbedsEach embedOne (stage.vectorOf embedOne cached) message hunks output := by
  constructor
  · rintro ⟨entries, ran⟩
    exact (run_embeds each collisionFree ran).1
  · intro embeds
    rcases run_defined each collisionFree embeds with ⟨⟨output', entries⟩, ran⟩
    rw [embeds.unique (run_embeds each collisionFree ran).1]
    exact ⟨entries, ran⟩

/-- Caches that agree on the inputs of the hunks lead to the same output. -/
theorem run_congr (each : stage.embedder.EachText embedOne)
    (collisionFree : Function.Injective stage.fromText) {cached' : List (ContentHash × Vector)}
    (agree : ∀ text ∈ hunks.map (hunkInput stage.embedMode),
      stage.vectorOf embedOne cached text = stage.vectorOf embedOne cached' text) :
    (stage.run cached message hunks).toOption.map Prod.fst =
      (stage.run cached' message hunks).toOption.map Prod.fst := by
  have outputs : ∀ (ran : Except OhraError (EmbedOutput × List (ContentHash × Vector))) output,
      ran.toOption.map Prod.fst = some output ↔ ∃ entries, ran = .ok (output, entries) := by
    rintro (e | ⟨output', entries⟩) output
    · simp [Except.toOption]
    · simp [Except.toOption]
  have same_hunks : (hunks.map fun hunk =>
        (hunk, stage.vectorOf embedOne cached (hunkInput stage.embedMode hunk))) =
      hunks.map fun hunk =>
        (hunk, stage.vectorOf embedOne cached' (hunkInput stage.embedMode hunk)) := by
    apply List.map_congr_left
    intro hunk mem
    rw [agree _ (List.mem_map_of_mem mem)]
  apply Option.ext
  intro output
  rw [outputs, outputs, run_iff_embeds each collisionFree, run_iff_embeds each collisionFree]
  constructor
  · rintro ⟨answered, embedded⟩
    exact ⟨answered, embedded.trans same_hunks⟩
  · rintro ⟨answered, embedded⟩
    exact ⟨answered, embedded.trans same_hunks.symm⟩

/-! ## The vectors of a database -/

/-- The key of a cached vector. -/
def cacheKey (row : ChunkEmbedCacheRow) : String × String :=
    (row.contentHash, row.embedModel)

/-- The vector the cache has for a text, where it is consulted. -/
def cachedVector (stage : EmbedStage) (db : Database) (text : String) : Option Vector :=
    if stage.consultsCache then
      (Rows.lookup cacheKey ((stage.fromText text).hex, stage.embedder.modelId)
        db.chunkEmbedCache).map fun row => bytesToVec row.diffEmb
    else none

/-- The vector a hunk with this input is given. -/
def vectorIn (stage : EmbedStage) (embedOne : String → Option Vector) (db : Database)
    (text : String) : Option Vector :=
    (stage.cachedVector db text).or (embedOne text)

theorem lookup_queryChunk (db : Database) (embedModel : String) (hashes : List ContentHash)
    (hash : ContentHash) : (EmbedCache.queryChunk db embedModel hashes).lookup hash =
      if hash ∈ hashes then
        (Rows.lookup cacheKey (hash.hex, embedModel) db.chunkEmbedCache).map
          fun row => bytesToVec row.diffEmb
      else none := by
  rw [EmbedCache.queryChunk]
  induction db.chunkEmbedCache with
  | nil => simp [Rows.lookup]
  | cons row rest ih =>
      by_cases same : hash = ⟨row.contentHash⟩
      · subst same
        by_cases model : row.embedModel = embedModel
        · by_cases asked : (⟨row.contentHash⟩ : ContentHash) ∈ hashes
          · simp [Rows.lookup, cacheKey, model, asked]
          · simpa [Rows.lookup, cacheKey, model, asked] using ih
        · simpa [Rows.lookup, cacheKey, model] using ih
      · have unequal : (hash == (⟨row.contentHash⟩ : ContentHash)) = false := by simpa using same
        have other : ¬ row.contentHash = hash.hex := by
          intro same_hex
          exact same (by rw [same_hex])
        by_cases found : row.embedModel = embedModel ∧ (⟨row.contentHash⟩ : ContentHash) ∈ hashes
        · simpa [Rows.lookup, cacheKey, other, found, List.lookup_cons, unequal] using ih
        · simpa [Rows.lookup, cacheKey, other, found] using ih

theorem lookup_queryChunks (db : Database) (embedModel : String) (chunks : List (List ContentHash))
    (hash : ContentHash) : (chunks.flatMap (EmbedCache.queryChunk db embedModel)).lookup hash =
      if hash ∈ chunks.flatten then
        (Rows.lookup cacheKey (hash.hex, embedModel) db.chunkEmbedCache).map
          fun row => bytesToVec row.diffEmb
      else none := by
  induction chunks with
  | nil => simp
  | cons chunk rest ih =>
      rw [List.flatMap_cons, List.lookup_append, lookup_queryChunk, ih, List.flatten_cons]
      by_cases in_chunk : hash ∈ chunk
      · by_cases in_rest : hash ∈ rest.flatten
        · simp [in_chunk, in_rest]
        · simp [in_chunk, in_rest]
      · simp [in_chunk]

/-- A text that is asked for gets the vector the table has for it. -/
theorem lookup_getMany (db : Database) (embedModel : String) {hashes : List ContentHash}
    {hash : ContentHash} (asked : hash ∈ hashes) :
    (EmbedCache.getMany db hashes embedModel).lookup hash =
      (Rows.lookup cacheKey (hash.hex, embedModel) db.chunkEmbedCache).map
        fun row => bytesToVec row.diffEmb := by
  rw [EmbedCache.getMany, lookup_queryChunks, Chunks.flatten_chunks (by decide), if_pos asked]

theorem vectorOf_getMany (consults : stage.consultsCache = true) (db : Database) {text : String}
    (input : text ∈ hunks.map (hunkInput stage.embedMode)) :
    stage.vectorOf embedOne (EmbedCache.getMany db ((stage.hunkInputs hunks).map Prod.snd)
      stage.embedder.modelId) text = stage.vectorIn embedOne db text := by
  have asked : stage.fromText text ∈ (stage.hunkInputs hunks).map Prod.snd := by
    rw [digests_hunkInputs]
    exact List.mem_map_of_mem input
  rw [vectorOf, vectorIn, cachedVector, if_pos consults, lookup_getMany db _ asked]

theorem vectorIn_putOne (collisionFree : Function.Injective stage.fromText) (db : Database)
    {entry : ContentHash × Vector} {computedFrom : String}
    (digest : entry.1 = stage.fromText computedFrom)
    (embedded : embedOne computedFrom = some entry.2) :
    stage.vectorIn embedOne (EmbedCache.putOne stage.embedder.modelId db entry) =
      stage.vectorIn embedOne db := by
  funext text
  rw [vectorIn, vectorIn, cachedVector, cachedVector]
  split
  · have written : Rows.lookup cacheKey ((stage.fromText text).hex, stage.embedder.modelId)
        (EmbedCache.putOne stage.embedder.modelId db entry).chunkEmbedCache =
        (Rows.lookup cacheKey ((stage.fromText text).hex, stage.embedder.modelId)
          db.chunkEmbedCache).or
          (if entry.1.hex = (stage.fromText text).hex then
            some ⟨entry.1.hex, stage.embedder.modelId, vecToBytes entry.2⟩ else none) :=
      (Rows.lookup_insertOrIgnore cacheKey ((stage.fromText text).hex, stage.embedder.modelId)
        ⟨entry.1.hex, stage.embedder.modelId, vecToBytes entry.2⟩ db.chunkEmbedCache).trans
        (by simp [cacheKey])
    rw [written]
    cases Rows.lookup cacheKey ((stage.fromText text).hex, stage.embedder.modelId)
        db.chunkEmbedCache with
    | some row => rfl
    | none =>
        by_cases same : entry.1.hex = (stage.fromText text).hex
        · have same_text : computedFrom = text := by
            apply collisionFree
            rw [← digest]
            exact congrArg ContentHash.mk same
          simp [same, bytesToVec_vecToBytes, ← same_text, embedded]
        · simp [same]
  · rfl

/-- Writing computed vectors back leaves the vector of every text. -/
theorem vectorIn_putMany (collisionFree : Function.Injective stage.fromText)
    (computed : stage.Computed embedOne entries) (db : Database) :
    stage.vectorIn embedOne (EmbedCache.putMany entries stage.embedder.modelId db) =
      stage.vectorIn embedOne db := by
  induction entries generalizing db with
  | nil => rfl
  | cons entry rest ih =>
      rcases computed entry List.mem_cons_self with ⟨text, digest, embedded⟩
      have computed_rest : stage.Computed embedOne rest := by
        intro other mem
        exact computed other (List.mem_cons_of_mem entry mem)
      exact (ih computed_rest _).trans (vectorIn_putOne collisionFree db digest embedded)

end EmbedStage

end Ohara
