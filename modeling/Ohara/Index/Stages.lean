import Ohara.Types

/-!
# From a commit to its attributed hunks

The stages that read the repository and nothing else: the raw hunks of a commit, the ignore filter,
and the symbols parsed from the post-image of each touched file.
-/

namespace Ohara

/-- `str::lines`: text between line feeds, without the carriage return before one. -/
def splitLines : List Char → List Char → List (List Char)
  | current, [] => if current.isEmpty then [] else [current.reverse]
  | current, c :: rest =>
      if c = '\n' then
        (match current with
          | '\r' :: line => line.reverse
          | line => line.reverse) :: splitLines [] rest
      else splitLines (c :: current) rest

/-- `count_added_lines`: lines that start with one plus sign but not with three. -/
def countAddedLines (diffText : String) : Nat :=
    ((splitLines [] diffText.toList).filter fun line =>
      line.take 1 == ['+'] && line.take 3 != ['+', '+', '+']).length

/-- The repository as the indexer reads it. A hunk names the commit it was read from, and its
language is a function of its path. -/
structure CommitSource where
  hunksForCommit : String → Except OhraError (List Hunk)
  fileAtCommit : String → String → Except OhraError (Option String)
  detectLanguage : String → Option String
  hunk_sha : ∀ sha hunks, hunksForCommit sha = .ok hunks → ∀ hunk ∈ hunks, hunk.commitSha = sha
  hunk_language : ∀ sha hunks, hunksForCommit sha = .ok hunks →
    ∀ hunk ∈ hunks, hunk.language = detectLanguage hunk.filePath

/-- A hunk with the text the embedder is given. -/
structure ChunkedHunk where
  commitSha : String
  filePath : String
  diffText : String
  semanticText : String
  sourceHunk : Hunk
deriving DecidableEq, Repr

/-- A chunked hunk with the symbols of its file, where there are any. -/
structure AttributedHunk where
  record : ChunkedHunk
  symbols : Option (List Symbol)
  attributedSemanticText : Option String
deriving DecidableEq, Repr

/-- The attributed text where there is one, else the chunk's. -/
def AttributedHunk.effectiveSemanticText (hunk : AttributedHunk) : String :=
    hunk.attributedSemanticText.getD hunk.record.semanticText

namespace HunkChunkStage

/-- The commit message goes before the diff. -/
def chunk (commit : CommitMeta) (hunk : Hunk) : ChunkedHunk where
  commitSha := hunk.commitSha
  filePath := hunk.filePath
  diffText := hunk.diffText
  semanticText := commit.message ++ "\n\n" ++ hunk.diffText
  sourceHunk := hunk

/-- `HunkChunkStage::run`. -/
def run (source : CommitSource) (commit : CommitMeta) : Except OhraError (List ChunkedHunk) := do
  let rawHunks ← source.hunksForCommit commit.commitSha
  return rawHunks.map (chunk commit)

end HunkChunkStage

namespace AttributeStage

/-- Sources above this size are not parsed. -/
def maxAttributableSourceBytes : Nat := 2 * 1024 * 1024

/-- The symbols of a post-image; an empty parse counts as none. -/
def extractSymbols (extract : String → String → List Symbol) (path : String)
    (source : Option String) : Option (List Symbol) :=
    match source with
    | some source =>
        if source.utf8ByteSize ≤ maxAttributableSourceBytes then
          match extract path source with
          | [] => none
          | atoms => some atoms
        else none
    | none => none

/-- The first symbol's name is put before the text, unless it is empty. -/
def attributedText (record : ChunkedHunk) (symbols : List Symbol) : String :=
    match symbols with
    | [] => record.semanticText
    | symbol :: _ =>
        if symbol.name.isEmpty then record.semanticText
        else symbol.name ++ "\n" ++ record.semanticText

/-- One record with the symbols of its file. -/
def attributeRecord (extract : String → String → List Symbol) (record : ChunkedHunk)
    (source : Option String) : AttributedHunk :=
    let symbols := extractSymbols extract record.filePath source
    { record := record
      symbols := symbols
      attributedSemanticText := symbols.map (attributedText record) }

/-- The post-image of a path, from `memo` or else fetched, and the paths that were fetched. -/
def sourceOf (source : CommitSource) (sha : String) (memo : List (String × Option String))
    (path : String) :
    List String × Except OhraError (Option String × List (String × Option String)) :=
    match memo.lookup path with
    | some cached => ([], .ok (cached, memo))
    | none =>
        ([path], (source.fileAtCommit sha path).map fun fetched =>
          (fetched, (path, fetched) :: memo))

/-- The loop from the state of the memo, with the paths that it fetches. -/
def runFrom (source : CommitSource) (extract : String → String → List Symbol) (sha : String) :
    List (String × Option String) → List ChunkedHunk →
      List String × Except OhraError (List AttributedHunk)
  | _, [] => ([], .ok [])
  | memo, record :: rest =>
      match sourceOf source sha memo record.filePath with
      | (fetched, .error e) => (fetched, .error e)
      | (fetched, .ok (file, memo)) =>
          let ran := runFrom source extract sha memo rest
          (fetched ++ ran.1, ran.2.map (attributeRecord extract record file :: ·))

/-- `AttributeStage::run`. -/
def run (source : CommitSource) (extract : String → String → List Symbol) (sha : String)
    (records : List ChunkedHunk) : Except OhraError (List AttributedHunk) :=
    (runFrom source extract sha [] records).2

/-- The paths that `AttributeStage::run` fetches, in order. -/
def fetches (source : CommitSource) (extract : String → String → List Symbol) (sha : String)
    (records : List ChunkedHunk) : List String :=
    (runFrom source extract sha [] records).1

end AttributeStage

/-- What one commit adds to the counters of a run. -/
structure CommitWorkResult where
  newHunks : Nat
  totalDiffBytes : Nat
  totalAddedLines : Nat
  /-- The commit was stored, and not skipped for having ignored paths only. -/
  persisted : Bool
deriving DecidableEq, Repr

/-- `CommitWorkResult::default`. -/
def CommitWorkResult.zero : CommitWorkResult where
  newHunks := 0
  totalDiffBytes := 0
  totalAddedLines := 0
  persisted := false

/-- The counters of a stored commit. -/
def CommitWorkResult.ofRecords (records : List ChunkedHunk) : CommitWorkResult where
  newHunks := records.length
  totalDiffBytes := (records.map fun record => record.diffText.utf8ByteSize).sum
  totalAddedLines := (records.map fun record => countAddedLines record.diffText).sum
  persisted := true

/-- `records.retain(..)`: the hunks of paths that are not ignored. -/
def retainKept (isIgnored : String → Bool) (records : List ChunkedHunk) : List ChunkedHunk :=
    records.filter fun record => !isIgnored record.filePath

/-- The commit has hunks and all of them are on ignored paths. -/
def fullyIgnored (isIgnored : String → Bool) (records : List ChunkedHunk) : Bool :=
    decide (0 < records.length) && decide ((retainKept isIgnored records).length = 0)

end Ohara
