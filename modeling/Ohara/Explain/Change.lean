import Ohara.Explain.Hydrator

/-!
# Blame and the uncached explain path

`blame_range` restricted to the lines of the file on disk, and `explain_change`, which always runs
the blame before it hydrates, sorts and cuts the hits.
-/

namespace Ohara

/-- What the blame of one file says about each line: its commit of origin, if any. -/
abbrev FileBlame := Nat → Option String

/-- The parts of a git repository the explain path reads, at one moment. -/
structure GitRepo where
  /-- Reading a file of the work tree; none for a bare repository. -/
  workdir : Option (String → Option String)
  blameFile : String → Except OhraError FileBlame
  /-- Blob of a file in the tree of HEAD. -/
  headBlob : String → Option ContentHash
  firstCommitSha : Except String String

namespace Blamer

/-- The lines from `lineStart` to `lineEnd` that the file on disk has. -/
def clampedLines (repo : GitRepo) (file : String) (lineStart lineEnd : Nat) :
    Except OhraError (List Nat) :=
    if lineStart = 0 ∨ lineEnd < lineStart then pure []
    else
      match repo.workdir with
      | none => throw (.git "repo has no workdir (bare repo?)")
      | some readToString =>
          let lineCount :=
            match readToString file with
            | some text => countLines text
            | none => 0
          pure (List.range' lineStart (min lineEnd lineCount + 1 - lineStart))

/-- Add a line to the entry of its commit; the entries are kept in order of their shas. -/
def pushLine (sha : String) (line : Nat) : List BlameRange → List BlameRange
  | [] => [⟨sha, [line]⟩]
  | r :: rest =>
      if sha = r.commitSha then ⟨r.commitSha, r.lines ++ [line]⟩ :: rest
      else if sha < r.commitSha then ⟨sha, [line]⟩ :: r :: rest
      else r :: pushLine sha line rest

/-- One entry for each commit of origin, with the lines it owns. -/
def groupLines (blame : FileBlame) (lines : List Nat) : List BlameRange :=
    lines.foldl
      (fun bySha line =>
        match blame line with
        | some sha => pushLine sha line bySha
        | none => bySha)
      []

/-- The blame of a list of lines; without lines the blame is not run. -/
def blameLines (repo : GitRepo) (file : String) (lines : List Nat) :
    Except OhraError (List BlameRange) :=
    if lines.isEmpty then pure []
    else do
      let blame ← repo.blameFile file
      pure (groupLines blame lines)

/-- The blame of the lines, one range for each commit. -/
def blameRange (repo : GitRepo) (file : String) (lineStart lineEnd : Nat) :
    Except OhraError (List BlameRange) := do
    let lines ← clampedLines repo file lineStart lineEnd
    blameLines repo file lines

end Blamer

/-- What an explanation says about itself. -/
structure ExplainMeta where
  linesQueried : Nat × Nat
  commitsUnique : Nat
  blameCoverage : ℚ
  limitation : Option String
  relatedCommits : List RelatedCommit
  enrichmentLimitation : Option String
deriving DecidableEq, Repr

/-- The answer to an explanation request. -/
structure ExplainResult where
  hits : List ExplainHit
  info : ExplainMeta
deriving DecidableEq, Repr

namespace Explain

/-- The most hits that can be asked for. -/
def kMax : Nat := 20

/-- Newest first, then by sha. -/
def newestFirst (a b : ExplainHit) : Bool :=
    if a.commitDate = b.commitDate then decide (a.commitSha ≤ b.commitSha)
    else decide (b.commitDate < a.commitDate)

/-- `k` hits at most, and at least one. -/
def clampK (k : UInt8) : Nat :=
    max 1 (min k.toNat kMax)

/-- The result for hydrated blame: sorted hits, cut to `k`. -/
def assembleExplainResult (hydrated : HydratedBlame) (query : ExplainQuery) : ExplainResult :=
    let hits := (hydrated.hits.mergeSort newestFirst).take (clampK query.k)
    { hits := hits
      info :=
        { linesQueried := hydrated.clampedRange
          commitsUnique := hits.length
          blameCoverage := hydrated.coverage
          limitation := hydrated.limitation
          relatedCommits := hydrated.relatedCommits
          enrichmentLimitation := hydrated.enrichmentLimitation } }

variable (rfc3339 : Hydrator.DateFormat) (storage : ExplainStorage)

/-- Hydrate, sort and cut: what follows the blame on every path. -/
def explainRanges (ranges : List BlameRange) (query : ExplainQuery) :
    Except OhraError ExplainResult := do
    let hydrated ← Hydrator.hydrateBlameResults rfc3339 storage ranges query
    pure (assembleExplainResult hydrated query)

/-- `explain_change`: blame the requested range, then hydrate, sort and cut to `k`. -/
def explainChange (repo : GitRepo) (query : ExplainQuery) : Except OhraError ExplainResult := do
    let rawBlame ← Blamer.blameRange repo query.file query.lineStart.toNat query.lineEnd.toNat
    explainRanges rfc3339 storage rawBlame query

end Explain

end Ohara
