import Mathlib.Algebra.Order.Field.Rat
import Ohara.Index.Stages
import Ohara.Library.BinaryRounding

/-!
# Hydration of blame ranges

Blame output is turned into hits: the commits behind the ranges are looked up in one batch, each
indexed commit becomes a hit, and the shape of what is missing is described in words.
-/

namespace Ohara

/-- The lines of the queried range one commit owns. -/
structure BlameRange where
  commitSha : String
  lines : List Nat
deriving DecidableEq, Repr

/-- A caller's request; line numbers count from one and the range is inclusive. -/
structure ExplainQuery where
  file : String
  lineStart : UInt32
  lineEnd : UInt32
  k : UInt8
  includeDiff : Bool
  includeRelated : Bool
deriving DecidableEq, Repr

/-- A commit that explains some of the lines. -/
structure ExplainHit where
  commitSha : String
  commitMessage : String
  commitAuthor : Option String
  commitDate : String
  blameLines : List Nat
  filePath : String
  diffExcerpt : String
  diffTruncated : Bool
  provenance : Provenance
deriving DecidableEq, Repr

/-- A neighbour of a hit that touches the same file. -/
structure RelatedCommit where
  commitSha : String
  commitMessage : String
  commitAuthor : Option String
  commitDate : String
  touchedHunks : Nat
  provenance : Provenance
deriving DecidableEq, Repr

/-- The reads of the storage layer that an explain request makes. -/
structure ExplainStorage where
  getCommitsBySha : List String → Except OhraError (String → Option CommitMeta)
  getHunksForFileInCommit : String → String → Except OhraError (List Hunk)
  getNeighboringFileCommits :
    String → String → Nat → Nat → Except OhraError (List (Nat × CommitMeta))

/-- The lines that an excerpt shows. -/
def diffExcerptMaxLines : Nat := 80

/-- The text up to and including its `n`-th newline; all of it when there are fewer. -/
def takeLines : Nat → List Char → List Char
  | 0, _ => []
  | _ + 1, [] => []
  | n + 1, c :: rest => c :: if c = '\n' then takeLines n rest else takeLines (n + 1) rest

/-- Lines of a text; a trailing partial line counts. -/
def countLines (s : String) : Nat :=
    let newlines := s.toList.count '\n'
    if s.isEmpty then 0
    else if s.toList.getLast? = some '\n' then newlines else newlines + 1

/-- The first lines of a diff, and whether some were left out. -/
def truncateDiff (s : String) (maxLines : Nat) : String × Bool :=
    let totalLines := countLines s
    if totalLines ≤ maxLines then (s, false)
    else
      (String.ofList (takeLines maxLines s.toList) ++
        s!"... ({totalLines - maxLines} more lines)\n", true)

/-- The blame with what the index has on its commits. -/
structure HydratedBlame where
  hits : List ExplainHit
  /-- An `f32`. -/
  coverage : ℚ
  limitation : Option String
  enrichmentLimitation : Option String
  relatedCommits : List RelatedCommit
  clampedRange : Nat × Nat
deriving DecidableEq, Repr

namespace Hydrator

open BinaryRounding (nearest)

/-- `u32::MAX`. -/
def u32Max : Nat := 4294967295

/-- A `u32` counter after an addition; the release profile lets it wrap. -/
def wrapU32 (n : Nat) : Nat := n % 2 ^ 32

/-- The counters are rounded to `f32`, and so is their quotient. -/
def coverageOf (indexed total : Nat) : ℚ :=
    if total = 0 then 0 else nearest 23 (nearest 23 indexed / nearest 23 total)

/-- Smallest and largest attributed line and their number, as the scan over the ranges leaves them. -/
def scanLines (ranges : List BlameRange) : Nat × Nat × Nat :=
    (ranges.flatMap BlameRange.lines).foldl
      (fun (minLine, maxLine, total) l =>
        (if l < minLine then l else minLine, if l > maxLine then l else maxLine,
          wrapU32 (total + 1)))
      (u32Max, 0, 0)

/-- The clamped start and end, and the number of attributed lines. -/
def clampedRange (ranges : List BlameRange) (query : ExplainQuery) : Nat × Nat × Nat :=
    if ranges.isEmpty then (query.lineStart.toNat, query.lineEnd.toNat, 0)
    else
      let (minLine, maxLine, total) := scanLines ranges
      if minLine = u32Max then (query.lineStart.toNat, query.lineEnd.toNat, 0)
      else (minLine, maxLine, total)

/-- The note about lines that are not explained. -/
def buildLimitation (total : Nat) (skipped : List String) (clampedStart clampedEnd : Nat) :
    Option String :=
    if total = 0 then
      some "blame returned no attributable lines (file missing in HEAD or empty range)"
    else if skipped.isEmpty then none
    else
      let n := skipped.length
      let preview := skipped.take 3
      let suffix := if n > preview.length then s!" (+{n - preview.length} more)" else ""
      some (s!"{n} commit(s) older than the local index watermark were skipped: " ++ "[" ++
        ", ".intercalate preview ++ "]" ++ suffix ++
        s!"; range covered: {clampedStart}..={clampedEnd}")

/-- RFC 3339 date of a unix timestamp, empty outside the calendar's range. -/
abbrev DateFormat := Int → String

variable (rfc3339 : DateFormat) (storage : ExplainStorage)

/-- Excerpt of a commit's diff of the file, and whether it was cut. -/
def excerpt (query : ExplainQuery) (commit : CommitMeta) : Except OhraError (String × Bool) :=
    if query.includeDiff then do
      let hunks ← storage.getHunksForFileInCommit commit.commitSha query.file
      let joined := "\n".intercalate (hunks.map Hunk.diffText)
      pure (truncateDiff joined diffExcerptMaxLines)
    else pure ("", false)

/-- Hits, skipped shas and indexed line count, over the ranges in order. -/
def hydrateRanges (query : ExplainQuery) (commitMap : String → Option CommitMeta) :
    List BlameRange → Except OhraError (List ExplainHit × List String × Nat)
  | [] => pure ([], [], 0)
  | r :: rest =>
      match commitMap r.commitSha with
      | some cm => do
          let (diff, truncated) ← excerpt storage query cm
          let (hits, skipped, indexed) ← hydrateRanges query commitMap rest
          let hit : ExplainHit :=
            { commitSha := cm.commitSha, commitMessage := cm.message, commitAuthor := cm.author,
              commitDate := rfc3339 cm.ts, blameLines := r.lines, filePath := query.file,
              diffExcerpt := diff, diffTruncated := truncated, provenance := .exact }
          pure (hit :: hits, skipped, wrapU32 (r.lines.length + indexed))
      | none => do
          let (hits, skipped, indexed) ← hydrateRanges query commitMap rest
          pure (hits, r.commitSha :: skipped, indexed)

/-- The neighbours of one anchor that are neither anchors nor already listed. -/
def freshNeighbours (anchors seen : List String) :
    List (Nat × CommitMeta) → List RelatedCommit
  | [] => []
  | (touched, cm) :: rest =>
      if cm.commitSha ∈ anchors ∨ cm.commitSha ∈ seen then freshNeighbours anchors seen rest
      else
        ⟨cm.commitSha, cm.message, cm.author, rfc3339 cm.ts, touched, .inferred⟩ ::
          freshNeighbours anchors (cm.commitSha :: seen) rest

/-- `collect_related_commits`: two neighbours before and after each hit. -/
def collectRelatedCommits (file : String) (anchors : List String) (out : List RelatedCommit) :
    List ExplainHit → Except OhraError (List RelatedCommit)
  | [] => pure out
  | hit :: rest => do
      let neighbours ← storage.getNeighboringFileCommits file hit.commitSha 2 2
      let seen := out.map RelatedCommit.commitSha
      collectRelatedCommits file anchors
        (out ++ freshNeighbours rfc3339 anchors seen neighbours) rest

/-- The related commits of the hits and the note on them. -/
def enrich (query : ExplainQuery) (hits : List ExplainHit) :
    Except OhraError (List RelatedCommit × Option String) :=
    if !query.includeRelated then pure ([], none)
    else if hits.isEmpty then
      pure ([], some "no indexed blame anchors — no contextual neighbours available")
    else do
      let related ← collectRelatedCommits rfc3339 storage query.file
        (hits.map ExplainHit.commitSha) [] hits
      pure (related, none)

/-- The hits of the indexed ranges, with coverage, clamped range and neighbours. -/
def hydrateBlameResults (ranges : List BlameRange) (query : ExplainQuery) :
    Except OhraError HydratedBlame := do
    let (clampedStart, clampedEnd, total) := clampedRange ranges query
    let commitMap ← storage.getCommitsBySha (ranges.map BlameRange.commitSha)
    let (hits, skipped, indexed) ← hydrateRanges rfc3339 storage query commitMap ranges
    let (related, note) ← enrich rfc3339 storage query hits
    pure
      { hits := hits
        coverage := coverageOf indexed total
        limitation := buildLimitation total skipped clampedStart clampedEnd
        enrichmentLimitation := note
        relatedCommits := related
        clampedRange := (clampedStart, clampedEnd) }

end Hydrator

end Ohara
