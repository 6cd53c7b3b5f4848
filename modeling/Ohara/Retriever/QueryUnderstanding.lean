import Mathlib.Data.List.Infix
import Ohara.Retriever.Coordinator
import Ohara.Storage.MatchQuery

/-!
# Query understanding

`parse_query` classifies a query by the phrases in it and extracts a language, paths, quoted names
and a time; the intent picks the profile that a retrieval runs under. The extractors also collect
the names of the rules that fired.
-/

namespace Ohara

namespace QueryUnderstanding

open Retriever (RankingWeights)

/-- What a query is after. -/
inductive QueryIntent where
  | implementationPattern
  | bugFixPrecedent
  | apiUsage
  | configuration
  | unknown
deriving DecidableEq, Repr

/-- How sure the rules are. -/
inductive Confidence where
  | high
  | medium
  | low
deriving DecidableEq, Repr

/-- What the rules read in a query. -/
structure ParsedQuery where
  intent : QueryIntent
  confidence : Confidence
  language : Option String
  pathTerms : List (List Char)
  symbolTerms : List (List Char)
  sinceUnix : Option Int
  matchedRules : List String
deriving DecidableEq, Repr

/-- `str::contains`. -/
def contains (text : List Char) (phrase : String) : Bool :=
    decide (phrase.toList <:+: text)

/-! ## Language, paths and time -/

/-- The languages a query can hint at. -/
def languages : List String :=
    ["rust", "python", "java", "kotlin"]

/-- The language is a word of the query. -/
def hints (lower : List Char) (lang : String) : Bool :=
    contains lower (" " ++ lang ++ " ") || (lang ++ " ").toList.isPrefixOf lower ||
      (" " ++ lang).toList.isSuffixOf lower || decide (lower = lang.toList) ||
      contains lower ("in " ++ lang)

/-- The first language the query names. -/
def extractLanguageHint (lower : List Char) (rules : List String) : Option String × List String :=
    match languages.find? (hints lower) with
    | some lang => (some lang, rules ++ ["language_hint:" ++ lang])
    | none => (none, rules)

/-- What `trim_matches` keeps at the ends of a word. -/
def isPathChar (c : Char) : Bool :=
    (isAscii c && c.isAlphanum) || decide (c = '/') || decide (c = '.') || decide (c = '_')

/-- The words that look like paths. -/
def extractPathTerms (query : List Char) (rules : List String) :
    List (List Char) × List String :=
    let words := query.splitOnP fun c => isWhitespace c || decide (c = ',') || decide (c = ';')
    let trimmed := words.map fun word =>
      (word.dropWhile fun c => !isPathChar c).rdropWhile fun c => !isPathChar c
    let out := trimmed.filter fun word => word.contains '/' && word.contains '.'
    (out, if out.isEmpty then rules else rules ++ ["path_terms"])

/-- The phrases for a span of time, in seconds. -/
def sincePhrases : List (String × Int) :=
    [("last week", 7 * 86400), ("last 7 days", 7 * 86400), ("last 30 days", 30 * 86400),
      ("last month", 30 * 86400), ("last quarter", 90 * 86400), ("last 90 days", 90 * 86400),
      ("last 6 months", 180 * 86400), ("last year", 365 * 86400)]

/-- The seconds of the first phrase of time in the query. -/
def window (lower : List Char) : Option (String × Int) :=
    sincePhrases.find? fun phrase => contains lower phrase.1

/-- The time a phrase of the query goes back to. -/
def extractSince (lower : List Char) (now : Int) (rules : List String) :
    Option Int × List String :=
    match window lower with
    | some phrase => (some (now - phrase.2), rules ++ ["since:" ++ phrase.1])
    | none => (none, rules)

/-! ## Quoted names -/

/-- The signs around a symbol. -/
def quotes : List Char :=
    [Char.ofNat 0x60, Char.ofNat 0x27, Char.ofNat 0x22]

/-- The name inside the quotes is not a phrase. -/
def isSymbol (buf : List Char) : Bool :=
    !buf.isEmpty && !buf.any isWhitespace

/-- The open quote with what follows it so far, and the names that were found. -/
structure Scan where
  opened : Option (Char × List Char)
  out : List (List Char)
deriving DecidableEq, Repr

/-- One character of the two loops. -/
def scanChar (scan : Scan) (c : Char) : Scan :=
    match scan.opened with
    | none => if c ∈ quotes then { scan with opened := some (c, []) } else scan
    | some (opener, buf) =>
        if c = opener then
          { opened := none, out := if isSymbol buf then scan.out ++ [buf] else scan.out }
        else { scan with opened := some (opener, buf ++ [c]) }

/-- The texts between two equal signs. -/
def extractQuotedSymbols (query : List Char) (rules : List String) :
    List (List Char) × List String :=
    let out := (query.foldl scanChar { opened := none, out := [] }).out
    (out, if out.isEmpty then rules else rules ++ ["quoted_symbols"])

/-! ## Intent -/

/-- The rules in their order: what the query contains, and what that makes of it. -/
def intentRules (lower : List Char) : List (Bool × String × QueryIntent × Confidence) :=
    let has := contains lower
    [(has "where do we configure" || has "where did we configure" ||
          (has "how is" && (has "loaded" || has "configured")) || has "load configuration",
        "intent:configuration:phrase", .configuration, .high),
      (has "config" || has " env " || has "environment variable",
        "intent:configuration:keyword", .configuration, .medium),
      (has "how did we fix" || has "how do we fix" || has "regression for",
        "intent:bug_fix:phrase", .bugFixPrecedent, .high),
      ((has " bug" || has " crash" || has " error") && (has " fix" || has "fixed"),
        "intent:bug_fix:keyword", .bugFixPrecedent, .medium),
      (has "how is" && (has "called" || has "used" || has "invoked"),
        "intent:api_usage:phrase", .apiUsage, .high),
      (has "usages of" || has "callers of" || has "call sites",
        "intent:api_usage:phrase", .apiUsage, .high),
      (has "how did we" || has "how do we" || has "pattern for" || has "like the existing" ||
          has "like our existing" ||
          (has "how was" && (has "done before" || has "implemented")) ||
          (has "add " && has " like " && has "before"),
        "intent:implementation_pattern:phrase", .implementationPattern, .high)]

/-- The intent of the first rule that holds. -/
def classifyIntent (lower : List Char) (rules : List String) :
    (QueryIntent × Confidence) × List String :=
    match (intentRules lower).find? fun rule => rule.1 with
    | some (_, rule, verdict) => (verdict, rules ++ [rule])
    | none => ((.unknown, .low), rules ++ ["intent:unknown:fallthrough"])

/-- `parse_query`, with what it reads from the clock. -/
def parseQuery (u : Unicode) (now : Int) (query : String) : ParsedQuery :=
    let lower := (u.toLowercase query).toList
    let language := extractLanguageHint lower []
    let paths := extractPathTerms query.toList language.2
    let symbols := extractQuotedSymbols query.toList paths.2
    let since := extractSince lower now symbols.2
    let intent := classifyIntent lower since.2
    { intent := intent.1.1
      confidence := intent.1.2
      language := language.1
      pathTerms := paths.1
      symbolTerms := symbols.1
      sinceUnix := since.1
      matchedRules := intent.2 }

/-! ## Profiles -/

/-- The lanes of the retrieval. -/
inductive LaneId where
  | vec
  | bm25Text
  | bm25SemText
  | bm25HistSym
  | bm25HeadSym
deriving DecidableEq, Repr

variable {K : Type} [Field K]

/-- The knobs a query sets. -/
structure RetrievalProfile (K : Type) where
  name : String
  recencyMultiplier : K
  vecLaneEnabled : Bool
  textLaneEnabled : Bool
  semanticTextLaneEnabled : Bool
  symbolLaneEnabled : Bool
  rerankTopK : Option Nat
  recencyWeight : Option K
  recencyHalfLifeDays : Option K
  laneTopK : Option UInt8
  explanation : String

namespace RetrievalProfile

/-- The profile of a query without an intent. -/
def defaultUnknown : RetrievalProfile K where
  name := "unknown"
  recencyMultiplier := 1
  vecLaneEnabled := true
  textLaneEnabled := true
  semanticTextLaneEnabled := true
  symbolLaneEnabled := true
  rerankTopK := none
  recencyWeight := none
  recencyHalfLifeDays := none
  laneTopK := none
  explanation := "No specific intent detected — using default lane blend."

/-- The profile that prefers recent commits. -/
def bugFix : RetrievalProfile K :=
    { defaultUnknown with
      name := "bug_fix_precedent"
      recencyMultiplier := (3 : Nat) / (2 : Nat)
      explanation := "Bug-fix precedent — boosting recency so newer fixes surface first." }

/-- The profile with a larger rerank pool. -/
def apiUsage : RetrievalProfile K :=
    { defaultUnknown with
      name := "api_usage"
      rerankTopK := some 40
      explanation :=
        "API-usage query — widening the rerank pool to surface more call sites." }

/-- The profile without symbols. -/
def configuration : RetrievalProfile K :=
    { defaultUnknown with
      name := "configuration"
      symbolLaneEnabled := false
      explanation := "Configuration query — focusing on text/semantic-text lanes (config rarely " ++
        "shows up as a symbol)." }

/-- The profile of the default blend. -/
def implementationPattern : RetrievalProfile K :=
    { defaultUnknown with
      name := "implementation_pattern"
      explanation := "Implementation-pattern query — using the default lane blend." }

/-- The switch of each lane. -/
def isLaneEnabled (profile : RetrievalProfile K) : LaneId → Bool
  | .vec => profile.vecLaneEnabled
  | .bm25Text => profile.textLaneEnabled
  | .bm25SemText => profile.semanticTextLaneEnabled
  | .bm25HistSym => profile.symbolLaneEnabled
  | .bm25HeadSym => profile.symbolLaneEnabled

/-- The profile of an intent. -/
def forIntent : QueryIntent → RetrievalProfile K
  | .implementationPattern => implementationPattern
  | .bugFixPrecedent => bugFix
  | .apiUsage => apiUsage
  | .configuration => configuration
  | .unknown => defaultUnknown

/-- The weights of a retrieval under the profile. -/
def effectiveWeights (profile : RetrievalProfile K) (weights : RankingWeights K) :
    RankingWeights K where
  recencyWeight := profile.recencyWeight.getD weights.recencyWeight * profile.recencyMultiplier
  recencyHalfLifeDays := profile.recencyHalfLifeDays.getD weights.recencyHalfLifeDays
  rerankTopK := profile.rerankTopK.getD weights.rerankTopK
  laneTopK := profile.laneTopK.getD weights.laneTopK
  rrfK := weights.rrfK

end RetrievalProfile

end QueryUnderstanding

end Ohara
