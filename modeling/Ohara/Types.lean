import Mathlib.Algebra.Ring.Nat
import Mathlib.Data.List.Basic

/-!
# Domain types

The values that pass between the git walker, the indexing stages, the storage layer and the
explain path, with the spellings under which the storage layer writes the enumerations.
-/

namespace Ohara

/-- Stable identifier of a repository on a machine. -/
structure RepoId where
  value : String
deriving DecidableEq, Repr

/-- Hex form of a git blob id, or of the digest of an embedder input. -/
structure ContentHash where
  hex : String
deriving DecidableEq, Repr

/-- What a commit does to a file. -/
inductive ChangeKind where
  | added
  | modified
  | deleted
  | renamed
deriving DecidableEq, Repr

/-- How sure an answer is. -/
inductive Provenance where
  | extracted
  | inferred
  | exact
deriving DecidableEq, Repr

/-- The kinds of definitions. -/
inductive SymbolKind where
  | function
  | method
  | classKind
  | const
deriving DecidableEq, Repr

/-- How a symbol was found for a hunk. -/
inductive AttributionKind where
  | exactSpan
  | hunkHeader
  | fileFallback
deriving DecidableEq, Repr

/-- The spelling stored in `hunk.change_kind`. -/
def ChangeKind.toStr : ChangeKind → String
  | .added => "added"
  | .modified => "modified"
  | .deleted => "deleted"
  | .renamed => "renamed"

/-- The spelling stored in `symbol.kind` and `hunk_symbol.symbol_kind`. -/
def SymbolKind.toStr : SymbolKind → String
  | .function => "function"
  | .method => "method"
  | .classKind => "class"
  | .const => "const"

/-- The spelling stored in `hunk_symbol.attribution_kind`. -/
def AttributionKind.asStr : AttributionKind → String
  | .exactSpan => "exact_span"
  | .hunkHeader => "hunk_header"
  | .fileFallback => "file_fallback"

/-- A 32-bit float by its bit pattern; nothing here computes with the values. -/
abbrev F32 := UInt32

/-- An embedding. -/
abbrev Vector := List F32

/-- A commit, as git tells it. -/
structure CommitMeta where
  commitSha : String
  parentSha : Option String
  isMerge : Bool
  author : Option String
  /-- Unix seconds. -/
  ts : Int
  message : String
deriving DecidableEq, Repr

/-- The diff of a file in a commit. -/
structure Hunk where
  commitSha : String
  filePath : String
  language : Option String
  changeKind : ChangeKind
  diffText : String
deriving DecidableEq, Repr

/-- One symbol a hunk touched, with the evidence for it. -/
structure HunkSymbol where
  kind : SymbolKind
  name : String
  qualifiedName : Option String
  attribution : AttributionKind
deriving DecidableEq, Repr

/-- A definition of a file, or a chunk of them. -/
structure Symbol where
  filePath : String
  language : String
  kind : SymbolKind
  name : String
  qualifiedName : Option String
  siblingNames : List String
  spanStart : UInt32
  spanEnd : UInt32
  blobSha : String
  sourceText : String
deriving DecidableEq, Repr

/-- The errors of the core. -/
inductive OhraError where
  | storage (message : String)
  | embedding (message : String)
  | git (message : String)
deriving DecidableEq, Repr

/-- Whether the embedder is fronted by the chunk cache, and what text it is given. -/
inductive EmbedMode where
  | off
  | semantic
  | diff
deriving DecidableEq, Repr

/-- `off` and `semantic` embed the same text, so they share one recorded value. -/
def EmbedMode.indexMetadataValue : EmbedMode → String
  | .off => "semantic"
  | .semantic => "semantic"
  | .diff => "diff"

/-- What `Storage::put_commit` is given. -/
structure CommitRecord where
  commitMeta : CommitMeta
  messageEmb : Vector
  ulid : String
deriving DecidableEq, Repr

/-- What `Storage::put_hunks` is given, one record for each hunk. -/
structure HunkRecord where
  hunk : Hunk
  diffEmb : Vector
  semanticText : String
  symbols : List HunkSymbol
deriving DecidableEq, Repr

/-! ## Commit identifiers that sort by time -/

/-- The value of a hexadecimal digit. -/
def hexDigit? (c : Char) : Option Nat :=
    if '0' ≤ c ∧ c ≤ '9' then some (c.toNat - '0'.toNat)
    else if 'a' ≤ c ∧ c ≤ 'f' then some (c.toNat - 'a'.toNat + 10)
    else if 'A' ≤ c ∧ c ≤ 'F' then some (c.toNat - 'A'.toNat + 10)
    else none

/-- The number the hexadecimal digits `digits` spell, most significant first. -/
def hexValue (digits : List Char) : Nat :=
    digits.foldl (fun value c => 16 * value + (hexDigit? c).getD 0) 0

/-- The digits of base 32. -/
def crockfordAlphabet : List Char := "0123456789ABCDEFGHJKMNPQRSTVWXYZ".toList

/-- The 26 base-32 digits of a 128-bit identifier. -/
def ulidToString (value : Nat) : String :=
    String.ofList ((List.range 26).map fun position =>
      crockfordAlphabet.getD (value / 32 ^ (25 - position) % 32) '0')

/-- `ulid_for_commit`: 48 bits of milliseconds, then the first ten bytes of the SHA. -/
def ulidForCommit (commitTimeSeconds : Int) (sha : String) : Nat :=
    let milliseconds := min ((max commitTimeSeconds 0).toNat * 1000) (2 ^ 64 - 1)
    milliseconds % 2 ^ 48 * 2 ^ 80 + hexValue (sha.toList.take 20) % 2 ^ 80

/-- `commit_ulid`: a SHA that is not 40 hexadecimal digits counts as all zeros. -/
def commitUlid (ts : Int) (sha : String) : String :=
    let digits := sha.toList.take 40
    let validHex := digits.length == 40 && digits.all fun c => (hexDigit? c).isSome
    ulidToString (ulidForCommit ts (if validHex then sha else String.ofList (List.replicate 40 '0')))

end Ohara
