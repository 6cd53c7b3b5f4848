import Mathlib.Data.List.Sort
import Ohara.Library.Fallible
import Ohara.Library.Weights
import Ohara.Types

/-!
# Languages by file extension

The two tables that turn a path into a language: the one of the diff walk, which names the language
of a hunk, and the dispatch of the parser, which picks the extractor of a file. What an extractor's
grammar captures in a source is a parameter; the extractor stamps it with its language.
-/

namespace Ohara

/-! ## Extensions -/

/-- `Path::file_name`: the last component, unless it is the parent directory. -/
def fileName (path : String) : Option (List Char) :=
    let parts := (path.toList.splitOn '/').filter fun part => decide (part ≠ [] ∧ part ≠ ['.'])
    match parts.getLast? with
    | some ['.', '.'] => none
    | last => last

/-- `Path::extension`: what follows the last dot of the name, when something precedes it. -/
def extension (path : String) : Option String :=
    (fileName path).bind fun name =>
      let stem := (name.reverse.dropWhile (· ≠ '.')).drop 1
      if stem.isEmpty then none
      else some (String.ofList (name.reverse.takeWhile (· ≠ '.')).reverse)

/-! ## The diff walk -/

/-- The language of a path, by its extension. -/
def detectLanguage (path : String) : Option String :=
    match extension path with
    | some "rs" => some "rust"
    | some "py" => some "python"
    | some "ts" | some "tsx" => some "typescript"
    | some "js" | some "jsx" | some "mjs" | some "cjs" => some "javascript"
    | some "go" => some "go"
    | _ => none

/-- A hunk of a file, with the language of its path. -/
def makeHunk (sha filePath : String) (changeKind : ChangeKind) (diffText : String) : Hunk where
  commitSha := sha
  filePath := filePath
  language := detectLanguage filePath
  changeKind := changeKind
  diffText := diffText

/-! ## The parser -/

/-- The grammars of TypeScript. -/
inductive TsFlavor where
  | ts
  | tsx
deriving DecidableEq, Repr

/-- The extractors, one for each family of grammars. -/
inductive Extractor where
  | rust
  | python
  | java
  | kotlin
  | javascript
  | typescript (flavor : TsFlavor)
deriving DecidableEq, Repr

/-- What the extractor stamps its symbols with. -/
def Extractor.language : Extractor → String
  | .rust => "rust"
  | .python => "python"
  | .java => "java"
  | .kotlin => "kotlin"
  | .javascript => "javascript"
  | .typescript _ => "typescript"

/-- The dispatch of `extract_atomic_symbols`. -/
def dispatch (path : String) : Option Extractor :=
    match extension path with
    | some "rs" => some .rust
    | some "py" => some .python
    | some "java" => some .java
    | some "kt" | some "kts" => some .kotlin
    | some "js" | some "jsx" | some "mjs" | some "cjs" => some .javascript
    | some "ts" => some (.typescript .ts)
    | some "tsx" => some (.typescript .tsx)
    | _ => none

/-- One match of a grammar's query, with its byte range. -/
structure Capture where
  kind : SymbolKind
  name : String
  start : Nat
  stop : Nat
  text : String
deriving DecidableEq, Repr

/-- What each grammar captures in a source, or why it could not be parsed. -/
abbrev Grammars := Extractor → String → Except String (List Capture)

/-- The symbol of a captured definition. -/
def Extractor.symbol (extractor : Extractor) (path blobSha : String) (capture : Capture) :
    Symbol where
  filePath := path
  language := extractor.language
  kind := capture.kind
  name := capture.name
  qualifiedName := none
  siblingNames := []
  spanStart := UInt32.ofNat capture.start
  spanEnd := UInt32.ofNat capture.stop
  blobSha := blobSha
  sourceText := capture.text

/-- `extract` of the extractor's module. -/
def Extractor.extract (grammars : Grammars) (extractor : Extractor) (path source blobSha : String) :
    Except String (List Symbol) := do
    let captures ← grammars extractor source
    return captures.map (extractor.symbol path blobSha)

/-- The definitions of a file; none in a language without an extractor. -/
def extractAtomicSymbols (grammars : Grammars) (path source blobSha : String) :
    Except String (List Symbol) :=
    match dispatch path with
    | none => .ok []
    | some extractor => do
        let atoms ← extractor.extract grammars path source blobSha
        return atoms.insertionSort fun a b => a.spanStart ≤ b.spanStart

/-! ## The chunker -/

/-- The characters that count as one token. -/
def charsPerToken : Nat := 4

/-- The estimate of a text's tokens. -/
def estimateTokens (text : String) : Nat :=
    text.length / charsPerToken

/-- A chunk that may still grow. -/
structure ChunkBuilder where
  primary : Symbol
  siblingNames : List String
  spanEnd : UInt32
  runningTokens : Nat

namespace ChunkBuilder

/-- A chunk of one atom. -/
def start (primary : Symbol) (tokens : Nat) : ChunkBuilder where
  primary := primary
  siblingNames := []
  spanEnd := primary.spanEnd
  runningTokens := tokens

/-- The next atom joins the chunk. -/
def append (chunk : ChunkBuilder) (sibling : Symbol) (tokens : Nat) : ChunkBuilder where
  primary := chunk.primary
  siblingNames := chunk.siblingNames ++ [sibling.name]
  spanEnd := sibling.spanEnd
  runningTokens := chunk.runningTokens + tokens

/-- `str::get` of a byte range; none unless both ends are between characters. -/
def slice (source : String) (start stop : Nat) : Option String :=
    if start ≤ stop then do
      let (_, rest) ← Weights.splitWeight Char.utf8Size start source.toList
      let (inside, _) ← Weights.splitWeight Char.utf8Size (stop - start) rest
      return String.ofList inside
    else none

/-- The chunk as a symbol. -/
def finish (chunk : ChunkBuilder) (source : String) : Symbol :=
    { chunk.primary with
      siblingNames := chunk.siblingNames
      spanEnd := chunk.spanEnd
      sourceText := (slice source chunk.primary.spanStart.toNat chunk.spanEnd.toNat).getD
        chunk.primary.sourceText }

end ChunkBuilder

/-- The merge walk, from the chunk in progress. -/
def chunkSymbols (maxTokens : Nat) (source : String) :
    Option ChunkBuilder → List Symbol → List Symbol
  | none, [] => []
  | some chunk, [] => [chunk.finish source]
  | none, atom :: rest =>
      chunkSymbols maxTokens source (some (.start atom (estimateTokens atom.sourceText))) rest
  | some chunk, atom :: rest =>
      if chunk.runningTokens + estimateTokens atom.sourceText ≤ maxTokens then
        chunkSymbols maxTokens source
          (some (chunk.append atom (estimateTokens atom.sourceText))) rest
      else
        chunk.finish source ::
          chunkSymbols maxTokens source (some (.start atom (estimateTokens atom.sourceText))) rest

/-- The budget of a chunk. -/
def chunkMaxTokens : Nat := 500

/-- The chunks of a file. -/
def extractForPath (grammars : Grammars) (path source blobSha : String) :
    Except String (List Symbol) := do
    let atoms ← extractAtomicSymbols grammars path source blobSha
    return chunkSymbols chunkMaxTokens source none
      (atoms.insertionSort fun a b => a.spanStart ≤ b.spanStart)

/-- A blob of the tree at HEAD; a binary one has no text. -/
structure TreeFile where
  path : String
  blobSha : String
  text : Option String

/-- `extract_head_symbols`: files that are binary or do not parse are left out. -/
def extractHeadSymbols (grammars : Grammars) (tree : List TreeFile) : List Symbol :=
    tree.flatMap fun file =>
      match file.text with
      | none => []
      | some source =>
          match extractForPath grammars file.path source file.blobSha with
          | .ok symbols => symbols
          | .error _ => []

/-! ## The tables agree -/

theorem detectLanguage_of_dispatch {path language : String} {extractor : Extractor}
    (dispatched : dispatch path = some extractor) (detected : detectLanguage path = some language) :
    language = extractor.language := by
  unfold dispatch at dispatched
  unfold detectLanguage at detected
  generalize extension path = ext at dispatched detected
  split at detected
  all_goals cases detected
  all_goals cases dispatched
  all_goals rfl

theorem chunkSymbols_stamp {maxTokens : Nat} {source path language : String}
    {chunk : Option ChunkBuilder} {atoms : List Symbol}
    (pending : ∀ builder ∈ chunk,
      builder.primary.filePath = path ∧ builder.primary.language = language)
    (stamped : ∀ atom ∈ atoms, atom.filePath = path ∧ atom.language = language) :
    ∀ symbol ∈ chunkSymbols maxTokens source chunk atoms,
      symbol.filePath = path ∧ symbol.language = language := by
  induction atoms generalizing chunk with
  | nil =>
      intro symbol symbol_mem
      cases chunk with
      | none => cases symbol_mem
      | some builder =>
          rw [List.mem_singleton.1 symbol_mem]
          exact pending builder rfl
  | cons atom rest ih =>
      rw [List.forall_mem_cons] at stamped
      have begun : ∀ builder ∈ some (ChunkBuilder.start atom (estimateTokens atom.sourceText)),
          builder.primary.filePath = path ∧ builder.primary.language = language := by
        rintro builder ⟨⟩
        exact stamped.1
      cases chunk with
      | none => exact ih begun stamped.2
      | some builder =>
          rw [chunkSymbols]
          split
          · apply ih _ stamped.2
            rintro extended ⟨⟩
            exact pending builder rfl
          · rw [List.forall_mem_cons]
            exact ⟨pending builder rfl, ih begun stamped.2⟩

theorem extractForPath_stamp {grammars : Grammars} {path source blobSha : String}
    {symbols : List Symbol} (extracted : extractForPath grammars path source blobSha = .ok symbols) :
    ∀ symbol ∈ symbols, ∃ extractor, dispatch path = some extractor ∧
      symbol.filePath = path ∧ symbol.language = extractor.language := by
  rcases Fallible.bind_eq_ok.1 extracted with ⟨atoms, atomic, chunked⟩
  cases chunked
  unfold extractAtomicSymbols at atomic
  split at atomic
  · cases atomic
    intro symbol symbol_mem
    cases symbol_mem
  · next extractor dispatched =>
      rcases Fallible.bind_eq_ok.1 atomic with ⟨captured, parsed, sorted⟩
      cases sorted
      rcases Fallible.bind_eq_ok.1 parsed with ⟨captures, -, stamped⟩
      cases stamped
      intro symbol symbol_mem
      refine ⟨extractor, dispatched, ?_⟩
      apply chunkSymbols_stamp (by simp) _ symbol symbol_mem
      intro atom atom_mem
      rw [List.mem_insertionSort, List.mem_insertionSort] at atom_mem
      rcases List.mem_map.1 atom_mem with ⟨capture, -, rfl⟩
      exact ⟨rfl, rfl⟩

/-- A symbol of the snapshot has the language its path is dispatched to. -/
theorem language_of_headSymbol {grammars : Grammars} {tree : List TreeFile} {symbol : Symbol}
    (symbol_mem : symbol ∈ extractHeadSymbols grammars tree) :
    ∃ extractor, dispatch symbol.filePath = some extractor ∧
      symbol.language = extractor.language := by
  rcases List.mem_flatMap.1 symbol_mem with ⟨file, -, symbol_mem_file⟩
  split at symbol_mem_file
  · cases symbol_mem_file
  · split at symbol_mem_file
    · next extracted =>
        rcases extractForPath_stamp extracted symbol symbol_mem_file with
          ⟨extractor, dispatched, same_path, language⟩
        exact ⟨extractor, same_path ▸ dispatched, language⟩
    · cases symbol_mem_file

end Ohara
