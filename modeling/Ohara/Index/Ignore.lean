import Ohara.Git.HunkHeaders
import Ohara.Library.Globs

/-!
# The layers of the ignore filter

`LayeredIgnore` asks the patterns of `.oharaignore`, those of `.gitattributes` and the built-in ones
in this order. Of `.gitattributes` it keeps the patterns of the lines that set one of the linguist
attributes; a line that unsets one is skipped, so a path stays marked that git has unmarked. And a
pattern for a directory marks all that is in it, where git marks nothing.
-/

namespace Ohara

open IgnoreRules
open Paths (Name RelPath)

/-- The patterns that hold everywhere. -/
def builtInDefaults : List (List Char) :=
    ["*.lock".toList, "Cargo.lock".toList, "package-lock.json".toList, "pnpm-lock.yaml".toList,
      "yarn.lock".toList, "Pipfile.lock".toList, "poetry.lock".toList, "go.sum".toList,
      "node_modules/".toList, "vendor/".toList, "target/".toList, "dist/".toList,
      "build/".toList, ".next/".toList, "__pycache__/".toList, ".venv/".toList, "venv/".toList,
      "*.min.js".toList, "*.min.css".toList]

/-- The functions of the `ignore` crate, and what its patterns cover. -/
structure IgnoreCrate where
  Glob : Type
  Gitignore : Type
  /-- `GitignoreBuilder::add_line` of a line that is neither blank nor a comment; none is an
  error. -/
  addLine : List Char → Option Glob
  build : List Glob → Option Gitignore
  empty : Gitignore
  matchedPathOrAnyParents : Gitignore → List Name → Bool → Verdict
  covers : Glob → Level → Bool
  negated : Glob → Bool

/-- What the crate documents of its matchers. -/
structure IgnoreCrate.Documented (crate : IgnoreCrate) : Prop where
  builds : ∀ globs, ∃ matcher, crate.build globs = some matcher ∧ ∀ names isDir,
    crate.matchedPathOrAnyParents matcher names isDir
      = verdict crate.covers crate.negated globs (levels names isDir)
  builtins : ∀ line ∈ builtInDefaults, ∃ glob, crate.addLine line = some glob

/-! ## Building the layers -/

/-- The three lists of patterns. -/
structure LayeredIgnore (crate : IgnoreCrate) where
  builtins : crate.Gitignore
  gitattributes : crate.Gitignore
  user : crate.Gitignore

/-- A line of `.gitattributes`. -/
structure AttributeLine where
  pattern : List Char
  tokens : List (List Char)
deriving DecidableEq

/-- Empty lines and comments say nothing. -/
def isSkipped (line : List Char) : Bool :=
    line.isEmpty || line.head? == some '#'

/-- The pattern of a line and its attributes. -/
def attributeLine (line : List Char) : Option AttributeLine :=
    if isSkipped (trim line) then none
    else
      match Words.words (fun c => !isWhitespace c) (trim line) with
      | [] => none
      | pattern :: tokens => some ⟨pattern, tokens⟩

/-- The token sets one of the two attributes. -/
def flagsActive (token : List Char) : Bool :=
    token == "linguist-generated=true".toList || token == "linguist-generated".toList
      || token == "linguist-vendored=true".toList || token == "linguist-vendored".toList

/-- The lines of `.gitattributes`. -/
def attributeLines (contents : List Char) : List AttributeLine :=
    (splitLines [] contents).filterMap attributeLine

namespace IgnoreCrate

variable (crate : IgnoreCrate)

/-- The patterns that the layer of `.gitattributes` keeps. -/
def attributeGlobs (contents : List Char) : List crate.Glob :=
    (attributeLines contents).filterMap fun line =>
      if line.tokens.any flagsActive then crate.addLine line.pattern else none

/-- The patterns of an ignore file. -/
def lineGlobs (contents : List Char) : List crate.Glob :=
    (splitLines [] contents).filterMap fun line =>
      if isSkipped (trim line) then none else crate.addLine (trim line)

/-- None is an error. -/
def buildGitignoreFromPatterns (patterns : List (List Char)) : Option crate.Gitignore := do
    let globs ← patterns.mapM crate.addLine
    crate.build globs

/-- The layer of `.gitattributes`. -/
def buildGitignoreFromGitattributes (contents : List Char) : crate.Gitignore :=
    (crate.build (crate.attributeGlobs contents)).getD crate.empty

/-- The layer of an ignore file. -/
def buildGitignoreFromLines (contents : List Char) : crate.Gitignore :=
    (crate.build (crate.lineGlobs contents)).getD crate.empty

/-- None is a panic. -/
def fromStrings (builtins : List (List Char)) (gitattributes userOharaignore : List Char) :
    Option (LayeredIgnore crate) := do
    let builtins ← crate.buildGitignoreFromPatterns builtins
    return {
      builtins := builtins
      gitattributes := crate.buildGitignoreFromGitattributes gitattributes
      user := crate.buildGitignoreFromLines userOharaignore }

/-- The loop over the layers returns at the first verdict that is one. -/
def isIgnored (layered : LayeredIgnore crate) (path : RelPath) : Bool :=
    firstVerdict ([layered.user, layered.gitattributes, layered.builtins].map fun layer =>
      crate.matchedPathOrAnyParents layer path.names false)

/-- The layer of `.gitattributes` marks the path. -/
def marks (layered : LayeredIgnore crate) (path : RelPath) : Prop :=
    crate.matchedPathOrAnyParents layered.gitattributes path.names false = .ignore

/-! ## Attributes as git resolves them -/

end IgnoreCrate

/-- The attributes that hide a path. -/
def linguistAttributes : List (List Char) :=
    ["linguist-generated".toList, "linguist-vendored".toList]

/-- Whether a token that mentions the attribute sets it. -/
def setting (attr token : List Char) : Option Bool :=
    if token = attr ∨ token = attr ++ "=true".toList then some true
    else if token = '-' :: attr ∨ token = '!' :: attr ∨ attr ++ ['='] <+: token then some false
    else none

/-- The last mention of the attribute on a line. -/
def AttributeLine.setting (attr : List Char) (line : AttributeLine) : Option Bool :=
    (line.tokens.filterMap (Ohara.setting attr)).getLast?

namespace IgnoreCrate

variable (crate : IgnoreCrate)

/-- The pattern is one that git reads, which no negated one is, and it matches the path itself: what
matches a directory says nothing of the paths inside. -/
def gitMatches (path : RelPath) (line : AttributeLine) : Bool :=
    match crate.addLine line.pattern with
    | none => false
    | some glob => !crate.negated glob && crate.covers glob (path.names, false)

/-- The lines for the path, in order. -/
def linesFor (contents : List Char) (path : RelPath) : List AttributeLine :=
    (attributeLines contents).filter (crate.gitMatches path)

/-- The last line for the path that mentions one of the attributes sets it. -/
def gitMarks (contents : List Char) (path : RelPath) : Prop :=
    ∃ attr ∈ linguistAttributes,
      ((crate.linesFor contents path).filterMap (AttributeLine.setting attr)).getLast?
        = some true

/-- A line for the path sets the attribute, and none after it takes that back. -/
def KeepsSetting (contents : List Char) (path : RelPath) (attr : List Char) : Prop :=
    ∃ before line after, crate.linesFor contents path = before ++ line :: after ∧
      line.setting attr = some true ∧ ∀ later ∈ after, later.setting attr ≠ some false

/-- No pattern of a line that sets an attribute covers the path; or the one that decides is positive,
and one of the attributes is set and not taken back; or that one is negated, and what is set is
taken back. -/
def SettingsAgree (contents : List Char) (path : RelPath) : Prop :=
    match decisive crate.covers (crate.attributeGlobs contents) (levels path.names false) with
    | none => True
    | some glob =>
        if crate.negated glob = true then
          ∀ attr ∈ linguistAttributes, ¬crate.KeepsSetting contents path attr
        else ∃ attr ∈ linguistAttributes, crate.KeepsSetting contents path attr

/-- The highest layer with a pattern for the path decides, and the layer of `.gitattributes` marks
what git marks. -/
structure ResolvesLikeSources (gitattributes userOharaignore : List Char)
    (layered : LayeredIgnore crate) (path : RelPath) : Prop where
  layers : DecidedByFirst crate.covers crate.negated
    [crate.lineGlobs userOharaignore, crate.attributeGlobs gitattributes,
      builtInDefaults.filterMap crate.addLine]
    (levels path.names false) (crate.isIgnored layered path)
  attributes : crate.marks layered path ↔ crate.gitMarks gitattributes path

end IgnoreCrate

/-! ## The layers -/

section Layers

variable {crate : IgnoreCrate} (documented : crate.Documented)

include documented

theorem IgnoreCrate.Documented.getD_build (globs : List crate.Glob) (names : List Name)
    (isDir : Bool) :
    crate.matchedPathOrAnyParents ((crate.build globs).getD crate.empty) names isDir
      = verdict crate.covers crate.negated globs (levels names isDir) := by
  rcases documented.builds globs with ⟨matcher, built, matched⟩
  rw [built, Option.getD_some, matched]

theorem IgnoreCrate.Documented.fromStrings {builtins : List (List Char)}
    (valid : ∀ line ∈ builtins, ∃ glob, crate.addLine line = some glob)
    (gitattributes userOharaignore : List Char) :
    ∃ layered, crate.fromStrings builtins gitattributes userOharaignore = some layered ∧
      (∀ path, crate.isIgnored layered path = firstVerdict
        ([crate.lineGlobs userOharaignore, crate.attributeGlobs gitattributes,
          builtins.filterMap crate.addLine].map fun globs =>
            verdict crate.covers crate.negated globs (levels path.names false))) ∧
      ∀ path, crate.marks layered path ↔
        verdict crate.covers crate.negated (crate.attributeGlobs gitattributes)
          (levels path.names false) = .ignore := by
  rcases documented.builds (builtins.filterMap crate.addLine) with ⟨matcher, built, matched⟩
  refine ⟨⟨matcher, crate.buildGitignoreFromGitattributes gitattributes,
    crate.buildGitignoreFromLines userOharaignore⟩, ?_, ?_, ?_⟩
  · rw [IgnoreCrate.fromStrings, IgnoreCrate.buildGitignoreFromPatterns,
      Fallible.mapM_eq_filterMap valid]
    simp [built]
  · intro path
    simp only [IgnoreCrate.isIgnored, IgnoreCrate.buildGitignoreFromLines,
      IgnoreCrate.buildGitignoreFromGitattributes, List.map_cons, List.map_nil, matched,
      documented.getD_build]
  · intro path
    rw [IgnoreCrate.marks, IgnoreCrate.buildGitignoreFromGitattributes, documented.getD_build]

end Layers

/-! ## Settings -/

section Settings

/-- The last of the values is true when one is and none after it is false. -/
theorem getLast?_filterMap_eq_true {α : Type} {f : α → Option Bool} {xs : List α} :
    (xs.filterMap f).getLast? = some true ↔
      ∃ before x after, xs = before ++ x :: after ∧ f x = some true ∧
        ∀ later ∈ after, f later ≠ some false := by
  constructor
  · rw [List.getLast?_filterMap, List.findSome?_eq_some_iff]
    rintro ⟨back, x, front, split, set, silent⟩
    refine ⟨front.reverse, x, back.reverse, ?_, set, ?_⟩
    · rw [← List.reverse_reverse xs, split]
      simp
    · intro later later_mem
      simp [silent later (by simpa using later_mem)]
  · rintro ⟨before, x, after, rfl, set, kept⟩
    have nonempty := List.cons_ne_nil true (after.filterMap f)
    rw [List.filterMap_append, List.filterMap_cons_some set,
      List.getLast?_append_of_ne_nil _ nonempty, List.getLast?_eq_some_getLast nonempty]
    rcases List.mem_cons.1 (List.getLast_mem nonempty) with first | later
    · rw [first]
    · rcases List.mem_filterMap.1 later with ⟨y, y_mem, value⟩
      cases last : (true :: after.filterMap f).getLast nonempty with
      | true => rfl
      | false =>
          rw [last] at value
          exact absurd value (kept y y_mem)

theorem flagsActive_of_setting {attr token : List Char} (attr_mem : attr ∈ linguistAttributes)
    (set : setting attr token = some true) : flagsActive token = true := by
  have tokens : token = attr ∨ token = attr ++ "=true".toList := by
    rw [setting] at set
    split at set
    · assumption
    · split at set
      · cases set
      · cases set
  simp only [linguistAttributes, List.mem_cons, List.not_mem_nil, or_false] at attr_mem
  rcases attr_mem with rfl | rfl
  · rcases tokens with rfl | rfl
    · decide +kernel
    · decide +kernel
  · rcases tokens with rfl | rfl
    · decide +kernel
    · decide +kernel

end Settings

section Attributes

variable {crate : IgnoreCrate} {contents : List Char} {path : RelPath}

theorem gitMarks_iff :
    crate.gitMarks contents path ↔
      ∃ attr ∈ linguistAttributes, crate.KeepsSetting contents path attr := by
  simp only [IgnoreCrate.gitMarks, IgnoreCrate.KeepsSetting, getLast?_filterMap_eq_true]

/-- What git marks has a pattern in the layer. -/
theorem speaks_of_keepsSetting {attr : List Char} (attr_mem : attr ∈ linguistAttributes)
    (keeps : crate.KeepsSetting contents path attr) :
    Speaks crate.covers (crate.attributeGlobs contents) (levels path.names false) := by
  rcases keeps with ⟨before, line, after, split, set, -⟩
  have line_mem : line ∈ crate.linesFor contents path := by simp [split]
  rcases List.mem_filter.1 line_mem with ⟨in_file, matched⟩
  have flagged : line.tokens.any flagsActive = true := by
    rcases List.mem_filterMap.1 (List.mem_of_getLast? set) with ⟨token, token_mem, token_set⟩
    exact List.any_eq_true.2 ⟨token, token_mem, flagsActive_of_setting attr_mem token_set⟩
  cases read : crate.addLine line.pattern with
  | none => simp [IgnoreCrate.gitMatches, read] at matched
  | some glob =>
      simp only [IgnoreCrate.gitMatches, read, Bool.and_eq_true] at matched
      refine ⟨glob, ?_, _, mem_levels.2 (Or.inl rfl), matched.2⟩
      exact List.mem_filterMap.2 ⟨line, in_file, by rw [if_pos flagged, read]⟩

theorem attributes_agree_iff :
    (verdict crate.covers crate.negated (crate.attributeGlobs contents)
        (levels path.names false) = .ignore ↔ crate.gitMarks contents path) ↔
      crate.SettingsAgree contents path := by
  rw [verdict_eq_ignore_iff, gitMarks_iff, IgnoreCrate.SettingsAgree]
  cases found : decisive crate.covers (crate.attributeGlobs contents)
      (levels path.names false) with
  | none =>
      have silent := decisive_eq_none_iff.1 found
      simp only [reduceCtorEq, false_and, exists_false, false_iff, iff_true]
      rintro ⟨attr, attr_mem, keeps⟩
      exact silent (speaks_of_keepsSetting attr_mem keeps)
  | some glob =>
      cases sign : crate.negated glob with
      | true => simp [sign]
      | false => simp [sign]

theorem settingsAgree_of_positive {glob : crate.Glob}
    (decides : decisive crate.covers (crate.attributeGlobs contents) (levels path.names false)
      = some glob)
    (positive : crate.negated glob = false)
    (keeps : ∃ attr ∈ linguistAttributes, crate.KeepsSetting contents path attr) :
    crate.SettingsAgree contents path := by
  rw [IgnoreCrate.SettingsAgree, decides]
  simpa [positive] using keeps

end Attributes

/-- A crate that reads the simple patterns. -/
def globCrate : IgnoreCrate where
  Glob := Globs.Glob
  Gitignore := List Globs.Glob
  addLine := Globs.readLine
  build := some
  empty := []
  matchedPathOrAnyParents := fun globs names isDir =>
    verdict Globs.covers Globs.Glob.negated globs (levels names isDir)
  covers := Globs.covers
  negated := Globs.Glob.negated

theorem globCrate_documented : globCrate.Documented where
  builds := fun globs => ⟨globs, rfl, fun _ _ => rfl⟩
  builtins := by
    have valid : ∀ line ∈ builtInDefaults, (Globs.readLine line).isSome = true := by
      decide +kernel
    intro line line_mem
    exact Option.isSome_iff_exists.1 (valid line line_mem)

/-- A path of one name. -/
def topLevel (name : Name) (is_name : Paths.IsName name) : RelPath where
  names := [name]
  nonempty := by simp
  named := by simpa using is_name

/-- All files of a kind are marked, and then one of them no more. -/
def unmarkedLater : List Char :=
    "*.pb.go linguist-generated=true\nkeep.pb.go -linguist-generated\n".toList

/-- A directory is marked, and with it a file that git leaves alone. -/
example :
    verdict globCrate.covers globCrate.negated
        (globCrate.attributeGlobs "lib linguist-vendored\n".toList)
        (levels ["lib".toList, "x.rs".toList] false) = .ignore ∧
      ∀ line ∈ attributeLines "lib linguist-vendored\n".toList,
        globCrate.gitMatches ⟨["lib".toList, "x.rs".toList], by simp, by decide +kernel⟩ line =
          false := by
  decide +kernel

end Ohara
