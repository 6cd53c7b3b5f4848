import Ohara.Cli.Hotmap
import Ohara.Cli.Plan
import Ohara.Index.Ignore

/-!
# What the written suggestions ignore

The plan measures top-level directories and writes their names as lines of `.oharaignore`. There a
name with a slash at its end is a pattern for the directories of that name at any depth, and some
characters of a name are read as signs.
-/

namespace Ohara

open IgnoreRules
open Paths (Name RelPath IsName)

/-- A name that a line of the file spells as it is. -/
structure PlainName (name : Name) : Prop extends Globs.Plain name where
  closed : '}' ∉ name
  no_comment : name.head? ≠ some '#'
  no_blank : ∀ c, name.head? = some c → isWhitespace c = false
  one_line : '\n' ∉ name

/-- What is documented of the lines the crate reads. -/
structure IgnoreCrate.GitignoreSyntax (crate : IgnoreCrate) : Prop where
  /-- A pattern whose only slash is at its end is about the last name of a path. -/
  any_depth : ∀ line glob, crate.addLine line = some glob → Globs.OneLevel line →
    ∀ dir dir' name isDir,
      crate.covers glob (dir ++ [name], isDir) = crate.covers glob (dir' ++ [name], isDir)
  /-- A slash at the end restricts a pattern to directories, and nothing else does. -/
  dir_only : ∀ line glob, crate.addLine line = some glob → line.getLast? = some '/' →
    ∀ names, crate.covers glob (names, false) = false
  dir_of_file : ∀ line glob, crate.addLine line = some glob →
    ∀ names, crate.covers glob (names, false) = true → crate.covers glob (names, true) = true
  /-- A plain name is about the directories of that name. -/
  plain : ∀ name, PlainName name → ∃ glob, crate.addLine (name ++ ['/']) = some glob ∧
    crate.negated glob = false ∧ crate.covers glob ([], true) = false ∧
      ∀ dir other, crate.covers glob (dir ++ [other], true) = true ↔ other = name

/-- The suggestions as they are written, and nothing else. -/
def IgnoreCrate.loadSuggestions (crate : IgnoreCrate) (patterns : List String)
    (version timestamp : String) : Option (LayeredIgnore crate) :=
    crate.fromStrings [] [] (renderOharaignoreBody patterns version timestamp)

/-- The top-level directory of the path is suggested. -/
def TopSuggested (patterns : List String) (path : RelPath) : Prop :=
    ∃ top rest, path.names = top :: rest ∧ rest ≠ [] ∧ dirKey [top] ∈ patterns

/-- The written suggestions ignore the path exactly when its top-level directory is suggested. -/
def IgnoresMeasured (crate : IgnoreCrate) (patterns : List String) (version timestamp : String)
    (path : RelPath) : Prop :=
    ∃ layered, crate.loadSuggestions patterns version timestamp = some layered ∧
      (crate.isIgnored layered path = true ↔ TopSuggested patterns path)

/-! ## The lines of the file -/

section Lines

theorem splitLines_append (current front rest : List Char) :
    splitLines current (front ++ '\n' :: rest)
      = splitLines current (front ++ ['\n']) ++ splitLines [] rest := by
  induction front generalizing current with
  | nil =>
      rw [List.nil_append, List.nil_append, HunkText.splitLines_newline,
        HunkText.splitLines_newline]
      rfl
  | cons c front ih =>
      by_cases newline : c = '\n'
      · subst newline
        rw [List.cons_append, List.cons_append, HunkText.splitLines_newline,
          HunkText.splitLines_newline, ih, List.cons_append]
      · rw [List.cons_append, List.cons_append, HunkText.splitLines_char newline,
          HunkText.splitLines_char newline, ih]

theorem splitLines_flatMap (patterns : List (List Char)) (rest : List Char) :
    splitLines [] (patterns.flatMap (fun pattern => pattern ++ ['\n']) ++ rest)
      = patterns.flatMap (fun pattern => splitLines [] (pattern ++ ['\n']))
        ++ splitLines [] rest := by
  induction patterns with
  | nil => rfl
  | cons pattern patterns ih =>
      rw [List.flatMap_cons, List.flatMap_cons, List.append_assoc, List.append_assoc,
        List.append_assoc, List.singleton_append, splitLines_append, ih]

/-- The first character of a comment stays when the line is trimmed. -/
theorem isSkipped_comment (rest : List Char) : isSkipped (trim ('#' :: rest)) = true := by
  have visible : isWhitespace '#' = false := by decide
  have front : trim ('#' :: rest) <+: '#' :: rest := by
    rw [trim, List.dropWhile_cons_of_neg (by simp [visible])]
    exact List.rdropWhile_prefix _ _
  cases trimmed : trim ('#' :: rest) with
  | nil => rfl
  | cons c more =>
      rw [trimmed, List.cons_prefix_cons] at front
      simp [isSkipped, front.1]

theorem isSkipped_stripCr_comment (rest : List Char) :
    isSkipped (trim (HunkText.stripCr ('#' :: rest))) = true := by
  rw [HunkText.stripCr]
  split
  · cases rest with
    | nil => rfl
    | cons c rest =>
        rw [List.dropLast_cons_cons]
        exact isSkipped_comment _
  · exact isSkipped_comment rest

/-- The pattern of a line of `.oharaignore`. -/
def IgnoreCrate.lineGlob (crate : IgnoreCrate) (line : List Char) : Option crate.Glob :=
    if isSkipped (trim line) then none else crate.addLine (trim line)

/-- Only the lines of the suggestions are patterns. -/
theorem lineGlobs_body (crate : IgnoreCrate) (patterns : List String) {version timestamp : String}
    (version_line : '\n' ∉ version.toList) (timestamp_line : '\n' ∉ timestamp.toList) :
    crate.lineGlobs (renderOharaignoreBody patterns version timestamp)
      = (patterns.flatMap fun pattern => splitLines [] (pattern.toList ++ ['\n'])).filterMap
          crate.lineGlob := by
  have body : renderOharaignoreBody patterns version timestamp
      = ('#' :: (" === ohara plan v".toList ++ version.toList ++ " — auto-generated ".toList
          ++ timestamp.toList ++ " ===".toList))
        ++ '\n' :: ((patterns.map String.toList).flatMap (fun pattern => pattern ++ ['\n'])
          ++ (markerEnd ++ '\n' :: '\n' :: userHint)) := by
    have opening : markerBeginPrefix = '#' :: " === ohara plan v".toList := by decide +kernel
    have closing : " ===\n".toList = " ===".toList ++ ['\n'] := by decide +kernel
    rw [renderOharaignoreBody, generatedLines, opening, closing, List.flatMap_map]
    simp only [List.append_assoc, List.cons_append, List.nil_append]
  have header_line : '\n' ∉ '#' :: (" === ohara plan v".toList ++ version.toList
      ++ " — auto-generated ".toList ++ timestamp.toList ++ " ===".toList) := by
    have fixed : '\n' ∉ " === ohara plan v".toList ∧ '\n' ∉ " — auto-generated ".toList ∧
        '\n' ∉ " ===".toList := by decide +kernel
    simp only [List.mem_cons, List.mem_append, not_or]
    exact ⟨by decide, ⟨⟨⟨fixed.1, version_line⟩, fixed.2.1⟩, timestamp_line⟩, fixed.2.2⟩
  have hint : ∀ line ∈ splitLines [] (markerEnd ++ '\n' :: '\n' :: userHint),
      crate.lineGlob line = none := by
    have skipped : ∀ line ∈ splitLines [] (markerEnd ++ '\n' :: '\n' :: userHint),
        isSkipped (trim line) = true := by decide +kernel
    intro line line_mem
    rw [IgnoreCrate.lineGlob, if_pos (skipped line line_mem)]
  rw [body, IgnoreCrate.lineGlobs, HunkText.splitLines_line _ _ _ header_line, splitLines_flatMap,
    List.reverse_nil, List.nil_append, List.filterMap_cons_none
      (by rw [if_pos (isSkipped_stripCr_comment _)]), List.filterMap_append, List.flatMap_map]
  have no_more : (splitLines [] (markerEnd ++ '\n' :: '\n' :: userHint)).filterMap
      crate.lineGlob = [] := List.filterMap_eq_nil_iff.2 hint
  exact (congrArg _ no_more).trans (List.append_nil _)

theorem trim_append_visible {c : Char} (visible : isWhitespace c = false) (text : List Char) :
    trim (text ++ [c]) = text.dropWhile isWhitespace ++ [c] := by
  have front : (text ++ [c]).dropWhile isWhitespace = text.dropWhile isWhitespace ++ [c] := by
    rw [List.dropWhile_append]
    split
    · next blank =>
        rw [List.isEmpty_iff] at blank
        simp [blank, visible]
    · rfl
  rw [trim, front, List.rdropWhile_concat_neg _ _ _ (by simp [visible])]

theorem slash_visible : isWhitespace '/' = false := by decide

/-- The slash at the end of a suggestion ends one of its lines. -/
theorem lines_of_slash_last {current front line : List Char} (none_before : '/' ∉ current)
    (none_inside : '/' ∉ front) (line_mem : line ∈ splitLines current (front ++ ['/', '\n'])) :
    '/' ∉ line ∨ ∃ start, line = start ++ ['/'] ∧ '/' ∉ start := by
  induction front generalizing current with
  | nil =>
      have whole : splitLines current ['/', '\n'] = [current.reverse ++ ['/']] := by
        rw [HunkText.splitLines_char (by decide), HunkText.splitLines_newline]
        simp [HunkText.stripCr, splitLines]
      rw [List.nil_append, whole, List.mem_singleton] at line_mem
      exact .inr ⟨current.reverse, line_mem, by simpa using none_before⟩
  | cons c front ih =>
      rw [List.mem_cons, not_or] at none_inside
      by_cases newline : c = '\n'
      · subst newline
        rw [List.cons_append, HunkText.splitLines_newline, List.mem_cons] at line_mem
        rcases line_mem with rfl | later
        · left
          intro slash
          apply none_before
          rw [← List.mem_reverse]
          unfold HunkText.stripCr at slash
          split at slash
          · exact List.mem_of_mem_dropLast slash
          · exact slash
        · exact ih (by simp) none_inside.2 later
      · rw [List.cons_append, HunkText.splitLines_char newline] at line_mem
        refine ih ?_ none_inside.2 line_mem
        rw [List.mem_cons, not_or]
        exact ⟨none_inside.1, none_before⟩

theorem mem_of_mem_trim {c : Char} {text : List Char} (c_mem : c ∈ trim text) : c ∈ text :=
  (List.dropWhile_sublist _).mem ((List.rdropWhile_prefix _ _).sublist.mem c_mem)

/-- What the crate reads of a suggestion has no slash but at its end. -/
theorem oneLevel_of_line {name : Name} {line : List Char} (is_name : IsName name)
    (line_mem : line ∈ splitLines [] (name ++ ['/', '\n'])) : Globs.OneLevel (trim line) := by
  rcases lines_of_slash_last (by simp) is_name.2 line_mem with
    none_inside | ⟨start, rfl, none_before⟩
  · intro slash
    exact none_inside (mem_of_mem_trim (List.mem_of_mem_dropLast slash))
  · rw [Globs.OneLevel, trim_append_visible slash_visible, List.dropLast_concat]
    intro slash
    exact none_before ((List.dropWhile_sublist _).mem slash)

/-- The one line of a plain name. -/
theorem lineGlob_plain {crate : IgnoreCrate} {name : Name} (plain : PlainName name) :
    (splitLines [] (name ++ ['/', '\n'])).filterMap crate.lineGlob
      = (crate.addLine (name ++ ['/'])).toList := by
  have whole : name ++ ['/', '\n'] = (name ++ ['/']) ++ '\n' :: [] := by simp
  have no_break : '\n' ∉ name ++ ['/'] := by simpa using plain.one_line
  have no_return : HunkText.stripCr (name ++ ['/']) = name ++ ['/'] := by
    simp [HunkText.stripCr]
  have trimmed : trim (name ++ ['/']) = name ++ ['/'] := by
    rw [trim_append_visible slash_visible]
    cases name with
    | nil => rfl
    | cons c rest => rw [List.dropWhile_cons_of_neg (by simp [plain.no_blank c rfl])]
  have read : isSkipped (name ++ ['/']) = false := by
    cases name with
    | nil => exact absurd rfl plain.is_name.1
    | cons c rest => simpa [isSkipped] using plain.no_comment
  rw [whole, HunkText.splitLines_line _ _ _ no_break, List.reverse_nil, List.nil_append, no_return]
  cases added : crate.addLine (name ++ ['/']) with
  | none => simp [splitLines, IgnoreCrate.lineGlob, trimmed, read, added]
  | some glob => simp [splitLines, IgnoreCrate.lineGlob, trimmed, read, added]

end Lines

/-! ## The patterns of the file -/

section Patterns

variable {crate : IgnoreCrate} {patterns : List String} {version timestamp : String}

/-- The suggestions are names with a slash. -/
def OfNames (patterns : List String) : Prop :=
    ∀ pattern ∈ patterns, ∃ name, IsName name ∧ pattern = dirKey [name]

theorem dirKey_toList (name : Name) : (dirKey [name]).toList = name ++ ['/'] := by
  simp [dirKey, Paths.dirText]

theorem mem_lineGlobs (version_line : '\n' ∉ version.toList)
    (timestamp_line : '\n' ∉ timestamp.toList) {glob : crate.Glob} :
    glob ∈ crate.lineGlobs (renderOharaignoreBody patterns version timestamp) ↔
      ∃ pattern ∈ patterns, ∃ line ∈ splitLines [] (pattern.toList ++ ['\n']),
        crate.lineGlob line = some glob := by
  rw [lineGlobs_body crate patterns version_line timestamp_line, List.mem_filterMap]
  constructor
  · rintro ⟨line, line_mem, added⟩
    rcases List.mem_flatMap.1 line_mem with ⟨pattern, pattern_mem, in_pattern⟩
    exact ⟨pattern, pattern_mem, line, in_pattern, added⟩
  · rintro ⟨pattern, pattern_mem, line, in_pattern, added⟩
    exact ⟨line, List.mem_flatMap.2 ⟨pattern, pattern_mem, in_pattern⟩, added⟩

theorem oneLevel_of_mem_lineGlobs (version_line : '\n' ∉ version.toList)
    (timestamp_line : '\n' ∉ timestamp.toList) (of_names : OfNames patterns) {glob : crate.Glob}
    (glob_mem : glob ∈ crate.lineGlobs (renderOharaignoreBody patterns version timestamp)) :
    ∃ line, Globs.OneLevel line ∧ crate.addLine line = some glob := by
  rcases (mem_lineGlobs version_line timestamp_line).1 glob_mem with
    ⟨pattern, pattern_mem, line, line_mem, added⟩
  rcases of_names pattern pattern_mem with ⟨name, is_name, rfl⟩
  rw [dirKey_toList, List.append_assoc] at line_mem
  refine ⟨trim line, oneLevel_of_line is_name line_mem, ?_⟩
  rw [IgnoreCrate.lineGlob] at added
  split at added
  · cases added
  · exact added

theorem mem_lineGlobs_plain (version_line : '\n' ∉ version.toList)
    (timestamp_line : '\n' ∉ timestamp.toList) (of_names : OfNames patterns)
    (all_plain : ∀ name, dirKey [name] ∈ patterns → PlainName name) {glob : crate.Glob} :
    glob ∈ crate.lineGlobs (renderOharaignoreBody patterns version timestamp) ↔
      ∃ name, dirKey [name] ∈ patterns ∧ crate.addLine (name ++ ['/']) = some glob := by
  have one_line : ∀ name, dirKey [name] ∈ patterns →
      ((∃ line ∈ splitLines [] ((dirKey [name]).toList ++ ['\n']), crate.lineGlob line = some glob) ↔
        crate.addLine (name ++ ['/']) = some glob) := by
    intro name name_mem
    rw [← List.mem_filterMap, dirKey_toList, List.append_assoc,
      List.singleton_append, lineGlob_plain (all_plain name name_mem), Option.mem_toList]
  rw [mem_lineGlobs version_line timestamp_line]
  constructor
  · rintro ⟨pattern, pattern_mem, lines⟩
    rcases of_names pattern pattern_mem with ⟨name, -, rfl⟩
    exact ⟨name, pattern_mem, (one_line name pattern_mem).1 lines⟩
  · rintro ⟨name, name_mem, added⟩
    exact ⟨dirKey [name], name_mem, (one_line name name_mem).2 added⟩

end Patterns

/-! ## Loading the file -/

section Loading

variable {crate : IgnoreCrate} {patterns : List String} {version timestamp : String}

/-- Without other layers the lines decide. -/
theorem ignoresMeasured_iff (documented : crate.Documented) (path : RelPath) :
    IgnoresMeasured crate patterns version timestamp path ↔
      (verdict crate.covers crate.negated
          (crate.lineGlobs (renderOharaignoreBody patterns version timestamp))
          (levels path.names false) = .ignore ↔ TopSuggested patterns path) := by
  have no_builtins : ∀ line ∈ ([] : List (List Char)), ∃ glob, crate.addLine line = some glob := by
    simp
  rcases documented.fromStrings no_builtins []
      (renderOharaignoreBody patterns version timestamp) with ⟨layered, built, ignored, -⟩
  have no_attributes : crate.attributeGlobs [] = [] := rfl
  have alone : crate.isIgnored layered path = true ↔
      verdict crate.covers crate.negated
        (crate.lineGlobs (renderOharaignoreBody patterns version timestamp))
        (levels path.names false) = .ignore := by
    rw [ignored path]
    simp only [List.map_cons, List.map_nil, no_attributes, List.filterMap_nil, verdict_nil]
    cases verdict crate.covers crate.negated
        (crate.lineGlobs (renderOharaignoreBody patterns version timestamp))
        (levels path.names false) with
    | none => simp [firstVerdict]
    | ignore => simp [firstVerdict]
    | whitelist => simp [firstVerdict]
  rw [← alone]
  constructor
  · rintro ⟨other, built_other, same⟩
    rw [IgnoreCrate.loadSuggestions, built] at built_other
    cases built_other
    exact same
  · intro same
    exact ⟨layered, built, same⟩

theorem exists_fresh (patterns : List String) :
    ∃ name, IsName name ∧ dirKey [name] ∉ patterns := by
  refine ⟨List.replicate ((patterns.map String.length).sum + 1) 'f', ⟨by simp, ?_⟩, ?_⟩
  · intro slash
    cases List.eq_of_mem_replicate slash
  · intro pattern_mem
    have short := List.le_sum_of_mem (List.mem_map_of_mem (f := String.length) pattern_mem)
    rw [← String.length_toList, dirKey_toList, List.length_append, List.length_replicate] at short
    omega

/-- The levels of a file that is one or two directories deep. -/
theorem levels_one (name : Name) : levels [name] false = [([name], false), ([], true)] := rfl

theorem levels_two (dir name : Name) :
    levels [dir, name] false = [([dir, name], false), ([dir], true), ([], true)] := rfl

theorem levels_three (top dir name : Name) :
    levels [top, dir, name] false
      = [([top, dir, name], false), ([top, dir], true), ([top], true), ([], true)] := rfl

section OneLevel

variable {globs : List crate.Glob}

/-- Lines with one level say the same of a name wherever it is. -/
theorem lastAt_any_depth (syntactic : crate.GitignoreSyntax)
    (one_level : ∀ glob ∈ globs, ∃ line, Globs.OneLevel line ∧ crate.addLine line = some glob)
    (dir dir' : List Name) (last : Name) (isDir : Bool) :
    lastAt crate.covers globs (dir ++ [last], isDir)
      = lastAt crate.covers globs (dir' ++ [last], isDir) := by
  apply lastAt_congr
  intro glob glob_mem
  rcases one_level glob glob_mem with ⟨line, single, added⟩
  exact syntactic.any_depth line glob added single dir dir' last isDir

/-- What says nothing of a directory says nothing of a file of its name. -/
theorem lastAt_file (syntactic : crate.GitignoreSyntax)
    (one_level : ∀ glob ∈ globs, ∃ line, Globs.OneLevel line ∧ crate.addLine line = some glob)
    {names : List Name} (at_dir : lastAt crate.covers globs (names, true) = none) :
    lastAt crate.covers globs (names, false) = none := by
  rw [lastAt_eq_none_iff] at at_dir ⊢
  intro glob glob_mem
  rcases one_level glob glob_mem with ⟨line, -, added⟩
  by_contra covered
  have covered_dir := syntactic.dir_of_file line glob added names (by simpa using covered)
  rw [at_dir glob glob_mem] at covered_dir
  cases covered_dir

end OneLevel

/-- A suggestion that ignores its own files ignores those of any directory of that name. -/
theorem not_all_ignoresMeasured (documented : crate.Documented) (syntactic : crate.GitignoreSyntax)
    (version_line : '\n' ∉ version.toList) (timestamp_line : '\n' ∉ timestamp.toList)
    (of_names : OfNames patterns) {name : Name} (is_name : IsName name)
    (suggested : dirKey [name] ∈ patterns) :
    ¬∀ path, IgnoresMeasured crate patterns version timestamp path := by
  intro all
  rcases exists_fresh patterns with ⟨fresh, fresh_name, not_suggested⟩
  set globs := crate.lineGlobs (renderOharaignoreBody patterns version timestamp)
  have one_level : ∀ glob ∈ globs, ∃ line, Globs.OneLevel line ∧ crate.addLine line = some glob :=
    fun glob glob_mem =>
      oneLevel_of_mem_lineGlobs version_line timestamp_line of_names glob_mem
  -- the directory itself, a directory of that name below another one, and a file of that name
  have own := (ignoresMeasured_iff documented ⟨[name, name], by simp, by simpa using is_name⟩).1
    (all _)
  have nested := (ignoresMeasured_iff documented
    ⟨[fresh, name, name], by simp, by simpa using ⟨fresh_name, is_name⟩⟩).1 (all _)
  have file := (ignoresMeasured_iff documented ⟨[name], by simp, by simpa using is_name⟩).1 (all _)
  have not_nested : ¬TopSuggested patterns
      ⟨[fresh, name, name], by simp, by simpa using ⟨fresh_name, is_name⟩⟩ := by
    rintro ⟨top, rest, split, -, top_suggested⟩
    cases split
    exact not_suggested top_suggested
  have not_file : ¬TopSuggested patterns ⟨[name], by simp, by simpa using is_name⟩ := by
    rintro ⟨top, rest, split, more, -⟩
    cases split
    exact more rfl
  have own_ignored := own.2 ⟨name, [name], rfl, by simp, suggested⟩
  have nested_kept := mt nested.1 not_nested
  have file_kept := mt file.1 not_file
  have as_file := lastAt_any_depth syntactic one_level [fresh, name] [name] name false
  have as_dir := lastAt_any_depth syntactic one_level [fresh] [] name true
  simp only [List.cons_append, List.nil_append] at as_file as_dir
  rw [verdict_eq_ignore_iff, levels_two] at own_ignored
  rw [verdict_eq_ignore_iff, levels_three, decisive_cons, as_file, decisive_cons, as_dir]
    at nested_kept
  rw [verdict_eq_ignore_iff, levels_one] at file_kept
  simp only [decisive_cons, decisive_nil] at own_ignored nested_kept file_kept
  cases at_file : lastAt crate.covers globs ([name, name], false) with
  | some glob =>
      rw [at_file, Option.some_or] at own_ignored nested_kept
      exact nested_kept own_ignored
  | none =>
      rw [at_file, Option.none_or] at own_ignored nested_kept
      cases at_dir : lastAt crate.covers globs ([name], true) with
      | some glob =>
          rw [at_dir, Option.some_or] at own_ignored nested_kept
          exact nested_kept own_ignored
      | none =>
          -- then only the root can have decided, and it decides on the file as well
          rw [at_dir, Option.none_or] at own_ignored
          rw [lastAt_file syntactic one_level at_dir, Option.none_or] at file_kept
          exact file_kept own_ignored

/-- The pattern of a plain name covers what is in a directory of that name. -/
theorem covers_plain_iff (syntactic : crate.GitignoreSyntax) {name : Name} (plain : PlainName name)
    {glob : crate.Glob} (added : crate.addLine (name ++ ['/']) = some glob) (path : RelPath) :
    (∃ level ∈ levels path.names false, crate.covers glob level = true) ↔
      name ∈ path.names.dropLast := by
  rcases syntactic.plain name plain with ⟨plain_glob, plain_added, -, not_root, same_name⟩
  rw [plain_added] at added
  cases added
  rw [mem_dropLast_iff_level path.nonempty]
  constructor
  · rintro ⟨level, level_mem, covered⟩
    rcases mem_levels.1 level_mem with rfl | ⟨dir, -, -, rfl⟩
    · rw [syntactic.dir_only _ _ plain_added List.getLast?_concat] at covered
      cases covered
    · rcases List.eq_nil_or_concat dir with rfl | ⟨above, last, rfl⟩
      · rw [not_root] at covered
        cases covered
      · rw [List.concat_eq_append] at covered level_mem
        have last_eq := (same_name above last).1 covered
        subst last_eq
        exact ⟨above, level_mem⟩
  · rintro ⟨above, level_mem⟩
    exact ⟨_, level_mem, (same_name above name).2 rfl⟩

theorem negated_plain (syntactic : crate.GitignoreSyntax) {name : Name} (plain : PlainName name)
    {glob : crate.Glob} (added : crate.addLine (name ++ ['/']) = some glob) :
    crate.negated glob = false := by
  rcases syntactic.plain name plain with ⟨plain_glob, plain_added, positive, -⟩
  rw [plain_added] at added
  cases added
  exact positive

/-- Plain suggestions ignore what is in a directory of one of the names. -/
theorem verdict_plain (syntactic : crate.GitignoreSyntax) (version_line : '\n' ∉ version.toList)
    (timestamp_line : '\n' ∉ timestamp.toList) (of_names : OfNames patterns)
    (all_plain : ∀ name, dirKey [name] ∈ patterns → PlainName name) (path : RelPath) :
    verdict crate.covers crate.negated
        (crate.lineGlobs (renderOharaignoreBody patterns version timestamp))
        (levels path.names false) = .ignore ↔
      ∃ name ∈ path.names.dropLast, dirKey [name] ∈ patterns := by
  have globs_iff : ∀ glob : crate.Glob,
      glob ∈ crate.lineGlobs (renderOharaignoreBody patterns version timestamp) ↔
        ∃ name, dirKey [name] ∈ patterns ∧ crate.addLine (name ++ ['/']) = some glob :=
    fun _ => mem_lineGlobs_plain version_line timestamp_line of_names all_plain
  rw [verdict_eq_ignore_of_positive]
  · constructor
    · rintro ⟨glob, glob_mem, covered⟩
      rcases (globs_iff glob).1 glob_mem with ⟨name, suggested, added⟩
      have plain := all_plain name suggested
      exact ⟨name, (covers_plain_iff syntactic plain added path).1 covered, suggested⟩
    · rintro ⟨name, name_mem, suggested⟩
      have plain := all_plain name suggested
      rcases syntactic.plain name plain with ⟨glob, added, -⟩
      exact ⟨glob, (globs_iff glob).2 ⟨name, suggested, added⟩,
        (covers_plain_iff syntactic plain added path).2 name_mem⟩
  · intro glob glob_mem
    rcases (globs_iff glob).1 glob_mem with ⟨name, suggested, added⟩
    exact negated_plain syntactic (all_plain name suggested) added

theorem topSuggested_iff {path : RelPath} :
    TopSuggested patterns path ↔
      path.names.dropLast ≠ [] ∧ dirKey [path.names.head path.nonempty] ∈ patterns := by
  rcases path with ⟨names, nonempty, named⟩
  cases names with
  | nil => exact absurd rfl nonempty
  | cons top rest =>
      simp only [TopSuggested, List.head_cons, List.cons.injEq]
      constructor
      · rintro ⟨_, _, ⟨rfl, rfl⟩, more, suggested⟩
        exact ⟨by simp [List.dropLast_cons_of_ne_nil more], suggested⟩
      · rintro ⟨more, suggested⟩
        refine ⟨top, rest, ⟨rfl, rfl⟩, ?_, suggested⟩
        rintro rfl
        exact more rfl

end Loading

/-! ## Suggestions of a plan -/

section Plans

variable {commits : List (List RelPath)}

theorem dirKey_mem_suggestPatterns {name : Name} :
    dirKey [name] ∈ suggestPatterns (hotmapOf commits) ↔ Measured commits name := by
  rw [mem_suggestPatterns_hotmapOf]
  constructor
  · rintro ⟨other, measured, same⟩
    have texts := congrArg String.toList same
    rw [dirKey_toList, dirKey_toList] at texts
    rwa [List.append_cancel_right texts]
  · intro measured
    exact ⟨name, measured, rfl⟩

theorem ofNames_suggestPatterns : OfNames (suggestPatterns (hotmapOf commits)) := by
  intro pattern pattern_mem
  rcases mem_suggestPatterns_hotmapOf.1 pattern_mem with ⟨name, measured, rfl⟩
  exact ⟨name, measured.is_name, rfl⟩

theorem ignoresMeasured_of_none {crate : IgnoreCrate} (documented : crate.Documented)
    {version timestamp : String} (version_line : '\n' ∉ version.toList)
    (timestamp_line : '\n' ∉ timestamp.toList) (none : ∀ name, ¬Measured commits name)
    (path : RelPath) :
    IgnoresMeasured crate (suggestPatterns (hotmapOf commits)) version timestamp path := by
  have no_patterns : suggestPatterns (hotmapOf commits) = [] := by
    rw [List.eq_nil_iff_forall_not_mem]
    intro pattern pattern_mem
    rcases mem_suggestPatterns_hotmapOf.1 pattern_mem with ⟨name, measured, -⟩
    exact none name measured
  rw [ignoresMeasured_iff documented, no_patterns,
    lineGlobs_body crate [] version_line timestamp_line]
  simp [TopSuggested]

/-- The suggestions ignore what was measured on every path exactly when there are none. Plain ones do
it on the paths without a suggested directory below another top-level one. -/
theorem ignoresMeasured_suggestPatterns (crate : IgnoreCrate) (documented : crate.Documented)
    (syntactic : crate.GitignoreSyntax) (version timestamp : String)
    (version_line : '\n' ∉ version.toList) (timestamp_line : '\n' ∉ timestamp.toList)
    (commits : List (List RelPath)) :
    ((∀ path, IgnoresMeasured crate (suggestPatterns (hotmapOf commits)) version timestamp path) ↔
        ∀ name, ¬Measured commits name) ∧
      ((∀ name, Measured commits name → PlainName name) → ∀ path : RelPath,
        (IgnoresMeasured crate (suggestPatterns (hotmapOf commits)) version timestamp path ↔
          ∀ name ∈ path.names.dropLast.tail, Measured commits name →
            Measured commits (path.names.head path.nonempty))) := by
  constructor
  · constructor
    · intro all name measured
      exact not_all_ignoresMeasured documented syntactic version_line timestamp_line
        ofNames_suggestPatterns measured.is_name (dirKey_mem_suggestPatterns.2 measured) all
    · intro none path
      exact ignoresMeasured_of_none documented version_line timestamp_line none path
  · intro all_plain path
    have plain_patterns : ∀ name, dirKey [name] ∈ suggestPatterns (hotmapOf commits) →
        PlainName name :=
      fun name suggested => all_plain name (dirKey_mem_suggestPatterns.1 suggested)
    rw [ignoresMeasured_iff documented, verdict_plain syntactic version_line timestamp_line
      ofNames_suggestPatterns plain_patterns, topSuggested_iff]
    simp only [dirKey_mem_suggestPatterns]
    rcases path with ⟨names, nonempty, named⟩
    cases names with
    | nil => exact absurd rfl nonempty
    | cons top rest =>
        cases rest with
        | nil => simp
        | cons next rest =>
            simp only [List.dropLast_cons_cons, List.tail_cons, List.head_cons, List.exists_mem_cons_iff,
              ne_eq, reduceCtorEq, not_false_eq_true, true_and]
            constructor
            · intro same name name_mem measured
              exact same.1 (.inr ⟨name, name_mem, measured⟩)
            · intro below
              constructor
              · rintro (top_measured | ⟨name, name_mem, measured⟩)
                · exact top_measured
                · exact below name name_mem measured
              · intro top_measured
                exact .inl top_measured

end Plans

theorem globCrate_syntax : globCrate.GitignoreSyntax where
  any_depth := fun _ _ added one_level => Globs.covers_anyDepth one_level added
  dir_only := fun _ _ added slash _ => Globs.covers_file_of_slash slash added
  dir_of_file := fun _ _ _ _ covered => Globs.covers_dir_of_file covered
  plain := by
    intro name plain
    refine ⟨_, Globs.readLine_plain plain.toPlain, rfl, ?_, Globs.covers_plain plain.toPlain⟩
    simp [globCrate, Globs.covers]

theorem measured_src : Measured fewCommits "src".toList := by
  refine ⟨by decide +kernel, by decide +kernel, by decide, ?_, ?_⟩
  · rw [touched_fewCommits.1]
    decide
  · rw [touched_fewCommits.1]
    exact (highShareThreshold_le_iff_exact (by decide) (by decide) (by decide)).2 (by decide)

theorem eq_src_of_measured {name : Name} (measured : Measured fewCommits name) :
    name = "src".toList := by
  have names : name ∈ ["src".toList, "lib".toList, "docs".toList] := by
    rcases List.countP_pos_iff.1 measured.occurs with ⟨paths, paths_mem, touches⟩
    rcases of_decide_eq_true touches with ⟨path, path_mem, front, -⟩
    have path_mem : path ∈ [srcPath, libPath, docsPath] := by
      simp only [fewCommits, List.mem_cons, List.mem_replicate] at paths_mem
      rcases paths_mem with rfl | rfl | ⟨-, rfl⟩ <;> simp_all
    simp only [List.mem_cons, List.not_mem_nil, or_false] at path_mem
    rcases path_mem with rfl | rfl | rfl <;>
      simp [srcPath, libPath, docsPath, List.cons_prefix_cons] at front <;> simp [front]
  simp only [List.mem_cons, List.not_mem_nil, or_false] at names
  rcases names with rfl | rfl | rfl
  · rfl
  · have high := measured.high
    rw [touched_fewCommits.2.1] at high
    have high := (highShareThreshold_le_iff_exact (by decide) (by decide) (by decide)).1 high
    exact absurd high (by decide)
  · exact absurd (by decide +kernel) measured.outside

theorem measured_fewCommits_iff {name : Name} : Measured fewCommits name ↔ name = "src".toList := by
  constructor
  · exact eq_src_of_measured
  · rintro rfl
    exact measured_src

theorem plainName_src : PlainName "src".toList where
  is_name := by decide +kernel
  literal := by
    have checked : "src".toList.all (fun c => decide (c ∉ ['[', '*', '?', '\\', '{'])) = true := by
      decide +kernel
    intro c c_mem
    exact of_decide_eq_true (List.all_eq_true.1 checked c c_mem)
  start := by decide +kernel
  closed := by decide +kernel
  no_comment := by decide +kernel
  no_blank := by
    intro c first
    cases first
    decide
  one_line := by decide +kernel

theorem plainName_of_measured {name : Name} (measured : Measured fewCommits name) :
    PlainName name := by
  rw [measured_fewCommits_iff.1 measured]
  exact plainName_src

theorem topSuggested_fewCommits {path : RelPath} :
    TopSuggested (suggestPatterns (hotmapOf fewCommits)) path ↔
      path.names.dropLast ≠ [] ∧ path.names.head path.nonempty = "src".toList := by
  rw [topSuggested_iff, dirKey_mem_suggestPatterns, measured_fewCommits_iff]

/-- Only the file in `src` is to be ignored. -/
theorem ignoresMeasured_fewCommits :
    '\n' ∉ "1.0.0".toList ∧ '\n' ∉ "2026-01-01T00:00:00Z".toList ∧
      ∀ path ∈ [srcPath, libPath, docsPath],
        IgnoresMeasured globCrate (suggestPatterns (hotmapOf fewCommits)) "1.0.0"
          "2026-01-01T00:00:00Z" path ∧
        (TopSuggested (suggestPatterns (hotmapOf fewCommits)) path ↔ path = srcPath) := by
  have version_line : '\n' ∉ "1.0.0".toList := by decide +kernel
  have timestamp_line : '\n' ∉ "2026-01-01T00:00:00Z".toList := by decide +kernel
  have of_path := (ignoresMeasured_suggestPatterns globCrate globCrate_documented globCrate_syntax
    _ _ version_line timestamp_line fewCommits).2 fun _ => plainName_of_measured
  refine ⟨version_line, timestamp_line, ?_⟩
  intro path path_mem
  have only_top : path.names.dropLast.tail = [] := by
    revert path_mem path
    decide +kernel
  refine ⟨(of_path path).2 ?_, ?_⟩
  · rw [only_top]
    simp
  · rw [topSuggested_fewCommits]
    revert path_mem path
    decide +kernel

/-- The path `lib/src/a.rs`. -/
def nestedPath : RelPath where
  names := ["lib".toList, "src".toList, "a.rs".toList]
  nonempty := by simp
  named := by decide +kernel

/-- The commits to `src` hide the files of `lib/src`. -/
theorem not_ignoresMeasured_nestedPath :
    ¬∀ crate : IgnoreCrate, crate.Documented → crate.GitignoreSyntax →
      ∀ commits path, IgnoresMeasured crate (suggestPatterns (hotmapOf commits)) "1.0.0"
        "2026-01-01T00:00:00Z" path := by
  intro all
  have at_path := all globCrate globCrate_documented globCrate_syntax fewCommits nestedPath
  have plain_patterns : ∀ name, dirKey [name] ∈ suggestPatterns (hotmapOf fewCommits) →
      PlainName name := by
    intro name suggested
    exact plainName_of_measured (dirKey_mem_suggestPatterns.1 suggested)
  rw [ignoresMeasured_iff globCrate_documented,
    verdict_plain globCrate_syntax (by decide +kernel) (by decide +kernel) ofNames_suggestPatterns
      plain_patterns, topSuggested_fewCommits] at at_path
  have top := (at_path.1 ⟨"src".toList, by decide +kernel,
    dirKey_mem_suggestPatterns.2 measured_src⟩).2
  exact absurd top (by decide +kernel)

end Ohara
