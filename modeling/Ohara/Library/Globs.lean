import Ohara.Library.IgnoreRules

/-!
# Globs

The lines of an ignore file with stars, question marks and escapes. A line without a slash before
its last character is about the last name of a path, any other one about the whole path. Classes
and alternatives are not read.
-/

namespace Globs

open Paths IgnoreRules

/-- What a pattern asks of the next characters. -/
inductive Token where
  | char (c : Char)
  | any
  | star
deriving DecidableEq

/-- The tokens of a pattern; none when it ends in a backslash. -/
def readTokens : List Char → Option (List Token)
  | [] => some []
  | ['\\'] => none
  | '\\' :: c :: rest => (readTokens rest).map fun tokens => .char c :: tokens
  | '*' :: rest => (readTokens rest).map fun tokens => .star :: tokens
  | '?' :: rest => (readTokens rest).map fun tokens => .any :: tokens
  | c :: rest =>
      if c = '[' ∨ c = '{' then none else (readTokens rest).map fun tokens => .char c :: tokens

/-- A run of characters that are no slash, and then the rest. -/
def starMatches (rest : List Char → Bool) : List Char → Bool
  | [] => rest []
  | c :: text => rest (c :: text) || (c != '/' && starMatches rest text)

/-- The tokens match the whole text. -/
def matchesText : List Token → List Char → Bool
  | [], text => text.isEmpty
  | .char _ :: _, [] => false
  | .char c :: tokens, x :: text => x == c && matchesText tokens text
  | .any :: _, [] => false
  | .any :: tokens, x :: text => x != '/' && matchesText tokens text
  | .star :: tokens, text => starMatches (matchesText tokens) text

/-- A pattern and its signs. -/
structure Glob where
  negated : Bool
  dirOnly : Bool
  anchored : Bool
  tokens : List Token
deriving DecidableEq

/-- A line after the signs at its start. -/
def readBody (negated rooted : Bool) (body : List Char) : Option Glob :=
    let dirOnly := body.getLast? == some '/'
    let names := if dirOnly then body.dropLast else body
    (readTokens names).map fun tokens => ⟨negated, dirOnly, rooted || names.contains '/', tokens⟩

/-- A slash in front ties the pattern to the root. -/
def readRooted (negated : Bool) : List Char → Option Glob
  | '/' :: body => readBody negated true body
  | body => readBody negated false body

/-- The pattern of a line. -/
def readLine : List Char → Option Glob
  | '!' :: line => readRooted true line
  | line => readRooted false line

/-- A glob without tokens covers nothing. -/
def covers (glob : Glob) (level : Level) : Bool :=
    (level.2 || !glob.dirOnly) && !glob.tokens.isEmpty &&
      if glob.anchored then matchesText glob.tokens (join level.1)
      else
        match level.1.getLast? with
        | none => false
        | some name => matchesText glob.tokens name

/-! ## What is covered -/

/-- The only slash of the line is at its end. -/
def OneLevel (line : List Char) : Prop :=
    '/' ∉ line.dropLast

/-- A name that a line spells as it is. -/
structure Plain (name : Name) : Prop where
  is_name : IsName name
  literal : ∀ c ∈ name, c ∉ ['[', '*', '?', '\\', '{']
  start : name.head? ≠ some '!'

theorem covers_dir_of_file {glob : Glob} {names : List Name}
    (file : covers glob (names, false) = true) : covers glob (names, true) = true := by
  simp only [covers, Bool.false_or, Bool.true_or, Bool.and_eq_true, Bool.true_and] at file ⊢
  exact ⟨file.1.2, file.2⟩

theorem covers_of_not_anchored {glob : Glob} (free : glob.anchored = false) (dir : List Name)
    (name : Name) (isDir : Bool) :
    covers glob (dir ++ [name], isDir)
      = ((isDir || !glob.dirOnly) && !glob.tokens.isEmpty && matchesText glob.tokens name) := by
  simp [covers, free]

theorem readBody_oneLevel {negated : Bool} {body : List Char} {glob : Glob}
    (one_level : OneLevel body) (read : readBody negated false body = some glob) :
    glob.anchored = false := by
  rcases Option.map_eq_some_iff.1 read with ⟨tokens, -, rfl⟩
  simp only [Bool.false_or]
  by_cases slash : body.getLast? = some '/'
  · simpa [slash, OneLevel] using one_level
  · have none_inside : '/' ∉ body := by
      intro inside
      have nonempty := List.ne_nil_of_mem inside
      rw [← List.dropLast_append_getLast nonempty, List.mem_append, List.mem_singleton] at inside
      rcases inside with front | last
      · exact one_level front
      · exact slash (by rw [List.getLast?_eq_some_getLast nonempty, ← last])
    simpa [slash] using none_inside

theorem readRooted_oneLevel {negated : Bool} {body : List Char} {glob : Glob}
    (one_level : OneLevel body) (read : readRooted negated body = some glob) :
    glob.anchored = false ∨ glob.tokens = [] := by
  unfold readRooted at read
  split at read
  · next body =>
      cases body with
      | nil =>
          cases read
          exact .inr rfl
      | cons c body => exact absurd (by simp) one_level
  · exact .inl (readBody_oneLevel one_level read)

theorem readLine_oneLevel {line : List Char} {glob : Glob} (one_level : OneLevel line)
    (read : readLine line = some glob) : glob.anchored = false ∨ glob.tokens = [] := by
  unfold readLine at read
  split at read
  · next line =>
      apply readRooted_oneLevel _ read
      cases line with
      | nil => simp [OneLevel]
      | cons c line =>
          intro slash
          apply one_level
          simp only [List.dropLast_cons_cons]
          exact List.mem_cons_of_mem _ slash
  · exact readRooted_oneLevel one_level read

/-- Such a line is about the last name, wherever it is. -/
theorem covers_anyDepth {line : List Char} {glob : Glob} (one_level : OneLevel line)
    (read : readLine line = some glob) (dir dir' : List Name) (name : Name) (isDir : Bool) :
    covers glob (dir ++ [name], isDir) = covers glob (dir' ++ [name], isDir) := by
  rcases readLine_oneLevel one_level read with free | none
  · rw [covers_of_not_anchored free, covers_of_not_anchored free]
  · simp [covers, none]

theorem readRooted_slash {negated : Bool} {body : List Char} {glob : Glob}
    (slash : body.getLast? = some '/') (read : readRooted negated body = some glob) :
    glob.dirOnly = true ∨ glob.tokens = [] := by
  unfold readRooted at read
  split at read
  · next body =>
      cases body with
      | nil =>
          cases read
          exact .inr rfl
      | cons c body =>
          rw [List.getLast?_cons_cons] at slash
          rcases Option.map_eq_some_iff.1 read with ⟨tokens, -, rfl⟩
          exact .inl (by simp [slash])
  · rcases Option.map_eq_some_iff.1 read with ⟨tokens, -, rfl⟩
    exact .inl (by simp [slash])

/-- A line with a slash at its end is about directories. -/
theorem covers_file_of_slash {line : List Char} {glob : Glob} {names : List Name}
    (slash : line.getLast? = some '/') (read : readLine line = some glob) :
    covers glob (names, false) = false := by
  have dirs : glob.dirOnly = true ∨ glob.tokens = [] := by
    unfold readLine at read
    split at read
    · next line =>
        cases line with
        | nil => simp at slash
        | cons c line => exact readRooted_slash (by rwa [List.getLast?_cons_cons] at slash) read
    · exact readRooted_slash slash read
  rcases dirs with dir_only | none
  · simp [covers, dir_only]
  · simp [covers, none]

theorem readTokens_plain {name : Name} (literal : ∀ c ∈ name, c ∉ ['[', '*', '?', '\\', '{']) :
    readTokens name = some (name.map .char) := by
  induction name with
  | nil => rfl
  | cons c rest ih =>
      rw [List.forall_mem_cons] at literal
      simp only [List.mem_cons, List.not_mem_nil, or_false, not_or] at literal
      rcases literal.1 with ⟨no_class, no_star, no_any, no_escape, no_choice⟩
      rw [readTokens.eq_6 _ _ (by simp [no_escape]) (by simp [no_escape]) no_star no_any,
        if_neg (by simp [no_class, no_choice]), ih (by simpa using literal.2)]
      rfl

theorem matchesText_chars {name text : List Char} :
    matchesText (name.map .char) text = true ↔ text = name := by
  induction name generalizing text with
  | nil => simp [matchesText]
  | cons c rest ih =>
      cases text with
      | nil => simp [matchesText]
      | cons x text => simp [matchesText, ih]

/-- A plain name with a slash at its end is about the directories of that name. -/
theorem readLine_plain {name : Name} (plain : Plain name) :
    readLine (name ++ ['/']) = some ⟨false, true, false, name.map .char⟩ := by
  rcases plain with ⟨⟨nonempty, no_slash⟩, literal, start⟩
  cases name with
  | nil => exact absurd rfl nonempty
  | cons c rest =>
      have no_root : c ≠ '/' := by
        rintro rfl
        exact no_slash List.mem_cons_self
      have no_sign : c ≠ '!' := by simpa using start
      have body : readBody false false (c :: rest ++ ['/'])
          = some ⟨false, true, false, (c :: rest).map .char⟩ := by
        have last : (c :: rest ++ ['/']).getLast? = some '/' :=
          List.getLast?_concat
        simp only [readBody, last, beq_self_eq_true, if_true, List.dropLast_concat,
          readTokens_plain literal, Option.map_some, Bool.false_or]
        simp only [List.contains_eq_mem, no_slash, decide_false]
      rw [List.cons_append] at body ⊢
      rw [readLine.eq_2 _ (by simp [no_sign]), readRooted.eq_2 _ _ (by simp [no_root])]
      exact body

theorem covers_plain {name : Name} (plain : Plain name) (dir : List Name) (other : Name) :
    covers ⟨false, true, false, name.map .char⟩ (dir ++ [other], true) = true ↔ other = name := by
  have some_token : name ≠ [] := plain.is_name.1
  rw [covers_of_not_anchored rfl]
  simp [some_token, matchesText_chars]

end Globs
