import Ohara.Library.Words

/-!
# Shell words

A line of a shell read character by character as the words it hands to one simple command, in
every environment. Blanks separate words, quotes and backslashes take the meaning of the characters
they quote, and a number sign at the start of a word starts a comment. A line with an operator or a
second line is more than one command. A dollar sign, a backquote, a tilde and a pattern are
expanded, to words that depend on variables, users and files. The line has no words of its own
then, and is not split.
-/

namespace ShellWords

/-- The characters of a word. -/
abbrev Word := List Char

/-- The sign that takes the next character as it is. -/
def backslash : Char := Char.ofNat 0x5c

/-- The sign around a text that stays as it is. -/
def apostrophe : Char := Char.ofNat 0x27

/-- The sign around a text in which some signs keep their meaning. -/
def quotation : Char := Char.ofNat 0x22

/-- The sign around a command. -/
def grave : Char := Char.ofNat 0x60

/-- What separates words. -/
def Blank (c : Char) : Prop := c = ' ' ∨ c = '\t'

/-- What starts an expansion, inside quotation marks, too. -/
def Expands (c : Char) : Prop := c = '$' ∨ c = grave

/-- What ends the words of a command. -/
def Ends (c : Char) : Prop := c ∈ ['\n', '|', '&', ';', '<', '>', '(', ')']

/-- What stands for itself without a quote, where it starts no tilde and is in no pattern. -/
def Plain (c : Char) : Prop :=
    ¬ Blank c ∧ ¬ Expands c ∧ ¬ Ends c ∧ c ≠ backslash ∧ c ≠ apostrophe ∧ c ≠ quotation

instance (c : Char) : Decidable (Blank c) := inferInstanceAs (Decidable (_ ∨ _))

instance (c : Char) : Decidable (Expands c) := inferInstanceAs (Decidable (_ ∨ _))

instance (c : Char) : Decidable (Ends c) := inferInstanceAs (Decidable (_ ∈ _))

instance (c : Char) : Decidable (Plain c) := inferInstanceAs (Decidable (_ ∧ _))

/-! ## Letters -/

/-- A character of a word is bare or quoted, and a quote is kept as the mark it leaves. -/
inductive Letter where
  | bare (c : Char)
  | quoted (c : Char)
  | quote
deriving DecidableEq

/-- The letters of a word before its quotes are removed. -/
abbrev Token := List Letter

namespace Token

/-- A word without quotes. -/
def ofWord (word : Word) : Token :=
    word.map .bare

/-- The character of a letter. -/
def char? : Letter → Option Char
  | .bare c | .quoted c => some c
  | .quote => none

/-- The characters of a token. -/
def text (token : Token) : Word :=
    token.filterMap char?

/-- The letter stood outside of quotes. -/
def IsBare (letter : Letter) : Prop :=
    ∃ c, letter = .bare c

instance : DecidablePred IsBare
  | .bare c => isTrue ⟨c, rfl⟩
  | .quoted _ => isFalse (by simp [IsBare])
  | .quote => isFalse (by simp [IsBare])

/-- A tilde at the start, and no quote up to the first slash. -/
def TildePrefix (token : Token) : Prop :=
    token.head? = some (.bare '~')
      ∧ ∀ letter ∈ token.takeWhile (fun letter => letter ≠ .bare '/'), IsBare letter

/-- What follows a bracket makes it a set of characters: there is a character after the negation,
and the bracket is closed after it, before any slash. -/
def Closes (rest : List Letter) : Prop :=
    let list := if rest.head? = some (.bare '!') then rest.tail else rest
    .bare ']' ∈ (list.takeWhile fun letter => char? letter ≠ some '/').tail

/-- A bracket opens and is closed later on. -/
def Bracketed : List Letter → Prop
  | [] => False
  | letter :: rest => letter = .bare '[' ∧ Closes rest ∨ Bracketed rest

/-- The name of some other file can match the word. -/
def Pattern (token : Token) : Prop :=
    .bare '*' ∈ token ∨ .bare '?' ∈ token
      ∨ Bracketed (token.filter fun letter => letter ≠ .quote)

/-- What the word stands for depends on the users or on the files. -/
def Expandable (token : Token) : Prop :=
    token.TildePrefix ∨ token.Pattern

instance (token : Token) : Decidable token.TildePrefix :=
    inferInstanceAs (Decidable (_ ∧ _))

instance (rest : List Letter) : Decidable (Closes rest) :=
    inferInstanceAs (Decidable (_ ∈ _))

instance instDecidableBracketed : (letters : List Letter) → Decidable (Bracketed letters)
  | [] => isFalse id
  | _ :: rest =>
      have : Decidable (Bracketed rest) := instDecidableBracketed rest
      inferInstanceAs (Decidable (_ ∧ _ ∨ _))

instance (token : Token) : Decidable token.Pattern :=
    inferInstanceAs (Decidable (_ ∨ _ ∨ _))

instance (token : Token) : Decidable token.Expandable :=
    inferInstanceAs (Decidable (_ ∨ _))

/-- The word of a token, where it is the same everywhere. -/
def word? (token : Token) : Option Word :=
    if token.Expandable then none else some token.text

@[simp]
theorem ofWord_append (front back : Word) : ofWord (front ++ back) = ofWord front ++ ofWord back :=
    List.map_append

@[simp]
theorem text_ofWord (word : Word) : text (ofWord word) = word := by
  simp [text, ofWord, List.filterMap_map, Function.comp_def, char?]

theorem bare_mem_ofWord {word : Word} {c : Char} : .bare c ∈ ofWord word ↔ c ∈ word := by
  simp [ofWord]

theorem Bracketed.bare_mem {letters : List Letter} (bracketed : Bracketed letters) :
    .bare '[' ∈ letters := by
  induction letters with
  | nil => exact bracketed.elim
  | cons letter rest ih =>
      rcases bracketed with ⟨rfl, _⟩ | later
      · exact List.mem_cons_self
      · exact List.mem_cons_of_mem _ (ih later)

/-- Without a tilde and without a sign of a pattern, nothing is expanded. -/
theorem not_expandable_ofWord {word : Word} (ordinary : ∀ c ∈ word, c ∉ ['~', '*', '?', '[']) :
    ¬ (ofWord word).Expandable := by
  have absent : ∀ c ∈ ['~', '*', '?', '['], .bare c ∉ ofWord word := by
    intro c special c_mem
    exact ordinary c (bare_mem_ofWord.1 c_mem) special
  rintro (⟨tilde, _⟩ | star | mark | bracketed)
  · exact absent '~' (by simp) (List.mem_of_mem_head? tilde)
  · exact absent '*' (by simp) star
  · exact absent '?' (by simp) mark
  · exact absent '[' (by simp) (List.mem_of_mem_filter bracketed.bare_mem)

end Token

/-- A word of plain characters that starts no comment. -/
structure BareWord (word : Word) : Prop where
  nonempty : word ≠ []
  plain : ∀ c ∈ word, Plain c
  no_comment : word.head? ≠ some '#'

/-- A word that is read as it is written. -/
structure PlainWord (word : Word) : Prop extends BareWord word where
  not_expandable : ¬ (Token.ofWord word).Expandable

theorem plainWord_iff (word : Word) :
    PlainWord word ↔
      (word ≠ [] ∧ word.all (fun c => decide (Plain c)) = true ∧ word.head? ≠ some '#')
        ∧ ¬ (Token.ofWord word).Expandable := by
  simp only [List.all_eq_true, decide_eq_true_iff]
  constructor
  · intro h
    exact ⟨⟨h.nonempty, h.plain, h.no_comment⟩, h.not_expandable⟩
  · rintro ⟨⟨nonempty, plain, no_comment⟩, not_expandable⟩
    exact ⟨⟨nonempty, plain, no_comment⟩, not_expandable⟩

instance (word : Word) : Decidable (PlainWord word) :=
    decidable_of_iff' _ (plainWord_iff word)

/-- The characters that are not plain everywhere. -/
def specials : List Char :=
    [' ', '\t', '$', grave, '\n', '|', '&', ';', '<', '>', '(', ')', backslash, apostrophe,
      quotation, '#', '~', '*', '?', '[']

theorem plainWord_of_not_special {word : Word} (nonempty : word ≠ [])
    (ordinary : ∀ c ∈ word, c ∉ specials) : PlainWord word where
  nonempty := nonempty
  plain := by
    intro c c_mem
    have not_special := ordinary c c_mem
    simp only [specials, List.mem_cons, List.not_mem_nil, or_false, not_or] at not_special
    simp [Plain, Blank, Expands, Ends, not_special]
  no_comment := by
    intro sign
    exact ordinary '#' (List.mem_of_mem_head? sign) (by decide)
  not_expandable := by
    apply Token.not_expandable_ofWord
    intro c c_mem expands
    have part : ['~', '*', '?', '['] ⊆ specials := by decide
    exact ordinary c c_mem (part expands)

example : ¬ PlainWord "~/repo".toList ∧ ¬ PlainWord "/src/*".toList ∧ ¬ PlainWord "[ab]".toList
    ∧ PlainWord "/a~b/[c".toList := by decide

/-! ## Reading a line -/

/-- Where the reading stands. -/
inductive Mode where
  | unquoted
  | escaped
  | single
  | double
  | doubleEscaped
  | comment
deriving DecidableEq

/-- The words read, and the one that is being read. -/
structure State where
  words : List Token
  word : Option Token
  mode : Mode
deriving DecidableEq

namespace State

/-- The word grows by a letter. -/
def push (s : State) (letter : Letter) : State :=
    { s with word := some (s.word.getD [] ++ [letter]) }

/-- The reading goes on in another mode. -/
def turn (s : State) (mode : Mode) : State :=
    { s with mode := mode }

/-- A quote starts a word, also when nothing is quoted. -/
def opened (s : State) (mode : Mode) : State :=
    (s.push .quote).turn mode

/-- The word is complete. -/
def ended (s : State) : State :=
    { s with words := s.words ++ s.word.toList, word := none }

end State

/-- One more character of the line. -/
def step (s : State) (c : Char) : Option State :=
    match s.mode with
    | .unquoted =>
        if Blank c then some s.ended
        else if c = backslash then some (s.turn .escaped)
        else if c = apostrophe then some (s.opened .single)
        else if c = quotation then some (s.opened .double)
        else if c = '#' ∧ s.word = none then some (s.turn .comment)
        else if Ends c ∨ Expands c then none
        else some (s.push (.bare c))
    | .escaped =>
        if c = '\n' then some (s.turn .unquoted) else some ((s.push (.quoted c)).turn .unquoted)
    | .single => if c = apostrophe then some (s.turn .unquoted) else some (s.push (.quoted c))
    | .double =>
        if c = quotation then some (s.turn .unquoted)
        else if c = backslash then some (s.turn .doubleEscaped)
        else if Expands c then none
        else some (s.push (.quoted c))
    | .doubleEscaped =>
        if c = '\n' then some (s.turn .double)
        else if Expands c ∨ c = quotation ∨ c = backslash then
          some ((s.push (.quoted c)).turn .double)
        else some (((s.push (.quoted backslash)).push (.quoted c)).turn .double)
    | .comment => if c = '\n' then none else some s

/-- A quote that is still open is an error. -/
def finish (s : State) : Option (List Word) :=
    match s.mode with
    | .unquoted | .comment => s.ended.words.mapM Token.word?
    | .escaped | .single | .double | .doubleEscaped => none

/-- Nothing has been read. -/
def start : State := ⟨[], none, .unquoted⟩

/-- The words that a line stands for; none where a word would be expanded. -/
def split (line : List Char) : Option (List Word) :=
    (line.foldlM step start).bind finish

/-! ## Plain words -/

variable {c : Char} {s s' : State} {word line : List Char} {ws : List Word}

theorem step_plain (unquoted : s.mode = .unquoted) (plain : Plain c)
    (no_comment : c = '#' → s.word ≠ none) : step s c = some (s.push (.bare c)) := by
  rcases plain with ⟨blank, expands, ends, backslash, apostrophe, quotation⟩
  have not_comment : ¬ (c = '#' ∧ s.word = none) := fun both => no_comment both.1 both.2
  simp [step, unquoted, blank, expands, ends, backslash, apostrophe, quotation, not_comment]

theorem run_plain (unquoted : s.mode = .unquoted) (plain : ∀ c ∈ word, Plain c)
    (started : s.word ≠ none) :
    word.foldlM step s = some { s with word := some (s.word.getD [] ++ Token.ofWord word) } := by
  induction word generalizing s with
  | nil =>
      rcases Option.ne_none_iff_exists'.1 started with ⟨front, found⟩
      have empty : Token.ofWord [] = [] := rfl
      rw [List.foldlM_nil, found, Option.getD_some, empty, List.append_nil, ← found]
      rfl
  | cons c rest ih =>
      rw [List.forall_mem_cons] at plain
      have first := step_plain unquoted plain.1 (fun _ => started)
      rw [List.foldlM_cons, first]
      simpa [State.push, Token.ofWord] using
        ih (s := s.push (.bare c)) unquoted plain.2 (by simp [State.push])

theorem BareWord.run (bare_word : BareWord word) (words : List Token) :
    word.foldlM step ⟨words, none, .unquoted⟩
      = some ⟨words, some (Token.ofWord word), .unquoted⟩ := by
  cases word with
  | nil => exact absurd rfl bare_word.nonempty
  | cons c rest =>
      have plain := List.forall_mem_cons.1 bare_word.plain
      have first : step ⟨words, none, .unquoted⟩ c = some ⟨words, some [.bare c], .unquoted⟩ := by
        apply step_plain rfl plain.1
        intro sign
        exact absurd (congrArg some sign) bare_word.no_comment
      rw [List.foldlM_cons, first]
      exact run_plain (s := ⟨words, some [.bare c], .unquoted⟩) rfl plain.2 (by simp)

theorem PlainWord.word?_ofWord (plain_word : PlainWord word) :
    (Token.ofWord word).word? = some word := by
  rw [Token.word?, if_neg plain_word.not_expandable, Token.text_ofWord]

theorem mapM_word?_ofWord (plain_words : ∀ word ∈ ws, PlainWord word) :
    (ws.map Token.ofWord).mapM Token.word? = some ws := by
  induction ws with
  | nil => rfl
  | cons word ws ih =>
      rw [List.forall_mem_cons] at plain_words
      rw [List.map_cons, List.mapM_cons, plain_words.1.word?_ofWord, ih plain_words.2]
      rfl

theorem split_word (plain_word : PlainWord word) : split word = some [word] := by
  have finished : [Token.ofWord word].mapM Token.word? = some [word] :=
    mapM_word?_ofWord (List.forall_mem_singleton.2 plain_word)
  rw [split, start, plain_word.run []]
  exact finished

/-! ## Words in front -/

/-- The state behind words that were read before. -/
def State.after (front : List Token) (s : State) : State :=
    { s with words := front ++ s.words }

@[simp]
theorem State.word_after (front : List Token) (s : State) : (s.after front).word = s.word := rfl

@[simp]
theorem State.mode_after (front : List Token) (s : State) : (s.after front).mode = s.mode := rfl

@[simp]
theorem State.push_after (front : List Token) (s : State) (letter : Letter) :
    (s.after front).push letter = (s.push letter).after front := rfl

@[simp]
theorem State.turn_after (front : List Token) (s : State) (mode : Mode) :
    (s.after front).turn mode = (s.turn mode).after front := rfl

@[simp]
theorem State.opened_after (front : List Token) (s : State) (mode : Mode) :
    (s.after front).opened mode = (s.opened mode).after front := rfl

@[simp]
theorem State.ended_after (front : List Token) (s : State) :
    (s.after front).ended = s.ended.after front := by
  simp [State.ended, State.after]

theorem step_after (front : List Token) (s : State) (c : Char) :
    step (s.after front) c = (step s c).map (State.after front) := by
  cases mode : s.mode
  case unquoted =>
    simp [step, mode, apply_ite (Option.map (State.after front))]
    rfl
  all_goals simp [step, mode, apply_ite (Option.map (State.after front))]

theorem run_after (front : List Token) (s : State) (line : List Char) :
    line.foldlM step (s.after front) = (line.foldlM step s).map (State.after front) := by
  induction line generalizing s with
  | nil => rfl
  | cons c rest ih =>
      rw [List.foldlM_cons, List.foldlM_cons, step_after]
      cases step s c with
      | none => rfl
      | some s' => exact ih s'

theorem finish_after {front : List Token} (read : front.mapM Token.word? = some ws) (s : State) :
    finish (s.after front) = (finish s).map (ws ++ ·) := by
  have ended : (s.ended.after front).words.mapM Token.word?
      = (s.ended.words.mapM Token.word?).map (ws ++ ·) := by
    rw [State.after, List.mapM_append, read]
    cases s.ended.words.mapM Token.word? <;> rfl
  cases mode : s.mode <;> simp [finish, mode, ended]

/-- A plain word and a blank are split off. -/
theorem split_cons (plain_word : PlainWord word) (line : List Char) :
    split (word ++ ' ' :: line) = (split line).map (word :: ·) := by
  have blank : step ⟨[], some (Token.ofWord word), .unquoted⟩ ' '
      = some (start.after [Token.ofWord word]) := rfl
  have first : (word ++ ' ' :: line).foldlM step start
      = line.foldlM step (start.after [Token.ofWord word]) := by
    rw [List.foldlM_append, start, plain_word.run []]
    exact congrArg (fun found => found.bind fun s => line.foldlM step s) blank
  have read : [Token.ofWord word].mapM Token.word? = some [word] :=
    mapM_word?_ofWord (List.forall_mem_singleton.2 plain_word)
  rw [split, split, first, run_after]
  cases line.foldlM step start with
  | none => rfl
  | some s => exact finish_after read s

theorem split_append (plain_words : ∀ word ∈ ws, PlainWord word) (line : List Char) :
    split (ws.flatMap (fun word => word ++ [' ']) ++ line) = (split line).map (ws ++ ·) := by
  induction ws with
  | nil => simp
  | cons word ws ih =>
      rw [List.forall_mem_cons] at plain_words
      have rest := split_cons plain_words.1 (ws.flatMap (fun word => word ++ [' ']) ++ line)
      rw [List.flatMap_cons, List.append_assoc, List.append_assoc, List.singleton_append, rest,
        ih plain_words.2]
      simp [Option.map_map, Function.comp_def]

/-- Plain words one blank apart, and a last text that need not be a word. -/
theorem split_joined_append (plain_words : ∀ word ∈ ws, PlainWord word) (last : List Char) :
    split (Words.joined ' ' (ws ++ [last])) = (split last).map (ws ++ ·) := by
  rw [Words.joined_append_singleton, split_append plain_words]

/-- Plain words one blank apart are read back as they were. -/
theorem split_joined (plain_words : ∀ word ∈ ws, PlainWord word) :
    split (Words.joined ' ' ws) = some ws := by
  rcases List.eq_nil_or_concat ws with rfl | ⟨front, last, rfl⟩
  · rfl
  · rw [List.concat_eq_append] at plain_words ⊢
    simp only [List.mem_append, List.mem_singleton, or_imp, forall_and, forall_eq] at plain_words
    rw [split_joined_append plain_words.1, split_word plain_words.2]
    rfl

/-! ## Words that are not plain -/

/-- What a state still has to give up: a quote is no part of a word. -/
def Mode.owed : Mode → Nat
  | .doubleEscaped => 2
  | .unquoted | .escaped | .single | .double | .comment => 1

namespace State

/-- The characters of the words read so far. -/
def size (s : State) : Nat :=
    (s.words.map Token.text).flatten.length + (Token.text (s.word.getD [])).length

/-- Those, and what the mode stands for. -/
def weight (s : State) : Nat :=
    s.size + s.mode.owed

@[simp]
theorem size_push_bare (s : State) (c : Char) : (s.push (.bare c)).size = s.size + 1 := by
  simp [size, push, Nat.add_assoc, Token.text, Token.char?]

@[simp]
theorem size_push_quoted (s : State) (c : Char) : (s.push (.quoted c)).size = s.size + 1 := by
  simp [size, push, Nat.add_assoc, Token.text, Token.char?]

@[simp]
theorem size_turn (s : State) (mode : Mode) : (s.turn mode).size = s.size := rfl

@[simp]
theorem size_opened (s : State) (mode : Mode) : (s.opened mode).size = s.size := by
  simp [size, opened, push, turn, Token.text, Token.char?]

@[simp]
theorem size_ended (s : State) : s.ended.size = s.size := by
  cases word : s.word <;> simp [size, ended, word, Token.text]

@[simp]
theorem mode_push (s : State) (letter : Letter) : (s.push letter).mode = s.mode := rfl

@[simp]
theorem mode_turn (s : State) (mode : Mode) : (s.turn mode).mode = mode := rfl

@[simp]
theorem mode_opened (s : State) (mode : Mode) : (s.opened mode).mode = mode := rfl

@[simp]
theorem mode_ended (s : State) : s.ended.mode = s.mode := rfl

end State

/-- A character adds at most itself. -/
theorem weight_step (stepped : step s c = some s') : s'.weight ≤ s.weight + 1 := by
  cases mode : s.mode
  all_goals
    simp only [step, mode] at stepped
    repeat' split at stepped
    all_goals
      cases stepped
      try simp [State.weight, Mode.owed, mode]

/-- A character that is not plain adds nothing. -/
theorem weight_step_special (unquoted : s.mode = .unquoted)
    (special : ¬ (Plain c ∧ (c = '#' → s.word ≠ none))) (stepped : step s c = some s') :
    s'.weight ≤ s.weight := by
  simp only [step, unquoted] at stepped
  repeat' split at stepped
  case isFalse blank backslash apostrophe quotation comment active =>
    rw [not_or] at active
    exact absurd ⟨⟨blank, active.2, active.1, backslash, apostrophe, quotation⟩,
      fun sign none => comment ⟨sign, none⟩⟩ special
  all_goals
    cases stepped
    try simp [State.weight, Mode.owed, unquoted]

/-- The text is one bare word so far. -/
def Exact (text : List Char) (s : State) : Prop :=
    text = [] ∧ s = start ∨ BareWord text ∧ s = ⟨[], some (Token.ofWord text), .unquoted⟩

theorem Exact.step_or {text : List Char} (exactly : Exact text s) (stepped : step s c = some s') :
    Exact (text ++ [c]) s' ∨ s'.weight ≤ (text ++ [c]).length := by
  have weight : s.weight = (text ++ [c]).length ∧ s.mode = .unquoted := by
    rcases exactly with ⟨rfl, rfl⟩ | ⟨_, rfl⟩
    · exact ⟨rfl, rfl⟩
    · simp [State.weight, State.size, Mode.owed]
  by_cases plain : Plain c ∧ (c = '#' → s.word ≠ none)
  · rw [step_plain weight.2 plain.1 plain.2] at stepped
    cases stepped
    left
    right
    rcases exactly with ⟨rfl, rfl⟩ | ⟨bare_word, rfl⟩
    · refine ⟨⟨by simp, by simpa using plain.1, ?_⟩, rfl⟩
      intro sign
      exact plain.2 (by simpa using sign) rfl
    · refine ⟨⟨by simp, ?_, ?_⟩, ?_⟩
      · simpa [or_imp, forall_and] using ⟨bare_word.plain, plain.1⟩
      · rw [List.head?_append_of_ne_nil _ bare_word.nonempty]
        exact bare_word.no_comment
      · rw [Token.ofWord_append]
        rfl
  · right
    rw [← weight.1]
    exact weight_step_special weight.2 plain stepped

theorem exact_or_behind {text : List Char} (run : text.foldlM step start = some s) :
    Exact text s ∨ s.weight ≤ text.length := by
  induction text using List.reverseRecOn generalizing s with
  | nil =>
      cases run
      exact Or.inl (Or.inl ⟨rfl, rfl⟩)
  | append_singleton text c ih =>
      rw [List.foldlM_append] at run
      rcases Option.bind_eq_some_iff.1 run with ⟨before, found, last⟩
      have stepped : step before c = some s := by simpa using last
      rcases ih found with exactly | behind
      · exact exactly.step_or stepped
      · right
        have heavier := weight_step stepped
        rw [List.length_append, List.length_singleton]
        omega

theorem text_of_mapM_word? {tokens : List Token} (read : tokens.mapM Token.word? = some ws) :
    ws = tokens.map Token.text := by
  induction tokens generalizing ws with
  | nil => simpa using read.symm
  | cons token tokens ih =>
      rw [List.mapM_cons] at read
      rcases Option.bind_eq_some_iff.1 read with ⟨word, word_found, rest⟩
      rcases Option.bind_eq_some_iff.1 rest with ⟨words, words_found, joined⟩
      cases joined
      rw [List.map_cons, ← ih words_found]
      unfold Token.word? at word_found
      split at word_found
      · cases word_found
      · cases word_found
        rfl

theorem size_finish (finished : finish s = some ws) :
    ws.flatten.length = s.size ∧ s.mode.owed = 1 := by
  have size : s.ended.words.mapM Token.word? = some ws → ws.flatten.length = s.size := by
    intro read
    rw [← s.size_ended, text_of_mapM_word? read]
    simp [State.size, State.ended, Token.text]
  cases mode : s.mode
  all_goals simp only [finish, mode] at finished
  case unquoted => exact ⟨size finished, rfl⟩
  case comment => exact ⟨size finished, rfl⟩
  all_goals cases finished

/-- A text that is among its own words is a plain word. -/
theorem plainWord_of_mem_split {text : List Char} (found : split text = some ws)
    (text_mem : text ∈ ws) : PlainWord text := by
  rcases Option.bind_eq_some_iff.1 found with ⟨s, run, finished⟩
  rcases exact_or_behind run with (⟨rfl, rfl⟩ | ⟨bare_word, rfl⟩) | behind
  · cases finished
    cases text_mem
  · refine ⟨bare_word, ?_⟩
    intro expandable
    have refused : (Token.ofWord text).word? = none := if_pos expandable
    have read : [Token.ofWord text].mapM Token.word? = some ws := finished
    rw [List.mapM_cons, refused] at read
    cases read
  · have size := size_finish finished
    have part : text.length ≤ ws.flatten.length :=
      (List.sublist_flatten_of_mem text_mem).length_le
    simp only [State.weight] at behind
    omega

end ShellWords
