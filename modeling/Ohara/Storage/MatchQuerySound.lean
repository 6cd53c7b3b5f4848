import Ohara.Storage.MatchQuery

/-!
# What a sanitized query and a LIKE pattern mean

FTS5 reads a text of barewords and spaces as the words it must find, but for three barewords that
are operators. `LIKE` reads two characters of its pattern as wildcards.
-/

namespace Ohara

/-! ## FTS5 -/

namespace Fts5

/-- Letters, digits, the underscore and everything outside of ASCII. -/
def isBareword (c : Char) : Bool :=
    !isAscii c || c.isAlphanum || decide (c = '_')

/-- A token of an FTS5 query. -/
inductive Token where
  | word (text : List Char)
  | operator (text : List Char)
deriving DecidableEq, Repr

/-- The words that FTS5 reads as operators. -/
def operators : List (List Char) :=
    ["AND".toList, "OR".toList, "NOT".toList]

/-- The token of a run of word characters. -/
def token (run : List Char) : Token :=
    if run ∈ operators then .operator run else .word run

/-- The tokens of a query; a query with punctuation is none of barewords. -/
def tokens (query : List Char) : Option (List Token) :=
    if query.all fun c => isBareword c || decide (c = ' ') then
      some ((Words.words isBareword query).map token)
    else
      none

end Fts5

variable (u : Unicode)

/-- The query is sent on as the list of its words, and FTS5 takes each of them for a word. -/
def MeansAllWords (query : String) : Prop :=
    let words := Words.words u.isWordChar query.toList
    sanitizeFts5Query u query = String.ofList (Words.joined ' ' words) ∧
      Fts5.tokens (sanitizeFts5Query u query).toList = some (words.map Fts5.Token.word) ∧
      sanitizeFts5Query u (sanitizeFts5Query u query) = sanitizeFts5Query u query

variable {u}

theorem blank_of_isWordChar {c : Char} (word_char : u.isWordChar c = true) :
    isWhitespace c = false := by
  cases blank : isWhitespace c with
  | false => rfl
  | true =>
      have alphanumeric := u.isAlphanumeric_blank c blank
      have underscore : c = '_' := by simpa [Unicode.isWordChar, alphanumeric] using word_char
      subst underscore
      simp [isWhitespace] at blank

theorem isBareword_of_isWordChar {c : Char} (word_char : u.isWordChar c = true) :
    Fts5.isBareword c = true := by
  cases ascii : isAscii c with
  | false => simp [Fts5.isBareword, ascii]
  | true =>
      rw [Unicode.isWordChar, u.isAlphanumeric_ascii c ascii] at word_char
      simpa [Fts5.isBareword, ascii] using word_char

theorem isWordChar_space : u.isWordChar ' ' = false := by
  simp [Unicode.isWordChar, u.isAlphanumeric_blank ' ' (by decide)]

theorem sanitizeStep_eq_scanStep : sanitizeStep u = Words.scanStep u.isWordChar ' ' := by
  funext state c
  rcases state with ⟨out, spaced⟩
  cases spaced <;> simp [sanitizeStep, Words.scanStep]

theorem sanitizeFts5Query_eq (query : String) :
    sanitizeFts5Query u query =
      String.ofList (Words.joined ' ' (Words.words u.isWordChar query.toList)) := by
  have space_blank : isWhitespace ' ' = true := by decide
  have spelled := Words.trim_scan u.isWordChar
    (fun _ word_char => blank_of_isWordChar word_char) space_blank query.toList
  rw [sanitizeFts5Query, trim, sanitizeStep_eq_scanStep, spelled]

theorem words_sanitizeFts5Query (query : String) :
    Words.words u.isWordChar (sanitizeFts5Query u query).toList =
      Words.words u.isWordChar query.toList := by
  rw [sanitizeFts5Query_eq, String.toList_ofList]
  exact Words.words_joined isWordChar_space (Words.proper_words _ _)

theorem sanitizeFts5Query_sanitizeFts5Query (query : String) :
    sanitizeFts5Query u (sanitizeFts5Query u query) = sanitizeFts5Query u query := by
  rw [sanitizeFts5Query_eq, words_sanitizeFts5Query, ← sanitizeFts5Query_eq]

/-- FTS5 reads a sanitized query as its words, with the operators among them. -/
theorem tokens_sanitizeFts5Query (query : String) :
    Fts5.tokens (sanitizeFts5Query u query).toList =
      some ((Words.words u.isWordChar query.toList).map Fts5.token) := by
  have proper := Words.proper_words u.isWordChar query.toList
  have barewords : Words.Proper Fts5.isBareword (Words.words u.isWordChar query.toList) :=
    ⟨proper.nonempty, fun w w_mem x x_mem =>
      isBareword_of_isWordChar (proper.letters w w_mem x x_mem)⟩
  have readable : (Words.joined ' ' (Words.words u.isWordChar query.toList)).all
      (fun c => Fts5.isBareword c || decide (c = ' ')) = true := by
    rw [List.all_eq_true]
    intro c c_mem
    rcases Words.mem_joined c_mem with rfl | ⟨w, w_mem, c_word⟩
    · simp
    · simp [barewords.letters w w_mem c c_word]
  rw [sanitizeFts5Query_eq, String.toList_ofList, Fts5.tokens, if_pos readable,
    Words.words_joined (by decide) barewords]

/-- A sanitized query asks for all words of the query exactly when none of them is an operator. -/
theorem meansAllWords_iff (u : Unicode) (query : String) :
    MeansAllWords u query ↔
      ∀ run ∈ Words.words u.isWordChar query.toList, run ∉ Fts5.operators := by
  have read_as_word : ∀ run, Fts5.token run = Fts5.Token.word run ↔ run ∉ Fts5.operators := by
    intro run
    rw [Fts5.token]
    split <;> simp_all
  rw [MeansAllWords, tokens_sanitizeFts5Query, ← sanitizeFts5Query_eq, Option.some.injEq,
    List.map_inj_left]
  simp only [read_as_word, sanitizeFts5Query_sanitizeFts5Query, and_true, true_and]

/-- The sanitizer passes an upper-case `AND` on, which FTS5 takes for an operator. -/
theorem not_meansAllWords_retry_and :
    ¬∀ query : String, (∃ c ∈ query.toList, Unicode.ascii.isWordChar c = true) →
      MeansAllWords Unicode.ascii query := by
  intro always
  have means := always "retry AND" ⟨'r', by decide, by decide⟩
  rw [MeansAllWords] at means
  exact absurd means.2.1 (by decide)

/-! ## LIKE -/

/-- The name contains the query, letter case aside. -/
def ContainsLiteral (query name : String) : Prop :=
    query.toList.map Char.toLower <:+: name.toList.map Char.toLower

theorem toLower_cases (c : Char) : c.toLower = c ∧ (c.toNat < 65 ∨ 90 < c.toNat) ∨
    c.toLower.toNat = c.toNat + 32 ∧ 65 ≤ c.toNat ∧ c.toNat ≤ 90 := by
  have bounds : c.val ≥ 'A'.val ∧ c.val ≤ 'Z'.val ↔ 65 ≤ c.toNat ∧ c.toNat ≤ 90 := by
    simp [UInt32.le_iff_toNat_le]
  by_cases upper : c.val ≥ 'A'.val ∧ c.val ≤ 'Z'.val
  · have range := bounds.1 upper
    have sum : (c.val + 32).toNat = c.toNat + 32 := by
      rw [UInt32.toNat_add]
      simp
      omega
    refine Or.inr ⟨?_, range⟩
    have lowered : c.toLower = ⟨c.val + 32, _⟩ := dif_pos upper
    rw [lowered]
    exact sum
  · have range := mt bounds.2 upper
    exact Or.inl ⟨dif_neg upper, by omega⟩

theorem toLower_toLower (c : Char) : c.toLower.toLower = c.toLower := by
  rcases toLower_cases c.toLower with ⟨same, -⟩ | ⟨-, low, high⟩
  · exact same
  · rcases toLower_cases c with ⟨same, -⟩ | ⟨shifted, low', high'⟩
    · rw [same, same]
    · omega

theorem eq_of_toLower {c mark : Char} (not_letter : mark.toNat < 97) (lowered : c.toLower = mark) :
    c = mark := by
  rcases toLower_cases c with ⟨same, -⟩ | ⟨shifted, low, high⟩
  · rw [← same, lowered]
  · rw [lowered] at shifted
    omega

theorem special_toLower_iff {c : Char} :
    Like.Special '%' '_' c.toLower ↔ Like.Special '%' '_' c := by
  constructor
  · rintro (percent | underscore)
    · exact Or.inl (eq_of_toLower (by decide) percent)
    · exact Or.inr (eq_of_toLower (by decide) underscore)
  · rintro (rfl | rfl)
    · exact Or.inl (by decide)
    · exact Or.inr (by decide)

theorem forall₂_sameLetter_iff {pattern word : List Char} :
    List.Forall₂ (fun p x => sameLetter p x = true) pattern word ↔
      pattern.map Char.toLower = word.map Char.toLower := by
  simp [sameLetter, List.forall₂_iff_get, List.ext_getElem_iff]

theorem toList_toLowercase {query : String} (ascii : query.toList.all isAscii = true) :
    (u.toLowercase query).toList = query.toList.map Char.toLower := by
  rw [u.toLowercase_ascii query ascii, String.toList_ofList]

/-- A query without wildcards is searched for as it is written. -/
theorem isCandidate_iff_of_literal {query : String} (ascii : query.toList.all isAscii = true)
    (literal : ∀ c ∈ query.toList, ¬Like.Special '%' '_' c) (row : HunkSymbolRow) :
    isCandidate u query row = true ↔ ContainsLiteral query row.symbolName := by
  have lowered_literal : ∀ p ∈ query.toList.map Char.toLower, ¬Like.Special '%' '_' p := by
    rw [List.forall_mem_map]
    intro c c_mem special
    exact literal c c_mem (special_toLower_iff.1 special)
  rw [isCandidate, likeNeedle, toList_toLowercase ascii,
    Like.matchesPattern_contains lowered_literal, ContainsLiteral, List.IsInfix, sqlLower]
  have idempotent : ∀ text : List Char,
      (text.map Char.toLower).map Char.toLower = text.map Char.toLower := by
    intro text
    rw [List.map_map]
    exact List.map_congr_left fun c _ => toLower_toLower c
  constructor
  · rintro ⟨before, word, rest, split, spelled⟩
    rw [forall₂_sameLetter_iff, idempotent] at spelled
    refine ⟨before, rest, ?_⟩
    -- the word stands in a lower-cased name, so it is its own lower case
    have word_lower : word.map Char.toLower = word := by
      conv_rhs => rw [← List.map_id word]
      rw [List.map_inj_left]
      intro c c_mem
      have c_lowered : c ∈ row.symbolName.toList.map Char.toLower := by simp [split, c_mem]
      rcases List.mem_map.1 c_lowered with ⟨x, -, rfl⟩
      exact toLower_toLower x
    rw [spelled, word_lower, split, List.append_assoc]
  · rintro ⟨before, rest, split⟩
    refine ⟨before, query.toList.map Char.toLower, rest, ?_, ?_⟩
    · rw [← split, List.append_assoc]
    · rw [forall₂_sameLetter_iff]

/-- The query with an `x` in place of each wildcard. -/
def filledIn (query : String) : String :=
    String.ofList (query.toList.map fun c => if c = '%' ∨ c = '_' then 'x' else c)

theorem isCandidate_filledIn {query : String} (ascii : query.toList.all isAscii = true)
    {row : HunkSymbolRow} (named : row.symbolName = filledIn query) :
    isCandidate u query row = true := by
  have spelled : List.Forall₂ (fun p x => Like.Special '%' '_' p ∨ sameLetter p x = true)
      (query.toList.map Char.toLower) ((filledIn query).toList.map Char.toLower) := by
    rw [filledIn, String.toList_ofList, List.forall₂_map_left_iff, List.map_map,
      List.forall₂_map_right_iff, List.forall₂_same]
    intro c _
    by_cases special : c = '%' ∨ c = '_'
    · exact Or.inl (special_toLower_iff.2 special)
    · right
      rw [sameLetter, decide_eq_true_iff, Function.comp_apply, if_neg special]
  have rest : Like.matchesPattern sameLetter '%' '_' ['%'] [] = true := by decide
  have whole := Like.matchesPattern_of_forall₂ spelled rest
  rw [List.append_nil] at whole
  rw [isCandidate, likeNeedle, toList_toLowercase ascii, sqlLower, named, Like.matchesPattern_many]
  exact ⟨[], (filledIn query).toList.map Char.toLower, (List.nil_append _).symm, whole⟩

theorem not_containsLiteral_filledIn {query : String} {c : Char} (c_mem : c ∈ query.toList)
    (special : Like.Special '%' '_' c) : ¬ContainsLiteral query (filledIn query) := by
  intro contains
  have same_length : ((filledIn query).toList.map Char.toLower).length ≤
      (query.toList.map Char.toLower).length := by
    simp [filledIn]
  have equal := contains.eq_of_length_le same_length
  rw [filledIn, String.toList_ofList, List.map_map, List.map_inj_left] at equal
  have at_c := equal c c_mem
  rcases special with rfl | rfl
  · exact absurd at_c (by decide)
  · exact absurd at_c (by decide)

/-- The lane takes a query literally for every name exactly when it has no wildcards. -/
theorem isCandidate_literal_iff (u : Unicode) (query : String)
    (ascii : query.toList.all isAscii = true) :
    (∀ row : HunkSymbolRow, row.symbolName.toList.all isAscii = true →
        (isCandidate u query row = true ↔ ContainsLiteral query row.symbolName)) ↔
      ∀ c ∈ query.toList, c ≠ '%' ∧ c ≠ '_' := by
  constructor
  · intro literally c c_mem
    by_contra wildcard
    have special : Like.Special '%' '_' c := by
      rw [Like.Special]
      tauto
    let row : HunkSymbolRow := {
      hunkId := 1
      symbolKind := "function"
      symbolName := filledIn query
      qualifiedName := none
      attributionKind := "exact_span" }
    have filled_ascii : (filledIn query).toList.all isAscii = true := by
      rw [filledIn, String.toList_ofList, List.all_map]
      rw [List.all_eq_true] at ascii ⊢
      intro x x_mem
      simp only [Function.comp_apply]
      split
      · decide
      · exact ascii x x_mem
    have candidate : isCandidate u query row = true := isCandidate_filledIn ascii rfl
    exact not_containsLiteral_filledIn c_mem special ((literally row filled_ascii).1 candidate)
  · intro no_wildcards row _
    apply isCandidate_iff_of_literal ascii
    rintro c c_mem (rfl | rfl)
    · exact (no_wildcards _ c_mem).1 rfl
    · exact (no_wildcards _ c_mem).2 rfl

theorem isCandidate_literal_retry :
    isCandidate Unicode.ascii "retry" ⟨1, "function", "do_Retry", none, "exact_span"⟩ = true ↔
      ContainsLiteral "retry" "do_Retry" :=
  (isCandidate_literal_iff Unicode.ascii "retry" (by decide)).2 (by simp) _ (by decide)

/-- An underscore of the query matches any letter of a name. -/
theorem not_isCandidate_literal_snake_case :
    ¬∀ (query : String) (row : HunkSymbolRow), query.toList.all isAscii = true →
      row.symbolName.toList.all isAscii = true →
        (isCandidate Unicode.ascii query row = true ↔ ContainsLiteral query row.symbolName) := by
  intro always
  have literally := always "a_b" ⟨1, "function", "axb", none, "exact_span"⟩ (by decide) (by decide)
  have contains := literally.1 (by decide)
  rw [ContainsLiteral] at contains
  exact absurd contains (by decide)

end Ohara
