import Ohara.Git.AddedLines
import Ohara.Library.Markers
import Ohara.Library.Words
import Ohara.Storage.MatchQuery

/-!
# The hunk headers of a diff

A hunk header is `@@ -A,B +C,D @@`, where a count of one may be left out, with a heading after it.
The post-image ranges and the headings are read back from the text by words and by the second `@@`.
-/

namespace Ohara

/-- The lines of a hunk in one image. Its numbers are C `int`s, and lines count from one. -/
structure LineRange where
  start : Nat
  count : Option Nat
  start_lt : start < 2 ^ 31
  count_lt : ∀ lines ∈ count, lines < 2 ^ 31
  from_one : count ≠ some 0 → start ≠ 0

/-- The line before the lines of a hunk. -/
structure HunkHeader where
  oldRange : LineRange
  newRange : LineRange
  heading : Option LineText

/-- A line of a diff in git's format: one of a file header, or the note on a missing line break, a
hunk header, or a content line with its origin in front. -/
inductive GitLine where
  | fileHeader (text : LineText) (unlike : text.chars.take 2 ≠ ['@', '@'])
  | hunk (header : HunkHeader)
  | content (kind : LineKind) (text : LineText)

/-- A count that is left out is one. -/
def LineRange.lines (range : LineRange) : Nat :=
    range.count.getD 1

/-- The line is in the range. -/
def LineRange.Covers (range : LineRange) (line : Nat) : Prop :=
    range.start ≤ line ∧ line < range.start + range.lines

/-- `C,D`, or `C` alone. -/
def LineRange.chars (range : LineRange) : List Char :=
    Nat.toDigits 10 range.start ++
      match range.count with
      | some lines => ',' :: Nat.toDigits 10 lines
      | none => []

/-- What stands after the closing `@@`. -/
def HunkHeader.suffix (header : HunkHeader) : List Char :=
    match header.heading with
    | some heading => ' ' :: heading.chars
    | none => []

/-- What stands after the `@@` that opens the header. -/
def HunkHeader.chars (header : HunkHeader) : List Char :=
    '-' :: header.oldRange.chars ++ ' ' :: '+' :: header.newRange.chars ++
      ' ' :: '@' :: '@' :: header.suffix

/-- The text of a line. -/
def GitLine.chars : GitLine → List Char
  | .fileHeader text _ => text.chars
  | .hunk header => '@' :: '@' :: ' ' :: header.chars
  | .content kind text => HunkText.contentOrigin kind :: text.chars

/-- The text of a diff. -/
def gitDiff (lines : List GitLine) : String :=
    String.ofList (lines.flatMap fun line => line.chars ++ ['\n'])

/-! ## Reading the headers back -/

/-- `line.starts_with("@@")`. -/
def startsHunk (line : List Char) : Bool :=
    decide (line.take 2 = ['@', '@'])

/-- `str::split_once`. -/
def splitOnce (sep : Char) (text : List Char) : Option (List Char × List Char) :=
    match text.dropWhile (fun c => decide (c ≠ sep)) with
    | [] => none
    | _ :: after => some (text.takeWhile (fun c => decide (c ≠ sep)), after)

/-- `str::parse` at `u32`. -/
def parseU32 (text : List Char) : Option Nat :=
    let digits :=
      match text with
      | '+' :: rest => rest
      | _ => text
    if digits ≠ [] ∧ digits.all Char.isDigit = true ∧ Nat.ofDigitChars 10 digits 0 < 2 ^ 32 then
      some (Nat.ofDigitChars 10 digits 0)
    else none

/-- The start and the count of the third word of a line; a line without lines has none. -/
def parsePostImageRange (line : List Char) : Option (Nat × Nat) :=
    if !startsHunk line then none
    else
      match (Words.words (fun c => !isWhitespace c) line)[2]? with
      | some ('+' :: plus) =>
          let range :=
            match splitOnce ',' plus with
            | some (start, count) => ((parseU32 start).getD 0, (parseU32 count).getD 0)
            | none => ((parseU32 plus).getD 0, 1)
          if range.1 = 0 ∨ range.2 = 0 then none else some range
      | _ => none

/-- The post-image ranges of the hunk headers. -/
def parsePostImageRanges (diffText : String) : List (Nat × Nat) :=
    (splitLines [] diffText.toList).filterMap parsePostImageRange

/-- The trimmed text after the second `@@` of a line. -/
def parseHunkHeaderSuffix (line : List Char) : Option (List Char) :=
    if !startsHunk line then none
    else
      match line.dropInfix? ['@', '@'] with
      | some (_, opened) =>
          match opened.dropInfix? ['@', '@'] with
          | some (_, after) => if trim after = [] then none else some (trim after)
          | none => none
      | none => none

/-- The headings of the hunk headers. -/
def parseHunkHeaderSuffixes (diffText : String) : List (List Char) :=
    (splitLines [] diffText.toList).filterMap parseHunkHeaderSuffix

/-! ## The text of a header -/

theorem isDigit_of_mem_digits {n : Nat} {c : Char} (c_mem : c ∈ Nat.toDigits 10 n) :
    c.isDigit = true :=
  Nat.isDigit_of_mem_toDigits (by decide) (by decide) c_mem

namespace LineRange

variable (range : LineRange)

theorem digit_or_comma : ∀ c ∈ range.chars, c.isDigit = true ∨ c = ',' := by
  intro c c_mem
  rw [chars, List.mem_append] at c_mem
  rcases c_mem with start | rest
  · exact .inl (isDigit_of_mem_digits start)
  · cases count : range.count with
    | none => simp [count] at rest
    | some lines =>
        simp only [count, List.mem_cons] at rest
        rcases rest with rfl | rest
        · exact .inr rfl
        · exact .inl (isDigit_of_mem_digits rest)

theorem notMem_chars {c : Char} (not_digit : c.isDigit = false) (not_comma : c ≠ ',') :
    c ∉ range.chars := by
  intro c_mem
  rcases range.digit_or_comma c c_mem with digit | comma
  · rw [digit] at not_digit
    cases not_digit
  · exact not_comma comma

theorem start_ne_zero (nonempty : range.lines ≠ 0) : range.start ≠ 0 := by
  apply range.from_one
  intro count
  simp [lines, count] at nonempty

/-- The end of a range of `int`s fits a `u32`. -/
theorem end_lt : range.start + range.lines < 2 ^ 32 - 1 := by
  have start_lt := range.start_lt
  have lines_lt : range.lines < 2 ^ 31 := by
    cases count : range.count with
    | none => simp [lines, count]
    | some lines => simpa [LineRange.lines, count] using range.count_lt lines count
  omega

theorem chars_solid : ∀ c ∈ range.chars, (!isWhitespace c) = true := by
  intro c c_mem
  rcases range.digit_or_comma c c_mem with digit | rfl
  · simp only [Char.isDigit, UInt32.le_iff_toNat_le, ge_iff_le, Bool.and_eq_true,
      decide_eq_true_eq] at digit
    have low : 48 ≤ c.toNat := digit.1
    have high : c.toNat ≤ 57 := digit.2
    simp [isWhitespace]
    omega
  · decide

end LineRange

theorem parseU32_digits {n : Nat} (small : n < 2 ^ 32) : parseU32 (Nat.toDigits 10 n) = some n := by
  have value : Nat.ofDigitChars 10 (Nat.toDigits 10 n) 0 = n := Nat.ofDigitChars_ten_toDigits
  have all_digits : (Nat.toDigits 10 n).all Char.isDigit = true := by
    rw [List.all_eq_true]
    exact fun c c_mem => isDigit_of_mem_digits c_mem
  unfold parseU32
  split
  case h_1 rest plus =>
    have digit : '+'.isDigit = true := isDigit_of_mem_digits (n := n) (by simp [plus])
    simp at digit
  · simpa [value, all_digits, Nat.toDigits_ne_nil] using small

/-- The start and the count of a range, which is skipped when it has no lines. -/
theorem parse_range (range : LineRange) :
    (match splitOnce ',' range.chars with
      | some (start, count) => ((parseU32 start).getD 0, (parseU32 count).getD 0)
      | none => ((parseU32 range.chars).getD 0, 1)) = (range.start, range.lines) := by
  have no_comma : ∀ c ∈ Nat.toDigits 10 range.start, decide (c ≠ ',') = true := by
    intro c c_mem
    have digit := isDigit_of_mem_digits c_mem
    simp only [decide_eq_true_eq]
    rintro rfl
    simp at digit
  have start_small := range.start_lt
  cases count : range.count with
  | none =>
      have text : range.chars = Nat.toDigits 10 range.start := by
        simp [LineRange.chars, count]
      have whole : splitOnce ',' range.chars = none := by
        rw [splitOnce, text, List.dropWhile_eq_nil_iff.2 no_comma]
      rw [whole, text, parseU32_digits (by omega)]
      simp [LineRange.lines, count]
  | some lines =>
      have count_small := range.count_lt lines count
      have text : range.chars = Nat.toDigits 10 range.start ++ ',' :: Nat.toDigits 10 lines := by
        simp [LineRange.chars, count]
      have cut : splitOnce ',' range.chars =
          some (Nat.toDigits 10 range.start, Nat.toDigits 10 lines) := by
        rw [splitOnce, text, List.dropWhile_append_of_pos no_comma,
          List.takeWhile_append_of_pos no_comma]
        simp
      rw [cut]
      simp [parseU32_digits (show range.start < 2 ^ 32 by omega),
        parseU32_digits (show lines < 2 ^ 32 by omega), LineRange.lines, count]

theorem HunkHeader.suffix_no_break (header : HunkHeader) : '\n' ∉ header.suffix := by
  unfold HunkHeader.suffix
  cases header.heading with
  | some heading => simp [heading.no_break]
  | none => simp

theorem GitLine.chars_no_break (line : GitLine) : '\n' ∉ line.chars := by
  cases line with
  | fileHeader text unlike => exact text.no_break
  | hunk header =>
      have old := header.oldRange.notMem_chars (c := '\n') rfl (by decide)
      have new := header.newRange.notMem_chars (c := '\n') rfl (by decide)
      simp [chars, HunkHeader.chars, old, new, header.suffix_no_break]
  | content kind text => cases kind <;> simp [chars, HunkText.contentOrigin, text.no_break]

theorem splitLines_gitDiff (lines : List GitLine) :
    splitLines [] (gitDiff lines).toList = lines.map fun line => HunkText.stripCr line.chars := by
  rw [gitDiff, String.toList_ofList]
  induction lines with
  | nil => rfl
  | cons line rest ih =>
      rw [List.flatMap_cons, List.append_assoc, List.singleton_append,
        HunkText.splitLines_line _ _ _ line.chars_no_break, ih]
      rfl

/-- A carriage return at the end of a header is in its suffix. -/
theorem stripCr_hunk (header : HunkHeader) :
    HunkText.stripCr (GitLine.hunk header).chars =
      ['@', '@'] ++ ' ' :: ('-' :: header.oldRange.chars ++ ' ' :: ('+' :: header.newRange.chars ++
        ' ' :: (['@', '@'] ++ HunkText.stripCr header.suffix))) := by
  have split : (GitLine.hunk header).chars =
      (['@', '@'] ++ ' ' :: ('-' :: header.oldRange.chars) ++ ' ' :: ('+' :: header.newRange.chars) ++
        [' ', '@', '@']) ++ header.suffix := by
    simp [GitLine.chars, HunkHeader.chars]
  have not_cr : ∀ front : List Char, (front ++ [' ', '@', '@']).getLast? ≠ some '\r' := by
    intro front
    rw [List.getLast?_append]
    simp
  rw [split, HunkText.stripCr_append (not_cr _)]
  simp

theorem startsHunk_stripCr (line : List Char) :
    startsHunk (HunkText.stripCr line) = startsHunk line := by
  rw [startsHunk, startsHunk, decide_eq_decide]
  exact HunkText.take_stripCr (by decide) line

theorem startsHunk_hunk (header : HunkHeader) :
    startsHunk (HunkText.stripCr (GitLine.hunk header).chars) = true := by
  rw [startsHunk_stripCr]
  rfl

theorem words_blank {w : List Char} (nonempty : w ≠ [])
    (solid : ∀ c ∈ w, (!isWhitespace c) = true) (text : List Char) :
    Words.words (fun c => !isWhitespace c) (w ++ ' ' :: text) =
      w :: Words.words (fun c => !isWhitespace c) text :=
  Words.words_cons (by decide) nonempty solid text

/-- The range that is read from a line, if it has lines. -/
def GitLine.postImage : GitLine → Option (Nat × Nat)
  | .hunk header =>
      if header.newRange.lines = 0 then none
      else some (header.newRange.start, header.newRange.lines)
  | _ => none

theorem parsePostImageRange_hunk (header : HunkHeader) :
    parsePostImageRange (HunkText.stripCr (GitLine.hunk header).chars) =
      (GitLine.hunk header).postImage := by
  have solid : ∀ sign : Char, isWhitespace sign = false → ∀ range : LineRange,
      ∀ c ∈ sign :: range.chars, (!isWhitespace c) = true := by
    intro sign not_blank range
    rw [List.forall_mem_cons]
    exact ⟨by simp [not_blank], range.chars_solid⟩
  have third : (Words.words (fun c => !isWhitespace c)
      (HunkText.stripCr (GitLine.hunk header).chars))[2]? = some ('+' :: header.newRange.chars) := by
    rw [stripCr_hunk, words_blank (by simp) (by simp [isWhitespace]),
      words_blank (by simp) (solid '-' (by decide) _),
      words_blank (by simp) (solid '+' (by decide) _)]
    rfl
  rw [parsePostImageRange, startsHunk_hunk, third]
  simp only [Bool.not_true, Bool.false_eq_true, if_false, parse_range, GitLine.postImage]
  by_cases empty : header.newRange.lines = 0
  · simp [empty]
  · simp [empty, header.newRange.start_ne_zero empty]

theorem GitLine.startsHunk_plain {line : GitLine} (plain : ∀ header, line ≠ .hunk header) :
    startsHunk (HunkText.stripCr line.chars) = false := by
  rw [startsHunk_stripCr]
  cases line with
  | fileHeader text unlike => exact decide_eq_false unlike
  | hunk header => exact absurd rfl (plain header)
  | content kind text => cases kind <;> simp [startsHunk, chars, HunkText.contentOrigin]

theorem parsePostImageRange_line (line : GitLine) :
    parsePostImageRange (HunkText.stripCr line.chars) = line.postImage := by
  cases line with
  | fileHeader text unlike => simp [parsePostImageRange, GitLine.startsHunk_plain, GitLine.postImage]
  | hunk header => exact parsePostImageRange_hunk header
  | content kind text => simp [parsePostImageRange, GitLine.startsHunk_plain, GitLine.postImage]

/-- The ranges are those of the hunk headers, but for the ranges without lines. -/
theorem mem_parsePostImageRanges {lines : List GitLine} {range : Nat × Nat} :
    range ∈ parsePostImageRanges (gitDiff lines) ↔
      ∃ header, .hunk header ∈ lines ∧ header.newRange.lines ≠ 0 ∧
        range = (header.newRange.start, header.newRange.lines) := by
  rw [parsePostImageRanges, splitLines_gitDiff, List.filterMap_map, List.mem_filterMap]
  simp only [Function.comp_apply, parsePostImageRange_line]
  constructor
  · rintro ⟨line, line_mem, read⟩
    cases line with
    | fileHeader text unlike => cases read
    | hunk header =>
        rcases Option.ite_none_left_eq_some.1 read with ⟨nonempty, same⟩
        exact ⟨header, line_mem, nonempty, (Option.some.inj same).symm⟩
    | content kind text => cases read
  · rintro ⟨header, header_mem, nonempty, rfl⟩
    exact ⟨.hunk header, header_mem, by simp [GitLine.postImage, nonempty]⟩

/-! ## The headings -/

/-- One text inside another, with blanks around it. -/
def Surrounded (inner outer : List Char) : Prop :=
    ∃ front back, outer = front ++ inner ++ back ∧
      (∀ c ∈ front, isWhitespace c = true) ∧ ∀ c ∈ back, isWhitespace c = true

theorem Surrounded.trans {inner middle outer : List Char} (near : Surrounded inner middle)
    (far : Surrounded middle outer) : Surrounded inner outer := by
  rcases near with ⟨front, back, rfl, front_blank, back_blank⟩
  rcases far with ⟨front', back', rfl, front_blank', back_blank'⟩
  refine ⟨front' ++ front, back ++ back', by simp, ?_, ?_⟩
  · exact List.forall_mem_append.2 ⟨front_blank', front_blank⟩
  · exact List.forall_mem_append.2 ⟨back_blank, back_blank'⟩

theorem surrounded_trim (text : List Char) : Surrounded (trim text) text := by
  refine ⟨text.takeWhile isWhitespace, (text.dropWhile isWhitespace).rtakeWhile isWhitespace,
    ?_, fun c c_mem => List.mem_takeWhile_imp c_mem, fun c c_mem => List.mem_rtakeWhile_imp c_mem⟩
  rw [trim, List.append_assoc, List.rdropWhile_append_rtakeWhile, List.takeWhile_append_dropWhile]

theorem surrounded_stripCr (text : List Char) : Surrounded (HunkText.stripCr text) text := by
  rw [HunkText.stripCr]
  split
  · next cr =>
      refine ⟨[], ['\r'], ?_, by simp, by simp [isWhitespace]⟩
      rw [List.nil_append]
      exact (List.dropLast_append_getLast? _ cr).symm
  · exact ⟨[], [], by simp, by simp, by simp⟩

theorem cut_at_signs {before : List Char} (absent : '@' ∉ before) (after : List Char) :
    (before ++ ['@', '@'] ++ after).dropInfix? ['@', '@'] = some (before, after) :=
  Markers.dropInfix?_of_first_notMem absent after

theorem parseHunkHeaderSuffix_hunk (header : HunkHeader) :
    parseHunkHeaderSuffix (HunkText.stripCr (GitLine.hunk header).chars) =
      if trim (HunkText.stripCr header.suffix) = [] then none
      else some (trim (HunkText.stripCr header.suffix)) := by
  have opening := cut_at_signs List.not_mem_nil
    (' ' :: ('-' :: header.oldRange.chars ++ ' ' :: ('+' :: header.newRange.chars ++
      ' ' :: (['@', '@'] ++ HunkText.stripCr header.suffix))))
  have no_sign : '@' ∉ ' ' :: '-' :: header.oldRange.chars ++
      ' ' :: '+' :: (header.newRange.chars ++ [' ']) := by
    have old := header.oldRange.notMem_chars (c := '@') rfl (by decide)
    have new := header.newRange.notMem_chars (c := '@') rfl (by decide)
    simp [old, new]
  have closing := cut_at_signs no_sign (HunkText.stripCr header.suffix)
  rw [parseHunkHeaderSuffix, startsHunk_hunk, stripCr_hunk]
  simp only [List.nil_append, List.append_assoc, List.cons_append] at opening closing ⊢
  simp only [opening, closing]
  rfl

/-- A suffix that is read is the text after a hunk header, without blanks around it. -/
theorem surrounded_of_mem_suffixes {lines : List GitLine} {suffix : List Char}
    (suffix_mem : suffix ∈ parseHunkHeaderSuffixes (gitDiff lines)) :
    ∃ header, .hunk header ∈ lines ∧ Surrounded suffix header.suffix := by
  rw [parseHunkHeaderSuffixes, splitLines_gitDiff, List.filterMap_map, List.mem_filterMap]
    at suffix_mem
  rcases suffix_mem with ⟨line, line_mem, read⟩
  rw [Function.comp_apply] at read
  cases line with
  | fileHeader text unlike => simp [parseHunkHeaderSuffix, GitLine.startsHunk_plain] at read
  | hunk header =>
      rw [parseHunkHeaderSuffix_hunk] at read
      rcases Option.ite_none_left_eq_some.1 read with ⟨-, same⟩
      cases same
      exact ⟨header, line_mem, (surrounded_trim _).trans (surrounded_stripCr _)⟩
  | content kind text => simp [parseHunkHeaderSuffix, GitLine.startsHunk_plain] at read

end Ohara
