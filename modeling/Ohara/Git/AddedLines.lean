import Mathlib.Algebra.Order.BigOperators.Group.List
import Mathlib.Algebra.Order.Group.Nat
import Ohara.Git.Diff

/-!
# Added lines read back from a patch

A patch is printed line by line and its added lines are picked out of the text again by their first
characters. A content line that starts with two plus signs then looks like a file header, a
carriage return at the end of a line belongs to the line break, and an empty line leaves nothing
that a separator could come after.
-/

namespace Ohara

/-- A line that holds no line break. -/
structure LineText where
  chars : List Char
  no_break : '\n' ∉ chars

/-- The kinds of content lines. -/
inductive LineKind where
  | context
  | added
  | removed
deriving DecidableEq, Repr

/-- What the lines of a file header or a hunk header start with. -/
inductive HeaderKeyword where
  | diffGit
  | index
  | oldMode
  | newMode
  | newFileMode
  | deletedFileMode
  | similarityIndex
  | renameFrom
  | renameTo
  | binaryFiles
  | oldFile
  | newFile
  | hunk
  | noNewline
deriving DecidableEq, Repr

/-- A line of a patch. -/
inductive PatchLine where
  | header (keyword : HeaderKeyword) (text : LineText)
  | content (kind : LineKind) (text : LineText)

namespace HunkText

/-- The first words of a header line. -/
def keywordText : HeaderKeyword → String
  | .diffGit => "diff --git "
  | .index => "index "
  | .oldMode => "old mode "
  | .newMode => "new mode "
  | .newFileMode => "new file mode "
  | .deletedFileMode => "deleted file mode "
  | .similarityIndex => "similarity index "
  | .renameFrom => "rename from "
  | .renameTo => "rename to "
  | .binaryFiles => "Binary files "
  | .oldFile => "--- "
  | .newFile => "+++ "
  | .hunk => "@@ "
  | .noNewline => "\\ "

/-- The origin the printer gives the line of a header. -/
def headerOrigin : HeaderKeyword → Char
  | .hunk => 'H'
  | .noNewline => '='
  | .binaryFiles => 'B'
  | _ => 'F'

/-- The character in front of a content line. -/
def contentOrigin : LineKind → Char
  | .context => ' '
  | .added => '+'
  | .removed => '-'

/-- A line as the printer delivers it. A file header comes in one call, and the line break of a
last line without one comes with the note after it; the text they give is the same. -/
def diffLine : PatchLine → DiffLine
  | .header keyword text =>
      ⟨headerOrigin keyword,
        (keywordText keyword ++ String.ofList (text.chars ++ ['\n'])).toByteArray⟩
  | .content kind text => ⟨contentOrigin kind, (String.ofList (text.chars ++ ['\n'])).toByteArray⟩

/-- The diff text the lines end up in. -/
def renderPatch (patch : List PatchLine) : String :=
    GitDiff.linesText (patch.map diffLine)

/-- The texts of the added lines. -/
def addedTexts (patch : List PatchLine) : List (List Char) :=
    patch.filterMap fun line =>
      match line with
      | .content .added text => some text.chars
      | _ => none

/-- One line of `extract_added_lines`. -/
def pushAdded (out line : List Char) : List Char :=
    if line.take 3 = ['+', '+', '+'] then out
    else
      match line with
      | '+' :: rest => (if out.isEmpty then out else out ++ ['\n']) ++ rest
      | _ => out

/-- The added lines of a diff, each with a line break. -/
def extractAddedLines (diffText : String) : String :=
    String.ofList ((splitLines [] diffText.toList).foldl pushAdded [])

/-! ## The lines of a printed patch -/

/-- A line without the carriage return that is taken for a part of the line break. -/
def stripCr (line : List Char) : List Char :=
    if line.getLast? = some '\r' then line.dropLast else line

/-- What a line looks like in the text. -/
def lineChars : PatchLine → List Char
  | .header keyword text => (keywordText keyword).toList ++ text.chars
  | .content kind text => contentOrigin kind :: text.chars

theorem splitLines_newline (current rest : List Char) :
    splitLines current ('\n' :: rest) = stripCr current.reverse :: splitLines [] rest := by
  rw [stripCr, List.getLast?_reverse]
  cases current with
  | nil => rfl
  | cons c line =>
      by_cases cr : c = '\r'
      · subst cr
        simp [splitLines]
      · simp [splitLines, cr]

theorem splitLines_char {c : Char} (no_break : c ≠ '\n') (current rest : List Char) :
    splitLines current (c :: rest) = splitLines (c :: current) rest := by
  simp [splitLines, no_break]

theorem splitLines_line (current line rest : List Char) (no_break : '\n' ∉ line) :
    splitLines current (line ++ '\n' :: rest) =
      stripCr (current.reverse ++ line) :: splitLines [] rest := by
  induction line generalizing current with
  | nil => rw [List.nil_append, splitLines_newline, List.append_nil]
  | cons c line ih =>
      rw [List.mem_cons, not_or] at no_break
      rw [List.cons_append, splitLines_char (Ne.symm no_break.1), ih _ no_break.2]
      simp

theorem fromUTF8?_toByteArray (s : String) : String.fromUTF8? s.toByteArray = some s := by
  rw [String.fromUTF8?, dif_pos s.isValidUTF8]
  rfl

theorem toList_renderLine (line : PatchLine) :
    (GitDiff.renderLine (diffLine line)).toList = lineChars line ++ ['\n'] := by
  cases line with
  | header keyword text =>
      rw [GitDiff.renderLine, diffLine, fromUTF8?_toByteArray]
      cases keyword <;> simp [GitDiff.linePrefix, headerOrigin, lineChars]
  | content kind text =>
      rw [GitDiff.renderLine, diffLine, fromUTF8?_toByteArray]
      cases kind <;> simp [GitDiff.linePrefix, contentOrigin, lineChars]

theorem lineChars_no_break (line : PatchLine) : '\n' ∉ lineChars line := by
  cases line with
  | header keyword text =>
      have fixed : '\n' ∉ (keywordText keyword).toList := by
        cases keyword <;> simp [keywordText]
      simp [lineChars, fixed, text.no_break]
  | content kind text =>
      cases kind <;> simp [lineChars, contentOrigin, text.no_break]

/-- Splitting the printed text gives the lines back, but for their carriage returns. -/
theorem splitLines_renderPatch (patch : List PatchLine) :
    splitLines [] (renderPatch patch).toList = patch.map fun line => stripCr (lineChars line) := by
  induction patch with
  | nil => rfl
  | cons line rest ih =>
      have text : (renderPatch (line :: rest)).toList =
          lineChars line ++ '\n' :: (renderPatch rest).toList := by
        rw [renderPatch, List.map_cons, GitDiff.linesText, List.foldr_cons, String.toList_append,
          toList_renderLine, List.append_assoc]
        rfl
      rw [text, splitLines_line _ _ _ (lineChars_no_break line), ih]
      rfl

/-! ## What each line adds -/

theorem stripCr_append {front : List Char} (not_cr : front.getLast? ≠ some '\r')
    (text : List Char) :
    stripCr (front ++ text) = front ++ stripCr text := by
  cases text with
  | nil => simp [stripCr, not_cr]
  | cons c rest =>
      rw [stripCr, stripCr, List.getLast?_append_of_ne_nil _ (List.cons_ne_nil c rest),
        List.dropLast_append_of_ne_nil (List.cons_ne_nil c rest)]
      split <;> rfl

theorem length_stripCr_le (line : List Char) : (stripCr line).length ≤ line.length := by
  rw [stripCr]
  split
  · simp
  · exact Nat.le_refl _

theorem length_stripCr_eq_iff {line : List Char} :
    (stripCr line).length = line.length ↔ line.getLast? ≠ some '\r' := by
  rw [stripCr]
  split
  · next cr =>
      have some_char : line ≠ [] := by
        rintro rfl
        simp at cr
      have longer := List.length_pos_iff.2 some_char
      simp [cr]
      omega
  · next not_cr => simp [not_cr]

/-- Two characters in front stay there, unless the second one is the carriage return. -/
theorem take_stripCr {a b : Char} (not_cr : b ≠ '\r') (text : List Char) :
    (stripCr text).take 2 = [a, b] ↔ text.take 2 = [a, b] := by
  match text with
  | [] => simp [stripCr]
  | [c] =>
      rw [stripCr]
      split <;> simp
  | [c, d] =>
      rw [stripCr]
      split
      · next cr =>
          simp at cr
          subst cr
          simp [Ne.symm not_cr]
      · rfl
  | c :: d :: e :: rest =>
      rw [show c :: d :: e :: rest = [c, d] ++ (e :: rest) from rfl, stripCr,
        List.getLast?_append_of_ne_nil _ (List.cons_ne_nil e rest),
        List.dropLast_append_of_ne_nil (List.cons_ne_nil e rest)]
      split <;> rfl

/-- A line of the text that is counted as added. -/
def looksAdded (line : List Char) : Bool :=
    line.take 1 == ['+'] && line.take 3 != ['+', '+', '+']

/-- An added line whose text does not look like a file header. -/
def kept (texts : List (List Char)) : List (List Char) :=
    (texts.map stripCr).filter fun text => decide (text.take 2 ≠ ['+', '+'])

/-- The separator goes before a line when something stands there already. -/
def joinStep (out text : List Char) : List Char :=
    (if out.isEmpty then out else out ++ ['\n']) ++ text

theorem pushAdded_header (out : List Char) (keyword : HeaderKeyword) (text : LineText) :
    pushAdded out (stripCr (lineChars (.header keyword text))) = out ∧
      looksAdded (stripCr (lineChars (.header keyword text))) = false := by
  have not_cr : (keywordText keyword).toList.getLast? ≠ some '\r' := by
    cases keyword <;> simp [keywordText]
  rw [lineChars, stripCr_append not_cr]
  cases keyword <;> simp [keywordText, pushAdded, looksAdded]

theorem stripCr_content (kind : LineKind) (text : LineText) :
    stripCr (lineChars (.content kind text)) = contentOrigin kind :: stripCr text.chars := by
  have not_cr : [contentOrigin kind].getLast? ≠ some '\r' := by cases kind <;> decide
  exact stripCr_append not_cr text.chars

theorem pushAdded_added (out text : List Char) :
    pushAdded out ('+' :: text) =
      if text.take 2 = ['+', '+'] then out else joinStep out text := by
  simp [pushAdded, joinStep]

theorem looksAdded_added (text : List Char) :
    looksAdded ('+' :: text) = decide (text.take 2 ≠ ['+', '+']) := by
  by_cases header : text.take 2 = ['+', '+'] <;> simp [looksAdded, header]

/-- Only the added lines are picked, and of them those that do not look like a header. -/
theorem foldl_pushAdded (patch : List PatchLine) (out : List Char) :
    (patch.map fun line => stripCr (lineChars line)).foldl pushAdded out =
      (kept (addedTexts patch)).foldl joinStep out := by
  induction patch generalizing out with
  | nil => rfl
  | cons line rest ih =>
      cases line with
      | header keyword text =>
          rw [List.map_cons, List.foldl_cons, (pushAdded_header out keyword text).1, ih]
          rfl
      | content kind text =>
          rw [List.map_cons, List.foldl_cons, stripCr_content, ih]
          cases kind with
          | context => simp [contentOrigin, pushAdded, addedTexts]
          | removed => simp [contentOrigin, pushAdded, addedTexts]
          | added =>
              rw [contentOrigin, pushAdded_added]
              by_cases header : (stripCr text.chars).take 2 = ['+', '+'] <;>
                simp [header, addedTexts, kept]

theorem countAddedLines_renderPatch (patch : List PatchLine) :
    countAddedLines (renderPatch patch) = (kept (addedTexts patch)).length := by
  rw [countAddedLines, splitLines_renderPatch]
  change ((patch.map fun line => stripCr (lineChars line)).filter looksAdded).length = _
  induction patch with
  | nil => rfl
  | cons line rest ih =>
      cases line with
      | header keyword text =>
          rw [List.map_cons, List.filter_cons_of_neg (by simp [(pushAdded_header [] keyword text).2]),
            ih]
          rfl
      | content kind text =>
          rw [List.map_cons, stripCr_content]
          cases kind with
          | context => simpa [contentOrigin, looksAdded, addedTexts] using ih
          | removed => simpa [contentOrigin, looksAdded, addedTexts] using ih
          | added =>
              rw [contentOrigin, List.filter_cons, looksAdded_added]
              by_cases header : (stripCr text.chars).take 2 = ['+', '+'] <;>
                simpa [header, addedTexts, kept] using ih

/-! ## Joining -/

/-- The lines joined by line breaks. -/
def joinedLines (texts : List (List Char)) : List Char :=
    List.intercalate ['\n'] texts

/-- What the lines take with a line break each. -/
def brokenLength (texts : List (List Char)) : Nat :=
    (texts.map fun text => text.length + 1).sum

@[simp]
theorem brokenLength_cons (text : List Char) (texts : List (List Char)) :
    brokenLength (text :: texts) = text.length + 1 + brokenLength texts := rfl

theorem length_joinedLines (text : List Char) (texts : List (List Char)) :
    (joinedLines (text :: texts)).length + 1 = brokenLength (text :: texts) := by
  induction texts generalizing text with
  | nil => simp [joinedLines, brokenLength]
  | cons next rest ih =>
      have tail := ih next
      simp only [joinedLines, List.intercalate_cons_cons, List.length_append,
        List.length_singleton, brokenLength_cons] at tail ⊢
      omega

/-- From the first character on every line gets its separator. -/
theorem foldl_joinStep {out : List Char} (started : out ≠ []) (texts : List (List Char)) :
    texts.foldl joinStep out = joinedLines (out :: texts) := by
  induction texts generalizing out with
  | nil => simp [joinedLines]
  | cons text rest ih =>
      have step : joinStep out text = out ++ ['\n'] ++ text := by simp [joinStep, started]
      have still : out ++ ['\n'] ++ text ≠ [] := by simp
      rw [List.foldl_cons, step, ih still]
      cases rest with
      | nil => simp [joinedLines]
      | cons next rest => simp [joinedLines, List.intercalate_cons_cons]

theorem foldl_joinStep_nil (text : List Char) (texts : List (List Char)) :
    (text :: texts).foldl joinStep [] = texts.foldl joinStep text := by
  simp [joinStep]

/-- Empty lines at the front leave no separator behind. -/
theorem length_foldl_joinStep_le (text : List Char) (texts : List (List Char)) :
    ((text :: texts).foldl joinStep []).length + 1 ≤ brokenLength (text :: texts) := by
  induction texts generalizing text with
  | nil => simp [joinStep, brokenLength]
  | cons next rest ih =>
      rw [foldl_joinStep_nil]
      by_cases blank : text = []
      · subst blank
        have tail := ih next
        simp only [brokenLength_cons] at tail ⊢
        omega
      · rw [foldl_joinStep blank, length_joinedLines]

theorem brokenLength_stripCr_le (texts : List (List Char)) :
    brokenLength (texts.map stripCr) ≤ brokenLength texts := by
  rw [brokenLength, List.map_map]
  exact List.sum_le_sum fun text _ => Nat.succ_le_succ (length_stripCr_le text)

theorem brokenLength_stripCr_lt {texts : List (List Char)} {text : List Char}
    (member : text ∈ texts) (cr : text.getLast? = some '\r') :
    brokenLength (texts.map stripCr) < brokenLength texts := by
  rw [brokenLength, List.map_map]
  have shorter : (stripCr text).length < text.length :=
    Nat.lt_of_le_of_ne (length_stripCr_le text) (mt length_stripCr_eq_iff.1 (not_not_intro cr))
  exact List.sum_lt_sum _ _ (fun text _ => Nat.succ_le_succ (length_stripCr_le text))
    ⟨text, member, Nat.succ_lt_succ shorter⟩

/-! ## When the added lines are read back -/

/-- The added lines come back, and so does their number. -/
def RecoversAdded (patch : List PatchLine) : Prop :=
    extractAddedLines (renderPatch patch) = String.ofList (joinedLines (addedTexts patch)) ∧
      countAddedLines (renderPatch patch) = (addedTexts patch).length

/-- Lines that neither look like a file header nor lose a character to a line break. -/
structure Unambiguous (texts : List (List Char)) : Prop where
  not_header : ∀ text ∈ texts, text.take 2 ≠ ['+', '+']
  not_cr : ∀ text ∈ texts, text.getLast? ≠ some '\r'
  not_blank : texts.head? = some [] → texts.length = 1

theorem recoversAdded_def (patch : List PatchLine) :
    RecoversAdded patch ↔
      (kept (addedTexts patch)).foldl joinStep [] = joinedLines (addedTexts patch) ∧
        (kept (addedTexts patch)).length = (addedTexts patch).length := by
  rw [RecoversAdded, extractAddedLines, countAddedLines_renderPatch, splitLines_renderPatch,
    foldl_pushAdded, String.ofList_inj]

theorem length_kept_iff (texts : List (List Char)) :
    (kept texts).length = texts.length ↔ ∀ text ∈ texts, text.take 2 ≠ ['+', '+'] := by
  have same : (texts.map stripCr).length = texts.length := List.length_map stripCr
  rw [kept, ← same, List.length_filter_eq_length_iff]
  simp [take_stripCr]

theorem kept_eq_map {texts : List (List Char)}
    (not_header : ∀ text ∈ texts, text.take 2 ≠ ['+', '+']) :
    kept texts = texts.map stripCr := by
  rw [kept, List.filter_eq_self]
  simpa [take_stripCr] using not_header

theorem not_cr_of_joined {text : List Char} {rest : List (List Char)}
    (same : ((text :: rest).map stripCr).foldl joinStep [] = joinedLines (text :: rest)) :
    ∀ line ∈ text :: rest, line.getLast? ≠ some '\r' := by
  intro line member cr
  have joined := length_joinedLines text rest
  have read := length_foldl_joinStep_le (stripCr text) (rest.map stripCr)
  have lost := brokenLength_stripCr_lt member cr
  rw [← List.map_cons, same] at read
  omega

/-- The separator after an empty first line is missing. -/
theorem not_joined_of_blank (next : List Char) (rest : List (List Char)) :
    (([] :: next :: rest).map stripCr).foldl joinStep [] ≠ joinedLines ([] :: next :: rest) := by
  intro same
  have skipped : (([] :: next :: rest).map stripCr).foldl joinStep [] =
      ((next :: rest).map stripCr).foldl joinStep [] := rfl
  have joined := length_joinedLines [] (next :: rest)
  have read := length_foldl_joinStep_le (stripCr next) (rest.map stripCr)
  have shorter := brokenLength_stripCr_le (next :: rest)
  rw [← List.map_cons, ← skipped, same] at read
  simp only [brokenLength_cons] at joined read shorter
  omega

theorem joined_of_clear {text : List Char} {rest : List (List Char)}
    (not_cr : ∀ line ∈ text :: rest, line.getLast? ≠ some '\r')
    (not_blank : text = [] → rest = []) :
    ((text :: rest).map stripCr).foldl joinStep [] = joinedLines (text :: rest) := by
  have unstripped : (text :: rest).map stripCr = text :: rest := by
    calc (text :: rest).map stripCr
        _ = (text :: rest).map id := List.map_congr_left fun line member =>
              if_neg (not_cr line member)
        _ = text :: rest := List.map_id _
  rw [unstripped, foldl_joinStep_nil]
  by_cases blank : text = []
  · rw [blank, not_blank blank]
    simp [joinedLines]
  · exact foldl_joinStep blank rest

theorem foldl_joinStep_iff (texts : List (List Char)) :
    (texts.map stripCr).foldl joinStep [] = joinedLines texts ↔
      (∀ text ∈ texts, text.getLast? ≠ some '\r') ∧
        (texts.head? = some [] → texts.length = 1) := by
  cases texts with
  | nil => simp [joinedLines]
  | cons text rest =>
      constructor
      · intro same
        refine ⟨not_cr_of_joined same, ?_⟩
        intro blank
        obtain rfl : text = [] := by simpa using blank
        cases rest with
        | nil => rfl
        | cons next rest => exact absurd same (not_joined_of_blank next rest)
      · rintro ⟨not_cr, not_blank⟩
        apply joined_of_clear not_cr
        rintro rfl
        simpa using not_blank

/-- The added lines of a patch are recovered exactly when none of them reads as a header, loses a
carriage return or is a blank in front of others. -/
theorem recoversAdded_iff (patch : List PatchLine) :
    RecoversAdded patch ↔ Unambiguous (addedTexts patch) := by
  rw [recoversAdded_def, length_kept_iff]
  constructor
  · rintro ⟨same, not_header⟩
    rw [kept_eq_map not_header, foldl_joinStep_iff] at same
    exact ⟨not_header, same.1, same.2⟩
  · intro clear
    refine ⟨?_, clear.not_header⟩
    rw [kept_eq_map clear.not_header, foldl_joinStep_iff]
    exact ⟨clear.not_cr, clear.not_blank⟩

/-- A header line of a given text. -/
def headerLine (keyword : HeaderKeyword) (text : String) (no_break : '\n' ∉ text.toList) :
    PatchLine :=
    .header keyword ⟨text.toList, no_break⟩

/-- A new file whose only line increments a counter. -/
def incrementPatch : List PatchLine :=
    [headerLine .diffGit "a/f b/f" (by decide), headerLine .newFileMode "100644" (by decide),
      headerLine .oldFile "/dev/null" (by decide), headerLine .newFile "b/f" (by decide),
      headerLine .hunk "-0,0 +1 @@" (by decide),
      .content .added ⟨['+', '+', 'i', ';'], by decide⟩]

theorem not_recoversAdded_increment : ¬ RecoversAdded incrementPatch := by
  rintro ⟨_, counted⟩
  rw [countAddedLines_renderPatch] at counted
  exact absurd counted (by decide)

end HunkText

end Ohara
