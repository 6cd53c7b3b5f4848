import Ohara.Explain.Hydrator
import Ohara.Library.Lines
import Ohara.Library.Weights

/-!
# Cutting a diff after its first lines

`truncate_diff` counts the lines of a text and looks for the byte offset at which to cut it, in two
loops over its bytes. The cut is a slice of a `str`, which panics inside a character.
-/

namespace Ohara

namespace DiffText

/-- The bytes of the text. -/
def bytesOf (s : String) : List UInt8 :=
    s.toList.flatMap String.utf8EncodeChar

/-- `s.ends_with('\n')`. -/
def endsWithNewline (s : String) : Bool :=
    s.toList.getLast? == some '\n'

/-- The offset after the newline that makes the count `maxLines`; zero when none does. -/
def scanEnd (maxLines : Nat) : Nat → Nat → List UInt8 → Nat
  | _, _, [] => 0
  | i, count, b :: rest =>
      if b = 0x0a then
        if count + 1 = maxLines then i + 1 else scanEnd maxLines (i + 1) (count + 1) rest
      else scanEnd maxLines (i + 1) count rest

/-- `s[..stop]`; none is a panic. -/
def sliceTo (s : String) (stop : Nat) : Option String :=
    (Weights.splitWeight Char.utf8Size stop s.toList).map fun halves => String.ofList halves.1

/-- The excerpt, and whether it was cut; none is a panic. -/
def truncateDiff (s : String) (maxLines : Nat) : Option (String × Bool) :=
    let nl := (bytesOf s).count 0x0a
    let hasTrailingPartial := !s.isEmpty && !endsWithNewline s
    let totalLines := nl + if hasTrailingPartial then 1 else 0
    if totalLines ≤ maxLines then some (s, false)
    else
      let stop := scanEnd maxLines 0 0 (bytesOf s)
      let extra := totalLines - maxLines
      (sliceTo s stop).map fun out => (out ++ s!"... ({extra} more lines)\n", true)

/-- The count is cut to 32 bits, and wraps when the last line is added. -/
def countLines (s : String) : UInt32 :=
    if s.isEmpty then 0
    else
      let nl := UInt32.ofNat ((bytesOf s).count 0x0a)
      if endsWithNewline s then nl else nl + 1

/-! ## Bytes and characters -/

theorem utf8EncodeChar_newline : String.utf8EncodeChar '\n' = [0x0a] := by decide

/-- A byte of a longer encoding has its high bit set. -/
theorem newline_ne_ofNat {n : Nat} (other : n % 256 ≠ 10) : (0x0a : UInt8) ≠ UInt8.ofNat n := by
  intro same
  have values := congrArg UInt8.toNat same
  simp only [UInt8.toNat_ofNat'] at values
  apply other
  exact values.symm

theorem newline_not_mem_utf8EncodeChar {c : Char} (other : c ≠ '\n') :
    (0x0a : UInt8) ∉ String.utf8EncodeChar c := by
  have value : c.val.toNat ≠ 10 := by
    intro same
    apply other
    exact Char.ext (UInt32.toNat_inj.1 same)
  fun_cases String.utf8EncodeChar c
  all_goals
    simp only [List.mem_cons, List.not_mem_nil, or_false, not_or]
    repeat' apply And.intro
  all_goals
    apply newline_ne_ofNat
    omega

theorem pieces_bytesOf (s : String) :
    Lines.pieces 0x0a (bytesOf s)
      = (Lines.pieces '\n' s.toList).map (List.flatMap String.utf8EncodeChar) := by
  apply Lines.pieces_flatMap utf8EncodeChar_newline
  intro c other
  exact ⟨String.utf8EncodeChar_ne_nil, newline_not_mem_utf8EncodeChar other⟩

theorem weigh_utf8Size (text : List Char) :
    Weights.weigh Char.utf8Size text = (text.flatMap String.utf8EncodeChar).length := by
  simp [Weights.weigh, List.length_flatMap]

/-! ## Lines -/

/-- The lines of a text with their newlines. -/
def lines (s : String) : List (List Char) :=
    Lines.pieces '\n' s.toList

theorem isEmpty_iff (s : String) : s.isEmpty = true ↔ s.toList = [] := by
  simp

theorem count_flatMap_utf8EncodeChar (text : List Char) :
    (text.flatMap String.utf8EncodeChar).count 0x0a = text.count '\n' := by
  induction text with
  | nil => rfl
  | cons c rest ih =>
      rw [List.flatMap_cons, List.count_append, ih]
      by_cases newline : c = '\n'
      · subst newline
        simp [utf8EncodeChar_newline, Nat.add_comm]
      · rw [List.count_eq_zero_of_not_mem (newline_not_mem_utf8EncodeChar newline)]
        simp [newline]

/-- The newlines, and a last line that has none. -/
theorem length_lines (s : String) :
    (lines s).length
      = (bytesOf s).count 0x0a + if !s.isEmpty && !endsWithNewline s then 1 else 0 := by
  rw [lines, Lines.length_pieces, bytesOf, count_flatMap_utf8EncodeChar]
  congr 2
  cases last : s.toList.getLast? with
  | none =>
      rw [List.getLast?_eq_none_iff, String.toList_eq_nil_iff] at last
      simp [last]
  | some c =>
      have nonempty : s.toList ≠ [] := by
        intro empty
        simp [empty] at last
      simp [last, endsWithNewline] at nonempty ⊢
      simp [nonempty]

theorem scanEnd_zero (i count : Nat) (bytes : List UInt8) : scanEnd 0 i count bytes = 0 := by
  induction bytes generalizing i count with
  | nil => rfl
  | cons b rest ih => simp [scanEnd, ih]

/-- The scan ends after as many lines as are still to be counted. -/
theorem scanEnd_eq {missing count : Nat} (i : Nat) (bytes : List UInt8)
    (enough : missing + 1 ≤ bytes.count 0x0a) :
    scanEnd (count + (missing + 1)) i count bytes
      = i + ((Lines.pieces 0x0a bytes).take (missing + 1)).flatten.length := by
  induction bytes generalizing i count missing with
  | nil => simp at enough
  | cons b rest ih =>
      rw [scanEnd]
      by_cases newline : b = 0x0a
      · subst newline
        simp only [if_pos, Lines.pieces_sep]
        rw [List.count_cons_self] at enough
        cases missing with
        | zero => simp
        | succ missing =>
            rw [if_neg (by omega)]
            have step := @ih missing (count + 1) (i + 1) (Nat.le_of_succ_le_succ enough)
            rw [show count + (missing + 1 + 1) = count + 1 + (missing + 1) by omega, step]
            simp
            omega
      · rw [if_neg newline, Lines.flatten_take_pieces_cons newline, List.length_cons]
        rw [List.count_cons_of_ne newline] at enough
        rw [ih (i + 1) enough]
        omega

/-- Where there are more lines than `maxLines`, the scan ends after the first `maxLines`. -/
theorem scanEnd_eq_weigh {s : String} {maxLines : Nat} (more : maxLines < (lines s).length) :
    scanEnd maxLines 0 0 (bytesOf s)
      = Weights.weigh Char.utf8Size ((lines s).take maxLines).flatten := by
  have counted := length_lines s
  rw [weigh_utf8Size]
  cases maxLines with
  | zero => simp [scanEnd_zero]
  | succ missing =>
      have enough : missing + 1 ≤ (bytesOf s).count 0x0a := by
        split at counted
        · omega
        · omega
      have scanned := @scanEnd_eq missing 0 0 (bytesOf s) enough
      rw [Nat.zero_add, Nat.zero_add] at scanned
      rw [scanned, pieces_bytesOf, ← List.map_take, lines]
      congr 1
      induction (Lines.pieces '\n' s.toList).take (missing + 1) with
      | nil => rfl
      | cons line rest ih => simp [ih]

theorem sliceTo_weigh {s : String} {before rest : List Char} (whole : s.toList = before ++ rest) :
    sliceTo s (Weights.weigh Char.utf8Size before) = some (String.ofList before) := by
  rw [sliceTo, (Weights.splitWeight_eq_some_iff Char.utf8Size_pos).2 ⟨whole, rfl⟩]
  rfl

/-! ## What is returned -/

theorem truncateDiff_of_le {s : String} {maxLines : Nat} (fits : (lines s).length ≤ maxLines) :
    truncateDiff s maxLines = some (s, false) := by
  rw [length_lines] at fits
  rw [truncateDiff]
  simp only [if_pos fits]

theorem truncateDiff_of_lt {s : String} {maxLines : Nat} (more : maxLines < (lines s).length) :
    truncateDiff s maxLines
      = some (String.ofList ((lines s).take maxLines).flatten
          ++ s!"... ({(lines s).length - maxLines} more lines)\n", true) := by
  have whole : s.toList
      = ((lines s).take maxLines).flatten ++ ((lines s).drop maxLines).flatten := by
    rw [← List.flatten_append, List.take_append_drop, lines, Lines.flatten_pieces]
  rw [truncateDiff]
  simp only [scanEnd_eq_weigh more, sliceTo_weigh whole, ← length_lines]
  rw [if_neg (by omega)]
  rfl

theorem takeLines_eq (n : Nat) (text : List Char) :
    takeLines n text = ((Lines.pieces '\n' text).take n).flatten := by
  induction text generalizing n with
  | nil => cases n <;> rfl
  | cons c rest ih =>
      cases n with
      | zero => rfl
      | succ n =>
          rw [takeLines]
          by_cases newline : c = '\n'
          · simp [newline, ih]
          · rw [if_neg newline, Lines.flatten_take_pieces_cons newline, ih]

theorem countLines_eq (s : String) : Ohara.countLines s = (lines s).length := by
  rw [length_lines, bytesOf, count_flatMap_utf8EncodeChar]
  unfold Ohara.countLines endsWithNewline
  by_cases empty : s = ""
  · simp [empty]
  · by_cases ends : s.toList.getLast? = some '\n'
    · simp [empty, ends]
    · simp [empty, ends]

/-- The scan over bytes cuts where the excerpts of a blame are said to be cut. -/
theorem truncateDiff_eq (s : String) (maxLines : Nat) :
    truncateDiff s maxLines = some (Ohara.truncateDiff s maxLines) := by
  rw [Ohara.truncateDiff, countLines_eq]
  by_cases fits : (lines s).length ≤ maxLines
  · rw [truncateDiff_of_le fits, if_pos fits]
  · rw [truncateDiff_of_lt (Nat.lt_of_not_le fits), if_neg fits, takeLines_eq]
    rfl

theorem toNat_countLines (s : String) : (countLines s).toNat = (lines s).length % 2 ^ 32 := by
  rw [length_lines, countLines]
  by_cases empty : s = ""
  · simp [empty, bytesOf]
  · by_cases ends : endsWithNewline s
    · simp [empty, ends]
    · simp [empty, ends]

/-- The excerpt is cut between lines, after the first `maxLines`, when there are more. -/
theorem truncateDiff_spec (s : String) (maxLines : Nat) :
    ∃ excerpt truncated, truncateDiff s maxLines = some (excerpt, truncated) ∧
      (truncated = true ↔ maxLines < (lines s).length) ∧
      (truncated = true → ∃ extra, extra + maxLines = (lines s).length ∧
        excerpt = String.ofList ((lines s).take maxLines).flatten
          ++ s!"... ({extra} more lines)\n") ∧
      (truncated = false → excerpt = s) ∧
      (countLines s).toNat = (lines s).length % 2 ^ 32 := by
  by_cases fits : (lines s).length ≤ maxLines
  · refine ⟨s, false, truncateDiff_of_le fits, ?_, ?_, ?_, toNat_countLines s⟩
    · simpa using fits
    · simp
    · simp
  · have more := Nat.lt_of_not_le fits
    refine ⟨_, true, truncateDiff_of_lt more, ?_, ?_, ?_, toNat_countLines s⟩
    · simpa using more
    · intro _
      exact ⟨(lines s).length - maxLines, by omega, rfl⟩
    · simp

end DiffText

end Ohara
