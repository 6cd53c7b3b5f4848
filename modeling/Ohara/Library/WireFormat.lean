import Mathlib.Data.List.TakeWhile
import Mathlib.Data.Nat.Digits.Defs

/-!
# Formats that read back what they write

A format writes values one after the other without anything in between: reading returns the first
value together with the rest. Hence no written value is a proper prefix of another one.
-/

universe u v w

/-- A way to write values over an alphabet that can be read back whatever follows. -/
structure WireFormat (σ : Type u) (α : Type v) where
  write : α → List σ
  read : List σ → Option (α × List σ)
  read_write : ∀ a rest, read (write a ++ rest) = some (a, rest)

namespace WireFormat

variable {σ : Type u} {α : Type v} {β : Type w}

/-- A value preceded by a fixed text. -/
def after [DecidableEq σ] (text : List σ) (format : WireFormat σ α) : WireFormat σ α where
  write a := text ++ format.write a
  read input := if text <+: input then format.read (input.drop text.length) else none
  read_write a rest := by
    rw [List.append_assoc, if_pos (List.prefix_append _ _), List.drop_left]
    exact format.read_write a rest

/-- A value followed by a fixed text. -/
def closed [DecidableEq σ] (format : WireFormat σ α) (text : List σ) : WireFormat σ α where
  write a := format.write a ++ text
  read input :=
    match format.read input with
    | some (a, rest) => if text <+: rest then some (a, rest.drop text.length) else none
    | none => none
  read_write a rest := by
    rw [List.append_assoc, format.read_write]
    simp

/-- One after the other. -/
def pair (first : WireFormat σ α) (second : WireFormat σ β) : WireFormat σ (α × β) where
  write both := first.write both.1 ++ second.write both.2
  read input :=
    match first.read input with
    | some (a, rest) => (second.read rest).map fun found => ((a, found.1), found.2)
    | none => none
  read_write both rest := by
    rw [List.append_assoc, first.read_write]
    simp [second.read_write]

/-- Values that are represented by values of another format. -/
def encoded (format : WireFormat σ α) (encode : β → α) (decode : α → Option β)
    (decode_encode : ∀ b, decode (encode b) = some b) : WireFormat σ β where
  write b := format.write (encode b)
  read input :=
    match format.read input with
    | some (a, rest) => (decode a).map fun b => (b, rest)
    | none => none
  read_write b rest := by
    rw [format.read_write]
    simp [decode_encode]

/-- A word up to a symbol that does not occur in it. -/
def terminated [DecidableEq σ] (stop : σ) : WireFormat σ {word : List σ // stop ∉ word} where
  write word := word.1 ++ [stop]
  read input :=
    match input.dropWhile (· ≠ stop) with
    | [] => none
    | _ :: rest =>
        some (⟨input.takeWhile (· ≠ stop), fun mem => by simpa using List.mem_takeWhile_imp mem⟩,
          rest)
  read_write word rest := by
    have differ : ∀ symbol ∈ word.1, decide (symbol ≠ stop) = true := by
      intro symbol symbol_mem
      exact decide_eq_true fun same => word.2 (same ▸ symbol_mem)
    have dropped : (word.1 ++ [stop] ++ rest).dropWhile (· ≠ stop) = stop :: rest := by
      rw [List.append_assoc, List.dropWhile_append_of_pos differ]
      simp
    have taken : (word.1 ++ [stop] ++ rest).takeWhile (· ≠ stop) = word.1 := by
      rw [List.append_assoc, List.takeWhile_append_of_pos differ]
      simp
    simp only [dropped, taken]

section Escaped

variable [DecidableEq σ] (quote escape : σ)

/-- Write a word up to a closing quote; quotes and escapes within it are escaped. -/
def writeEscaped : List σ → List σ
  | [] => [quote]
  | symbol :: rest =>
      if symbol = quote ∨ symbol = escape then escape :: symbol :: writeEscaped rest
      else symbol :: writeEscaped rest

/-- Read an escaped word; `pending` after an escape. -/
def readEscaped : Bool → List σ → Option (List σ × List σ)
  | _, [] => none
  | true, symbol :: rest =>
      if symbol = quote ∨ symbol = escape then
        (readEscaped false rest).map fun found => (symbol :: found.1, found.2)
      else none
  | false, symbol :: rest =>
      if symbol = quote then some ([], rest)
      else if symbol = escape then readEscaped true rest
      else (readEscaped false rest).map fun found => (symbol :: found.1, found.2)

variable {quote escape}

theorem readEscaped_writeEscaped (distinct : quote ≠ escape) (word rest : List σ) :
    readEscaped quote escape false (writeEscaped quote escape word ++ rest) =
      some (word, rest) := by
  induction word with
  | nil => simp [writeEscaped, readEscaped]
  | cons symbol word ih =>
      rw [writeEscaped]
      by_cases special : symbol = quote ∨ symbol = escape
      · simp [special, readEscaped, distinct.symm, ih]
      · rcases not_or.1 special with ⟨not_quote, not_escape⟩
        simp [readEscaped, not_quote, not_escape, ih]

/-- A text between quotes, with an escape before every quote and escape. -/
def escaped (distinct : quote ≠ escape) : WireFormat σ (List σ) where
  write := writeEscaped quote escape
  read := readEscaped quote escape false
  read_write := readEscaped_writeEscaped distinct

end Escaped

/-- A value, or a fixed text that no value starts with. -/
def orText [DecidableEq σ] (text : List σ) (format : WireFormat σ α)
    (apart : ∀ a rest, ¬ text <+: format.write a ++ rest) : WireFormat σ (Option α) where
  write
    | none => text
    | some a => format.write a
  read input :=
    if text <+: input then some (none, input.drop text.length)
    else (format.read input).map fun found => (some found.1, found.2)
  read_write value rest := by
    cases value with
    | none => simp
    | some a =>
        rw [if_neg (apart a rest), format.read_write]
        rfl

section Many

variable [DecidableEq σ] (again stop : σ) (format : WireFormat σ α)

/-- Write further values, each announced by `again`, up to `stop`. -/
def writeMore : List α → List σ
  | [] => [stop]
  | a :: rest => again :: (format.write a ++ writeMore rest)

/-- The elements that follow a first one. -/
def readMore : Nat → List σ → Option (List α × List σ)
  | 0, _ => none
  | _ + 1, [] => none
  | fuel + 1, symbol :: input =>
      if symbol = stop then some ([], input)
      else if symbol = again then
        match format.read input with
        | some (a, rest) => (readMore fuel rest).map fun found => (a :: found.1, found.2)
        | none => none
      else none

variable {again stop}

theorem readMore_writeMore (distinct : again ≠ stop) (values : List α) (rest : List σ)
    (fuel : Nat) (enough : values.length < fuel) :
    readMore again stop format fuel (writeMore again stop format values ++ rest) =
      some (values, rest) := by
  induction values generalizing fuel with
  | nil =>
      cases fuel with
      | zero => omega
      | succ fuel => simp [writeMore, readMore]
  | cons a values ih =>
      cases fuel with
      | zero => omega
      | succ fuel =>
          have left : values.length < fuel := by
            simp only [List.length_cons] at enough
            omega
          rw [writeMore, List.cons_append, List.append_assoc, readMore.eq_3, if_neg distinct,
            if_pos rfl, format.read_write]
          simp [ih fuel left]

omit [DecidableEq σ] in
theorem length_lt_writeMore (values : List α) :
    values.length < (writeMore again stop format values).length := by
  induction values with
  | nil => simp [writeMore]
  | cons a values ih =>
      simp only [writeMore, List.length_cons, List.length_append]
      omega

/-- Values separated by `again` and closed by `stop`, with which no value starts. -/
def separated (distinct : again ≠ stop) (starts : ∀ a, ∃ symbol rest, symbol ≠ stop ∧
    format.write a = symbol :: rest) : WireFormat σ (List α) where
  write
    | [] => [stop]
    | a :: rest => format.write a ++ writeMore again stop format rest
  read input :=
    match input with
    | [] => none
    | symbol :: rest =>
        if symbol = stop then some ([], rest)
        else
          match format.read input with
          | some (a, rest) =>
              (readMore again stop format (rest.length + 1) rest).map fun found =>
                (a :: found.1, found.2)
          | none => none
  read_write values rest := by
    cases values with
    | nil => simp
    | cons a values =>
        rcases starts a with ⟨symbol, written, not_stop, write_eq⟩
        have enough : values.length <
            (writeMore again stop format values ++ rest).length + 1 := by
          have shorter : values.length < (writeMore again stop format values).length :=
            length_lt_writeMore format values
          simp only [List.length_append]
          omega
        have read := format.read_write a (writeMore again stop format values ++ rest)
        simp only [write_eq, List.cons_append] at read
        simp only [write_eq, List.cons_append, List.append_assoc, if_neg not_stop, read]
        rw [readMore_writeMore format distinct values rest _ enough]
        rfl

end Many

variable (format : WireFormat σ α)

/-- No written value is continued to another one. -/
theorem write_append_eq {a b : α} {rest : List σ} (same : format.write a ++ rest = format.write b) :
    a = b ∧ rest = [] := by
  have read_first := format.read_write a rest
  have read_second := format.read_write b []
  rw [List.append_nil, ← same, read_first] at read_second
  cases read_second
  exact ⟨rfl, rfl⟩

section Decode

variable [DecidableEq σ]

/-- Read a whole text. -/
def decode (input : List σ) : Option α :=
    match format.read input with
    | some (a, _) => if format.write a = input then some a else none
    | none => none

theorem decode_write (a : α) : format.decode (format.write a) = some a := by
  have read := format.read_write a []
  rw [List.append_nil] at read
  simp [decode, read]

theorem write_of_decode {input : List σ} {a : α} (decoded : format.decode input = some a) :
    format.write a = input := by
  unfold decode at decoded
  split at decoded
  · split at decoded
    · rename_i same
      cases decoded
      exact same
    · cases decoded
  · cases decoded

/-- A text that was cut off is not read. -/
theorem decode_take (a : α) {n : Nat} (cut : n < (format.write a).length) :
    format.decode ((format.write a).take n) = none := by
  cases decoded : format.decode ((format.write a).take n) with
  | none => rfl
  | some b =>
      have whole : format.write b ++ (format.write a).drop n = format.write a := by
        rw [format.write_of_decode decoded]
        exact List.take_append_drop n _
      have nothing_left := (format.write_append_eq whole).2
      have some_left : ((format.write a).drop n).length ≠ 0 := by
        rw [List.length_drop]
        omega
      rw [nothing_left] at some_left
      exact absurd rfl some_left

end Decode

/-! ## Numbers and strings as bytes -/

/-- The bytes of a text of ASCII characters. -/
def ascii (text : List Char) : List UInt8 := text.map Char.toUInt8

theorem ofUInt8_toUInt8 {c : Char} (digit : c.isDigit = true) : Char.ofUInt8 c.toUInt8 = c := by
  simp only [Char.isDigit, ge_iff_le, Bool.and_eq_true, decide_eq_true_eq] at digit
  have below : c.val.toNat ≤ 57 := UInt32.le_iff_toNat_le.1 digit.2
  have narrowed : c.val.toUInt8.toUInt32.toNat = c.val.toNat := by
    rw [UInt8.toNat_toUInt32, UInt32.toNat_toUInt8]
    omega
  exact Char.ext (UInt32.toNat_inj.1 narrowed)

/-- A number in decimals. -/
def digits (n : Nat) : List UInt8 := ascii (Nat.toDigits 10 n)

/-- The number that decimals spell. -/
def ofDigits (word : List UInt8) : Nat := Nat.ofDigitChars 10 (word.map Char.ofUInt8) 0

theorem ofDigits_digits (n : Nat) : ofDigits (digits n) = n := by
  have chars : (digits n).map Char.ofUInt8 = Nat.toDigits 10 n := by
    rw [digits, ascii, List.map_map]
    refine (List.map_congr_left fun c c_mem => ?_).trans (List.map_id _)
    exact ofUInt8_toUInt8 (Nat.isDigit_of_mem_toDigits (by decide) (by decide) c_mem)
  rw [ofDigits, chars]
  exact Nat.ofDigitChars_ten_toDigits

theorem notMem_digits {stop : UInt8} (not_digit : (Char.ofUInt8 stop).isDigit = false) (n : Nat) :
    stop ∉ digits n := by
  intro mem
  rcases List.mem_map.1 mem with ⟨c, c_mem, rfl⟩
  have digit := Nat.isDigit_of_mem_toDigits (by decide) (by decide) c_mem
  rw [ofUInt8_toUInt8 digit, digit] at not_digit
  cases not_digit

/-- A number up to a given byte. -/
def number (stop : UInt8) (not_digit : (Char.ofUInt8 stop).isDigit = false) :
    WireFormat UInt8 Nat :=
    (terminated stop).encoded (fun n => ⟨digits n, notMem_digits not_digit n⟩)
      (fun word => some (ofDigits word.1)) (fun n => congrArg some (ofDigits_digits n))

/-- The bytes of a text. -/
def utf8 (text : String) : List UInt8 := text.toUTF8.data.toList

/-- The text of bytes. -/
def ofUtf8 (word : List UInt8) : Option String := String.fromUTF8? ⟨word.toArray⟩

theorem ofUtf8_utf8 (text : String) : ofUtf8 (utf8 text) = some text := by
  have same : (⟨(utf8 text).toArray⟩ : ByteArray) = text.toUTF8 := rfl
  rw [ofUtf8, same, String.fromUTF8?, String.toUTF8_eq_toByteArray, dif_pos text.isValidUTF8]
  rfl

/-- The rest of a string after its opening quote. -/
def quoted : WireFormat UInt8 String :=
    (escaped (show (34 : UInt8) ≠ 92 by decide)).encoded utf8 ofUtf8 ofUtf8_utf8

end WireFormat
