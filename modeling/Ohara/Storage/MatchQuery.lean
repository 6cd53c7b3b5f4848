import Ohara.Library.Like
import Ohara.Library.Words
import Ohara.Storage.Schema

/-!
# What the lanes hand to `MATCH` and `LIKE`

`sanitize_fts5_query` for the BM25 lanes and the pattern of the historical-symbol lane. What Rust
takes from the Unicode tables is given by a value of `Unicode`; SQLite's own `LOWER` and `LIKE`
fold the letters of ASCII only.
-/

namespace Ohara

/-- `char::is_ascii`. -/
def isAscii (c : Char) : Bool :=
    decide (c.toNat < 128)

/-- `char::is_whitespace`, the property `White_Space`. -/
def isWhitespace (c : Char) : Bool :=
    (decide (0x09 ≤ c.toNat) && decide (c.toNat ≤ 0x0d)) ||
      [0x20, 0x85, 0xa0, 0x1680, 0x2028, 0x2029, 0x202f, 0x205f, 0x3000].contains c.toNat ||
      (decide (0x2000 ≤ c.toNat) && decide (c.toNat ≤ 0x200a))

/-- `char::is_alphanumeric` and `str::to_lowercase`. -/
structure Unicode where
  isAlphanumeric : Char → Bool
  toLowercase : String → String
  isAlphanumeric_ascii : ∀ c, isAscii c = true → isAlphanumeric c = c.isAlphanum
  isAlphanumeric_blank : ∀ c, isWhitespace c = true → isAlphanumeric c = false
  toLowercase_ascii : ∀ text, text.toList.all isAscii = true →
    toLowercase text = String.ofList (text.toList.map Char.toLower)

/-- Tables that know the characters of ASCII only. -/
def Unicode.ascii : Unicode where
  isAlphanumeric c := isAscii c && c.isAlphanum && !isWhitespace c
  toLowercase text := String.ofList (text.toList.map Char.toLower)
  isAlphanumeric_ascii c ascii := by
    have apart : c.isAlphanum = true → isWhitespace c = false := by
      intro alphanum
      delta Char.isAlphanum Char.isAlpha Char.isUpper Char.isLower Char.isDigit at alphanum
      simp [UInt32.le_iff_toNat_le] at alphanum
      simp [isWhitespace]
      omega
    cases alphanum : c.isAlphanum with
    | false => simp
    | true => simp [ascii, apart alphanum]
  isAlphanumeric_blank c blank := by simp [blank]
  toLowercase_ascii _ _ := rfl

/-! ## `sanitize_fts5_query` -/

/-- The characters a query keeps. -/
def Unicode.isWordChar (u : Unicode) (c : Char) : Bool :=
    u.isAlphanumeric c || decide (c = '_')

/-- One character of the query with the text so far and `last_was_space`. -/
def sanitizeStep (u : Unicode) (state : List Char × Bool) (c : Char) : List Char × Bool :=
    if u.isWordChar c then (state.1 ++ [c], false)
    else if !state.2 then (state.1 ++ [' '], true)
    else state

/-- `str::trim`. -/
def trim (text : List Char) : List Char :=
    (text.dropWhile isWhitespace).rdropWhile isWhitespace

/-- Words of the query with blanks for everything else. -/
def sanitizeFts5Query (u : Unicode) (query : String) : String :=
    String.ofList (trim (query.toList.foldl (sanitizeStep u) ([], true)).1)

/-! ## The pattern of the historical-symbol lane -/

/-- SQLite's `LOWER`. -/
def sqlLower (text : String) : List Char :=
    text.toList.map Char.toLower

/-- The letters `LIKE` takes for one another. -/
def sameLetter (p x : Char) : Bool :=
    decide (p.toLower = x.toLower)

/-- The lower-cased query between two `%`. -/
def likeNeedle (u : Unicode) (query : String) : List Char :=
    '%' :: ((u.toLowercase query).toList ++ ['%'])

/-- `LOWER(hs.symbol_name) LIKE :q`. -/
def isCandidate (u : Unicode) (query : String) (row : HunkSymbolRow) : Bool :=
    Like.matchesPattern sameLetter '%' '_' (likeNeedle u query) (sqlLower row.symbolName)

end Ohara
