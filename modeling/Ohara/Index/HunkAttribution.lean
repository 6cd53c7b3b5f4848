import Mathlib.Data.List.Sort
import Ohara.Git.HunkHeaders
import Ohara.Index.Attribution
import Ohara.Library.Lines
import Ohara.Storage.HunkSymbols

/-!
# The symbols a hunk touches

`attribute_hunk` takes the symbols whose lines meet a post-image range, and after them those that
a heading names. A symbol is kept once, and an exact span before a heading.
-/

namespace Ohara

/-! ## The symbol of a heading -/

/-- The keywords of definitions, in the order in which they are looked for. -/
def headerKeywords : List (String × SymbolKind) :=
    [("fn", .function), ("def", .function), ("function", .function), ("class", .classKind),
      ("struct", .classKind), ("enum", .classKind), ("interface", .classKind),
      ("trait", .classKind), ("object", .classKind), ("const", .const)]

/-- A character of an identifier; `is_ascii_alphanumeric` is false of all others. -/
def isIdentChar (c : Char) : Bool :=
    c.isAlphanum || decide (c = '_')

/-- What follows the first occurrence of the keyword that is not the end of a longer word. -/
def afterKeyword (keyword : String) (suffix : List Char) : Option (List Char) :=
    ((Markers.occurrences (keyword.toList ++ [' ']) 0 none suffix).find? fun found =>
      found.1.all fun c => !isIdentChar c).map Prod.snd

/-- The name and kind of the declaration in a heading. -/
def parseSymbolFromHeaderSuffix (suffix : List Char) : Option (String × SymbolKind) :=
    headerKeywords.findSome? fun entry =>
      match afterKeyword entry.1 suffix with
      | some rest =>
          let name := rest.takeWhile isIdentChar
          if name = [] then none else some (String.ofList name, entry.2)
      | none => none

/-! ## `attribute_hunk` -/

/-- What a hunk is attributed from. -/
structure AttributionInputs where
  diffText : String
  symbols : Option (List Symbol)
  source : Option String

/-- The kinds in the order of their declaration. -/
instance : Ord SymbolKind where
  compare := compareOn SymbolKind.ctorIdx

/-- The order of the map's keys. -/
def compareHunkKey : SymbolKind × String → SymbolKind × String → Ordering :=
    compareLex (compareOn Prod.fst) (compareOn Prod.snd)

/-- The `BTreeMap` of the attributions. -/
abbrev Attributions := Std.TreeMap (SymbolKind × String) HunkSymbol compareHunkKey

/-- `u32::MAX`. -/
def u32Max : Nat := 2 ^ 32 - 1

/-- The sum and the difference saturate. -/
def intersects (span range : Nat × Nat) : Bool :=
    let rangeEnd := min (range.1 + range.2) u32Max - 1
    decide (span.1 ≤ rangeEnd) && decide (range.1 ≤ span.2)

/-- The symbol has a line in one of the ranges. -/
def Symbol.meets (symbol : Symbol) (ranges : List (Nat × Nat)) (source : String) : Bool :=
    ranges.any (intersects (byteSpanToLineSpan symbol.spanStart symbol.spanEnd source))

/-- The symbol, as one whose lines are changed. -/
def exactSpanEntry (symbol : Symbol) : HunkSymbol where
  kind := symbol.kind
  name := symbol.name
  qualifiedName := symbol.qualifiedName
  attribution := .exactSpan

/-- The declaration of a heading. -/
def hunkHeaderEntry (name : String) (kind : SymbolKind) : HunkSymbol where
  kind := kind
  name := name
  qualifiedName := none
  attribution := .hunkHeader

/-- A symbol replaces an earlier one of its kind and name. -/
def exactSpanStep (ranges : List (Nat × Nat)) (source : String) (out : Attributions)
    (symbol : Symbol) : Attributions :=
    if symbol.meets ranges source then
      out.insert (symbol.kind, symbol.name) (exactSpanEntry symbol)
    else out

/-- A heading adds what the map does not have. -/
def hunkHeaderStep (out : Attributions) (suffix : List Char) : Attributions :=
    match parseSymbolFromHeaderSuffix suffix with
    | some (name, kind) => out.insertIfNew (kind, name) (hunkHeaderEntry name kind)
    | none => out

/-- The symbols that the hunk's lines meet. -/
def exactSpans (inputs : AttributionInputs) : Attributions :=
    match inputs.symbols, inputs.source with
    | some symbols, some source =>
        symbols.foldl (exactSpanStep (parsePostImageRanges inputs.diffText) source) ∅
    | _, _ => ∅

/-- The attributions of a hunk, each kind and name once. -/
def attributeHunk (inputs : AttributionInputs) : List HunkSymbol :=
    ((parseHunkHeaderSuffixes inputs.diffText).foldl hunkHeaderStep (exactSpans inputs)).toList.map
      Prod.snd

/-! ## The attributions of a diff -/

/-- A byte of the symbol is on the line; an empty symbol is on the line it starts on. -/
def Symbol.OnLine (symbol : Symbol) (source : String) (line : Nat) : Prop :=
    let bytes := source.toList.flatMap String.utf8EncodeChar
    ∃ pos, (pos = symbol.spanStart.toNat ∨
        symbol.spanStart.toNat ≤ pos ∧ pos < symbol.spanEnd.toNat ∧ pos < bytes.length) ∧
      Lines.lineOf 0x0a bytes pos = line

/-- A line of the symbol is in the post-image of a hunk. -/
def Symbol.Intersects (symbol : Symbol) (source : String) (lines : List GitLine) : Prop :=
    ∃ header, .hunk header ∈ lines ∧ ∃ line, symbol.OnLine source line ∧ header.newRange.Covers line

/-- The suffix has a keyword of the kind as a word, and after a blank the name. -/
def SuffixNames (suffix : List Char) (kind : SymbolKind) (name : String) : Prop :=
    ∃ keyword before after, (keyword, kind) ∈ headerKeywords ∧
      suffix = before ++ keyword.toList ++ ' ' :: name.toList ++ after ∧
      name ≠ "" ∧ (∀ c ∈ name.toList, isIdentChar c = true) ∧
      (∀ c ∈ before.getLast?, isIdentChar c = false) ∧ ∀ c ∈ after.head?, isIdentChar c = false

/-- Kind and name. -/
def Symbol.attributionKey (symbol : Symbol) : SymbolKind × String :=
    (symbol.kind, symbol.name)

/-- An entry of this kind is among the attributions. -/
def Attributed (result : List HunkSymbol) (attribution : AttributionKind)
    (key : SymbolKind × String) : Prop :=
    ∃ entry ∈ result, entry.attribution = attribution ∧ entry.kindAndName = key

/-- What the result of `attribute_hunk` says about a diff. -/
structure AttributesExactly (lines : List GitLine) (symbols : Option (List Symbol))
    (source : Option String) (result : List HunkSymbol) : Prop where
  exact_span : ∀ key, Attributed result .exactSpan key ↔
    ∃ listed ∈ symbols, ∃ text ∈ source, ∃ symbol ∈ listed, symbol.attributionKey = key ∧
      symbol.Intersects text lines
  hunk_header : ∀ key, Attributed result .hunkHeader key →
    (∃ header, .hunk header ∈ lines ∧ SuffixNames header.suffix key.1 key.2) ∧
      ¬Attributed result .exactSpan key
  once : (result.map HunkSymbol.kindAndName).Nodup

/-! ## The map -/

instance : Std.TransOrd SymbolKind :=
  inferInstanceAs (Std.TransCmp (compareOn SymbolKind.ctorIdx))

instance : Std.LawfulEqOrd SymbolKind where
  eq_of_compare {kind other} same := by
    cases kind <;> cases other <;> first | rfl | cases same

instance : Std.TransCmp compareHunkKey :=
  inferInstanceAs (Std.TransCmp (compareLex (compareOn Prod.fst) (compareOn Prod.snd)))

instance : Std.LawfulEqCmp compareHunkKey where
  eq_of_compare {key other} same := by
    rw [compareHunkKey, compareLex_eq_eq] at same
    exact Prod.ext (Std.LawfulEqCmp.eq_of_compare same.1) (Std.LawfulEqCmp.eq_of_compare same.2)

namespace Attributions

/-- Every entry is filed under its own key. -/
def Filed (out : Attributions) : Prop :=
    ∀ (key : SymbolKind × String) (entry : HunkSymbol),
      out[key]? = some entry → entry.kindAndName = key

/-- An entry of this kind is in the map. -/
def Holds (out : Attributions) (attribution : AttributionKind) (key : SymbolKind × String) : Prop :=
    ∃ entry : HunkSymbol, out[key]? = some entry ∧ entry.attribution = attribution

section Map

variable {out : Attributions} {key : SymbolKind × String} {entry : HunkSymbol}
  {attribution : AttributionKind}

theorem getElem?_insert_key :
    (out.insert entry.kindAndName entry)[key]? =
      if entry.kindAndName = key then some entry else out[key]? := by
  rw [Std.TreeMap.getElem?_insert]
  simp only [Std.LawfulEqCmp.compare_eq_iff_eq]

theorem getElem?_insertIfNew_key :
    (out.insertIfNew entry.kindAndName entry)[key]? =
      if entry.kindAndName = key ∧ out[key]? = none then some entry else out[key]? := by
  rw [Std.TreeMap.getElem?_insertIfNew]
  simp only [Std.LawfulEqCmp.compare_eq_iff_eq]
  by_cases same : entry.kindAndName = key
  · subst same
    simp
  · simp [same]

theorem Filed.insert (filed : Filed out) (entry : HunkSymbol) :
    Filed (out.insert entry.kindAndName entry) := by
  intro key found at_key
  rw [getElem?_insert_key] at at_key
  split at at_key
  case isTrue same =>
    cases at_key
    exact same
  · exact filed key found at_key

theorem Filed.insertIfNew (filed : Filed out) (entry : HunkSymbol) :
    Filed (out.insertIfNew entry.kindAndName entry) := by
  intro key found at_key
  rw [getElem?_insertIfNew_key] at at_key
  split at at_key
  case isTrue fresh =>
    cases at_key
    exact fresh.1
  · exact filed key found at_key

theorem Filed.attributed_iff (filed : Filed out) :
    Attributed (out.toList.map Prod.snd) attribution key ↔ Holds out attribution key := by
  constructor
  · rintro ⟨entry, entry_mem, same_attribution, rfl⟩
    rcases List.mem_map.1 entry_mem with ⟨⟨key, entry⟩, pair_mem, rfl⟩
    have at_key := Std.TreeMap.mem_toList_iff_getElem?_eq_some.1 pair_mem
    rw [← filed key entry at_key] at at_key
    exact ⟨entry, at_key, same_attribution⟩
  · rintro ⟨entry, at_key, same_attribution⟩
    refine ⟨entry, List.mem_map.2 ⟨(key, entry), ?_, rfl⟩, same_attribution, filed key entry at_key⟩
    exact Std.TreeMap.mem_toList_iff_getElem?_eq_some.2 at_key

theorem Filed.nodup (filed : Filed out) :
    ((out.toList.map Prod.snd).map HunkSymbol.kindAndName).Nodup := by
  have keys : (out.toList.map Prod.snd).map HunkSymbol.kindAndName = out.toList.map Prod.fst := by
    rw [List.map_map]
    apply List.map_congr_left
    rintro ⟨key, entry⟩ entry_mem
    exact filed key entry (Std.TreeMap.mem_toList_iff_getElem?_eq_some.1 entry_mem)
  rw [keys, List.Nodup, List.pairwise_map]
  apply Std.TreeMap.distinct_keys_toList.imp
  intro pair other distinct same
  exact distinct (Std.LawfulEqCmp.compare_eq_iff_eq.2 same)

theorem holds_insert (entry : HunkSymbol) : Holds (out.insert entry.kindAndName entry) attribution key ↔
    entry.kindAndName = key ∧ entry.attribution = attribution ∨
      entry.kindAndName ≠ key ∧ Holds out attribution key := by
  simp only [Holds, getElem?_insert_key]
  by_cases same : entry.kindAndName = key
  · simp [same]
  · simp [same]

theorem holds_insertIfNew (entry : HunkSymbol) :
    Holds (out.insertIfNew entry.kindAndName entry) attribution key ↔
      entry.kindAndName = key ∧ out[key]? = none ∧ entry.attribution = attribution ∨
        Holds out attribution key := by
  simp only [Holds, getElem?_insertIfNew_key]
  by_cases fresh : entry.kindAndName = key ∧ out[key]? = none
  · simp [fresh]
  · rw [not_and] at fresh
    constructor
    · rintro ⟨found, at_key, same⟩
      rw [if_neg (by tauto)] at at_key
      exact .inr ⟨found, at_key, same⟩
    · rintro (⟨same_key, empty, -⟩ | ⟨found, at_key, same⟩)
      · exact absurd empty (fresh same_key)
      · refine ⟨found, ?_, same⟩
        rw [if_neg (by tauto)]
        exact at_key

end Map

/-! ## The two phases -/

section Phases

variable {ranges : List (Nat × Nat)} {source : String} {out : Attributions} {symbol : Symbol}
  {key : SymbolKind × String} {suffix : List Char}

theorem Filed.exactSpanStep (filed : Filed out) :
    Filed (exactSpanStep ranges source out symbol) := by
  unfold Ohara.exactSpanStep
  split
  · exact filed.insert (exactSpanEntry symbol)
  · exact filed

theorem Filed.hunkHeaderStep (filed : Filed out) : Filed (hunkHeaderStep out suffix) := by
  unfold Ohara.hunkHeaderStep
  split
  · next name kind _ => exact filed.insertIfNew (hunkHeaderEntry name kind)
  · exact filed

theorem holds_exactSpanStep : Holds (exactSpanStep ranges source out symbol) .exactSpan key ↔
    symbol.attributionKey = key ∧ symbol.meets ranges source = true ∨ Holds out .exactSpan key := by
  by_cases meets : symbol.meets ranges source = true
  · rw [exactSpanStep, if_pos meets]
    refine (holds_insert (exactSpanEntry symbol)).trans ?_
    by_cases same : symbol.attributionKey = key
    · exact iff_of_true (.inl ⟨same, rfl⟩) (.inl ⟨same, meets⟩)
    · have other_key : (exactSpanEntry symbol).kindAndName ≠ key := same
      simp [same, other_key]
  · rw [exactSpanStep, if_neg meets]
    simp [meets]

theorem not_holds_exactSpanStep (none_yet : ¬Holds out .hunkHeader key) :
    ¬Holds (exactSpanStep ranges source out symbol) .hunkHeader key := by
  unfold exactSpanStep
  split
  · intro holds
    rcases (holds_insert (exactSpanEntry symbol)).1 holds with ⟨-, other⟩ | ⟨-, before⟩
    · cases other
    · exact none_yet before
  · exact none_yet

theorem holds_hunkHeaderStep_exactSpan :
    Holds (hunkHeaderStep out suffix) .exactSpan key ↔ Holds out .exactSpan key := by
  unfold hunkHeaderStep
  split
  · next name kind _ =>
      refine (holds_insertIfNew (hunkHeaderEntry name kind)).trans ?_
      simp [hunkHeaderEntry]
  · exact Iff.rfl

theorem of_holds_hunkHeaderStep (holds : Holds (hunkHeaderStep out suffix) .hunkHeader key) :
    Holds out .hunkHeader key ∨ parseSymbolFromHeaderSuffix suffix = some (key.2, key.1) := by
  unfold hunkHeaderStep at holds
  split at holds
  · next name kind read =>
      rcases (holds_insertIfNew (hunkHeaderEntry name kind)).1 holds with ⟨same, -⟩ | before
      · right
        rw [read, ← same]
        rfl
      · exact .inl before
  · exact .inl holds

/-! ### Over all symbols and suffixes -/

theorem Filed.foldl_exactSpanStep (filed : Filed out) (symbols : List Symbol) :
    Filed (symbols.foldl (Ohara.exactSpanStep ranges source) out) := by
  induction symbols generalizing out with
  | nil => exact filed
  | cons symbol rest ih => exact ih filed.exactSpanStep

theorem Filed.foldl_hunkHeaderStep (filed : Filed out) (suffixes : List (List Char)) :
    Filed (suffixes.foldl Ohara.hunkHeaderStep out) := by
  induction suffixes generalizing out with
  | nil => exact filed
  | cons suffix rest ih => exact ih filed.hunkHeaderStep

theorem holds_foldl_exactSpanStep (symbols : List Symbol) :
    Holds (symbols.foldl (exactSpanStep ranges source) out) .exactSpan key ↔
      (∃ symbol ∈ symbols, symbol.attributionKey = key ∧ symbol.meets ranges source = true) ∨
        Holds out .exactSpan key := by
  induction symbols generalizing out with
  | nil => simp
  | cons symbol rest ih =>
      rw [List.foldl_cons, ih, holds_exactSpanStep, List.exists_mem_cons_iff, or_left_comm, or_assoc]

theorem not_holds_foldl_exactSpanStep (none_yet : ¬Holds out .hunkHeader key)
    (symbols : List Symbol) :
    ¬Holds (symbols.foldl (exactSpanStep ranges source) out) .hunkHeader key := by
  induction symbols generalizing out with
  | nil => exact none_yet
  | cons symbol rest ih => exact ih (not_holds_exactSpanStep none_yet)

theorem holds_foldl_hunkHeaderStep_exactSpan (suffixes : List (List Char)) :
    Holds (suffixes.foldl hunkHeaderStep out) .exactSpan key ↔ Holds out .exactSpan key := by
  induction suffixes generalizing out with
  | nil => exact Iff.rfl
  | cons suffix rest ih => exact ih.trans holds_hunkHeaderStep_exactSpan

theorem of_holds_foldl_hunkHeaderStep {suffixes : List (List Char)}
    (holds : Holds (suffixes.foldl hunkHeaderStep out) .hunkHeader key) :
    Holds out .hunkHeader key ∨
      ∃ suffix ∈ suffixes, parseSymbolFromHeaderSuffix suffix = some (key.2, key.1) := by
  induction suffixes generalizing out with
  | nil => exact .inl holds
  | cons suffix rest ih =>
      rcases ih holds with before | ⟨later, later_mem, read⟩
      · rcases of_holds_hunkHeaderStep before with before | read
        · exact .inl before
        · exact .inr ⟨suffix, List.mem_cons_self, read⟩
      · exact .inr ⟨later, List.mem_cons_of_mem suffix later_mem, read⟩

end Phases

end Attributions

/-! ## Lines of a symbol -/

theorem lineAt_eq (bytes : List UInt8) (pos : Nat) :
    lineAt bytes pos = min (Lines.lineOf 0x0a bytes pos) u32Max := rfl

/-- The line numbers saturate, and that is all. -/
theorem byteSpanToLineSpan_eq (spanStart spanEnd : UInt32) (source : String) :
    byteSpanToLineSpan spanStart spanEnd source =
      (min (Lines.lineOf 0x0a (source.toList.flatMap String.utf8EncodeChar) spanStart.toNat) u32Max,
        min (Lines.lastLine 0x0a (source.toList.flatMap String.utf8EncodeChar) spanStart.toNat
          spanEnd.toNat) u32Max) := by
  set bytes := source.toList.flatMap String.utf8EncodeChar with bytes_eq
  have first : lineAt bytes (min spanStart.toNat bytes.length) =
      min (Lines.lineOf 0x0a bytes spanStart.toNat) u32Max := by
    rw [lineAt_eq, Lines.lineOf_min]
  unfold byteSpanToLineSpan
  simp only [← bytes_eq, first, Lines.lastLine]
  congr 1
  split
  case isTrue empty =>
    have front := Lines.lineOf_mono 0x0a bytes (Nat.zero_le spanStart.toNat)
    simp [empty, front]
  · rw [lineAt_eq, ← min_max_distrib_right]

theorem Symbol.onLine_iff {symbol : Symbol} {source : String} {line : Nat} :
    symbol.OnLine source line ↔
      Lines.lineOf 0x0a (source.toList.flatMap String.utf8EncodeChar) symbol.spanStart.toNat ≤ line ∧
        line ≤ Lines.lastLine 0x0a (source.toList.flatMap String.utf8EncodeChar)
          symbol.spanStart.toNat symbol.spanEnd.toNat :=
  Lines.exists_pos_iff _ _ _ _ _

/-- Ends that saturate meet a range below the bound when the lines do. -/
theorem intersects_iff {first last start count : Nat} (ordered : first ≤ last) (lines : count ≠ 0)
    (from_one : start ≠ 0) (bound : start + count < u32Max) :
    intersects (min first u32Max, min last u32Max) (start, count) = true ↔
      ∃ line, (first ≤ line ∧ line ≤ last) ∧ start ≤ line ∧ line < start + count := by
  simp only [intersects, Bool.and_eq_true, decide_eq_true_eq]
  constructor
  · rintro ⟨before_end, after_start⟩
    refine ⟨max first start, ?_⟩
    omega
  · rintro ⟨line, within, covered⟩
    omega

theorem Symbol.meets_iff {symbol : Symbol} {source : String} {lines : List GitLine} :
    symbol.meets (parsePostImageRanges (gitDiff lines)) source = true ↔
      symbol.Intersects source lines := by
  have ordered : Lines.lineOf 0x0a (source.toList.flatMap String.utf8EncodeChar)
      symbol.spanStart.toNat ≤ Lines.lastLine 0x0a (source.toList.flatMap String.utf8EncodeChar)
        symbol.spanStart.toNat symbol.spanEnd.toNat := le_max_right _ _
  have per_header : ∀ header : HunkHeader, header.newRange.lines ≠ 0 →
      (intersects (byteSpanToLineSpan symbol.spanStart symbol.spanEnd source)
        (header.newRange.start, header.newRange.lines) = true ↔
        ∃ line, symbol.OnLine source line ∧ header.newRange.Covers line) := by
    intro header nonempty
    have from_one : header.newRange.start ≠ 0 := header.newRange.start_ne_zero nonempty
    rw [byteSpanToLineSpan_eq, intersects_iff ordered nonempty from_one header.newRange.end_lt]
    simp only [onLine_iff, LineRange.Covers]
  rw [meets, List.any_eq_true]
  constructor
  · rintro ⟨range, range_mem, meets⟩
    rcases mem_parsePostImageRanges.1 range_mem with ⟨header, header_mem, nonempty, rfl⟩
    exact ⟨header, header_mem, (per_header header nonempty).1 meets⟩
  · rintro ⟨header, header_mem, line, on_line, covers⟩
    have nonempty : header.newRange.lines ≠ 0 := by
      intro empty
      rw [LineRange.Covers, empty] at covers
      omega
    refine ⟨_, mem_parsePostImageRanges.2 ⟨header, header_mem, nonempty, rfl⟩, ?_⟩
    exact (per_header header nonempty).2 ⟨line, on_line, covers⟩

/-! ## The name in a heading -/

theorem isIdentChar_blank {c : Char} (blank : isWhitespace c = true) : isIdentChar c = false := by
  have not_underscore : c ≠ '_' := by
    rintro rfl
    exact absurd blank (by decide)
  simp [isWhitespace] at blank
  delta isIdentChar Char.isAlphanum Char.isAlpha Char.isUpper Char.isLower Char.isDigit
  simp [not_underscore, UInt32.le_iff_toNat_le]
  omega

/-- Blanks around a suffix do not change what it names. -/
theorem SuffixNames.surrounded {inner outer : List Char} {kind : SymbolKind} {name : String}
    (names : SuffixNames inner kind name) (surrounded : Surrounded inner outer) :
    SuffixNames outer kind name := by
  rcases names with ⟨keyword, before, after, entry_mem, rfl, nonempty, ident, start, stop⟩
  rcases surrounded with ⟨front, back, rfl, front_blank, back_blank⟩
  refine ⟨keyword, front ++ before, after ++ back, entry_mem, by simp, nonempty, ident, ?_, ?_⟩
  · intro c c_mem
    cases before with
    | nil =>
        rw [List.append_nil] at c_mem
        exact isIdentChar_blank (front_blank c (List.mem_of_getLast? c_mem))
    | cons x before =>
        rw [List.getLast?_append_of_ne_nil _ (List.cons_ne_nil x before)] at c_mem
        exact start c c_mem
  · intro c c_mem
    cases after with
    | nil => exact isIdentChar_blank (back_blank c (List.mem_of_head? c_mem))
    | cons x after => exact stop c c_mem

theorem afterKeyword_eq_some {keyword : String} {suffix rest : List Char}
    (found : afterKeyword keyword suffix = some rest) :
    ∃ before, suffix = before ++ keyword.toList ++ ' ' :: rest ∧
      ∀ c ∈ before.getLast?, isIdentChar c = false := by
  rcases Option.map_eq_some_iff.1 found with ⟨⟨last, rest⟩, first, rfl⟩
  have occurs : (last, rest) ∈ Markers.occurrences (keyword.toList ++ [' ']) 0
      ([] : List Char).getLast? suffix := List.mem_of_find?_eq_some first
  rcases Markers.cut_of_mem_occurrences occurs with ⟨before, cut, rfl⟩
  refine ⟨before, by simpa using cut, ?_⟩
  have boundary := List.find?_some first
  intro c c_mem
  rw [Option.mem_def] at c_mem
  simpa [c_mem] using boundary

theorem parseSymbolFromHeaderSuffix_names {suffix : List Char} {name : String} {kind : SymbolKind}
    (read : parseSymbolFromHeaderSuffix suffix = some (name, kind)) :
    SuffixNames suffix kind name := by
  rcases List.exists_of_findSome?_eq_some read with ⟨⟨keyword, kind'⟩, entry_mem, found⟩
  simp only at found
  split at found
  case h_1 rest after_keyword =>
    rcases Option.ite_none_left_eq_some.1 found with ⟨nonempty, same⟩
    cases same
    rcases afterKeyword_eq_some after_keyword with ⟨before, rfl, boundary⟩
    refine ⟨keyword, before, rest.dropWhile isIdentChar, entry_mem, ?_, ?_, ?_, boundary, ?_⟩
    · simp
    · simpa using nonempty
    · intro c c_mem
      rw [String.toList_ofList] at c_mem
      exact List.mem_takeWhile_imp c_mem
    · intro c c_mem
      have stop := List.head?_dropWhile_not isIdentChar rest
      rw [Option.mem_def.1 c_mem] at stop
      exact stop
  · cases found

/-! ## The result -/

namespace Attributions

variable (inputs : AttributionInputs)

theorem filed_empty : Filed ∅ := by
  intro key entry at_key
  simp at at_key

theorem not_holds_empty (attribution : AttributionKind) (key : SymbolKind × String) :
    ¬Holds ∅ attribution key := by
  rintro ⟨entry, at_key, -⟩
  simp at at_key

theorem filed_exactSpans : Filed (exactSpans inputs) := by
  unfold exactSpans
  split
  · exact filed_empty.foldl_exactSpanStep _
  · exact filed_empty

theorem not_holds_exactSpans (key : SymbolKind × String) :
    ¬Holds (exactSpans inputs) .hunkHeader key := by
  unfold exactSpans
  split
  · exact not_holds_foldl_exactSpanStep (not_holds_empty _ key) _
  · exact not_holds_empty _ key

theorem holds_exactSpans {key : SymbolKind × String} :
    Holds (exactSpans inputs) .exactSpan key ↔
      ∃ listed ∈ inputs.symbols, ∃ text ∈ inputs.source, ∃ symbol ∈ listed,
        symbol.attributionKey = key ∧
          symbol.meets (parsePostImageRanges inputs.diffText) text = true := by
  rcases inputs with ⟨diffText, symbols, source⟩
  cases symbols with
  | none => simp [exactSpans, not_holds_empty]
  | some listed =>
      cases source with
      | none => simp [exactSpans, not_holds_empty]
      | some text => simp [exactSpans, holds_foldl_exactSpanStep, not_holds_empty]

theorem Holds.unique {out : Attributions} {key : SymbolKind × String}
    {attribution other : AttributionKind} (holds : Holds out attribution key)
    (holds_other : Holds out other key) : attribution = other := by
  rcases holds with ⟨entry, at_key, rfl⟩
  rcases holds_other with ⟨entry', at_key', rfl⟩
  rw [at_key] at at_key'
  rw [Option.some.inj at_key']

end Attributions

open Attributions

/-- A diff in git's format is attributed exactly. -/
theorem attributeHunk_attributesExactly (lines : List GitLine) (symbols : Option (List Symbol))
    (source : Option String) :
    AttributesExactly lines symbols source (attributeHunk ⟨gitDiff lines, symbols, source⟩) := by
  have filed := (filed_exactSpans ⟨gitDiff lines, symbols, source⟩).foldl_hunkHeaderStep
    (parseHunkHeaderSuffixes (gitDiff lines))
  constructor
  · intro key
    refine filed.attributed_iff.trans ?_
    rw [holds_foldl_hunkHeaderStep_exactSpan, holds_exactSpans]
    simp only [Symbol.meets_iff]
  · intro key attributed
    have holds := filed.attributed_iff.1 attributed
    constructor
    · rcases of_holds_foldl_hunkHeaderStep holds with before | ⟨suffix, suffix_mem, read⟩
      · exact absurd before (not_holds_exactSpans _ key)
      · rcases surrounded_of_mem_suffixes suffix_mem with ⟨header, header_mem, surrounded⟩
        exact ⟨header, header_mem, (parseSymbolFromHeaderSuffix_names read).surrounded surrounded⟩
    · intro exact_span
      cases holds.unique (filed.attributed_iff.1 exact_span)
  · exact filed.nodup

-- the second hunk leaves no line
example :
    (attributeHunk
      { diffText := "@@ -2 +2 @@ class Foo:\n-b\n+c\n@@ -5 +4,0 @@\n-d\n"
        symbols := some [OneFile.symbol "a" 0 1, OneFile.symbol "b" 2 3, OneFile.symbol "d" 6 7]
        source := some "a\nc\n\nd\n" }).map HunkSymbol.kindAndName =
      [(.function, "b"), (.classKind, "Foo")] := by
  decide +kernel

end Ohara
