import Ohara.Index.HunkAttribution

/-!
# The lines of a symbol

`symbol_line_span` is a second copy of the conversion from bytes to lines. It clamps the start of
the span where the line is counted, and not before.
-/

namespace Ohara

/-- The first and the last line of a symbol, from one. -/
def symbolLineSpan (symbol : Symbol) (source : String) : Nat × Nat :=
    let bytes := source.toList.flatMap String.utf8EncodeChar
    let start := symbol.spanStart.toNat
    let stop := min symbol.spanEnd.toNat bytes.length
    let lineAtClamped := fun pos => lineAt bytes (min pos bytes.length)
    let lineStart := lineAtClamped start
    let lineEnd := if stop = 0 then lineStart else lineAtClamped (stop - 1)
    (lineStart, max lineEnd lineStart)

theorem symbolLineSpan_eq (symbol : Symbol) (source : String) :
    symbolLineSpan symbol source
      = byteSpanToLineSpan symbol.spanStart symbol.spanEnd source := by
  have clamped : ∀ stop length : Nat, min (min stop length - 1) length = min stop length - 1 := by
    omega
  simp only [symbolLineSpan, byteSpanToLineSpan, clamped]

section Lines

variable {source : String} {spanStart spanEnd : UInt32}

theorem byteSpanToLineSpan_ordered :
    1 ≤ (byteSpanToLineSpan spanStart spanEnd source).1 ∧
      (byteSpanToLineSpan spanStart spanEnd source).1
        ≤ (byteSpanToLineSpan spanStart spanEnd source).2 := by
  constructor
  · simp [byteSpanToLineSpan, lineAt]
  · exact le_max_right _ _

/-- As many lines as positions at most are before a position. -/
theorem lineOf_le (bytes : List UInt8) (pos : Nat) : Lines.lineOf 0x0a bytes pos ≤ pos + 1 := by
  have counted := (bytes.take pos).count_le_length (a := 0x0a)
  rw [List.length_take] at counted
  rw [Lines.lineOf]
  omega

/-- The lines of a span inside the source do not saturate. -/
theorem byteSpanToLineSpan_inside (nonempty : spanStart < spanEnd)
    (inside : spanEnd.toNat ≤ (source.toList.flatMap String.utf8EncodeChar).length) :
    byteSpanToLineSpan spanStart spanEnd source =
      (Lines.lineOf 0x0a (source.toList.flatMap String.utf8EncodeChar) spanStart.toNat,
        Lines.lastLine 0x0a (source.toList.flatMap String.utf8EncodeChar) spanStart.toNat
          spanEnd.toNat) := by
  rw [UInt32.lt_iff_toNat_lt] at nonempty
  have stop_lt := spanEnd.toNat_lt
  rw [byteSpanToLineSpan_eq, Lines.lastLine, Nat.min_eq_left inside]
  set bytes := source.toList.flatMap String.utf8EncodeChar
  have first := lineOf_le bytes spanStart.toNat
  have last := lineOf_le bytes (spanEnd.toNat - 1)
  rw [u32Max]
  congr 1
  · omega
  · omega

theorem mem_byteSpanToLineSpan (nonempty : spanStart < spanEnd)
    (inside : spanEnd.toNat ≤ (source.toList.flatMap String.utf8EncodeChar).length) (line : Nat) :
    ((byteSpanToLineSpan spanStart spanEnd source).1 ≤ line ∧
        line ≤ (byteSpanToLineSpan spanStart spanEnd source).2) ↔
      ∃ pos, spanStart.toNat ≤ pos ∧ pos < spanEnd.toNat ∧
        Lines.Within 0x0a (source.toList.flatMap String.utf8EncodeChar) pos line := by
  rw [byteSpanToLineSpan_inside nonempty inside, ← Lines.exists_pos_iff]
  rw [UInt32.lt_iff_toNat_lt] at nonempty
  constructor
  · rintro ⟨pos, within, on_line⟩
    have pos_inside : pos < (source.toList.flatMap String.utf8EncodeChar).length := by omega
    exact ⟨pos, by omega, by omega, (Lines.within_iff pos_inside line).2 on_line⟩
  · rintro ⟨pos, from_start, to_stop, on_line⟩
    have pos_inside := lt_of_lt_of_le to_stop inside
    refine ⟨pos, ?_, (Lines.within_iff pos_inside line).1 on_line⟩
    exact .inr ⟨from_start, to_stop, pos_inside⟩

end Lines

/-- Both conversions give the lines that the bytes of the span are on. -/
theorem symbolLineSpan_spec (symbol : Symbol) (source : String) :
    ∃ first last, symbolLineSpan symbol source = (first, last) ∧
      byteSpanToLineSpan symbol.spanStart symbol.spanEnd source = (first, last) ∧
      1 ≤ first ∧ first ≤ last ∧
      (symbol.spanStart < symbol.spanEnd →
        symbol.spanEnd.toNat ≤ (source.toList.flatMap String.utf8EncodeChar).length →
        ∀ line, (first ≤ line ∧ line ≤ last) ↔
          ∃ pos, symbol.spanStart.toNat ≤ pos ∧ pos < symbol.spanEnd.toNat ∧
            Lines.Within 0x0a (source.toList.flatMap String.utf8EncodeChar) pos line) := by
  have range := @byteSpanToLineSpan_ordered source symbol.spanStart symbol.spanEnd
  refine ⟨_, _, symbolLineSpan_eq symbol source, rfl, range.1, range.2, ?_⟩
  intro nonempty inside
  exact mem_byteSpanToLineSpan nonempty inside

/-- The name `b` on the second line of `a\nb`. -/
def symbolB : Symbol where
  filePath := "src/b.rs"
  language := "rust"
  kind := .const
  name := "b"
  qualifiedName := none
  siblingNames := []
  spanStart := 2
  spanEnd := 3
  blobSha := ""
  sourceText := "b"

theorem symbolLineSpan_spec_symbolB :
    ∃ first last, symbolLineSpan symbolB "a\nb" = (first, last) ∧ first ≤ 2 ∧ 2 ≤ last := by
  rcases symbolLineSpan_spec symbolB "a\nb" with ⟨first, last, same, -, -, -, lines⟩
  have covered := (lines (by decide) (by decide +kernel) 2).2
    ⟨2, by decide, by decide, by unfold Lines.Within; decide +kernel⟩
  exact ⟨first, last, same, covered.1, covered.2⟩

end Ohara
