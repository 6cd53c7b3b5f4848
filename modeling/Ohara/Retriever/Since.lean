import Ohara.Retriever.Recency
import Ohara.Storage.Lanes

/-!
# The `since` filter

`parse_since` turns what a client sends into the earliest time a commit may have. A number of days
is any `i64`; it is scaled and taken from the current time without a check, so the cutoff is that of
the days exactly when both results fit.
-/

namespace Ohara

namespace FindPattern

open Retriever

/-- Arithmetic on `i64` values; none where it panics. -/
structure I64Ops where
  mul : Int → Int → Option Int
  sub : SubI64

/-- As a build with overflow checks compiles it. -/
def overflowChecks : I64Ops where
  mul := fun a b => if FitsI64 (a * b) then some (a * b) else none
  sub := checkedSub

/-- As the release profile compiles it. -/
def release : I64Ops where
  mul := fun a b => some ((a * b + 2 ^ 63) % 2 ^ 64 - 2 ^ 63)
  sub := wrappingSub

/-- What the calendar library reads, as unix times. -/
structure Dates where
  rfc3339 : List Char → Option Int
  /-- `%Y-%m-%d`, at midnight. -/
  isoDate : List Char → Option Int

/-- Why a text is no time. -/
inductive SinceError where
  | parseInt
  | parseDate
deriving DecidableEq, Repr

/-- The value of a text of digits. -/
def readDigits (text : List Char) : Option Nat :=
    if text ≠ [] ∧ text.all Char.isDigit = true then some (Nat.ofDigitChars 10 text 0) else none

/-- `str::parse` at `i64`. -/
def parseI64 (text : List Char) : Option Int :=
    match text with
    | '-' :: digits =>
        (readDigits digits).bind fun n => if FitsI64 (-n) then some (-n : Int) else none
    | '+' :: digits => (readDigits digits).bind fun n => if FitsI64 n then some (n : Int) else none
    | digits => (readDigits digits).bind fun n => if FitsI64 n then some (n : Int) else none

/-- `s.strip_suffix('d')`. -/
def stripDays (s : List Char) : Option (List Char) :=
    if s.getLast? = some 'd' then some s.dropLast else none

/-- The outer none is a panic, the inner one the absence of a filter. -/
def parseSince (ops : I64Ops) (dates : Dates) (now : Int) :
    Option (List Char) → Option (Except SinceError (Option Int))
  | none => some (.ok none)
  | some s =>
      if s = [] then some (.ok none)
      else
        match stripDays s with
        | some stripped =>
            match parseI64 stripped with
            | none => some (.error .parseInt)
            | some n => do
                let seconds ← ops.mul n 86400
                let cutoff ← ops.sub now seconds
                return .ok (some cutoff)
        | none =>
            match (dates.rfc3339 s).or (dates.isoDate s) with
            | some ts => some (.ok (some ts))
            | none => some (.error .parseDate)

/-! ## Days -/

/-- The number of days of the form `Nd`. -/
def dayCount (s : Option (List Char)) : Option Int :=
    (s.bind stripDays).bind parseI64

/-- The seconds of the days and the time that many seconds ago are `i64` values. -/
def DaysFit (now : Int) (s : Option (List Char)) : Prop :=
    ∀ days, dayCount s = some days → FitsI64 (days * 86400) ∧ FitsI64 (now - days * 86400)

section Cases

variable {ops : I64Ops} {dates : Dates} {now : Int} {s : Option (List Char)}

theorem parseSince_of_days {days : Int} (form : dayCount s = some days) :
    parseSince ops dates now s
      = (ops.mul days 86400).bind fun seconds =>
          (ops.sub now seconds).map fun cutoff => .ok (some cutoff) := by
  cases s with
  | none => cases form
  | some s =>
      simp only [dayCount, Option.bind_some, Option.bind_eq_some_iff] at form
      rcases form with ⟨stripped, suffix, days_read⟩
      have nonempty : s ≠ [] := by
        rintro rfl
        cases suffix
      simp only [parseSince, if_neg nonempty, suffix, days_read]
      cases ops.mul days 86400 with
      | none => rfl
      | some seconds =>
          simp only [Option.bind_some, Option.bind_eq_bind]
          cases ops.sub now seconds <;> rfl

/-- Without a number of days nothing is computed. -/
theorem parseSince_of_no_days (other : dayCount s = none) :
    ∃ result, ∀ ops, parseSince ops dates now s = some result := by
  cases s with
  | none => exact ⟨.ok none, fun _ => rfl⟩
  | some s =>
      simp only [parseSince]
      split
      · exact ⟨_, fun _ => rfl⟩
      · split
        · next stripped suffix =>
            simp only [dayCount, Option.bind_some, suffix] at other
            simp only [other]
            exact ⟨_, fun _ => rfl⟩
        · split
          · exact ⟨_, fun _ => rfl⟩
          · exact ⟨_, fun _ => rfl⟩

theorem parseSince_overflowChecks {days : Int} (form : dayCount s = some days) :
    parseSince overflowChecks dates now s
      = if FitsI64 (days * 86400) ∧ FitsI64 (now - days * 86400) then
          some (.ok (some (now - days * 86400)))
        else none := by
  rw [parseSince_of_days form]
  by_cases scaled : FitsI64 (days * 86400)
  · by_cases shifted : FitsI64 (now - days * 86400)
    · simp [overflowChecks, checkedSub, scaled, shifted]
    · simp [overflowChecks, checkedSub, scaled, shifted]
  · simp [overflowChecks, scaled]

/-- No overflow, exactly when the days fit. -/
theorem overflowChecks_returns_iff :
    (∃ result, parseSince overflowChecks dates now s = some result) ↔ DaysFit now s := by
  rw [DaysFit]
  cases form : dayCount s with
  | none =>
      rcases @parseSince_of_no_days dates now s form with ⟨result, returned⟩
      simp [returned overflowChecks]
  | some days =>
      rw [parseSince_overflowChecks form]
      by_cases fits : FitsI64 (days * 86400) ∧ FitsI64 (now - days * 86400)
      · simp [fits]
      · simp [fits]

theorem parseSince_release {days : Int} (form : dayCount s = some days) (fits : DaysFit now s) :
    parseSince release dates now s = some (.ok (some (now - days * 86400))) := by
  rcases fits days form with ⟨scaled, shifted⟩
  have product : release.mul days 86400 = some (days * 86400) := by
    rw [FitsI64] at scaled
    simp only [release, Option.some_inj]
    omega
  have difference : release.sub now (days * 86400) = some (now - days * 86400) :=
    wrappingSub_of_fits shifted
  rw [parseSince_of_days form, product, Option.bind_some, difference]
  rfl

end Cases

/-! ## The filter -/

/-- What is promised of a string and of a pair of strings: no build stops or wraps, the filter is
that of the days, and more days do not make it stricter. -/
structure SinceSound (dates : Dates) (now : Int) (s t : Option (List Char)) : Prop where
  returns : ∃ result, parseSince overflowChecks dates now s = some result ∧
    parseSince release dates now s = some result
  filters : ∀ days, dayCount s = some days → ∀ cutoff,
    parseSince release dates now s = some (.ok (some cutoff)) →
      ∀ row : LaneRow, tsFilter (some cutoff) row = true ↔ now - row.commit.ts ≤ days * 86400
  antitone : ∀ n m, dayCount s = some n → dayCount t = some m → n ≤ m → ∀ cutoff cutoff',
    parseSince release dates now s = some (.ok (some cutoff)) →
      parseSince release dates now t = some (.ok (some cutoff')) → cutoff' ≤ cutoff

theorem returns_of_daysFit {dates : Dates} {now : Int} {s : Option (List Char)}
    (fits : DaysFit now s) :
    ∃ result, parseSince overflowChecks dates now s = some result ∧
      parseSince release dates now s = some result := by
  cases form : dayCount s with
  | none =>
      rcases @parseSince_of_no_days dates now s form with ⟨result, returned⟩
      exact ⟨result, returned _, returned _⟩
  | some days =>
      refine ⟨_, ?_, parseSince_release form fits⟩
      rw [parseSince_overflowChecks form, if_pos (fits days form)]

theorem sinceSound_of_daysFit {dates : Dates} {now : Int} {s t : Option (List Char)}
    (fits : DaysFit now s) (fits' : DaysFit now t) : SinceSound dates now s t where
  returns := returns_of_daysFit fits
  filters := by
    intro days form cutoff returned row
    rw [parseSince_release form fits] at returned
    cases returned
    simp only [tsFilter, decide_eq_true_eq]
    omega
  antitone := by
    intro n m form form' le cutoff cutoff' returned returned'
    rw [parseSince_release form fits] at returned
    rw [parseSince_release form' fits'] at returned'
    cases returned
    cases returned'
    omega

/-- The filter keeps its promises exactly when the days that were sent fit. -/
theorem sinceSound_iff (dates : Dates) (now : Int) (s t : Option (List Char)) :
    (SinceSound dates now s t ∧ SinceSound dates now t s) ↔ DaysFit now s ∧ DaysFit now t := by
  constructor
  · rintro ⟨sound, sound'⟩
    rcases sound.returns with ⟨result, checked, -⟩
    rcases sound'.returns with ⟨result', checked', -⟩
    exact ⟨overflowChecks_returns_iff.1 ⟨result, checked⟩,
      overflowChecks_returns_iff.1 ⟨result', checked'⟩⟩
  · rintro ⟨fits, fits'⟩
    exact ⟨sinceSound_of_daysFit fits fits', sinceSound_of_daysFit fits' fits⟩

/-- Parsers that know no date. -/
def noDates : Dates where
  rfc3339 := fun _ => none
  isoDate := fun _ => none

/-- As many days as an `i64` counts. -/
def mostDays : List Char :=
    "9223372036854775807d".toList

/-- The longest window ends the request in one build, and starts tomorrow in the other. -/
theorem not_sinceSound_mostDays :
    parseSince overflowChecks noDates 1700000000 (some mostDays) = none ∧
      parseSince release noDates 1700000000 (some mostDays)
        = some (.ok (some (1700000000 + 86400))) ∧
      ¬∀ dates now s t, FitsI64 now → SinceSound dates now s t := by
  have form : dayCount (some mostDays) = some 9223372036854775807 := by decide +kernel
  have stops : parseSince overflowChecks noDates 1700000000 (some mostDays) = none := by
    rw [parseSince_overflowChecks form]
    decide
  refine ⟨stops, ?_, ?_⟩
  · rw [parseSince_of_days form]
    decide
  · intro all
    rcases (all noDates 1700000000 (some mostDays) none (by decide)).returns with ⟨_, checked, -⟩
    rw [stops] at checked
    cases checked

end FindPattern

end Ohara
