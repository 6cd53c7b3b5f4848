import Mathlib.Data.String.Basic
import Ohara.Explain.Accounting
import Ohara.Explain.Change
import Ohara.Library.Calendar
import Ohara.Library.StableSort

/-!
# The order of explain results

Hits are sorted by the text of their dates. From year 0 to year 9999 texts compare as the times
do; a later date has a sign in front, an earlier one too, and a time outside the calendar has no
text at all.
-/

namespace Ohara

namespace Hydrator

/-- `DateTime::from_timestamp(ts, 0)`. -/
def fromTimestamp (ts : Int) : Option Calendar.DateTime :=
    let date := Calendar.ofUnix ts
    if -262143 ≤ date.year ∧ date.year ≤ 262142 then some date else none

/-- `.map(|d| d.to_rfc3339()).unwrap_or_default()`. -/
def toRfc3339 : DateFormat := fun ts =>
    match fromTimestamp ts with
    | some date => String.ofList date.text
    | none => ""

/-- The year a time falls into. -/
def yearOfTs (ts : Int) : Int :=
    (Calendar.ofUnix ts).year

/-- The times chrono has a date for. -/
def InRange (ts : Int) : Prop :=
    -262143 ≤ yearOfTs ts ∧ yearOfTs ts ≤ 262142

instance (ts : Int) : Decidable (InRange ts) :=
  inferInstanceAs (Decidable (_ ∧ _))

theorem toRfc3339_of_inRange {ts : Int} (in_range : InRange ts) :
    toRfc3339 ts = String.ofList (Calendar.ofUnix ts).text := by
  rw [InRange, yearOfTs] at in_range
  rw [toRfc3339, fromTimestamp, if_pos in_range]

theorem toRfc3339_of_not_inRange {ts : Int} (outside : ¬InRange ts) : toRfc3339 ts = "" := by
  rw [InRange, yearOfTs] at outside
  rw [toRfc3339, fromTimestamp, if_neg outside]

theorem text_ne_nil (date : Calendar.DateTime) : date.text ≠ [] := by
  simp [Calendar.DateTime.text]

theorem inRange_small {ts : Int} (in_range : InRange ts) :
    (Calendar.ofUnix ts).year.natAbs < 1000000 := by
  rw [InRange, yearOfTs] at in_range
  omega

/-- The later of two times has the greater text when it has one and the years are in order. -/
theorem toRfc3339_lt_iff {a b : Int} (before : a < b) :
    toRfc3339 a < toRfc3339 b ↔
      InRange b ∧ (InRange a → Calendar.YearsInOrder (yearOfTs a) (yearOfTs b)) := by
  by_cases b_in : InRange b
  · simp only [b_in, true_and]
    rw [toRfc3339_of_inRange b_in, String.lt_iff_toList_lt, String.toList_ofList]
    by_cases a_in : InRange a
    · simp only [a_in, true_implies]
      rw [toRfc3339_of_inRange a_in, String.toList_ofList]
      exact Calendar.text_lt_iff_of_before (Calendar.ofUnix_short a) (Calendar.ofUnix_short b)
        (inRange_small a_in) (inRange_small b_in) (Calendar.ofUnix_before before)
    · simp only [a_in, false_implies, iff_true]
      rw [toRfc3339_of_not_inRange a_in]
      cases text : (Calendar.ofUnix b).text with
      | nil => exact absurd text (text_ne_nil _)
      | cons c rest => exact List.nil_lt_cons c rest
  · simp only [b_in, false_and, iff_false]
    rw [toRfc3339_of_not_inRange b_in]
    rw [String.lt_iff_toList_lt]
    exact List.not_lt_nil _

theorem toRfc3339_eq_iff {a b : Int} (before : a < b) :
    toRfc3339 a = toRfc3339 b ↔ ¬InRange a ∧ ¬InRange b := by
  by_cases a_in : InRange a
  · by_cases b_in : InRange b
    · have different := Calendar.text_ne_of_before (Calendar.ofUnix_short a)
        (Calendar.ofUnix_short b) (inRange_small a_in) (inRange_small b_in)
        (Calendar.ofUnix_before before)
      simp [toRfc3339_of_inRange, a_in, b_in, String.ofList_inj, different]
    · simp [toRfc3339_of_inRange a_in, toRfc3339_of_not_inRange b_in, a_in, text_ne_nil]
  · by_cases b_in : InRange b
    · simp [toRfc3339_of_inRange b_in, toRfc3339_of_not_inRange a_in, b_in, text_ne_nil]
    · simp [toRfc3339_of_not_inRange, a_in, b_in]

end Hydrator

namespace Explain

open StableSort

/-- The later commit first, then the smaller sha. -/
def Newer (ts : String → Int) (a b : ExplainHit) : Prop :=
    ts b.commitSha < ts a.commitSha ∨
      ts a.commitSha = ts b.commitSha ∧ a.commitSha ≤ b.commitSha

instance (ts : String → Int) : DecidableRel (Newer ts) := fun a b =>
  inferInstanceAs (Decidable (ts b.commitSha < ts a.commitSha ∨
    ts a.commitSha = ts b.commitSha ∧ a.commitSha ≤ b.commitSha))

/-- The order the code sorts by. -/
def TextFirst (a b : ExplainHit) : Prop :=
    newestFirst a b = true

instance : DecidableRel TextFirst := fun a b =>
  inferInstanceAs (Decidable (newestFirst a b = true))

/-- Of two hits, the newer one first, the texts of the dates agree with the times. -/
def DatesAgree (ts : String → Int) (a b : ExplainHit) : Prop :=
    ts a.commitSha = ts b.commitSha ∨
      Hydrator.InRange (ts a.commitSha) ∧ (Hydrator.InRange (ts b.commitSha) →
        Calendar.YearsInOrder (Hydrator.yearOfTs (ts b.commitSha))
          (Hydrator.yearOfTs (ts a.commitSha))) ∨
      ¬Hydrator.InRange (ts a.commitSha) ∧ ¬Hydrator.InRange (ts b.commitSha) ∧
        a.commitSha ≤ b.commitSha

theorem textFirst_iff {a b : ExplainHit} :
    TextFirst a b ↔ b.commitDate < a.commitDate ∨
      a.commitDate = b.commitDate ∧ a.commitSha ≤ b.commitSha := by
  rw [TextFirst, newestFirst]
  split
  · next same => simp [same]
  · next different => simp [different]

/-- Comparing one key downwards and, where it ties, another one upwards. -/
theorem lex_total {κ σ : Type} [LinearOrder κ] [LinearOrder σ] (a b : κ) (s t : σ) :
    (b < a ∨ a = b ∧ s ≤ t) ∨ (a < b ∨ b = a ∧ t ≤ s) := by
  rcases lt_trichotomy a b with less | same | more
  · exact Or.inr (Or.inl less)
  · rcases le_total s t with st | ts
    · exact Or.inl (Or.inr ⟨same, st⟩)
    · exact Or.inr (Or.inr ⟨same.symm, ts⟩)
  · exact Or.inl (Or.inl more)

theorem lex_trans {κ σ : Type} [LinearOrder κ] [LinearOrder σ] {a b c : κ} {s t u : σ}
    (first : b < a ∨ a = b ∧ s ≤ t) (second : c < b ∨ b = c ∧ t ≤ u) :
    c < a ∨ a = c ∧ s ≤ u := by
  rcases first with less | ⟨rfl, st⟩
  · rcases second with less' | ⟨rfl, _⟩
    · exact Or.inl (less'.trans less)
    · exact Or.inl less
  · rcases second with less' | ⟨rfl, tu⟩
    · exact Or.inl less'
    · exact Or.inr ⟨rfl, st.trans tu⟩

instance (ts : String → Int) : Std.Total (Newer ts) :=
  ⟨fun a b => lex_total (ts a.commitSha) (ts b.commitSha) a.commitSha b.commitSha⟩

instance (ts : String → Int) : IsTrans ExplainHit (Newer ts) :=
  ⟨fun _ _ _ first second => lex_trans first second⟩

instance : Std.Total TextFirst :=
  ⟨fun a b => by
    rw [textFirst_iff, textFirst_iff]
    exact lex_total a.commitDate b.commitDate a.commitSha b.commitSha⟩

instance : IsTrans ExplainHit TextFirst :=
  ⟨fun a b c first second => by
    rw [textFirst_iff] at first second ⊢
    exact lex_trans first second⟩

/-! ## Sorting and cutting -/

section Sorting

variable {hits : List ExplainHit} (ts : String → Int)

/-- With distinct shas the code's sort does not depend on the order it finds the hits in. -/
theorem mergeSort_newestFirst_eq (distinct : (hits.map ExplainHit.commitSha).Nodup) :
    hits.mergeSort newestFirst = (hits.insertionSort (Newer ts)).insertionSort TextFirst := by
  have code_perm := List.mergeSort_perm hits newestFirst
  have newer_perm := List.perm_insertionSort (Newer ts) hits
  have text_perm := (List.perm_insertionSort TextFirst _).trans newer_perm
  have code_sorted : (hits.mergeSort newestFirst).Pairwise TextFirst := by
    apply List.pairwise_mergeSort
    · intro a b c first second
      exact IsTrans.trans (r := TextFirst) a b c first second
    · intro a b
      rw [Bool.or_eq_true]
      exact Std.Total.total (r := TextFirst) a b
  have text_sorted := List.pairwise_insertionSort TextFirst (hits.insertionSort (Newer ts))
  refine List.Perm.eq_of_pairwise ?_ code_sorted text_sorted (code_perm.trans text_perm.symm)
  intro a b a_mem b_mem first second
  rw [textFirst_iff] at first second
  apply List.inj_on_of_nodup_map distinct (code_perm.subset a_mem) (text_perm.subset b_mem)
  rcases first with less | ⟨same, first⟩
  · rcases second with less' | ⟨same, _⟩
    · exact absurd less' less.asymm
    · exact absurd same less.ne
  · rcases second with less' | ⟨_, second⟩
    · exact absurd same less'.ne
    · exact le_antisymm first second

/-- Sorting by the text gives the newest hits exactly when they come first by their text. -/
theorem take_newestFirst_iff (distinct : (hits.map ExplainHit.commitSha).Nodup) (k : Nat) :
    (hits.mergeSort newestFirst).take k = (hits.insertionSort (Newer ts)).take k ↔
      FrontSorted TextFirst k (hits.insertionSort (Newer ts)) := by
  rw [mergeSort_newestFirst_eq ts distinct, take_insertionSort_eq_iff]

variable {ts} (dated : ∀ hit ∈ hits, hit.commitDate = Hydrator.toRfc3339 (ts hit.commitSha))

include dated

theorem textFirst_iff_datesAgree {a b : ExplainHit} (a_mem : a ∈ hits) (b_mem : b ∈ hits)
    (newer : Newer ts a b) : TextFirst a b ↔ DatesAgree ts a b := by
  rw [textFirst_iff, dated a a_mem, dated b b_mem, DatesAgree]
  rcases newer with later | ⟨same, shas⟩
  · rw [Hydrator.toRfc3339_lt_iff later, eq_comm, Hydrator.toRfc3339_eq_iff later]
    have different := later.ne'
    tauto
  · simp [same, shas]

theorem frontSorted_textFirst_iff (k : Nat) :
    FrontSorted TextFirst k (hits.insertionSort (Newer ts)) ↔
      FrontSorted (DatesAgree ts) k (hits.insertionSort (Newer ts)) := by
  have sorted := List.pairwise_insertionSort (Newer ts) hits
  have agree : ∀ i j : Nat, i < j → ∀ a b, (hits.insertionSort (Newer ts))[i]? = some a →
      (hits.insertionSort (Newer ts))[j]? = some b → (TextFirst a b ↔ DatesAgree ts a b) := by
    intro i j before a b at_i at_j
    apply textFirst_iff_datesAgree dated
    · exact (List.mem_insertionSort _).1 (List.mem_of_getElem? at_i)
    · exact (List.mem_insertionSort _).1 (List.mem_of_getElem? at_j)
    · rw [List.getElem?_eq_some_iff] at at_i at_j
      rcases at_i with ⟨i_lt, rfl⟩
      rcases at_j with ⟨j_lt, rfl⟩
      exact List.pairwise_iff_getElem.1 sorted i j i_lt j_lt before
  constructor
  · intro front i j before early a b at_i at_j
    exact (agree i j before a b at_i at_j).1 (front i j before early a b at_i at_j)
  · intro front i j before early a b at_i at_j
    exact (agree i j before a b at_i at_j).2 (front i j before early a b at_i at_j)

omit dated in
/-- Years of four digits among the newest hits are enough, whatever the older ones are. -/
theorem frontSorted_of_years {newest : List ExplainHit} {k : Nat}
    (years : ∀ hit ∈ newest.take k,
      0 ≤ Hydrator.yearOfTs (ts hit.commitSha) ∧ Hydrator.yearOfTs (ts hit.commitSha) ≤ 9999) :
    FrontSorted (DatesAgree ts) k newest := by
  intro i j _ early a b at_i _
  have four_digits := years a (List.mem_of_getElem? (by rwa [List.getElem?_take_of_lt early]))
  have in_range : Hydrator.InRange (ts a.commitSha) := by
    rw [Hydrator.InRange]
    omega
  exact Or.inr (Or.inl ⟨in_range, fun _ => Or.inr (Or.inl four_digits)⟩)

end Sorting

/-- Both the orchestrator and the engine sort, and cut to `k`, what was hydrated. -/
theorem assemble_newest_first_iff {hydrated : HydratedBlame} (ts : String → Int)
    (distinct : (hydrated.hits.map ExplainHit.commitSha).Nodup)
    (dated : ∀ hit ∈ hydrated.hits, hit.commitDate = Hydrator.toRfc3339 (ts hit.commitSha))
    (query : ExplainQuery) :
    (assembleExplainResult hydrated query).hits =
        (hydrated.hits.insertionSort (Newer ts)).take (clampK query.k) ↔
      FrontSorted (DatesAgree ts) (clampK query.k) (hydrated.hits.insertionSort (Newer ts)) := by
  rw [← frontSorted_textFirst_iff dated]
  exact take_newestFirst_iff ts distinct (clampK query.k)

/-- A hit of which only the date matters. -/
def datedHit (sha : String) (ts : Int) : ExplainHit :=
    ⟨sha, "", none, Hydrator.toRfc3339 ts, [], "f", "", false, .exact⟩

/-- Two hits, for a query that asks for one. -/
def twoDates (ts : String → Int) : HydratedBlame :=
    ⟨[datedHit "a" (ts "a"), datedHit "b" (ts "b")], 1, none, none, [], (1, 2)⟩

/-- A query for one hit. -/
def firstOnly : ExplainQuery :=
    ⟨"f", 1, 2, 1, false, false⟩

/-- One commit at the given time, the other at the start of 1970. -/
def timeOfA (ts : Int) (sha : String) : Int :=
    if sha = "a" then ts else 0

theorem assemble_newest_first_two_dates :
    (assembleExplainResult (twoDates (timeOfA 5)) firstOnly).hits =
        ((twoDates (timeOfA 5)).hits.insertionSort (Newer (timeOfA 5))).take (clampK firstOnly.k) ↔
      FrontSorted (DatesAgree (timeOfA 5)) (clampK firstOnly.k)
        ((twoDates (timeOfA 5)).hits.insertionSort (Newer (timeOfA 5))) :=
  assemble_newest_first_iff (timeOfA 5) (by decide) (by simp [twoDates, datedHit, timeOfA])
    firstOnly

/-- The first second of the year 10000 sorts behind 1970. -/
theorem assemble_not_newest_first :
    (assembleExplainResult (twoDates (timeOfA 253402300800)) firstOnly).hits ≠
      ((twoDates (timeOfA 253402300800)).hits.insertionSort
        (Newer (timeOfA 253402300800))).take (clampK firstOnly.k) := by
  rw [assembleExplainResult, mergeSort_newestFirst_eq (timeOfA 253402300800) (by decide)]
  decide +kernel

/-! ## The whole path -/

/-- The time of an indexed commit. -/
def indexedTs (db : Database) (sha : String) : Int :=
    ((Commit.get db sha).map CommitMeta.ts).getD 0

theorem hydrateBlameResults_dated {storage : ExplainStorage} {db : Database}
    (answers : storage.Answers db) {ranges : List BlameRange} {query : ExplainQuery}
    {hydrated : HydratedBlame}
    (returned : Hydrator.hydrateBlameResults Hydrator.toRfc3339 storage ranges query =
      .ok hydrated) :
    ∀ hit ∈ hydrated.hits,
      hit.commitDate = Hydrator.toRfc3339 (indexedTs db hit.commitSha) := by
  rw [Hydrator.hydrateBlameResults] at returned
  rcases Fallible.bind_eq_ok.1 returned with ⟨commitMap, read, returned⟩
  rcases Fallible.bind_eq_ok.1 returned with ⟨⟨hits, skipped, indexed⟩, split, returned⟩
  rcases Fallible.bind_eq_ok.1 returned with ⟨⟨related, note⟩, _, ⟨⟩⟩
  intro hit hit_mem
  rcases Hydrator.HitOf.exists_range (Hydrator.hydrateRanges_eq_ok split).1 hit hit_mem with
    ⟨range, kept, commit, stored, sha, _, date⟩
  rw [Hydrator.commitMap_eq answers read (List.mem_of_mem_filter kept)] at stored
  rw [date, indexedTs, sha, Hydrator.commitSha_of_get stored, stored]
  rfl

/-- On either path a result is newest first when the hits it keeps have years of four digits. -/
theorem explainRanges_newest_first {storage : ExplainStorage} {db : Database}
    (answers : storage.Answers db) {ranges : List BlameRange}
    (distinct : (ranges.map BlameRange.commitSha).Nodup) {query : ExplainQuery}
    {result : ExplainResult}
    (returned : explainRanges Hydrator.toRfc3339 storage ranges query = .ok result) :
    ∃ hydrated, Hydrator.hydrateBlameResults Hydrator.toRfc3339 storage ranges query =
        .ok hydrated ∧
      let newest := hydrated.hits.insertionSort (Newer (indexedTs db))
      ((∀ hit ∈ newest.take (clampK query.k),
          0 ≤ Hydrator.yearOfTs (indexedTs db hit.commitSha) ∧
            Hydrator.yearOfTs (indexedTs db hit.commitSha) ≤ 9999) →
        result.hits = newest.take (clampK query.k)) := by
  rcases Fallible.bind_eq_ok.1 returned with ⟨hydrated, hydrates, ⟨⟩⟩
  refine ⟨hydrated, hydrates, ?_⟩
  intro newest years
  have distinct_hits := Hydrator.hydrateBlameResults_distinct answers distinct hydrates
  apply (take_newestFirst_iff (indexedTs db) distinct_hits _).2
  rw [frontSorted_textFirst_iff (hydrateBlameResults_dated answers hydrates)]
  exact frontSorted_of_years years

end Explain

end Ohara
