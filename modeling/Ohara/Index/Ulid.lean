import Ohara.Index.Embed
import Ohara.Library.Numerals
import Ohara.Storage.Explain
import Ohara.Storage.Refinement

/-!
# Commit identifiers as a clock

An identifier is a number written in base 32: 48 bits of milliseconds above 80 bits of the SHA. The
seconds are clamped below at zero, and the milliseconds saturate at 64 bits before the upper 16 of
them are dropped, so the order of the identifiers is the order of the commits only in between.
-/

namespace Ohara

open Numerals Selection

/-- The SHA the identifier is taken from. -/
def effectiveSha (sha : String) : String :=
    let digits := sha.toList.take 40
    if (digits.length == 40 && digits.all fun c => (hexDigit? c).isSome) then sha
    else String.ofList (List.replicate 40 '0')

/-- The 80 bits of an identifier that come from the SHA. -/
def shaBits (sha : String) : Nat :=
    hexValue ((effectiveSha sha).toList.take 20) % 2 ^ 80

/-- The 48 bits of an identifier that come from the time. -/
def clockBits (ts : Int) : Nat :=
    min ((max ts 0).toNat * 1000) (2 ^ 64 - 1) % 2 ^ 48

/-- A letter of the base-32 alphabet. -/
def crockfordLetter (digit : Nat) : Char :=
    crockfordAlphabet.getD digit '0'

theorem crockfordLetter_strictMonoOn : StrictMonoOn crockfordLetter (Set.Iio 32) := by
  have pairs : ∀ m < 32, ∀ n < 32, m < n → crockfordLetter m < crockfordLetter n := by
    decide +kernel
  intro m m_digit n n_digit less
  exact pairs m m_digit n n_digit less

theorem toList_ulidToString (value : Nat) :
    (ulidToString value).toList = numeral crockfordLetter 32 26 value := by
  rw [ulidToString, String.toList_ofList, ← map_range_eq_numeral]
  rfl

theorem toList_commitUlid (ts : Int) (sha : String) :
    (commitUlid ts sha).toList =
      numeral crockfordLetter 32 26 (shaBits sha + 2 ^ 80 * clockBits ts) := by
  have number : ulidForCommit ts (effectiveSha sha) = shaBits sha + 2 ^ 80 * clockBits ts := by
    rw [ulidForCommit, shaBits, clockBits]
    omega
  rw [← number, ← toList_ulidToString]
  rfl

theorem commitUlid_lt_iff (tsA tsB : Int) (shaA shaB : String) :
    commitUlid tsA shaA < commitUlid tsB shaB ↔
      clockBits tsA < clockBits tsB ∨
        clockBits tsA = clockBits tsB ∧ shaBits shaA < shaBits shaB := by
  have sha_short : ∀ sha, shaBits sha < 2 ^ 80 := fun sha => Nat.mod_lt _ (by decide)
  have clock_short : ∀ ts, clockBits ts < 2 ^ 48 := fun ts => Nat.mod_lt _ (by decide)
  have fits : ∀ ts sha, shaBits sha + 2 ^ 80 * clockBits ts < 32 ^ 26 := by
    intro ts sha
    have sha_low := sha_short sha
    have clock_low := clock_short ts
    omega
  rw [String.lt_iff_toList_lt, toList_commitUlid, toList_commitUlid,
    numeral_lt_numeral_iff crockfordLetter_strictMonoOn (by decide), Nat.mod_eq_of_lt (fits tsA shaA),
    Nat.mod_eq_of_lt (fits tsB shaB), add_mul_lt_add_mul_iff (sha_short shaA) (sha_short shaB)]

/-- When an earlier commit gets the smaller identifier: from 1970 on the clock decides, up to the
last second whose milliseconds have 48 bits; before, only the SHAs do; after, the clock runs around
and stands still at the end. -/
def EarlierIsSmaller (tsA tsB : Int) (shaA shaB : String) : Prop :=
    if tsB ≤ 0 then shaBits shaA < shaBits shaB
    else if tsB ≤ 281474976710 then True
    else clockBits tsA < clockBits tsB ∨ clockBits tsA = clockBits tsB ∧ shaBits shaA < shaBits shaB

theorem clockBits_of_early {ts : Int} (early : ts ≤ 0) : clockBits ts = 0 := by
  rw [clockBits, max_eq_right early]
  rfl

theorem clockBits_of_in_range {ts : Int} (in_range : ts ≤ 281474976710) :
    clockBits ts = (max ts 0).toNat * 1000 := by
  have short : (max ts 0).toNat * 1000 < 2 ^ 48 := by omega
  rw [clockBits, min_eq_left (by omega), Nat.mod_eq_of_lt short]

theorem commitUlid_lt_iff_of_earlier {tsA tsB : Int} (earlier : tsA < tsB) (shaA shaB : String) :
    commitUlid tsA shaA < commitUlid tsB shaB ↔ EarlierIsSmaller tsA tsB shaA shaB := by
  rw [commitUlid_lt_iff, EarlierIsSmaller]
  split_ifs with before_epoch in_range
  · rw [clockBits_of_early (show tsA ≤ 0 by omega), clockBits_of_early before_epoch]
    simp
  · have ticks : clockBits tsA < clockBits tsB := by
      rw [clockBits_of_in_range (show tsA ≤ 281474976710 by omega), clockBits_of_in_range in_range]
      omega
    simp [ticks]
  · rfl

theorem commitUlid_injective {ts : Int} {shaA shaB : String}
    (same : commitUlid ts shaA = commitUlid ts shaB) : shaBits shaA = shaBits shaB := by
  have below := commitUlid_lt_iff ts ts shaA shaB
  have above := commitUlid_lt_iff ts ts shaB shaA
  simp only [same, lt_irrefl, false_or, true_and, false_iff, Nat.not_lt] at below above
  exact Nat.le_antisymm above below

theorem commitUlid_ne_empty (ts : Int) (sha : String) : commitUlid ts sha ≠ "" := by
  intro empty
  have letters := congrArg (fun text : String => text.toList.length) empty
  simp [toList_commitUlid] at letters

/-! ## The index -/

namespace Commit

/-- `WHERE ulid != '' ORDER BY ulid DESC LIMIT 1`. -/
def latestByUlid (sorter : Sorter) (db : Database) : Option CommitMeta :=
    ((sorter.orderBy (fun row => OrderDual.toDual row.ulid)
      (db.commitRecord.filter fun row => decide (row.ulid ≠ ""))).head?).map CommitRow.commitMeta

end Commit

/-- Every commit carries the identifier the persist stage computes. -/
def Database.Stamped (db : Database) : Prop :=
    ∀ row ∈ db.commitRecord, row.ulid = commitUlid row.ts row.sha

theorem Database.Stamped.put {db db' : Database} (stamped : db.Stamped)
    (foreignKeys : db.ForeignKeys) {commit : CommitMeta} {output : EmbedOutput}
    (stored : Commit.put (PersistStage.commitRecord commit output) db = .ok db') : db'.Stamped := by
  rw [Commit.put_eq _ foreignKeys] at stored
  split at stored
  · cases stored
    intro row row_mem
    rw [Rows.mem_insertOrReplace] at row_mem
    rcases row_mem with kept | rfl
    · exact stamped row kept.1
    · rfl
  · cases stored

/-- What the identifiers of an index promise about its commits. -/
structure Database.Chronological (db : Database) : Prop where
  ordered : ∀ a ∈ db.commitRecord, ∀ b ∈ db.commitRecord, a.ts < b.ts → a.ulid < b.ulid
  latest : ∀ sorter, match Commit.latestByUlid sorter db with
    | none => db.commitRecord = []
    | some latest => (∃ row ∈ db.commitRecord, latest = row.commitMeta) ∧
        ∀ row ∈ db.commitRecord, row.ts ≤ latest.ts
  separated : ∀ a ∈ db.commitRecord, ∀ b ∈ db.commitRecord, a.ts = b.ts →
    shaBits a.sha ≠ shaBits b.sha → a.ulid ≠ b.ulid

/-- Where later commits have greater identifiers, the greatest identifier is of a latest commit. -/
theorem latestByUlid_spec {db : Database} (stamped : db.Stamped)
    (ordered : ∀ a ∈ db.commitRecord, ∀ b ∈ db.commitRecord, a.ts < b.ts → a.ulid < b.ulid)
    (sorter : Sorter) :
    match Commit.latestByUlid sorter db with
    | none => db.commitRecord = []
    | some latest => (∃ row ∈ db.commitRecord, latest = row.commitMeta) ∧
        ∀ row ∈ db.commitRecord, row.ts ≤ latest.ts := by
  have all_stamped : (db.commitRecord.filter fun row => decide (row.ulid ≠ "")) =
      db.commitRecord := by
    apply List.filter_eq_self.2
    intro row row_mem
    simp [stamped row row_mem, commitUlid_ne_empty]
  rw [Commit.latestByUlid, all_stamped]
  have same_rows := sorter.perm (fun row : CommitRow => OrderDual.toDual row.ulid) db.commitRecord
  have descending := sorter.sorted (fun row : CommitRow => OrderDual.toDual row.ulid)
    db.commitRecord
  generalize sorter.orderBy (fun row : CommitRow => OrderDual.toDual row.ulid) db.commitRecord =
    sorted at same_rows descending
  cases sorted with
  | nil => exact same_rows.symm.eq_nil
  | cons first rest =>
      have first_mem := same_rows.subset List.mem_cons_self
      refine ⟨⟨first, first_mem, rfl⟩, ?_⟩
      intro row row_mem
      by_contra later
      have greater := ordered first first_mem row row_mem (not_le.1 later)
      rcases List.mem_cons.1 (same_rows.symm.subset row_mem) with rfl | row_rest
      · exact absurd greater (lt_irrefl _)
      · exact absurd greater (not_lt.2 ((List.pairwise_cons.1 descending).1 row row_rest))

/-- The identifiers of an index are chronological exactly when every earlier commit of it gets the
smaller one. -/
theorem ulids_chronological_iff {db : Database} (stamped : db.Stamped) :
    db.Chronological ↔ ∀ a ∈ db.commitRecord, ∀ b ∈ db.commitRecord, a.ts < b.ts →
      EarlierIsSmaller a.ts b.ts a.sha b.sha := by
  have by_bits : (∀ a ∈ db.commitRecord, ∀ b ∈ db.commitRecord, a.ts < b.ts → a.ulid < b.ulid) ↔
      ∀ a ∈ db.commitRecord, ∀ b ∈ db.commitRecord, a.ts < b.ts →
        EarlierIsSmaller a.ts b.ts a.sha b.sha := by
    apply forall₂_congr
    intro a a_mem
    apply forall₂_congr
    intro b b_mem
    apply forall_congr'
    intro earlier
    rw [stamped a a_mem, stamped b b_mem, commitUlid_lt_iff_of_earlier earlier]
  rw [← by_bits]
  constructor
  · intro chronological
    exact chronological.ordered
  · intro ordered
    refine ⟨ordered, latestByUlid_spec stamped ordered, ?_⟩
    intro a a_mem b b_mem same_time different same
    rw [stamped a a_mem, stamped b b_mem, same_time] at same
    exact different (commitUlid_injective same)

/-- Two commits with SHAs of one repeated digit. -/
def twoCommits (tsA tsB : Int) : Database :=
    let row (ts : Int) (digit : Char) : CommitRow :=
      let sha := String.ofList (List.replicate 40 digit)
      ⟨sha, none, false, ts, none, "", commitUlid ts sha⟩
    { Database.empty with commitRecord := [row tsA 'f', row tsB '0'] }

theorem twoCommits_stamped (tsA tsB : Int) : (twoCommits tsA tsB).Stamped := by
  simp [Database.Stamped, twoCommits]

theorem ulids_chronological_two_commits :
    (twoCommits 1600000000 1700000000).Chronological ↔
      ∀ a ∈ (twoCommits 1600000000 1700000000).commitRecord,
        ∀ b ∈ (twoCommits 1600000000 1700000000).commitRecord, a.ts < b.ts →
          EarlierIsSmaller a.ts b.ts a.sha b.sha :=
  ulids_chronological_iff (twoCommits_stamped 1600000000 1700000000)

theorem ordered_of_chronological {tsA tsB : Int}
    (chronological : (twoCommits tsA tsB).Chronological) (earlier : tsA < tsB) :
    (twoCommits tsA tsB).commitRecord.Pairwise fun a b => a.ulid < b.ulid :=
  List.pairwise_pair.2 (chronological.ordered _ List.mem_cons_self _
    (List.mem_cons_of_mem _ List.mem_cons_self) earlier)

/-- After the last second of the 48 bits the clock starts again, and before 1970 it stands still. -/
theorem not_chronological_past_wrap :
    ¬(twoCommits 281474976710 281474976711).Chronological ∧
      ¬(twoCommits (-2) (-1)).Chronological := by
  constructor
  · intro chronological
    exact absurd (ordered_of_chronological chronological (by decide)) (by decide +kernel)
  · intro chronological
    exact absurd (ordered_of_chronological chronological (by decide)) (by decide +kernel)

end Ohara
