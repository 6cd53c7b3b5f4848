import Ohara.Index.Stages
import Ohara.Library.Fallible
import Ohara.Library.Memo

/-!
# Post-images read once

The attribute stage keeps the post-image of a path for the hunks of that path that follow. It gives
what fetching for every hunk gives, errors included, with one fetch for each path.
-/

namespace Ohara

namespace AttributeStage

variable (source : CommitSource) (extract : String → String → List Symbol) (sha : String)

/-- One record with its file fetched for it alone. -/
def attributeAnew (record : ChunkedHunk) : Except OhraError AttributedHunk := do
    let file ← source.fileAtCommit sha record.filePath
    return attributeRecord extract record file

variable {source extract sha} {memo : List (String × Option String)} {records : List ChunkedHunk}

theorem sourceOf_found {path : String} {cached : Option String}
    (found : memo.lookup path = some cached) :
    sourceOf source sha memo path = ([], .ok (cached, memo)) := by
  rw [sourceOf, found]

theorem sourceOf_fetched {path : String} {file : Option String} (unknown : memo.lookup path = none)
    (fetched : source.fileAtCommit sha path = .ok file) :
    sourceOf source sha memo path = ([path], .ok (file, (path, file) :: memo)) := by
  rw [sourceOf, unknown, fetched]
  rfl

theorem sourceOf_failed {path : String} {e : OhraError} (unknown : memo.lookup path = none)
    (failed : source.fileAtCommit sha path = .error e) :
    sourceOf source sha memo path = ([path], .error e) := by
  rw [sourceOf, unknown, failed]
  rfl

/-- The entries of the memo are what a fetch gives. -/
def Memoized (source : CommitSource) (sha : String) (memo : List (String × Option String)) : Prop :=
    ∀ entry ∈ memo, source.fileAtCommit sha entry.1 = .ok entry.2

theorem memoized_nil : Memoized source sha [] := by
  simp [Memoized]

theorem runFrom_eq_anew (memoized : Memoized source sha memo) :
    (runFrom source extract sha memo records).2
      = records.mapM (attributeAnew source extract sha) := by
  induction records generalizing memo with
  | nil => rfl
  | cons record rest ih =>
      rw [runFrom, List.mapM_cons, attributeAnew]
      cases found : memo.lookup record.filePath with
      | some cached =>
          rw [sourceOf_found found, memoized _ (Memo.mem_of_lookup found)]
          simp only [Fallible.ok_bind, Fallible.pure_eq_ok, ih memoized]
          rfl
      | none =>
          cases fetched : source.fileAtCommit sha record.filePath with
          | error failure =>
              rw [sourceOf_failed found fetched]
              rfl
          | ok file =>
              have extended : Memoized source sha ((record.filePath, file) :: memo) :=
                List.forall_mem_cons.2 ⟨fetched, memoized⟩
              rw [sourceOf_fetched found fetched]
              simp only [Fallible.ok_bind, Fallible.pure_eq_ok, ih extended]
              rfl

/-- A run that succeeds fetches each path it has not memoized, and none twice. -/
theorem fetches_of_ran {attributed : List AttributedHunk}
    (ran : (runFrom source extract sha memo records).2 = .ok attributed) :
    (runFrom source extract sha memo records).1.Nodup ∧
      ∀ path, path ∈ (runFrom source extract sha memo records).1 ↔
        path ∈ records.map ChunkedHunk.filePath ∧ path ∉ memo.map Prod.fst := by
  induction records generalizing memo attributed with
  | nil => simp [runFrom]
  | cons record rest ih =>
      rw [runFrom] at ran ⊢
      cases found : memo.lookup record.filePath with
      | some cached =>
          rw [sourceOf_found found] at ran ⊢
          rcases Fallible.map_eq_ok.1 ran with ⟨tail, ran_rest, -⟩
          have known : record.filePath ∈ memo.map Prod.fst :=
            Memo.isSome_lookup_iff.1 (by simp [found])
          refine ⟨(ih ran_rest).1, fun path => ((ih ran_rest).2 path).trans ?_⟩
          rw [List.map_cons, List.mem_cons]
          constructor
          · exact fun new => ⟨.inr new.1, new.2⟩
          · rintro ⟨rfl | later, unknown⟩
            · exact absurd known unknown
            · exact ⟨later, unknown⟩
      | none =>
          have unknown : record.filePath ∉ memo.map Prod.fst := Memo.lookup_eq_none_iff.1 found
          cases fetched : source.fileAtCommit sha record.filePath with
          | error failure =>
              rw [sourceOf_failed found fetched] at ran
              cases ran
          | ok file =>
              rw [sourceOf_fetched found fetched] at ran ⊢
              rcases Fallible.map_eq_ok.1 ran with ⟨tail, ran_rest, -⟩
              have rest_log := ih ran_rest
              simp only [List.map_cons, List.mem_cons, not_or, List.singleton_append] at rest_log ⊢
              refine ⟨List.nodup_cons.2 ⟨?_, rest_log.1⟩, fun path => ?_⟩
              · rw [rest_log.2]
                exact fun again => again.2.1 rfl
              · rw [rest_log.2]
                by_cases same : path = record.filePath
                · simp [same, unknown]
                · simp [same]

/-! ## Of a run that succeeds -/

section Attributed

variable {attributed : List AttributedHunk}

theorem attributed_anew (memoized : Memoized source sha memo)
    (ran : (runFrom source extract sha memo records).2 = .ok attributed) :
    List.Forall₂ (fun record hunk => attributeAnew source extract sha record = .ok hunk) records
      attributed := by
  rw [runFrom_eq_anew memoized] at ran
  exact Fallible.mapM_eq_ok.1 ran

theorem attributed_records (memoized : Memoized source sha memo)
    (ran : (runFrom source extract sha memo records).2 = .ok attributed) :
    attributed.map AttributedHunk.record = records := by
  have each := attributed_anew memoized ran
  clear ran
  induction each with
  | nil => rfl
  | cons anew _ ih =>
      rcases Fallible.bind_eq_ok.1 anew with ⟨file, -, attributed_record⟩
      cases attributed_record
      rw [List.map_cons, ih]
      rfl

/-- Each hunk has the symbols of its own file. -/
theorem attributed_symbols (memoized : Memoized source sha memo)
    (ran : (runFrom source extract sha memo records).2 = .ok attributed) :
    ∀ hunk ∈ attributed, ∃ file, source.fileAtCommit sha hunk.record.filePath = .ok file ∧
      hunk.symbols = extractSymbols extract hunk.record.filePath file := by
  have each := attributed_anew memoized ran
  clear ran
  induction each with
  | nil => simp
  | cons anew _ ih =>
      rcases Fallible.bind_eq_ok.1 anew with ⟨file, fetched, attributed_record⟩
      cases attributed_record
      exact List.forall_mem_cons.2 ⟨⟨file, fetched, rfl⟩, ih⟩

end Attributed

/-- The memo changes nothing but the number of fetches: the stage gives what it would give by
fetching the file of every record, errors included, and one that succeeds has every record in order
and has fetched each path of them exactly once. -/
theorem run_eq_anew (source : CommitSource) (extract : String → String → List Symbol)
    (sha : String) (records : List ChunkedHunk) :
    run source extract sha records = records.mapM (attributeAnew source extract sha) ∧
      ∀ attributed, run source extract sha records = .ok attributed →
        attributed.map AttributedHunk.record = records ∧
        (fetches source extract sha records).Nodup ∧
        ∀ path, path ∈ fetches source extract sha records ↔
          path ∈ records.map ChunkedHunk.filePath := by
  refine ⟨runFrom_eq_anew memoized_nil, fun attributed ran => ?_⟩
  have logged := fetches_of_ran ran
  refine ⟨attributed_records memoized_nil ran, logged.1, fun path => (logged.2 path).trans ?_⟩
  simp

end AttributeStage

end Ohara
