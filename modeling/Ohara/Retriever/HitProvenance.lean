import Ohara.Index.History
import Ohara.Retriever.FindPatternSound

/-!
# Where the hits come from

A hit of `find_pattern` over an index that runs of the indexer have built is a hunk of the history,
also while a run is at work.
-/

namespace Ohara

namespace FindPattern

open Retriever QueryUnderstanding

variable {K : Type}

/-- The hit reports the hunk of the commit. -/
structure Reports (rfc3339 : Hydrator.DateFormat) (commit : CommitMeta) (hunk : Hunk)
    (hit : PatternHit K) : Prop where
  commit : (hit.commitSha, hit.commitMessage, hit.commitAuthor, hit.commitDate) =
    (commit.commitSha, commit.message, commit.author, rfc3339 commit.ts)
  filePath : hit.filePath = hunk.filePath
  changeKind : hit.changeKind = hunk.changeKind.toStr
  excerpt : (hit.diffExcerpt, hit.diffTruncated) = truncateDiff hunk.diffText diffExcerptMaxLines

/-- What a row shows of the history. -/
theorem Shows.reports {rfc3339 : Hydrator.DateFormat} {repository : Repository} {store : Store}
    {hit : PatternHit K} {row : LaneRow} (shows_row : Shows rfc3339 store.db hit row)
    (rows : repository.RowsFromSource store) (listed : repository.CommitsListed store)
    (joined : store.db.joinHunk row.hunkId = some row) :
    ∃ commit hunk, repository.Owns store commit hunk ∧ Reports rfc3339 commit hunk hit := by
  rcases row.owned rows listed joined with ⟨hunk, owns, same_sha, path, kind, diff⟩
  refine ⟨row.commit.commitMeta, hunk, owns, ?_, ?_, ?_, ?_⟩
  · have of_commit := shows_row.commit
    simp only [Prod.mk.injEq] at of_commit ⊢
    exact ⟨by rw [shows_row.commitSha, same_sha]; rfl, of_commit⟩
  · rw [shows_row.filePath, path]
  · rw [shows_row.changeKind, kind]
  · rw [shows_row.excerpt, diff]

variable [Field K] [LinearOrder K]

/--
Every hit that `find_pattern` returns over an index is a hunk that git gives for a commit it lists,
whatever runs of the indexer, with what failures and aborts, have led to the index.
-/
theorem hits_from_history (exp : K → K) (rfc3339 : Hydrator.DateFormat) (backend : Backend K)
    (weights : RankingWeights K) (attached : Option (Reranker K)) (clock : LaneId → Int)
    (query : PatternQuery) (nowUnix : Int) (repository : Repository) (head : String)
    (labels : List IndexLabel) (s : IndexSystem)
    (ran : Execution.run (IndexSystem.next repository) (IndexSystem.start head) labels = some s)
    (stored : backend.db = s.store.db)
    (oneScore : ∀ r ∈ attached, ∀ text candidates scores, r text candidates = .ok scores →
      scores.length = candidates.length)
    (hits : List (PatternHit K)) (profile : RetrievalProfile K)
    (returned : findPatternWithProfile exp rfc3339 backend weights attached clock repository.repoId
      query nowUnix = .ok (hits, profile)) :
    ∀ hit ∈ hits, ∃ commit hunk, repository.Owns s.store commit hunk ∧
      Reports rfc3339 commit hunk hit := by
  rcases IndexSystem.rows_of_run ran with ⟨-, rows, listed⟩
  rcases (answers_of_ok oneScore returned).1.shown with ⟨laneRows, -, matching, shown⟩
  rw [stored] at shown
  intro hit hit_mem
  rcases List.mem_iff_get.1 hit_mem with ⟨i, rfl⟩
  have bound : i.val < laneRows.length := shown.length_eq ▸ i.2
  have shows_row := shown.get i.2 bound
  have joined := (matching _ (List.getElem_mem bound)).1
  rw [stored] at joined
  exact shows_row.reports rows listed joined

/-! A query over the index that one complete run has built. -/

namespace TwoCommitsFound

/-- What a query finds in the index. -/
def answer (s : IndexSystem) : Except OhraError (List (PatternHit ℚ) × RetrievalProfile ℚ) :=
    findPatternWithProfile ThreeHunks.exp (fun _ => "")
      { TwoFiles.backend with db := s.store.db } ThreeHunks.weights none (fun _ => 0)
      TwoCommits.repository.repoId ThreeHunks.query 0

end TwoCommitsFound

open TwoCommits TwoCommitsFound in
theorem hits_from_history_two_commits : ∃ s hits profile,
    Execution.run (IndexSystem.next repository) (IndexSystem.start "b") labels = some s ∧
    answer s = .ok (hits, profile) ∧
    hits.map (fun hit => (hit.commitSha, hit.filePath)) = [("b", "f"), ("a", "f"), ("b", "g")] ∧
    ∀ hit ∈ hits, ∃ commit hunk, repository.Owns s.store commit hunk ∧
      Reports (fun _ => "") commit hunk hit := by
  have shown : ((Execution.run (IndexSystem.next repository) (IndexSystem.start "b")
      labels).bind fun s => (answer s).toOption.map fun found =>
        found.1.map fun hit => (hit.commitSha, hit.filePath)) =
          some [("b", "f"), ("a", "f"), ("b", "g")] := by decide +kernel
  cases ran : Execution.run (IndexSystem.next repository) (IndexSystem.start "b") labels with
  | none => simp [ran] at shown
  | some s =>
      cases answered : answer s with
      | error e => simp [ran, answered, Except.toOption] at shown
      | ok found =>
          refine ⟨s, found.1, found.2, rfl, answered, ?_, ?_⟩
          · simpa [ran, answered, Except.toOption] using shown
          · exact hits_from_history ThreeHunks.exp (fun _ => "")
              { TwoFiles.backend with db := s.store.db } ThreeHunks.weights none (fun _ => 0)
              ThreeHunks.query 0 repository "b" labels s ran rfl (by simp) found.1 found.2 answered

end FindPattern

end Ohara
