import Ohara.Index.Actor

/-!
# What a pipeline step does

The branches of the pipeline machine as the cases of a relation, and the bookkeeping every run
keeps: each listed commit is in exactly one place, the receiver's lock names the worker that
receives, a worker exits only from a drained and closed channel, and the counters add up.
-/

namespace Ohara

namespace Pipeline

variable {σ τ : Type} {n : Nat}

/-- One step, by what it does. -/
inductive Step (process : CommitProcess σ τ) (s : Pipeline σ τ n) :
    Actor n → Pipeline σ τ n → Prop
  | finishWalk (walker : s.walker = .checking []) : Step process s .walk { s with walker := .done }
  | skip {commit : CommitMeta} {rest : List CommitMeta}
      (walker : s.walker = .checking (commit :: rest))
      (found : process.commitExists s.storage commit = true) :
      Step process s .walk ({ s with walker := .checking rest }.record commit .skipped)
  | offer {commit : CommitMeta} {rest : List CommitMeta}
      (walker : s.walker = .checking (commit :: rest))
      (missing : process.commitExists s.storage commit = false) :
      Step process s .walk { s with walker := .sending commit rest }
  | hangUp {commit : CommitMeta} {rest : List CommitMeta} (walker : s.walker = .sending commit rest)
      (dropped : s.receiverHeld = false) : Step process s .walk { s with walker := .done }
  | send {commit : CommitMeta} {rest : List CommitMeta} (walker : s.walker = .sending commit rest)
      (room : s.channel.length < n) :
      Step process s .walk
        { s with walker := .checking rest, channel := s.channel ++ [commit] }
  | acquire {i : Fin n} (phase : (s.workers i).phase = .idle) (free : s.rxLock = none) :
      Step process s (.acquire i) { s.setPhase i .receiving with rxLock := some i }
  | receive {i : Fin n} {commit : CommitMeta} {rest : List CommitMeta}
      (phase : (s.workers i).phase = .receiving) (channel : s.channel = commit :: rest) :
      Step process s (.receive i)
        { s.setPhase i (.processing commit (process.start commit)) with
          channel := rest, rxLock := none }
  | drain {i : Fin n} (phase : (s.workers i).phase = .receiving) (channel : s.channel = [])
      (walker : s.walker = .done) :
      Step process s (.receive i) { s.setPhase i .exited with rxLock := none }
  | work {i : Fin n} {commit : CommitMeta} {task task' : τ} {storage : σ}
      (phase : (s.workers i).phase = .processing commit task)
      (advanced : process.advance commit s.storage task = (storage, .running task')) :
      Step process s (.advance i)
        ({ s with storage := storage }.setPhase i (.processing commit task'))
  | complete {i : Fin n} {commit : CommitMeta} {task : τ} {storage : σ} {r : CommitWorkResult}
      (phase : (s.workers i).phase = .processing commit task)
      (advanced : process.advance commit s.storage task = (storage, .finished (.ok r))) :
      Step process s (.advance i)
        (({ s with storage := storage }.setWorker i
          { phase := .idle, result := (s.workers i).result.onOk r }).record commit
            (.finished (.ok r)))
  | fail {i : Fin n} {commit : CommitMeta} {task : τ} {storage : σ} {e : OhraError}
      (phase : (s.workers i).phase = .processing commit task)
      (advanced : process.advance commit s.storage task = (storage, .finished (.error e))) :
      Step process s (.advance i)
        (({ s with storage := storage }.setWorker i
          { phase := .idle, result := (s.workers i).result.onErr }).record commit
            (.finished (.error e)))
  | unwind {i : Fin n} {commit : CommitMeta} {task : τ} {storage : σ}
      (phase : (s.workers i).phase = .processing commit task)
      (advanced : process.advance commit s.storage task = (storage, .panicked)) :
      Step process s (.advance i)
        (({ s with storage := storage }.setPhase i .panicked).record commit .panicked)
  | beginJoin (main : s.main = .awaitingWalker) (walker : s.walker = .done) :
      Step process s .join { s with main := .joining 0 }
  | joinExited (k : Fin n) (main : s.main = .joining k) (phase : (s.workers k).phase = .exited) :
      Step process s .join
        { s with main := .joining (k + 1), out := s.out.join (s.workers k).result }
  | joinPanicked (k : Fin n) (main : s.main = .joining k)
      (phase : (s.workers k).phase = .panicked) :
      Step process s .join { s with main := .joining (k + 1) }
  | finish {k : Nat} (main : s.main = .joining k) (joined : n ≤ k) :
      Step process s .join { s with main := .returned }

theorem step_of_next {process : CommitProcess σ τ} {s s' : Pipeline σ τ n} {label : Actor n}
    (stepped : s.next process label = some s') : Step process s label s' := by
  cases label with
  | walk =>
      simp only [next, walk] at stepped
      split at stepped
      · cases stepped
        exact .finishWalk ‹_›
      · split at stepped
        · cases stepped
          exact .skip ‹_› ‹_›
        · cases stepped
          exact .offer ‹_› (eq_false_of_ne_true ‹_›)
      · split at stepped
        · rename_i walker dropped
          cases stepped
          exact .hangUp walker (by simpa using dropped)
        · split at stepped
          · cases stepped
            exact .send ‹_› ‹_›
          · cases stepped
      · cases stepped
  | acquire i =>
      simp only [next, acquire] at stepped
      split at stepped
      · cases stepped
        exact .acquire ‹_› ‹_›
      · cases stepped
  | receive i =>
      simp only [next, receive] at stepped
      split at stepped
      · cases stepped
        exact .receive ‹_› ‹_›
      · cases stepped
        exact .drain ‹_› ‹_› ‹_›
      · cases stepped
  | advance i =>
      simp only [next, advance] at stepped
      split at stepped
      · split at stepped
        · cases stepped
          exact .work ‹_› ‹_›
        · cases stepped
          exact .complete ‹_› ‹_›
        · cases stepped
          exact .fail ‹_› ‹_›
        · cases stepped
          exact .unwind ‹_› ‹_›
      · cases stepped
  | join =>
      simp only [next, join] at stepped
      split at stepped
      · split at stepped
        · cases stepped
          exact .beginJoin ‹_› ‹_›
        · cases stepped
      · rename_i k main
        split at stepped
        · rename_i inRange
          split at stepped
          · cases stepped
            exact .joinExited ⟨k, inRange⟩ main ‹_›
          · cases stepped
            exact .joinPanicked ⟨k, inRange⟩ main ‹_›
          · cases stepped
        · cases stepped
          exact .finish main (Nat.le_of_not_lt ‹_›)
      · cases stepped

/-- What holds of the commits at work still does after worker `i` moved. -/
theorem processing_update {P : CommitMeta → τ → Prop} {workers : Fin n → Worker τ} {i : Fin n}
    {worker : Worker τ}
    (stays : ∀ j commit task, j ≠ i → (workers j).phase = .processing commit task → P commit task)
    (moved : ∀ commit task, worker.phase = .processing commit task → P commit task) :
    ∀ j commit task, (Function.update workers i worker j).phase = .processing commit task →
      P commit task := by
  intro j commit task phase
  by_cases same : j = i
  · subst same
    rw [Function.update_self] at phase
    exact moved commit task phase
  · rw [Function.update_of_ne same] at phase
    exact stays j commit task same phase

/-- The phase of a worker after a step of its processing. -/
def afterProgress (commit : CommitMeta) : Progress τ → Phase τ
  | .running task => .processing commit task
  | .finished _ => .idle
  | .panicked => .panicked

/-- Only a worker at its processing changes the storage; it goes where its processing leads. -/
theorem storage_step {process : CommitProcess σ τ} {s s' : Pipeline σ τ n} {label : Actor n}
    (step : Step process s label s') :
    (∀ i, label ≠ .advance i) ∧ s'.storage = s.storage ∨
      ∃ i commit task progress, label = .advance i ∧
        (s.workers i).phase = .processing commit task ∧
        process.advance commit s.storage task = (s'.storage, progress) ∧
        (s'.workers i).phase = afterProgress commit progress := by
  cases step with
  | work phase advanced =>
      exact Or.inr ⟨_, _, _, _, rfl, phase, advanced, by simp [setPhase, setWorker, afterProgress]⟩
  | complete phase advanced =>
      exact Or.inr ⟨_, _, _, _, rfl, phase, advanced, by simp [record, setWorker, afterProgress]⟩
  | fail phase advanced =>
      exact Or.inr ⟨_, _, _, _, rfl, phase, advanced, by simp [record, setWorker, afterProgress]⟩
  | unwind phase advanced =>
      exact Or.inr ⟨_, _, _, _, rfl, phase, advanced,
        by simp [record, setPhase, setWorker, afterProgress]⟩
  | _ => exact Or.inl ⟨by simp, rfl⟩

/-- A worker's processing goes on unless the worker itself advances. -/
theorem processing_step {process : CommitProcess σ τ} {s s' : Pipeline σ τ n} {label : Actor n}
    (step : Step process s label s') {j : Fin n} {commit : CommitMeta} {task : τ}
    (phase : (s.workers j).phase = .processing commit task) (waits : label ≠ .advance j) :
    (s'.workers j).phase = .processing commit task := by
  have other : ∀ {i : Fin n} {worker : Worker τ}, i ≠ j →
      (Function.update s.workers i worker j).phase = .processing commit task := by
    intro i worker distinct
    rw [Function.update_of_ne (Ne.symm distinct), phase]
  cases step with
  | acquire phase_i free =>
      apply other
      rintro rfl
      rw [phase] at phase_i
      cases phase_i
  | receive phase_i channel =>
      apply other
      rintro rfl
      rw [phase] at phase_i
      cases phase_i
  | drain phase_i channel walker =>
      apply other
      rintro rfl
      rw [phase] at phase_i
      cases phase_i
  | work phase_i advanced => exact other fun same => waits (congrArg Actor.advance same)
  | complete phase_i advanced => exact other fun same => waits (congrArg Actor.advance same)
  | fail phase_i advanced => exact other fun same => waits (congrArg Actor.advance same)
  | unwind phase_i advanced => exact other fun same => waits (congrArg Actor.advance same)
  | _ => exact phase

end Pipeline

end Ohara
