import Ohara.Index.ActorAccounting

/-!
# An invariant rule for the pipeline

What holds of the storage, of each task at work and of each logged outcome is kept by a run when
the processing of a single commit keeps it: the walker and the workers only move commits about.
-/

namespace Ohara

/-- Where a step of the processing leads. -/
def Progress.Leads {τ : Type} (Task : τ → Prop) (Entry : Outcome → Prop) : Progress τ → Prop
  | .running task => Task task
  | .finished result => Entry (.finished result)
  | .panicked => False

namespace Pipeline

variable {σ τ : Type} {n : Nat}

/-- What one commit's processing keeps of the storage, of the tasks and of the outcomes. -/
structure TaskRules (process : CommitProcess σ τ) (Storage : σ → Prop)
    (Task : σ → CommitMeta → τ → Prop) (Entry : σ → CommitMeta → Outcome → Prop) : Prop where
  start : ∀ storage commit, Storage storage → Task storage commit (process.start commit)
  skip : ∀ storage commit, Storage storage → process.commitExists storage commit = true →
    Entry storage commit .skipped
  advance : ∀ storage commit task storage' progress, Storage storage → Task storage commit task →
    process.advance commit storage task = (storage', progress) →
    Storage storage' ∧
      (∀ other task', Task storage other task' → Task storage' other task') ∧
      (∀ other outcome, Entry storage other outcome → Entry storage' other outcome) ∧
      progress.Leads (Task storage' commit) (Entry storage' commit)

/-- The storage, the tasks at work and the log are as the rules have it. -/
structure Kept (Storage : σ → Prop) (Task : σ → CommitMeta → τ → Prop)
    (Entry : σ → CommitMeta → Outcome → Prop) (s : Pipeline σ τ n) : Prop where
  storage : Storage s.storage
  tasks : ∀ i commit task, (s.workers i).phase = .processing commit task →
    Task s.storage commit task
  log : ∀ entry ∈ s.log, Entry s.storage entry.1 entry.2
  calm : ∀ i, (s.workers i).phase ≠ .panicked

variable {Storage : σ → Prop} {Task : σ → CommitMeta → τ → Prop}
  {Entry : σ → CommitMeta → Outcome → Prop} {process : CommitProcess σ τ}

theorem kept_start {storage : σ} {commits : List CommitMeta} (holds : Storage storage) :
    Kept Storage Task Entry (start n storage commits : Pipeline σ τ n) where
  storage := holds
  tasks := by simp [start]
  log := by simp [start]
  calm := by simp [start]

/-- A worker's move to a phase that is accounted for. -/
theorem Kept.move {s s' : Pipeline σ τ n} (kept : Kept Storage Task Entry s) (i : Fin n)
    (worker : Worker τ) (workers : s'.workers = Function.update s.workers i worker)
    (storage : Storage s'.storage)
    (stays : ∀ commit task, Task s.storage commit task → Task s'.storage commit task)
    (moved : ∀ commit task, worker.phase = .processing commit task → Task s'.storage commit task)
    (calm : worker.phase ≠ .panicked)
    (log : ∀ entry ∈ s'.log, Entry s'.storage entry.1 entry.2) :
    Kept Storage Task Entry s' where
  storage := storage
  tasks := by
    rw [workers]
    apply processing_update _ moved
    intro j commit task _ phase
    exact stays commit task (kept.tasks j commit task phase)
  log := log
  calm := by
    intro j
    rw [workers]
    by_cases same : j = i
    · subst same
      rwa [Function.update_self]
    · rw [Function.update_of_ne same]
      exact kept.calm j

theorem Kept.advance {s : Pipeline σ τ n} (kept : Kept Storage Task Entry s)
    (rules : TaskRules process Storage Task Entry) {i : Fin n} {commit : CommitMeta} {task : τ}
    {storage : σ} {progress : Progress τ} (phase : (s.workers i).phase = .processing commit task)
    (advanced : process.advance commit s.storage task = (storage, progress)) :
    Storage storage ∧ (∀ other task', Task s.storage other task' → Task storage other task') ∧
      (∀ entry ∈ s.log, Entry storage entry.1 entry.2) ∧
      progress.Leads (Task storage commit) (Entry storage commit) := by
  rcases rules.advance _ _ _ _ _ kept.storage (kept.tasks i commit task phase) advanced with
    ⟨holds, tasks, entries, leads⟩
  exact ⟨holds, tasks, fun entry mem => entries _ _ (kept.log entry mem), leads⟩

theorem Kept.ended {s : Pipeline σ τ n} (kept : Kept Storage Task Entry s)
    (rules : TaskRules process Storage Task Entry) {i : Fin n} {commit : CommitMeta} {task : τ}
    {storage : σ} {result : Except OhraError CommitWorkResult}
    (phase : (s.workers i).phase = .processing commit task)
    (advanced : process.advance commit s.storage task = (storage, .finished result))
    {worker : Worker τ} (idle : worker.phase = .idle) :
    Kept Storage Task Entry
      (({ s with storage := storage }.setWorker i worker).record commit (.finished result)) := by
  rcases kept.advance rules phase advanced with ⟨holds, tasks, entries, leads⟩
  refine kept.move i worker rfl holds tasks (by simp [idle]) (by simp [idle]) ?_
  intro entry mem
  rcases List.mem_cons.1 mem with rfl | old
  · exact leads
  · exact entries entry old

theorem kept_step (rules : TaskRules process Storage Task Entry) {s s' : Pipeline σ τ n}
    {label : Actor n} (kept : Kept Storage Task Entry s) (step : Step process s label s') :
    Kept Storage Task Entry s' := by
  have idle : ∀ {storage : σ} {phase : Phase τ}, (∀ commit task, phase ≠ .processing commit task) →
      ∀ commit task, phase = .processing commit task → Task storage commit task :=
    fun other commit task same => absurd same (other commit task)
  cases step with
  | finishWalk walker => exact ⟨kept.storage, kept.tasks, kept.log, kept.calm⟩
  | skip walker found =>
      refine ⟨kept.storage, kept.tasks, ?_, kept.calm⟩
      intro entry mem
      rcases List.mem_cons.1 mem with rfl | old
      · exact rules.skip _ _ kept.storage found
      · exact kept.log entry old
  | offer walker missing => exact ⟨kept.storage, kept.tasks, kept.log, kept.calm⟩
  | hangUp walker dropped => exact ⟨kept.storage, kept.tasks, kept.log, kept.calm⟩
  | send walker room => exact ⟨kept.storage, kept.tasks, kept.log, kept.calm⟩
  | acquire phase free =>
      exact kept.move _ _ rfl kept.storage (fun _ _ => id) (idle (by simp)) (by simp) kept.log
  | receive phase channel =>
      refine kept.move _ _ rfl kept.storage (fun _ _ => id) ?_ (by simp) kept.log
      intro commit task same
      cases same
      exact rules.start _ _ kept.storage
  | drain phase channel walker =>
      exact kept.move _ _ rfl kept.storage (fun _ _ => id) (idle (by simp)) (by simp) kept.log
  | work phase advanced =>
      rcases kept.advance rules phase advanced with ⟨holds, tasks, entries, leads⟩
      refine kept.move _ _ rfl holds tasks ?_ (by simp) entries
      intro commit task same
      cases same
      exact leads
  | complete phase advanced => exact kept.ended rules phase advanced rfl
  | fail phase advanced => exact kept.ended rules phase advanced rfl
  | unwind phase advanced =>
      rcases kept.advance rules phase advanced with ⟨-, -, -, leads⟩
      exact leads.elim
  | beginJoin main walker => exact ⟨kept.storage, kept.tasks, kept.log, kept.calm⟩
  | joinExited k main phase => exact ⟨kept.storage, kept.tasks, kept.log, kept.calm⟩
  | joinPanicked k main phase => exact ⟨kept.storage, kept.tasks, kept.log, kept.calm⟩
  | finish main joined => exact ⟨kept.storage, kept.tasks, kept.log, kept.calm⟩

theorem kept_run (rules : TaskRules process Storage Task Entry) {storage : σ}
    {commits : List CommitMeta} {labels : List (Actor n)} {s : Pipeline σ τ n}
    (holds : Storage storage)
    (ran : Execution.run (next process) (start n storage commits) labels = some s) :
    Kept Storage Task Entry s :=
  Execution.invariant (Kept Storage Task Entry) (fun _ _ _ kept stepped =>
    kept_step rules kept (step_of_next stepped)) (kept_start holds) ran

end Pipeline

end Ohara
