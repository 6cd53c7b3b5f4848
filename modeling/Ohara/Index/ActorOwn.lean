import Ohara.Index.ActorAccounting

/-!
# A rule for commits with shas of their own

When the listed commits have distinct shas, a step of one commit's processing meets every other
commit of the pipeline under another sha. What each commit is owed, by how far it has come, is then
kept by every run when its own steps move it on and the steps under other shas leave it.
-/

namespace Ohara

/-- How far a commit has come. -/
inductive Stage (τ : Type) where
  | waiting
  | offered
  | working (task : τ)
  | ended (outcome : Outcome)

/-- Where a commit stands after a step of its processing. -/
def Progress.stage {τ : Type} : Progress τ → Stage τ
  | .running task => .working task
  | .finished result => .ended (.finished result)
  | .panicked => .ended .panicked

/-- Commits the walker has not looked at. -/
def Walker.waiting : Walker → List CommitMeta
  | .checking rest => rest
  | .sending _ rest => rest
  | .done => []

/-- The commit the walker has looked at and not sent. -/
def Walker.offering : Walker → List CommitMeta
  | .sending commit _ => [commit]
  | _ => []

theorem Walker.mem_pending {walker : Walker} {commit : CommitMeta}
    (mem : commit ∈ walker.waiting ∨ commit ∈ walker.offering) : commit ∈ walker.pending := by
  cases walker with
  | checking rest => simpa [waiting, offering, pending] using mem
  | sending sent rest => simpa [waiting, offering, pending, or_comm] using mem
  | done => simp [waiting, offering] at mem

namespace Pipeline

variable {σ τ : Type} {n : Nat}

/-- What the steps of a commit give it, and leave every commit of another sha. -/
structure OwnRules (process : CommitProcess σ τ) (commits : List CommitMeta)
    (Storage : σ → Prop) (Own : σ → CommitMeta → Stage τ → Prop) : Prop where
  skip : ∀ storage commit, Own storage commit .waiting →
    process.commitExists storage commit = true → Own storage commit (.ended .skipped)
  offer : ∀ storage commit, Own storage commit .waiting →
    process.commitExists storage commit = false → Own storage commit .offered
  start : ∀ storage commit, Own storage commit .offered →
    Own storage commit (.working (process.start commit))
  advance : ∀ storage commit task storage' progress, commit ∈ commits → Storage storage →
    Own storage commit (.working task) →
    process.advance commit storage task = (storage', progress) →
    Storage storage' ∧ Own storage' commit progress.stage ∧
      ∀ other stage, other.commitSha ≠ commit.commitSha → Own storage other stage →
        Own storage' other stage

/-- Every commit of the pipeline has what it is owed. -/
structure Owned (Storage : σ → Prop) (Own : σ → CommitMeta → Stage τ → Prop)
    (s : Pipeline σ τ n) : Prop where
  storage : Storage s.storage
  waiting : ∀ commit ∈ s.walker.waiting, Own s.storage commit .waiting
  offering : ∀ commit ∈ s.walker.offering, Own s.storage commit .offered
  channel : ∀ commit ∈ s.channel, Own s.storage commit .offered
  tasks : ∀ i commit task, (s.workers i).phase = .processing commit task →
    Own s.storage commit (.working task)
  log : ∀ entry ∈ s.log, Own s.storage entry.1 (.ended entry.2)

variable {Storage : σ → Prop} {Own : σ → CommitMeta → Stage τ → Prop}
  {process : CommitProcess σ τ} {commits : List CommitMeta} {s s' : Pipeline σ τ n}

theorem owned_start {storage : σ} (holds : Storage storage)
    (waiting : ∀ commit ∈ commits, Own storage commit .waiting) :
    Owned Storage Own (start n storage commits : Pipeline σ τ n) where
  storage := holds
  waiting := waiting
  offering := by simp [start, Walker.offering]
  channel := by simp [start]
  tasks := by simp [start]
  log := by simp [start]

theorem Consistent.held_listed (consistent : s.Consistent commits) {i : Fin n}
    {commit : CommitMeta} (held : commit ∈ (s.workers i).phase.held) : commit ∈ commits := by
  have counted := consistent.counted fun other => decide (other = commit)
  have at_worker : 0 < (s.workers i).phase.held.countP fun other => decide (other = commit) :=
    List.countP_pos_iff.2 ⟨commit, held, by simp⟩
  have in_sum := Execution.le_sum (fun j => (s.workers j).phase.held.countP
    fun other => decide (other = commit)) i
  have in_list : 0 < commits.countP (fun other => decide (other = commit)) := by omega
  rcases List.countP_pos_iff.1 in_list with ⟨other, mem, same⟩
  exact of_decide_eq_true same ▸ mem

/-- No commit outside the workers has the sha of one that a worker holds. -/
theorem Consistent.held_apart (consistent : s.Consistent commits)
    (distinct : (commits.map CommitMeta.commitSha).Nodup) {i : Fin n} {commit other : CommitMeta}
    (held : commit ∈ (s.workers i).phase.held)
    (outside : other ∈ s.log.map Prod.fst ∨ other ∈ s.walker.pending ∨ other ∈ s.channel) :
    other.commitSha ≠ commit.commitSha := by
  intro same
  have counted := consistent.counted fun commit' => decide (commit'.commitSha = commit.commitSha)
  have once := countP_sha_le_one distinct commit.commitSha
  have at_worker := countP_sha_pos held rfl
  have in_sum := Execution.le_sum (fun j => (s.workers j).phase.held.countP
    fun commit' => decide (commit'.commitSha = commit.commitSha)) i
  rcases outside with mem | mem | mem
  · have in_log := countP_sha_pos mem same
    omega
  · have at_walker := countP_sha_pos mem same
    omega
  · have in_channel := countP_sha_pos mem same
    omega

/-- The rest of the pipeline after a step of a worker's processing. -/
theorem Owned.advance (owned : Owned Storage Own s) (consistent : s.Consistent commits)
    (distinct : (commits.map CommitMeta.commitSha).Nodup)
    (rules : OwnRules process commits Storage Own) {i : Fin n} {commit : CommitMeta} {task : τ}
    {storage : σ} {progress : Progress τ} (phase : (s.workers i).phase = .processing commit task)
    (advanced : process.advance commit s.storage task = (storage, progress)) {worker : Worker τ}
    {log : List (CommitMeta × Outcome)}
    (moved : ∀ commit' task', worker.phase = .processing commit' task' →
      commit' = commit ∧ progress.stage = .working task')
    (logged : ∀ entry ∈ log, entry ∈ s.log ∨
      entry.1 = commit ∧ progress.stage = .ended entry.2) :
    Owned Storage Own { s with
      storage := storage, workers := Function.update s.workers i worker, log := log } := by
  have held : commit ∈ (s.workers i).phase.held := by simp [phase, Phase.held]
  rcases rules.advance _ _ _ _ _ (consistent.held_listed held) owned.storage
    (owned.tasks i commit task phase) advanced with ⟨holds, own, others⟩
  constructor
  · exact holds
  · intro other mem
    refine others _ _ ?_ (owned.waiting other mem)
    exact consistent.held_apart distinct held (Or.inr (Or.inl (Walker.mem_pending (Or.inl mem))))
  · intro other mem
    refine others _ _ ?_ (owned.offering other mem)
    exact consistent.held_apart distinct held (Or.inr (Or.inl (Walker.mem_pending (Or.inr mem))))
  · intro other mem
    refine others _ _ ?_ (owned.channel other mem)
    exact consistent.held_apart distinct held (Or.inr (Or.inr mem))
  · apply processing_update
    · intro j other task' distinct_worker other_phase
      refine others _ _ ?_ (owned.tasks j other task' other_phase)
      intro same
      have held_j : other ∈ (s.workers j).phase.held := by simp [other_phase, Phase.held]
      exact distinct_worker (consistent.held_unique distinct held held_j same)
    · intro commit' task' worker_phase
      rcases moved commit' task' worker_phase with ⟨rfl, leads⟩
      rwa [leads] at own
  · intro entry mem
    rcases logged entry mem with old | ⟨mine, leads⟩
    · refine others _ _ ?_ (owned.log entry old)
      exact consistent.held_apart distinct held (Or.inl (List.mem_map_of_mem old))
    · rw [leads] at own
      rw [mine]
      exact own

theorem Owned.ended (owned : Owned Storage Own s) (consistent : s.Consistent commits)
    (distinct : (commits.map CommitMeta.commitSha).Nodup)
    (rules : OwnRules process commits Storage Own) {i : Fin n} {commit : CommitMeta} {task : τ}
    {storage : σ} {progress : Progress τ} (phase : (s.workers i).phase = .processing commit task)
    (advanced : process.advance commit s.storage task = (storage, progress)) {outcome : Outcome}
    (ends : progress.stage = .ended outcome) {worker : Worker τ}
    (idle : ∀ commit' task', worker.phase ≠ .processing commit' task') :
    Owned Storage Own
      (({ s with storage := storage }.setWorker i worker).record commit outcome) := by
  refine owned.advance consistent distinct rules phase advanced ?_ ?_
  · intro commit' task' at_work
    exact absurd at_work (idle commit' task')
  · intro entry mem
    rcases List.mem_cons.1 mem with rfl | old
    · exact Or.inr ⟨rfl, ends⟩
    · exact Or.inl old

theorem owned_step (rules : OwnRules process commits Storage Own)
    (distinct : (commits.map CommitMeta.commitSha).Nodup) {label : Actor n}
    (consistent : s.Consistent commits) (owned : Owned Storage Own s)
    (step : Step process s label s') : Owned Storage Own s' := by
  have stays : ∀ {i : Fin n} j commit task, j ≠ i →
      (s.workers j).phase = .processing commit task → Own s.storage commit (.working task) :=
    fun j commit task _ => owned.tasks j commit task
  cases step with
  | finishWalk walker =>
      exact { owned with
        waiting := by simp [Walker.waiting]
        offering := by simp [Walker.offering] }
  | skip walker found =>
      have waiting := owned.waiting
      rw [walker] at waiting
      rw [Walker.waiting, List.forall_mem_cons] at waiting
      refine { owned with
        waiting := waiting.2
        offering := by simp [record, Walker.offering]
        log := ?_ }
      intro entry mem
      rcases List.mem_cons.1 mem with rfl | old
      · exact rules.skip _ _ waiting.1 found
      · exact owned.log entry old
  | offer walker missing =>
      have waiting := owned.waiting
      rw [walker] at waiting
      rw [Walker.waiting, List.forall_mem_cons] at waiting
      refine { owned with waiting := waiting.2, offering := ?_ }
      intro commit mem
      rw [List.mem_singleton.1 mem]
      exact rules.offer _ _ waiting.1 missing
  | hangUp walker dropped =>
      exact { owned with
        waiting := by simp [Walker.waiting]
        offering := by simp [Walker.offering] }
  | send walker room =>
      have waiting := owned.waiting
      have offering := owned.offering
      rw [walker] at waiting offering
      refine { owned with waiting := waiting, offering := by simp [Walker.offering], channel := ?_ }
      intro commit mem
      rcases List.mem_append.1 mem with old | new
      · exact owned.channel commit old
      · exact offering commit new
  | acquire phase free =>
      exact { owned with tasks := processing_update stays (by simp) }
  | receive phase channel =>
      have queued := owned.channel
      rw [channel, List.forall_mem_cons] at queued
      refine { owned with channel := queued.2, tasks := processing_update stays ?_ }
      rintro commit task ⟨⟩
      exact rules.start _ _ queued.1
  | drain phase channel walker =>
      exact { owned with tasks := processing_update stays (by simp) }
  | work phase advanced =>
      refine owned.advance consistent distinct rules phase advanced ?_ fun _ => Or.inl
      rintro commit task ⟨⟩
      exact ⟨rfl, rfl⟩
  | complete phase advanced =>
      exact owned.ended consistent distinct rules phase advanced rfl (by simp)
  | fail phase advanced =>
      exact owned.ended consistent distinct rules phase advanced rfl (by simp)
  | unwind phase advanced =>
      exact owned.ended consistent distinct rules phase advanced rfl (by simp)
  | beginJoin main walker => exact { owned with }
  | joinExited k main phase => exact { owned with }
  | joinPanicked k main phase => exact { owned with }
  | finish main joined => exact { owned with }

theorem owned_run (rules : OwnRules process commits Storage Own)
    (distinct : (commits.map CommitMeta.commitSha).Nodup) {storage : σ}
    {labels : List (Actor n)} (holds : Storage storage)
    (waiting : ∀ commit ∈ commits, Own storage commit .waiting)
    (ran : Execution.run (next process) (start n storage commits) labels = some s) :
    Owned Storage Own s := by
  have both := Execution.invariant
    (fun s : Pipeline σ τ n => s.Consistent commits ∧ Owned Storage Own s)
    (fun _ _ _ kept stepped =>
      ⟨consistent_step kept.1 (step_of_next stepped),
        owned_step rules distinct kept.1 kept.2 (step_of_next stepped)⟩)
    ⟨consistent_start storage commits, owned_start holds waiting⟩ ran
  exact both.2

end Pipeline

end Ohara
