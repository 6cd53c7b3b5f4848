import Ohara.Index.ActorSteps

/-!
# The books of the pipeline

Every reachable state accounts for every listed commit, and the counters of the workers and of the
calling function add up to what the log says became of the commits.
-/

namespace Ohara

namespace ActorResult

instance : Add ActorResult where
  add a b := ⟨a.newCommits + b.newCommits, a.commitsFailed + b.commitsFailed,
    a.newHunks + b.newHunks, a.totalDiffBytes + b.totalDiffBytes,
    a.totalAddedLines + b.totalAddedLines⟩

instance : Zero ActorResult where
  zero := zero

instance : AddCancelCommMonoid ActorResult where
  add_assoc a b c := ActorResult.ext (Nat.add_assoc _ _ _) (Nat.add_assoc _ _ _)
    (Nat.add_assoc _ _ _) (Nat.add_assoc _ _ _) (Nat.add_assoc _ _ _)
  zero_add a := ActorResult.ext (Nat.zero_add _) (Nat.zero_add _) (Nat.zero_add _)
    (Nat.zero_add _) (Nat.zero_add _)
  add_zero a := rfl
  add_comm a b := ActorResult.ext (Nat.add_comm _ _) (Nat.add_comm _ _) (Nat.add_comm _ _)
    (Nat.add_comm _ _) (Nat.add_comm _ _)
  add_left_cancel a b c same := by
    simp only [HAdd.hAdd, Add.add, ActorResult.mk.injEq] at same
    rcases same with ⟨commits, failed, hunks, bytes, lines⟩
    exact ActorResult.ext (Nat.add_left_cancel commits) (Nat.add_left_cancel failed)
      (Nat.add_left_cancel hunks) (Nat.add_left_cancel bytes) (Nat.add_left_cancel lines)
  nsmul := nsmulRec

@[simp] theorem commitsFailed_add (a b : ActorResult) :
    (a + b).commitsFailed = a.commitsFailed + b.commitsFailed := rfl

@[simp] theorem commitsFailed_zero : (0 : ActorResult).commitsFailed = 0 := rfl

/-- The failure counter of a sum. -/
def commitsFailedHom : ActorResult →+ Nat where
  toFun := ActorResult.commitsFailed
  map_zero' := rfl
  map_add' _ _ := rfl

end ActorResult

/-- A worker's counters in the calling function's terms. -/
def WorkerResult.tally (wr : WorkerResult) : ActorResult where
  newCommits := wr.succeeded
  commitsFailed := wr.failed
  newHunks := wr.newHunks
  totalDiffBytes := wr.totalDiffBytes
  totalAddedLines := wr.totalAddedLines

/-- What an outcome adds to the counters. -/
def Outcome.tally : Outcome → ActorResult
  | .skipped => 0
  | .finished (.ok r) =>
      ⟨if r.persisted then 1 else 0, 0, r.newHunks, r.totalDiffBytes, r.totalAddedLines⟩
  | .finished (.error _) => ⟨0, 1, 0, 0, 0⟩
  | .panicked => 0

theorem tally_onOk (wr : WorkerResult) (r : CommitWorkResult) :
    (wr.onOk r).tally = wr.tally + Outcome.tally (.finished (.ok r)) := by
  apply ActorResult.ext <;> simp only [WorkerResult.onOk, WorkerResult.tally, Outcome.tally]
  · split
    · rfl
    · rfl
  all_goals rfl

theorem tally_onErr (wr : WorkerResult) : wr.onErr.tally = wr.tally + ⟨0, 1, 0, 0, 0⟩ :=
  rfl

theorem join_eq_add (out : ActorResult) (wr : WorkerResult) : out.join wr = out + wr.tally :=
  rfl

/-- The commit a worker is processing. -/
def Phase.held {τ : Type} : Phase τ → List CommitMeta
  | .processing commit _ => [commit]
  | _ => []

/-- What joining a worker yields: the counters of a panicked one are lost. -/
def Worker.returned {τ : Type} (worker : Worker τ) : ActorResult :=
    match worker.phase with
    | .exited => worker.result.tally
    | _ => 0

/-- How many workers the calling function has joined. -/
def MainPhase.joined (n : Nat) : MainPhase → Nat
  | .awaitingWalker => 0
  | .joining k => k
  | .returned => n

namespace Pipeline

variable {σ τ : Type} {n : Nat}

/-- The bookkeeping of a run over `commits`. -/
structure Consistent (commits : List CommitMeta) (s : Pipeline σ τ n) : Prop where
  /-- Each listed commit is in the log, at the walker, in the channel or at one worker. -/
  counted : ∀ p : CommitMeta → Bool, commits.countP p =
    (s.log.map Prod.fst).countP p + s.walker.pending.countP p + s.channel.countP p +
      ∑ i, (s.workers i).phase.held.countP p
  lock : ∀ i, s.rxLock = some i ↔ (s.workers i).phase = .receiving
  exited : ∀ i, (s.workers i).phase = .exited → s.walker = .done ∧ s.channel = []
  walked : s.main ≠ .awaitingWalker → s.walker = .done
  joined : ∀ i : Fin n, i.val < s.main.joined n →
    (s.workers i).phase = .exited ∨ (s.workers i).phase = .panicked
  tallied : ∑ i, (s.workers i).result.tally = (s.log.map fun entry => entry.2.tally).sum
  out : s.out = ∑ i : Fin n, if i.val < s.main.joined n then (s.workers i).returned else 0

theorem consistent_start (storage : σ) (commits : List CommitMeta) :
    (start n storage commits : Pipeline σ τ n).Consistent commits where
  counted := by simp [start, Walker.pending, Phase.held]
  lock := by simp [start]
  exited := by simp [start]
  walked := by simp [start]
  joined := by simp [start, MainPhase.joined]
  tallied := by
    have noCounters : (WorkerResult.zero).tally = 0 := rfl
    simp [start, noCounters]
  out := by
    have noCounters : ActorResult.zero = 0 := rfl
    simp [start, MainPhase.joined, noCounters]

/-- A worker the calling function can join. -/
def Ended (phase : Phase τ) : Prop :=
    phase = .exited ∨ phase = .panicked

/-- The books after one running worker moved: what it held, logged and counted must balance. -/
theorem Consistent.setWorker {commits : List CommitMeta} {s s' : Pipeline σ τ n}
    (consistent : s.Consistent commits) (i : Fin n) (worker : Worker τ)
    (workers : s'.workers = Function.update s.workers i worker)
    (walker : s'.walker = s.walker) (main : s'.main = s.main) (out : s'.out = s.out)
    (active : ¬ Ended (s.workers i).phase)
    (moved : ∀ p : CommitMeta → Bool,
      (s'.log.map Prod.fst).countP p + s'.channel.countP p + worker.phase.held.countP p =
        (s.log.map Prod.fst).countP p + s.channel.countP p +
          (s.workers i).phase.held.countP p)
    (lock : ∀ j, s'.rxLock = some j ↔ (s'.workers j).phase = .receiving)
    (exited : ∀ j, (s'.workers j).phase = .exited → s'.walker = .done ∧ s'.channel = [])
    (tallied : (s'.log.map fun entry => entry.2.tally).sum + (s.workers i).result.tally =
      (s.log.map fun entry => entry.2.tally).sum + worker.result.tally) :
    s'.Consistent commits := by
  have unjoined : ∀ j : Fin n, j.val < s.main.joined n → j ≠ i := by
    intro j j_joined same
    exact active (same ▸ consistent.joined j j_joined)
  have untouched : ∀ j : Fin n, j.val < s.main.joined n → s'.workers j = s.workers j := by
    intro j j_joined
    rw [workers, Function.update_of_ne (unjoined j j_joined)]
  constructor
  · intro p
    have before := consistent.counted p
    have exchanged := Execution.sum_update (fun worker : Worker τ => worker.phase.held.countP p)
      s.workers i worker
    have balance := moved p
    rw [walker, workers]
    omega
  · exact lock
  · exact exited
  · rw [main, walker]
    exact consistent.walked
  · intro j j_joined
    rw [main] at j_joined
    rw [untouched j j_joined]
    exact consistent.joined j j_joined
  · have exchanged := Execution.sum_update (fun worker : Worker τ => worker.result.tally)
      s.workers i worker
    rw [consistent.tallied, ← tallied] at exchanged
    rw [workers]
    exact add_right_cancel exchanged
  · rw [out, main, consistent.out]
    apply Finset.sum_congr rfl
    intro j _
    split
    · rw [untouched j ‹_›]
    · rfl

theorem not_ended_idle : ¬ Ended (Phase.idle : Phase τ) := by
  simp [Ended]

theorem not_ended_receiving : ¬ Ended (Phase.receiving : Phase τ) := by
  simp [Ended]

theorem not_ended_processing (commit : CommitMeta) (task : τ) :
    ¬ Ended (Phase.processing commit task) := by
  simp [Ended]

theorem Consistent.lock_update {commits : List CommitMeta} {s : Pipeline σ τ n}
    (consistent : s.Consistent commits) {i : Fin n} {worker : Worker τ}
    (before : (s.workers i).phase ≠ .receiving) (after : worker.phase ≠ .receiving) (j : Fin n) :
    s.rxLock = some j ↔ (Function.update s.workers i worker j).phase = .receiving := by
  by_cases same : j = i
  · subst same
    rw [Function.update_self, consistent.lock]
    exact ⟨fun receiving => absurd receiving before, fun receiving => absurd receiving after⟩
  · rw [Function.update_of_ne same]
    exact consistent.lock j

theorem Consistent.lock_released {commits : List CommitMeta} {s : Pipeline σ τ n}
    (consistent : s.Consistent commits) {i : Fin n} {worker : Worker τ}
    (before : (s.workers i).phase = .receiving) (after : worker.phase ≠ .receiving) (j : Fin n) :
    none = some j ↔ (Function.update s.workers i worker j).phase = .receiving := by
  have held := (consistent.lock i).2 before
  refine ⟨fun impossible => absurd impossible (by simp), fun receiving => ?_⟩
  by_cases same : j = i
  · subst same
    rw [Function.update_self] at receiving
    exact absurd receiving after
  · rw [Function.update_of_ne same] at receiving
    have heldToo := (consistent.lock j).2 receiving
    rw [held] at heldToo
    exact absurd (Option.some.inj heldToo).symm same

/-- A worker that has not exited leaves what the others' exits say. -/
theorem Consistent.exited_update {commits : List CommitMeta} {s : Pipeline σ τ n}
    (consistent : s.Consistent commits) {i : Fin n} {worker : Worker τ}
    (after : worker.phase ≠ .exited) (j : Fin n)
    (exited : (Function.update s.workers i worker j).phase = .exited) :
    s.walker = .done ∧ s.channel = [] := by
  by_cases same : j = i
  · subst same
    rw [Function.update_self] at exited
    exact absurd exited after
  · rw [Function.update_of_ne same] at exited
    exact consistent.exited j exited

/-- The books after the walker moved while running: no worker has exited then. -/
theorem Consistent.setWalker {commits : List CommitMeta} {s s' : Pipeline σ τ n}
    (consistent : s.Consistent commits) (running : s.walker ≠ .done)
    (workers : s'.workers = s.workers) (rxLock : s'.rxLock = s.rxLock) (main : s'.main = s.main)
    (out : s'.out = s.out)
    (moved : ∀ p : CommitMeta → Bool,
      (s'.log.map Prod.fst).countP p + s'.walker.pending.countP p + s'.channel.countP p =
        (s.log.map Prod.fst).countP p + s.walker.pending.countP p + s.channel.countP p)
    (tallied : (s'.log.map fun entry => entry.2.tally).sum =
      (s.log.map fun entry => entry.2.tally).sum) :
    s'.Consistent commits where
  counted := by
    intro p
    have before := consistent.counted p
    have balance := moved p
    rw [workers]
    omega
  lock := by
    rw [workers, rxLock]
    exact consistent.lock
  exited := by
    intro i exited
    rw [workers] at exited
    exact absurd (consistent.exited i exited).1 running
  walked := by
    intro awaited
    rw [main] at awaited
    exact absurd (consistent.walked awaited) running
  joined := by
    rw [workers, main]
    exact consistent.joined
  tallied := by
    rw [workers, tallied]
    exact consistent.tallied
  out := by
    rw [out, main, workers]
    exact consistent.out

theorem Consistent.acquire {commits : List CommitMeta} {s : Pipeline σ τ n}
    (consistent : s.Consistent commits) {i : Fin n} (phase : (s.workers i).phase = .idle)
    (free : s.rxLock = none) :
    ({ s.setPhase i .receiving with rxLock := some i } : Pipeline σ τ n).Consistent commits := by
  refine consistent.setWorker i { s.workers i with phase := .receiving } rfl rfl rfl rfl
    ?_ ?_ ?_ ?_ rfl
  · rw [phase]
    exact not_ended_idle
  · intro p
    rw [phase]
    rfl
  · intro j
    by_cases same : j = i
    · subst same
      simp [setPhase, Pipeline.setWorker]
    · have notHeld : (s.workers j).phase ≠ .receiving := by
        intro receiving
        have held := (consistent.lock j).2 receiving
        rw [free] at held
        cases held
      simp [setPhase, Pipeline.setWorker, Function.update_of_ne same, notHeld, Ne.symm same]
  · exact consistent.exited_update (by simp)

theorem Consistent.receive {commits : List CommitMeta} {s : Pipeline σ τ n}
    (consistent : s.Consistent commits) {i : Fin n} {commit : CommitMeta} {rest : List CommitMeta}
    {task : τ} (phase : (s.workers i).phase = .receiving) (channel : s.channel = commit :: rest) :
    ({ s.setPhase i (.processing commit task) with channel := rest, rxLock := none } :
      Pipeline σ τ n).Consistent commits := by
  refine consistent.setWorker i { s.workers i with phase := .processing commit task }
    rfl rfl rfl rfl ?_ ?_ ?_ ?_ rfl
  · rw [phase]
    exact not_ended_receiving
  · intro p
    rw [phase, channel]
    simp only [setPhase, Pipeline.setWorker, Phase.held, List.countP_cons, List.countP_nil]
    omega
  · exact consistent.lock_released phase (by simp)
  · intro j exited
    have drained := consistent.exited_update (by simp) j exited
    rw [channel] at drained
    cases drained.2

theorem Consistent.drain {commits : List CommitMeta} {s : Pipeline σ τ n}
    (consistent : s.Consistent commits) {i : Fin n} (phase : (s.workers i).phase = .receiving)
    (channel : s.channel = []) (walker : s.walker = .done) :
    ({ s.setPhase i .exited with rxLock := none } : Pipeline σ τ n).Consistent commits := by
  refine consistent.setWorker i { s.workers i with phase := .exited } rfl rfl rfl rfl
    ?_ ?_ ?_ ?_ rfl
  · rw [phase]
    exact not_ended_receiving
  · intro p
    rw [phase]
    rfl
  · exact consistent.lock_released phase (by simp)
  · intro j _
    exact ⟨walker, channel⟩

/-- A processing step that keeps the commit, or ends it with an entry in the log. -/
theorem Consistent.advance {commits : List CommitMeta} {s s' : Pipeline σ τ n}
    (consistent : s.Consistent commits) {i : Fin n} {commit : CommitMeta} {task : τ}
    (phase : (s.workers i).phase = .processing commit task) (worker : Worker τ)
    (workers : s'.workers = Function.update s.workers i worker)
    (walker : s'.walker = s.walker) (main : s'.main = s.main) (out : s'.out = s.out)
    (channel : s'.channel = s.channel) (rxLock : s'.rxLock = s.rxLock)
    (notReceiving : worker.phase ≠ .receiving) (notExited : worker.phase ≠ .exited)
    (moved : ∀ p : CommitMeta → Bool,
      (s'.log.map Prod.fst).countP p + worker.phase.held.countP p =
        (s.log.map Prod.fst).countP p + [commit].countP p)
    (tallied : (s'.log.map fun entry => entry.2.tally).sum + (s.workers i).result.tally =
      (s.log.map fun entry => entry.2.tally).sum + worker.result.tally) :
    s'.Consistent commits := by
  have wasProcessing : (s.workers i).phase.held = [commit] := by
    rw [phase]
    rfl
  refine consistent.setWorker i worker workers walker main out ?_ ?_ ?_ ?_ tallied
  · rw [phase]
    exact not_ended_processing commit task
  · intro p
    have balance := moved p
    rw [channel, wasProcessing]
    omega
  · intro j
    rw [rxLock, workers]
    exact consistent.lock_update (by rw [phase]; simp) notReceiving j
  · intro j exited
    rw [workers] at exited
    rw [walker, channel]
    exact consistent.exited_update notExited j exited

/-- A processing step that ends the commit. -/
theorem Consistent.ended {commits : List CommitMeta} {s : Pipeline σ τ n}
    (consistent : s.Consistent commits) {i : Fin n} {commit : CommitMeta} {task : τ} {storage : σ}
    (phase : (s.workers i).phase = .processing commit task) (outcome : Outcome) (worker : Worker τ)
    (released : worker.phase.held = []) (notReceiving : worker.phase ≠ .receiving)
    (notExited : worker.phase ≠ .exited)
    (tallied : worker.result.tally = (s.workers i).result.tally + outcome.tally) :
    (({ s with storage := storage }.setWorker i worker).record commit outcome).Consistent
      commits := by
  refine consistent.advance phase worker rfl rfl rfl rfl rfl rfl notReceiving notExited ?_ ?_
  · intro p
    simp only [record, Pipeline.setWorker, List.map_cons, List.countP_cons, released,
      List.countP_nil]
    omega
  · simp only [record, Pipeline.setWorker, List.map_cons, List.sum_cons, tallied]
    abel

/-- The books after the calling function moved. -/
theorem Consistent.setMain {commits : List CommitMeta} {s : Pipeline σ τ n}
    (consistent : s.Consistent commits) (main : MainPhase) (out : ActorResult)
    (walked : s.walker = .done)
    (joined : ∀ i : Fin n, i.val < main.joined n → Ended (s.workers i).phase)
    (returned : out = ∑ i : Fin n, if i.val < main.joined n then (s.workers i).returned else 0) :
    ({ s with main := main, out := out } : Pipeline σ τ n).Consistent commits :=
  { consistent with
    walked := fun _ => walked
    joined := joined
    out := returned }

/-- Joining one more worker adds what it returned. -/
theorem Consistent.joinOne {commits : List CommitMeta} {s : Pipeline σ τ n}
    (consistent : s.Consistent commits) {k : Fin n} (main : s.main = .joining k)
    (ended : Ended (s.workers k).phase) :
    ({ s with main := .joining (k + 1), out := s.out + (s.workers k).returned } :
      Pipeline σ τ n).Consistent commits := by
  have walked : s.walker = .done := consistent.walked (by rw [main]; simp)
  have joinedSoFar : s.main.joined n = k := by
    rw [main]
    rfl
  apply consistent.setMain _ _ walked
  · intro i i_joined
    rcases Nat.lt_succ_iff_lt_or_eq.1 i_joined with earlier | same
    · exact consistent.joined i (joinedSoFar ▸ earlier)
    · have same_worker : i = k := Fin.ext same
      exact same_worker ▸ ended
  · rw [consistent.out, joinedSoFar]
    exact (Execution.sum_lt_succ (fun i => (s.workers i).returned) k).symm

theorem consistent_step {process : CommitProcess σ τ} {commits : List CommitMeta}
    {s s' : Pipeline σ τ n} {label : Actor n} (consistent : s.Consistent commits)
    (step : Step process s label s') : s'.Consistent commits := by
  cases step with
  | finishWalk walker =>
      refine consistent.setWalker ?_ rfl rfl rfl rfl ?_ rfl
      · simp [walker]
      · simp [walker, Walker.pending]
  | skip walker found =>
      refine consistent.setWalker ?_ rfl rfl rfl rfl ?_ ?_
      · simp [walker]
      · intro p
        simp only [walker, Walker.pending, record, List.map_cons, List.countP_cons]
        omega
      · simp [record, Outcome.tally]
  | offer walker missing =>
      refine consistent.setWalker ?_ rfl rfl rfl rfl ?_ rfl
      · simp [walker]
      · simp [walker, Walker.pending]
  | hangUp walker dropped =>
      have awaiting : s.main = .awaitingWalker := by
        by_contra moved
        have walked := consistent.walked moved
        rw [walker] at walked
        cases walked
      simp [receiverHeld, awaiting] at dropped
  | send walker room =>
      refine consistent.setWalker ?_ rfl rfl rfl rfl ?_ rfl
      · simp [walker]
      · intro p
        simp only [walker, Walker.pending, List.countP_cons, List.countP_append, List.countP_nil]
        omega
  | acquire phase free => exact consistent.acquire phase free
  | receive phase channel => exact consistent.receive phase channel
  | drain phase channel walker => exact consistent.drain phase channel walker
  | work phase advanced =>
      refine consistent.advance phase { s.workers _ with phase := .processing _ _ }
        rfl rfl rfl rfl rfl rfl (by simp) (by simp) ?_ rfl
      intro p
      rfl
  | complete phase advanced =>
      exact consistent.ended phase _ _ rfl (by simp) (by simp) (tally_onOk _ _)
  | fail phase advanced =>
      exact consistent.ended phase _ _ rfl (by simp) (by simp) (tally_onErr _)
  | unwind phase advanced =>
      exact consistent.ended phase .panicked { s.workers _ with phase := .panicked } rfl (by simp)
        (by simp) (add_zero _).symm
  | beginJoin main walker =>
      refine consistent.setMain _ s.out walker ?_ ?_
      · simp [MainPhase.joined]
      · rw [consistent.out, main]
        rfl
  | joinExited k main phase =>
      have returned : (s.workers k).returned = (s.workers k).result.tally := by
        rw [Worker.returned, phase]
      rw [join_eq_add, ← returned]
      exact consistent.joinOne main (.inl phase)
  | joinPanicked k main phase =>
      have returned : (s.workers k).returned = 0 := by
        rw [Worker.returned, phase]
      have joined := consistent.joinOne main (.inr phase)
      rw [returned, add_zero] at joined
      exact joined
  | finish main joined =>
      have walked : s.walker = .done := consistent.walked (by rw [main]; simp)
      refine consistent.setMain _ s.out walked ?_ ?_
      · intro i _
        exact consistent.joined i (by rw [main]; exact Nat.lt_of_lt_of_le i.isLt joined)
      · rw [consistent.out, main]
        apply Finset.sum_congr rfl
        intro i _
        exact (if_pos (Nat.lt_of_lt_of_le i.isLt joined)).trans (if_pos i.isLt).symm

/-- When the pipeline has returned without a panic, every worker has exited. -/
theorem Consistent.all_exited {commits : List CommitMeta} {s : Pipeline σ τ n}
    (consistent : s.Consistent commits) (calm : ∀ i, (s.workers i).phase ≠ .panicked)
    (returned : s.main = .returned) (i : Fin n) : (s.workers i).phase = .exited := by
  have ended := consistent.joined i (by rw [returned]; exact i.isLt)
  exact ended.resolve_right (calm i)

theorem Consistent.logged {commits : List CommitMeta} {s : Pipeline σ τ n}
    (consistent : s.Consistent commits) (workersExist : 0 < n)
    (calm : ∀ i, (s.workers i).phase ≠ .panicked) (returned : s.main = .returned)
    (p : CommitMeta → Bool) : commits.countP p = (s.log.map Prod.fst).countP p := by
  have exited := consistent.all_exited calm returned
  have drained := consistent.exited ⟨0, workersExist⟩ (exited _)
  have everywhere := consistent.counted p
  have held : ∑ i, (s.workers i).phase.held.countP p = 0 := by
    apply Finset.sum_eq_zero
    intro i _
    simp [exited i, Phase.held]
  simpa [drained.1, drained.2, held, Walker.pending] using everywhere

theorem Consistent.listed {commits : List CommitMeta} {s : Pipeline σ τ n}
    (consistent : s.Consistent commits) {entry : CommitMeta × Outcome} (logged : entry ∈ s.log) :
    entry.1 ∈ commits := by
  have found : 0 < (s.log.map Prod.fst).countP (fun other => decide (other = entry.1)) := by
    rw [List.countP_pos_iff]
    exact ⟨entry.1, List.mem_map_of_mem logged, by simp⟩
  have counted := consistent.counted fun other => decide (other = entry.1)
  have in_list : 0 < commits.countP (fun other => decide (other = entry.1)) := by omega
  rcases List.countP_pos_iff.1 in_list with ⟨other, other_mem, same⟩
  exact (of_decide_eq_true same) ▸ other_mem

theorem Consistent.mem_log {commits : List CommitMeta} {s : Pipeline σ τ n}
    (consistent : s.Consistent commits) (workersExist : 0 < n)
    (calm : ∀ i, (s.workers i).phase ≠ .panicked) (returned : s.main = .returned)
    {commit : CommitMeta} (listed : commit ∈ commits) : ∃ outcome, (commit, outcome) ∈ s.log := by
  have found : 0 < (s.log.map Prod.fst).countP (fun other => decide (other = commit)) := by
    rw [← consistent.logged workersExist calm returned, List.countP_pos_iff]
    exact ⟨commit, listed, by simp⟩
  rcases List.countP_pos_iff.1 found with ⟨other, other_mem, same⟩
  rcases List.mem_map.1 other_mem with ⟨entry, entry_mem, same_commit⟩
  have is_commit : entry.1 = commit := same_commit.trans (of_decide_eq_true same)
  exact ⟨entry.2, is_commit ▸ entry_mem⟩

theorem countP_sha_le_one {commits : List CommitMeta}
    (distinct : (commits.map CommitMeta.commitSha).Nodup) (sha : String) :
    commits.countP (fun commit => decide (commit.commitSha = sha)) ≤ 1 := by
  have once := List.nodup_iff_count_le_one.1 distinct sha
  rw [List.count, List.countP_map] at once
  exact once

theorem countP_sha_pos {commits : List CommitMeta} {commit : CommitMeta} {sha : String}
    (mem : commit ∈ commits) (same : commit.commitSha = sha) :
    0 < commits.countP fun commit => decide (commit.commitSha = sha) :=
  List.countP_pos_iff.2 ⟨commit, mem, by simpa using same⟩

/-- A commit that is at the walker is at no worker, when the listed commits have distinct shas. -/
theorem Consistent.not_held {commits : List CommitMeta} {s : Pipeline σ τ n}
    (consistent : s.Consistent commits) (distinct : (commits.map CommitMeta.commitSha).Nodup)
    {commit other : CommitMeta} (pending : commit ∈ s.walker.pending) {i : Fin n}
    (held : other ∈ (s.workers i).phase.held) : other.commitSha ≠ commit.commitSha := by
  intro same
  have counted := consistent.counted fun commit' => decide (commit'.commitSha = commit.commitSha)
  have once := countP_sha_le_one distinct commit.commitSha
  have at_walker := countP_sha_pos pending rfl
  have at_worker := countP_sha_pos held same
  have in_sum := Execution.le_sum (fun j => (s.workers j).phase.held.countP
    fun commit' => decide (commit'.commitSha = commit.commitSha)) i
  omega

/-- Two workers do not hold commits of one sha. -/
theorem Consistent.held_unique {commits : List CommitMeta} {s : Pipeline σ τ n}
    (consistent : s.Consistent commits) (distinct : (commits.map CommitMeta.commitSha).Nodup)
    {i j : Fin n} {commit other : CommitMeta} (held_i : commit ∈ (s.workers i).phase.held)
    (held_j : other ∈ (s.workers j).phase.held) (same : other.commitSha = commit.commitSha) :
    j = i := by
  by_contra apart
  have counted := consistent.counted fun commit' => decide (commit'.commitSha = commit.commitSha)
  have once := countP_sha_le_one distinct commit.commitSha
  have at_i := countP_sha_pos held_i rfl
  have at_j := countP_sha_pos held_j same
  have in_sum := Execution.add_le_sum (fun j => (s.workers j).phase.held.countP
    fun commit' => decide (commit'.commitSha = commit.commitSha)) apart
  omega

theorem consistent_run {process : CommitProcess σ τ} {storage : σ} {commits : List CommitMeta}
    {labels : List (Actor n)} {s : Pipeline σ τ n}
    (ran : Execution.run (next process) (start n storage commits) labels = some s) :
    s.Consistent commits :=
  Execution.invariant (Consistent commits) (fun _ _ _ consistent stepped =>
    consistent_step consistent (step_of_next stepped)) (consistent_start storage commits) ran

end Pipeline

end Ohara
