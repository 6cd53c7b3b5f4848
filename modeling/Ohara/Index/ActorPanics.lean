import Ohara.Index.ActorAccounting

/-!
# Runs in which a worker panics

While no worker panics, the pipeline can always move until it has returned, and what it returns
accounts for every commit. A panic breaks both: the task's counters are lost with its handle, its
commit is counted nowhere, and once every worker is gone the walker waits for room in a channel
nobody drains, since the calling function keeps a receiver alive.
-/

namespace Ohara

/-- The commit needs nothing more: it was indexed before, or its processing succeeded. -/
def Outcome.handled : Outcome → Bool
  | .skipped => true
  | .finished (.ok _) => true
  | _ => false

/-- The processing failed. -/
def Outcome.isError : Outcome → Bool
  | .finished (.error _) => true
  | _ => false

/-- The processing panicked. -/
def Outcome.isPanic : Outcome → Bool
  | .panicked => true
  | _ => false

namespace Pipeline

variable {σ τ : Type} {n : Nat}

/-- The step is one in which a worker's processing panics. -/
def PanicsAt (process : CommitProcess σ τ) (s : Pipeline σ τ n) : Actor n → Prop
  | .advance i => ∃ commit task storage, (s.workers i).phase = .processing commit task ∧
      process.advance commit s.storage task = (storage, .panicked)
  | _ => False

/-- No step of the run is a panic. -/
def PanicFree (process : CommitProcess σ τ) (s : Pipeline σ τ n) (labels : List (Actor n)) :
    Prop :=
    Execution.Along (next process) (fun s label => ¬ PanicsAt process s label) s labels

/-- What the counters promise: unhandled commits are the failed ones. -/
structure Accounted (commits : List CommitMeta) (s : Pipeline σ τ n) : Prop where
  counts : s.out.commitsFailed + s.log.countP (fun entry => entry.2.handled) = commits.length
  handled : s.out.commitsFailed = 0 → ∀ commit ∈ commits, ∃ outcome,
    (commit, outcome) ∈ s.log ∧ outcome.handled = true

theorem advance_enabled (process : CommitProcess σ τ) {s : Pipeline σ τ n} {i : Fin n}
    {commit : CommitMeta} {task : τ} (phase : (s.workers i).phase = .processing commit task) :
    (s.next process (.advance i)).isSome = true := by
  simp only [next, advance, phase]
  split <;> rfl

/-- With something to receive, or the channel closed, a worker that has not ended lets one move. -/
theorem worker_enabled (process : CommitProcess σ τ) {commits : List CommitMeta}
    {s : Pipeline σ τ n} (consistent : s.Consistent commits) {i : Fin n}
    (active : ¬ Ended (s.workers i).phase) (ready : s.channel ≠ [] ∨ s.walker = .done) :
    ∃ label, (s.next process label).isSome = true := by
  cases locked : s.rxLock with
  | some j =>
      have receiving := (consistent.lock j).1 locked
      refine ⟨.receive j, ?_⟩
      cases channel : s.channel with
      | cons commit rest => simp [next, receive, receiving, channel]
      | nil =>
          have walker : s.walker = .done := ready.resolve_left (fun filled => filled channel)
          simp [next, receive, receiving, channel, walker]
  | none =>
      cases phase : (s.workers i).phase with
      | idle => exact ⟨.acquire i, by simp [next, acquire, phase, locked]⟩
      | receiving =>
          have held := (consistent.lock i).2 phase
          rw [locked] at held
          cases held
      | processing commit task => exact ⟨.advance i, advance_enabled process phase⟩
      | exited => exact absurd (.inl phase) active
      | panicked => exact absurd (.inr phase) active

/-- Without a panicked worker some step is enabled until the calling function has returned. -/
theorem enabled_of_consistent (process : CommitProcess σ τ) {commits : List CommitMeta}
    {s : Pipeline σ τ n} (workersExist : 0 < n) (consistent : s.Consistent commits)
    (noPanic : ∀ i, (s.workers i).phase ≠ .panicked) (running : s.main ≠ .returned) :
    ∃ label, (s.next process label).isSome = true := by
  cases walker : s.walker with
  | checking rest =>
      refine ⟨.walk, ?_⟩
      cases rest with
      | nil => simp [next, walk, walker]
      | cons commit rest =>
          simp only [next, walk, walker]
          split <;> rfl
  | sending commit rest =>
      by_cases room : s.channel.length < n
      · refine ⟨.walk, ?_⟩
        simp only [next, walk, walker, if_pos room]
        split <;> rfl
      · have active : ¬ Ended (s.workers ⟨0, workersExist⟩).phase := by
          rintro (exited | panicked)
          · have walked := (consistent.exited _ exited).1
            rw [walker] at walked
            cases walked
          · exact noPanic _ panicked
        apply worker_enabled process consistent active
        left
        intro empty
        rw [empty] at room
        exact room workersExist
  | done =>
      cases main : s.main with
      | awaitingWalker => exact ⟨.join, by simp [next, join, main, walker]⟩
      | returned => exact absurd main running
      | joining k =>
          by_cases inRange : k < n
          · by_cases ended : Ended (s.workers ⟨k, inRange⟩).phase
            · rcases ended with exited | panicked
              · exact ⟨.join, by simp [next, join, main, inRange, exited]⟩
              · exact absurd panicked (noPanic _)
            · exact worker_enabled process consistent ended (.inr walker)
          · exact ⟨.join, by simp [next, join, main, inRange]⟩

/-- Only a panic ends a worker with its counters lost. -/
theorem noPanic_step {process : CommitProcess σ τ} {s s' : Pipeline σ τ n} {label : Actor n}
    (noPanic : ∀ i, (s.workers i).phase ≠ .panicked) (calm : ¬ PanicsAt process s label)
    (step : Step process s label s') : ∀ i, (s'.workers i).phase ≠ .panicked := by
  have moved : ∀ (i : Fin n) (worker : Worker τ), worker.phase ≠ .panicked →
      ∀ j, (Function.update s.workers i worker j).phase ≠ .panicked := by
    intro i worker calmWorker j
    by_cases same : j = i
    · subst same
      rwa [Function.update_self]
    · rw [Function.update_of_ne same]
      exact noPanic j
  cases step with
  | finishWalk walker => exact noPanic
  | skip walker found => exact noPanic
  | offer walker missing => exact noPanic
  | hangUp walker dropped => exact noPanic
  | send walker room => exact noPanic
  | acquire phase free => exact moved _ _ (by simp)
  | receive phase channel => exact moved _ _ (by simp)
  | drain phase channel walker => exact moved _ _ (by simp)
  | work phase advanced => exact moved _ _ (by simp)
  | complete phase advanced => exact moved _ _ (by simp)
  | fail phase advanced => exact moved _ _ (by simp)
  | unwind phase advanced => exact absurd ⟨_, _, _, phase, advanced⟩ calm
  | beginJoin main walker => exact noPanic
  | joinExited k main phase => exact noPanic
  | joinPanicked k main phase => exact noPanic
  | finish main joined => exact noPanic

theorem log_step {process : CommitProcess σ τ} {s s' : Pipeline σ τ n} {label : Actor n}
    (step : Step process s label s') :
    ∃ entries, s'.log = entries ++ s.log ∧
      (PanicsAt process s label ↔ ∃ entry ∈ entries, entry.2.isPanic = true) := by
  have calmAdvance : ∀ {i : Fin n} {commit : CommitMeta} {task : τ} {storage : σ}
      {progress : Progress τ}, (s.workers i).phase = .processing commit task →
      process.advance commit s.storage task = (storage, progress) → progress ≠ .panicked →
      ¬ PanicsAt process s (.advance i) := by
    rintro i commit task storage progress phase advanced calm ⟨commit', task', storage', phase',
      advanced'⟩
    rw [phase] at phase'
    cases phase'
    rw [advanced] at advanced'
    cases advanced'
    exact calm rfl
  cases step with
  | skip walker found => exact ⟨[_], rfl, by simp [PanicsAt, Outcome.isPanic]⟩
  | work phase advanced =>
      exact ⟨[], rfl, by simpa using calmAdvance phase advanced (by simp)⟩
  | complete phase advanced =>
      exact ⟨[_], rfl, by simpa [Outcome.isPanic] using calmAdvance phase advanced (by simp)⟩
  | fail phase advanced =>
      exact ⟨[_], rfl, by simpa [Outcome.isPanic] using calmAdvance phase advanced (by simp)⟩
  | unwind phase advanced =>
      refine ⟨[_], rfl, ?_⟩
      exact ⟨fun _ => ⟨_, List.mem_singleton_self _, rfl⟩, fun _ => ⟨_, _, _, phase, advanced⟩⟩
  | finishWalk walker => exact ⟨[], rfl, by simp [PanicsAt]⟩
  | offer walker missing => exact ⟨[], rfl, by simp [PanicsAt]⟩
  | hangUp walker dropped => exact ⟨[], rfl, by simp [PanicsAt]⟩
  | send walker room => exact ⟨[], rfl, by simp [PanicsAt]⟩
  | acquire phase free => exact ⟨[], rfl, by simp [PanicsAt]⟩
  | receive phase channel => exact ⟨[], rfl, by simp [PanicsAt]⟩
  | drain phase channel walker => exact ⟨[], rfl, by simp [PanicsAt]⟩
  | beginJoin main walker => exact ⟨[], rfl, by simp [PanicsAt]⟩
  | joinExited k main phase => exact ⟨[], rfl, by simp [PanicsAt]⟩
  | joinPanicked k main phase => exact ⟨[], rfl, by simp [PanicsAt]⟩
  | finish main joined => exact ⟨[], rfl, by simp [PanicsAt]⟩

theorem log_run {process : CommitProcess σ τ} {s s' : Pipeline σ τ n} {labels : List (Actor n)}
    (ran : Execution.run (next process) s labels = some s') :
    ∃ entries, s'.log = entries ++ s.log := by
  refine Execution.invariant (fun reached => ∃ entries, reached.log = entries ++ s.log)
    ?_ ⟨[], rfl⟩ ran
  rintro middle label after ⟨entries, grown⟩ stepped
  rcases log_step (step_of_next stepped) with ⟨more, grownMore, _⟩
  exact ⟨more ++ entries, by rw [grownMore, grown, List.append_assoc]⟩

theorem panicFree_of_log {process : CommitProcess σ τ} {s s' : Pipeline σ τ n}
    {labels : List (Actor n)} (ran : Execution.run (next process) s labels = some s')
    (noEntry : ∀ entry ∈ s'.log, entry.2.isPanic = false) : PanicFree process s labels := by
  induction labels generalizing s with
  | nil => trivial
  | cons label rest ih =>
      rcases Execution.run_cons.1 ran with ⟨middle, stepped, ran_rest⟩
      refine ⟨?_, ?_⟩
      · intro panics
        rcases log_step (step_of_next stepped) with ⟨entries, grown, entered⟩
        rcases entered.1 panics with ⟨entry, entry_mem, isPanic⟩
        rcases log_run ran_rest with ⟨more, grownMore⟩
        have entry_mem_log : entry ∈ s'.log := by
          rw [grownMore, grown]
          exact List.mem_append_right _ (List.mem_append_left _ entry_mem)
        rw [noEntry entry entry_mem_log] at isPanic
        cases isPanic
      · intro middle' stepped'
        rw [stepped] at stepped'
        cases stepped'
        exact ih ran_rest

theorem log_of_panicFree {process : CommitProcess σ τ} {s s' : Pipeline σ τ n}
    {labels : List (Actor n)} (clean : ∀ entry ∈ s.log, entry.2.isPanic = false)
    (panicFree : PanicFree process s labels)
    (ran : Execution.run (next process) s labels = some s') :
    ∀ entry ∈ s'.log, entry.2.isPanic = false := by
  refine Execution.invariant_along
    (fun s : Pipeline σ τ n => ∀ entry ∈ s.log, entry.2.isPanic = false) ?_ clean panicFree ran
  intro before label after clean calm stepped entry entry_mem
  rcases log_step (step_of_next stepped) with ⟨entries, grown, entered⟩
  rw [grown] at entry_mem
  rcases List.mem_append.1 entry_mem with new | old
  · exact eq_false_of_ne_true fun isPanic => calm (entered.2 ⟨entry, new, isPanic⟩)
  · exact clean entry old

theorem noPanic_run {process : CommitProcess σ τ} {storage : σ} {commits : List CommitMeta}
    {labels : List (Actor n)} {s : Pipeline σ τ n}
    (panicFree : PanicFree process (start n storage commits) labels)
    (ran : Execution.run (next process) (start n storage commits) labels = some s) (i : Fin n) :
    (s.workers i).phase ≠ .panicked := by
  have calm := Execution.invariant_along
    (fun s : Pipeline σ τ n => ∀ i, (s.workers i).phase ≠ .panicked)
    (fun _ _ _ noPanic calm stepped => noPanic_step noPanic calm (step_of_next stepped))
    (by simp [start]) panicFree ran
  exact calm i

/-- Each entry of the log is handled, an error or a panic. -/
theorem length_eq_countP (log : List (CommitMeta × Outcome)) :
    log.length = log.countP (fun entry => entry.2.handled) +
      log.countP (fun entry => entry.2.isError) + log.countP (fun entry => entry.2.isPanic) := by
  induction log with
  | nil => rfl
  | cons entry rest ih =>
      have one : ((if entry.2.handled then 1 else 0) + (if entry.2.isError then 1 else 0) +
          if entry.2.isPanic then 1 else 0) = 1 := by
        rcases entry with ⟨commit, _ | (_ | _) | _⟩ <;> rfl
      rw [List.length_cons, List.countP_cons, List.countP_cons, List.countP_cons, ih]
      omega

/-- The failure counters of the workers, lost ones included, count the errors in the log. -/
theorem Consistent.errors {commits : List CommitMeta} {s : Pipeline σ τ n}
    (consistent : s.Consistent commits) :
    ∑ i, (s.workers i).result.failed = s.log.countP (fun entry => entry.2.isError) := by
  have failed := congrArg ActorResult.commitsFailedHom consistent.tallied
  rw [map_sum, map_list_sum, List.map_map] at failed
  refine Eq.trans failed ?_
  induction s.log with
  | nil => rfl
  | cons entry rest ih =>
      rcases entry with ⟨commit, outcome⟩
      rw [List.map_cons, List.sum_cons, ih, List.countP_cons, Nat.add_comm]
      congr 1
      rcases outcome with _ | (_ | _) | _ <;> rfl

/-- What the calling function reports is what the exited workers counted. -/
theorem Consistent.reported {commits : List CommitMeta} {s : Pipeline σ τ n}
    (consistent : s.Consistent commits) (returned : s.main = .returned) :
    s.out.commitsFailed = ∑ i, (s.workers i).returned.commitsFailed := by
  have out := congrArg ActorResult.commitsFailedHom consistent.out
  rw [map_sum] at out
  refine Eq.trans out (Finset.sum_congr rfl ?_)
  intro i _
  rw [returned]
  exact congrArg ActorResult.commitsFailed (if_pos i.isLt)

theorem returned_commitsFailed_le (worker : Worker τ) :
    worker.returned.commitsFailed ≤ worker.result.failed := by
  unfold Worker.returned
  split
  · exact Nat.le_refl _
  · exact Nat.zero_le _

/-- A return that accounts for every commit had no panic. -/
theorem panicFree_of_accounted {process : CommitProcess σ τ} {storage : σ}
    {commits : List CommitMeta} {labels : List (Actor n)} {s : Pipeline σ τ n}
    (ran : Execution.run (next process) (start n storage commits) labels = some s)
    (returned : s.main = .returned) (accounted : s.Accounted commits) :
    PanicFree process (start n storage commits) labels := by
  have consistent := consistent_run ran
  apply panicFree_of_log ran
  have listed := consistent.counted fun _ => true
  simp only [List.countP_true, List.length_map] at listed
  have reported : s.out.commitsFailed ≤ s.log.countP (fun entry => entry.2.isError) := by
    rw [consistent.reported returned, ← consistent.errors]
    exact Finset.sum_le_sum fun i _ => returned_commitsFailed_le (s.workers i)
  have entries := length_eq_countP s.log
  have counts := accounted.counts
  have noPanic : s.log.countP (fun entry => entry.2.isPanic) = 0 := by omega
  rw [List.countP_eq_zero] at noPanic
  intro entry entry_mem
  exact eq_false_of_ne_true (noPanic entry entry_mem)

/-- A return after a run without panics accounts for every commit. -/
theorem accounted_of_panicFree {process : CommitProcess σ τ} {storage : σ}
    {commits : List CommitMeta} {labels : List (Actor n)} {s : Pipeline σ τ n}
    (workersExist : 0 < n)
    (panicFree : PanicFree process (start n storage commits) labels)
    (ran : Execution.run (next process) (start n storage commits) labels = some s)
    (returned : s.main = .returned) : s.Accounted commits := by
  have consistent := consistent_run ran
  have calm := noPanic_run panicFree ran
  have exited := consistent.all_exited calm returned
  have errors : s.out.commitsFailed = s.log.countP (fun entry => entry.2.isError) := by
    rw [consistent.reported returned, ← consistent.errors]
    apply Finset.sum_congr rfl
    intro i _
    rw [Worker.returned, exited i]
    rfl
  have noPanics : s.log.countP (fun entry => entry.2.isPanic) = 0 := by
    rw [List.countP_eq_zero]
    intro entry entry_mem
    simp [log_of_panicFree (by simp [start]) panicFree ran entry entry_mem]
  have entries := length_eq_countP s.log
  have listed := consistent.logged workersExist calm returned fun _ => true
  simp only [List.countP_true, List.length_map] at listed
  constructor
  · omega
  · intro noFailure commit commit_mem
    rcases consistent.mem_log workersExist calm returned commit_mem with ⟨outcome, logged⟩
    have handled : s.log.countP (fun entry => entry.2.handled) = s.log.length := by omega
    exact ⟨outcome, logged, List.countP_eq_length.1 handled _ logged⟩

/-- Up to the first panic the pipeline never blocks, and a return accounts for every commit exactly
when no worker panicked. -/
theorem pipeline_accounts (process : CommitProcess σ τ) {storage : σ} {commits : List CommitMeta}
    {labels : List (Actor n)} {s : Pipeline σ τ n} (workersExist : 0 < n)
    (ran : Execution.run (next process) (start n storage commits) labels = some s) :
    (PanicFree process (start n storage commits) labels →
      s.main = .returned ∨ ¬ Execution.Stuck (next process) s) ∧
    (s.main = .returned →
      (s.Accounted commits ↔ PanicFree process (start n storage commits) labels)) := by
  refine ⟨?_, ?_⟩
  · intro panicFree
    by_cases returned : s.main = .returned
    · exact .inl returned
    · right
      intro stuck
      rcases enabled_of_consistent process workersExist (consistent_run ran)
        (noPanic_run panicFree ran) returned with ⟨label, enabled⟩
      rw [stuck label] at enabled
      cases enabled
  · intro returned
    exact ⟨panicFree_of_accounted ran returned,
      fun panicFree => accounted_of_panicFree workersExist panicFree ran returned⟩

end Pipeline

/-- Processing in one step, ended by a fixed verdict. -/
def scriptedProcess (verdict : CommitMeta → Progress Unit) : CommitProcess Unit Unit where
  commitExists := fun _ _ => false
  start := fun _ => ()
  advance := fun commit storage _ => (storage, verdict commit)

/-- A commit of which only the SHA matters. -/
def plainCommit (sha : String) : CommitMeta where
  commitSha := sha
  parentSha := none
  isMerge := false
  author := none
  ts := 0
  message := ""

/-- Commit `a` panics, every other commit is stored. -/
def panicOnA (commit : CommitMeta) : Progress Unit :=
    if commit.commitSha = "a" then .panicked
    else .finished (.ok { CommitWorkResult.zero with persisted := true })

/-- Commit `d` was indexed before, `f` fails and `i` has ignored paths only. -/
def mixedProcess : CommitProcess Unit Unit where
  commitExists := fun _ commit => commit.commitSha = "d"
  start := fun _ => ()
  advance := fun commit storage _ =>
    if commit.commitSha = "f" then (storage, .finished (.error (.git "bad object")))
    else (storage, .finished (.ok { CommitWorkResult.zero with
      persisted := commit.commitSha ≠ "i" }))

/-- One commit for each fate. -/
def fourCommits : List CommitMeta :=
    ["d", "s", "f", "i"].map plainCommit

/-- Two workers hold a commit each, and the later one, which fails, ends first. -/
def mixedRun : List (Actor 2) :=
    [.walk, .walk, .walk, .walk, .walk, .acquire workerB, .receive workerB, .acquire workerA,
      .receive workerA, .walk, .walk, .walk, .advance workerA, .acquire workerA, .receive workerA,
      .advance workerA, .advance workerB, .acquire workerB, .receive workerB, .acquire workerA,
      .receive workerA, .join, .join, .join, .join]

theorem pipeline_accounts_mixed : ∃ s,
    Execution.run (Pipeline.next mixedProcess) (Pipeline.start 2 () fourCommits) mixedRun =
      some s ∧
    s.main = .returned ∧ s.out.newCommits = 1 ∧ s.out.commitsFailed = 1 ∧
    s.log.map (fun entry => (entry.1.commitSha, entry.2.handled)) =
      [("s", true), ("i", true), ("f", false), ("d", true)] ∧
    s.Accounted fourCommits ∧
    Pipeline.PanicFree mixedProcess (Pipeline.start 2 () fourCommits) mixedRun := by
  have told : (Execution.run (Pipeline.next mixedProcess) (Pipeline.start 2 () fourCommits)
      mixedRun).map (fun s =>
        (s.main, s.out.newCommits, s.out.commitsFailed,
          s.log.map fun entry => (entry.1.commitSha, entry.2.handled))) =
      some (.returned, 1, 1, [("s", true), ("i", true), ("f", false), ("d", true)]) := by
    decide +kernel
  cases ran : Execution.run (Pipeline.next mixedProcess) (Pipeline.start 2 () fourCommits)
      mixedRun with
  | none => simp [ran] at told
  | some s =>
      simp only [ran, Option.map_some, Option.some.injEq, Prod.mk.injEq] at told
      rcases told with ⟨returned, stored, failed, log⟩
      have handled := congrArg (List.countP Prod.snd) log
      rw [List.countP_map] at handled
      have accounted : s.Accounted fourCommits :=
        ⟨by rw [failed]; exact congrArg (1 + ·) handled, fun none_failed => by omega⟩
      have panicFree := ((Pipeline.pipeline_accounts mixedProcess (by decide) ran).2 returned).1
        accounted
      exact ⟨s, rfl, returned, stored, failed, log, accounted, panicFree⟩

/-- With one worker a panic leaves the walker waiting for ever; with two the run returns and reports
no failure although the commit that panicked was not handled. -/
theorem panic_blocks_or_hides :
    (∃ s, Execution.run (Pipeline.next (scriptedProcess panicOnA))
        (Pipeline.start 1 () [plainCommit "a", plainCommit "b", plainCommit "c"])
        [.walk, .walk, .acquire 0, .receive 0, .walk, .walk, .walk, .advance 0] = some s ∧
      s.main ≠ .returned ∧ Execution.Stuck (Pipeline.next (scriptedProcess panicOnA)) s) ∧
    (∃ s, Execution.run (Pipeline.next (scriptedProcess panicOnA))
        (Pipeline.start 2 () [plainCommit "a", plainCommit "b"])
        [.walk, .walk, .acquire 0, .receive 0, .advance 0, .walk, .walk, .acquire 1, .receive 1,
          .advance 1, .walk, .acquire 1, .receive 1, .join, .join, .join, .join] = some s ∧
      s.main = .returned ∧ s.out.commitsFailed = 0 ∧
      ¬ s.Accounted [plainCommit "a", plainCommit "b"]) := by
  refine ⟨⟨_, rfl, by decide, ?_⟩, ⟨_, rfl, rfl, rfl, ?_⟩⟩
  · intro label
    cases label with
    | walk => rfl
    | acquire i =>
        have only : i = 0 := Subsingleton.elim i 0
        subst only
        rfl
    | receive i =>
        have only : i = 0 := Subsingleton.elim i 0
        subst only
        rfl
    | advance i =>
        have only : i = 0 := Subsingleton.elim i 0
        subst only
        rfl
    | join => rfl
  · intro accounted
    exact absurd accounted.counts (by decide)

end Ohara
