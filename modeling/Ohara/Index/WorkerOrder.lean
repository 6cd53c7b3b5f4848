import Ohara.Index.ActorOwn
import Ohara.Index.Alone
import Ohara.Index.Command

/-!
# The order of the workers does not show

A run of the pipeline leaves under each sha what processing that commit alone on the first store
would have left, and so does processing the listed commits one by one. The two therefore agree on
everything that is stored, whatever the number of workers and the order of their steps, and each
commit has the one fate it has alone.
-/

namespace Ohara

/-- How a listed commit is counted. -/
inductive CommitFate where
  | skipped
  | stored
  | ignored
  | failed
deriving DecidableEq

/-- The fate that a result tells. -/
def CommitFate.ofResult : Except OhraError CommitWorkResult → CommitFate
  | .error _ => .failed
  | .ok result => if result.persisted then .stored else .ignored

/-- The fate of a commit; a panic leaves it without one. -/
def Outcome.fate : Outcome → Option CommitFate
  | .skipped => some .skipped
  | .finished result => some (.ofResult result)
  | .panicked => none

/-- The commits of the log with a fate. -/
def Pipeline.counted {σ τ : Type} {n : Nat} (s : Pipeline σ τ n) (fate : CommitFate) : Nat :=
    s.log.countP fun entry => decide (entry.2.fate = some fate)

namespace CommitEnv

/-- The fate of a commit that is processed on its own. -/
def fateOf (env : CommitEnv) (store : Store) (commit : CommitMeta) : CommitFate :=
    if env.process.commitExists store commit then .skipped
    else .ofResult (env.runCommitTimed commit store).2

variable {env : CommitEnv} {embedOne : String → Option Vector} {commit : CommitMeta}
  {commits : List CommitMeta} {sha : String} {a b initial store : Store}

theorem AlikeEnd.trans {x y z : Store × Except OhraError CommitWorkResult}
    (first : env.AlikeEnd embedOne sha x y) (second : env.AlikeEnd embedOne sha y z) :
    env.AlikeEnd embedOne sha x z :=
  ⟨first.store.trans second.store, first.result.trans second.result⟩

theorem Alike.commitExists (alike : env.Alike embedOne commit.commitSha a b) :
    env.process.commitExists a commit = env.process.commitExists b commit := by
  simp only [process, alike.stored]

theorem ofResult_congr {result result' : Except OhraError CommitWorkResult}
    (same : result.toOption = result'.toOption) :
    CommitFate.ofResult result = CommitFate.ofResult result' := by
  cases result with
  | error e =>
      cases result' with
      | error e' => rfl
      | ok r => cases same
  | ok r =>
      cases result' with
      | error e' => cases same
      | ok r' =>
          cases same
          rfl

/-! ## One by one -/

theorem indexOne_of_missing (missing : env.process.commitExists store commit = false) :
    env.indexOne store commit = (env.runCommitTimed commit store).1 := by
  rw [indexOne, missing]
  rfl

theorem indexOne_of_found (found : env.process.commitExists store commit = true) :
    env.indexOne store commit = store := by
  rw [indexOne, found]
  rfl

theorem indexOne_others (each : env.stage.embedder.EachText embedOne)
    (collisionFree : Function.Injective env.stage.fromText) (commit : CommitMeta)
    (laid : store.db.Laid) :
    env.OthersAlike embedOne commit store (env.indexOne store commit) := by
  rw [indexOne]
  split
  · exact .refl laid
  · exact runCommitTimed_others each collisionFree commit laid

theorem indexOne_alike (each : env.stage.embedder.EachText embedOne)
    (collisionFree : Function.Injective env.stage.fromText)
    (alike : env.Alike embedOne commit.commitSha a b) :
    env.Alike embedOne commit.commitSha (env.indexOne a commit) (env.indexOne b commit) := by
  rw [indexOne, indexOne, alike.commitExists]
  split
  · exact alike
  · exact (runCommitTimed_alike each collisionFree alike).store

/-- The store has under each listed sha what the commit alone leaves there, and under any other sha
what was there at first. -/
structure EachAlone (env : CommitEnv) (embedOne : String → Option Vector)
    (commits : List CommitMeta) (initial store : Store) : Prop where
  listed : ∀ commit ∈ commits,
    env.Alike embedOne commit.commitSha store (env.indexOne initial commit)
  unlisted : ∀ sha, sha ∉ commits.map CommitMeta.commitSha → env.Alike embedOne sha store initial

theorem EachAlone.alike (alone : env.EachAlone embedOne commits initial a)
    (alone' : env.EachAlone embedOne commits initial b) (sha : String) :
    env.Alike embedOne sha a b := by
  by_cases listed : sha ∈ commits.map CommitMeta.commitSha
  · rcases List.mem_map.1 listed with ⟨commit, mem, rfl⟩
    exact (alone.listed commit mem).trans (alone'.listed commit mem).symm
  · exact (alone.unlisted sha listed).trans (alone'.unlisted sha listed).symm

theorem indexSerially_alone (each : env.stage.embedder.EachText embedOne)
    (collisionFree : Function.Injective env.stage.fromText)
    (distinct : (commits.map CommitMeta.commitSha).Nodup) (laid : initial.db.Laid) :
    env.EachAlone embedOne commits initial (env.indexSerially initial commits) := by
  induction commits generalizing initial with
  | nil => exact ⟨by simp, fun _ _ => Alike.refl laid⟩
  | cons commit rest ih =>
      rw [List.map_cons, List.nodup_cons] at distinct
      have others := indexOne_others each collisionFree commit laid
      have alone := ih distinct.2 others.laid
      constructor
      · intro other mem
        rcases List.mem_cons.1 mem with rfl | mem
        · exact alone.unlisted _ distinct.1
        · have apart : other.commitSha ≠ commit.commitSha := by
            intro same
            exact distinct.1 (same ▸ List.mem_map_of_mem mem)
          exact (alone.listed other mem).trans
            (indexOne_alike each collisionFree (others.others _ apart))
      · intro sha unlisted
        simp only [List.map_cons, List.mem_cons, not_or] at unlisted
        exact (alone.unlisted sha unlisted.2).trans (others.others sha unlisted.1)

/-! ## By the workers -/

/-- The processing of a commit, wherever it stands, is to end as the commit alone does. -/
def Owed (env : CommitEnv) (embedOne : String → Option Vector) (initial storage : Store)
    (commit : CommitMeta) : Stage CommitTask → Prop
  | .waiting => env.Alike embedOne commit.commitSha storage initial
  | .offered => env.process.commitExists initial commit = false ∧
      env.Alike embedOne commit.commitSha storage initial
  | .working task => env.process.commitExists initial commit = false ∧
      env.Ready embedOne commit task ∧
      env.AlikeEnd embedOne commit.commitSha (env.finish commit task storage)
        (env.runCommitTimed commit initial)
  | .ended .skipped => env.process.commitExists initial commit = true ∧
      env.Alike embedOne commit.commitSha storage initial
  | .ended (.finished result) => env.process.commitExists initial commit = false ∧
      env.AlikeEnd embedOne commit.commitSha (storage, result) (env.runCommitTimed commit initial)
  | .ended .panicked => False

/-- What a commit is owed depends on its own footprint only. -/
theorem Owed.mono (each : env.stage.embedder.EachText embedOne)
    (collisionFree : Function.Injective env.stage.fromText) {stage : Stage CommitTask}
    (owed : env.Owed embedOne initial a commit stage)
    (alike : env.Alike embedOne commit.commitSha b a) :
    env.Owed embedOne initial b commit stage := by
  rcases stage with _ | _ | task | (_ | result | _)
  · exact alike.trans owed
  · exact ⟨owed.1, alike.trans owed.2⟩
  · rcases owed with ⟨missing, ready, ends⟩
    exact ⟨missing, ready, (finish_alike each collisionFree ready alike).trans ends⟩
  · exact ⟨owed.1, alike.trans owed.2⟩
  · exact ⟨owed.1, alike.trans owed.2.store, owed.2.result⟩
  · exact owed

/-- Under the shas that are not listed nothing changes. -/
def Untouched (env : CommitEnv) (embedOne : String → Option Vector) (commits : List CommitMeta)
    (initial storage : Store) : Prop :=
    storage.db.Laid ∧
      ∀ sha, sha ∉ commits.map CommitMeta.commitSha → env.Alike embedOne sha storage initial

theorem ownRules (each : env.stage.embedder.EachText embedOne)
    (collisionFree : Function.Injective env.stage.fromText) (commits : List CommitMeta)
    (initial : Store) :
    Pipeline.OwnRules env.process commits (env.Untouched embedOne commits initial)
      (env.Owed embedOne initial) where
  skip := by
    intro storage commit owed found
    exact ⟨(Alike.commitExists owed).symm.trans found, owed⟩
  offer := by
    intro storage commit owed missing
    exact ⟨(Alike.commitExists owed).symm.trans missing, owed⟩
  start := by
    intro storage commit owed
    exact ⟨owed.1, trivial, runCommitTimed_alike each collisionFree owed.2⟩
  advance := by
    intro storage commit task storage' progress listed untouched owed advanced
    rcases owed with ⟨missing, ready, ends⟩
    rcases advance_others each collisionFree ready untouched.1 advanced with ⟨others, next_ready⟩
    have leads := finish_advance advanced
    refine ⟨⟨others.laid, ?_⟩, ?_, ?_⟩
    · intro sha unlisted
      have apart : sha ≠ commit.commitSha := by
        rintro rfl
        exact unlisted (List.mem_map_of_mem listed)
      exact (others.others sha apart).trans (untouched.2 sha unlisted)
    · cases progress with
      | running task' =>
          rw [(leads : env.finish commit task storage = _)] at ends
          exact ⟨missing, next_ready task' rfl, ends⟩
      | finished result =>
          rcases leads with ⟨_, ⟨⟩, ended⟩
          rw [ended] at ends
          exact ⟨missing, ends⟩
      | panicked => exact leads
    · intro other stage apart owed
      exact owed.mono each collisionFree (others.others _ apart)

theorem EachAlone.of_owned {n : Nat} {s : Pipeline Store CommitTask n}
    (owned : Pipeline.Owned (env.Untouched embedOne commits initial) (env.Owed embedOne initial) s)
    (logged : ∀ commit ∈ commits, ∃ outcome, (commit, outcome) ∈ s.log) :
    env.EachAlone embedOne commits initial s.storage := by
  refine ⟨?_, owned.storage.2⟩
  intro commit mem
  rcases logged commit mem with ⟨outcome, entry_mem⟩
  have owed := owned.log _ entry_mem
  rcases outcome with _ | result | _
  · rw [indexOne_of_found owed.1]
    exact owed.2
  · rw [indexOne_of_missing owed.1]
    exact owed.2.store
  · exact owed.elim

theorem Owed.fate {outcome : Outcome}
    (owed : env.Owed embedOne initial store commit (.ended outcome)) :
    outcome.fate = some (env.fateOf initial commit) := by
  rcases outcome with _ | result | _
  · rw [fateOf, owed.1]
    rfl
  · rw [fateOf, owed.1, Outcome.fate, ofResult_congr owed.2.result]
    rfl
  · exact owed.elim

end CommitEnv

/-! ## The counts -/

namespace Pipeline

variable {σ τ : Type} {n : Nat} {commits : List CommitMeta} {s : Pipeline σ τ n}

theorem Consistent.out_eq_log (consistent : s.Consistent commits)
    (calm : ∀ i, (s.workers i).phase ≠ .panicked) (returned : s.main = .returned) :
    s.out = (s.log.map fun entry => entry.2.tally).sum := by
  rw [consistent.out, ← consistent.tallied, returned]
  apply Finset.sum_congr rfl
  intro i _
  rw [Worker.returned, consistent.all_exited calm returned i]
  exact if_pos i.isLt

theorem sum_tally (log : List (CommitMeta × Outcome)) :
    (log.map fun entry : CommitMeta × Outcome => entry.2.tally).sum.newCommits =
        log.countP (fun entry => decide (entry.2.fate = some .stored)) ∧
      (log.map fun entry : CommitMeta × Outcome => entry.2.tally).sum.commitsFailed =
        log.countP (fun entry => decide (entry.2.fate = some .failed)) := by
  induction log with
  | nil => exact ⟨rfl, rfl⟩
  | cons entry rest ih =>
      have one : entry.2.tally.newCommits = (if entry.2.fate = some .stored then 1 else 0) ∧
          entry.2.tally.commitsFailed = (if entry.2.fate = some .failed then 1 else 0) := by
        rcases entry with ⟨commit, _ | (e | r) | _⟩
        · exact ⟨rfl, rfl⟩
        · exact ⟨rfl, rfl⟩
        · cases stored : r.persisted with
          | false => simp [Outcome.tally, Outcome.fate, CommitFate.ofResult, stored]
          | true => simp [Outcome.tally, Outcome.fate, CommitFate.ofResult, stored]
        · exact ⟨rfl, rfl⟩
      simp only [List.countP_cons, decide_eq_true_eq, ← ih.1, ← ih.2, ← one.1, ← one.2]
      exact ⟨Nat.add_comm _ _, Nat.add_comm _ _⟩

/-- The log of a run that returned has each listed commit once. -/
theorem Consistent.log_perm (consistent : s.Consistent commits) (workersExist : 0 < n)
    (calm : ∀ i, (s.workers i).phase ≠ .panicked) (returned : s.main = .returned) :
    (s.log.map Prod.fst).Perm commits := by
  apply List.perm_iff_count.2
  intro commit
  exact (consistent.logged workersExist calm returned _).symm

theorem sum_fates (fate : CommitMeta → CommitFate) (commits : List CommitMeta) :
    commits.countP (fun commit => decide (fate commit = .skipped)) +
        commits.countP (fun commit => decide (fate commit = .stored)) +
        commits.countP (fun commit => decide (fate commit = .ignored)) +
        commits.countP (fun commit => decide (fate commit = .failed)) = commits.length := by
  induction commits with
  | nil => rfl
  | cons commit rest ih =>
      simp only [List.countP_cons, List.length_cons]
      cases fate commit with
      | skipped => simp; omega
      | stored => simp; omega
      | ignored => simp; omega
      | failed => simp; omega

end Pipeline

namespace OneCommit

/-- A second commit with the diff of the first. -/
def twin : CommitMeta :=
    { commit with commitSha := "b" }

/-- The workers of the example, with the cache for whole diffs. -/
def cachingEnv : CommitEnv :=
    (invocation .diff).commitEnv repository

/-- Two workers read both commits before either writes, and the second commit is stored first. -/
def crossing : List (Actor 2) :=
    [.walk, .walk, .walk, .walk, .walk, .acquire workerA, .receive workerA, .acquire workerB,
      .receive workerB, .advance workerA, .advance workerB, .advance workerB, .advance workerB,
      .advance workerB, .advance workerA, .advance workerA, .advance workerA, .acquire workerA,
      .receive workerA, .acquire workerB, .receive workerB, .join, .join, .join, .join]

end OneCommit

namespace CommitEnv

end CommitEnv

end Ohara
