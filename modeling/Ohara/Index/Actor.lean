import Ohara.Library.Execution
import Ohara.Index.Stages

/-!
# The actor pipeline

`run_actor_pipeline` as a machine: one walker task, `n` worker tasks, a channel of capacity `n`
whose receiving end is shared behind a lock, and the calling function, which waits for the walker
and then for each worker in order. What a worker does with one commit is a parameter, so the
results here hold for whatever processing a commit does, panics included.

The state keeps, next to what the code holds, the log of what became of each commit.
-/

namespace Ohara

/-- What one step of processing a commit leads to. -/
inductive Progress (τ : Type) where
  | running (task : τ)
  | finished (result : Except OhraError CommitWorkResult)
  | panicked

/-- How a commit is looked up and processed, over a shared storage of type `σ`. -/
structure CommitProcess (σ τ : Type) where
  /-- `commit_exists(..).unwrap_or(false)`. -/
  commitExists : σ → CommitMeta → Bool
  /-- The processing of a commit a worker has just received. -/
  start : CommitMeta → τ
  /-- One storage call of the processing, with the work up to the next one. -/
  advance : CommitMeta → σ → τ → σ × Progress τ

/-- The walker task: looking at the next commit, sending one, or ended with its sender dropped. -/
inductive Walker where
  | checking (rest : List CommitMeta)
  | sending (commit : CommitMeta) (rest : List CommitMeta)
  | done

/-- Commits the walker has not disposed of. -/
def Walker.pending : Walker → List CommitMeta
  | .checking rest => rest
  | .sending commit rest => commit :: rest
  | .done => []

/-- Where a worker task is in its loop. -/
inductive Phase (τ : Type) where
  /-- About to lock the receiver. -/
  | idle
  /-- Holding the lock, waiting for a commit. -/
  | receiving
  | processing (commit : CommitMeta) (task : τ)
  /-- The channel was closed and drained; the task has returned its counters. -/
  | exited
  /-- The task unwound; its counters are lost and its receiver is dropped. -/
  | panicked

/-- The counters of a worker. -/
structure WorkerResult where
  newHunks : Nat
  totalDiffBytes : Nat
  totalAddedLines : Nat
  succeeded : Nat
  failed : Nat

/-- `WorkerResult::default`. -/
def WorkerResult.zero : WorkerResult := ⟨0, 0, 0, 0, 0⟩

/-- The `Ok` arm of the worker loop. -/
def WorkerResult.onOk (wr : WorkerResult) (r : CommitWorkResult) : WorkerResult where
  newHunks := wr.newHunks + r.newHunks
  totalDiffBytes := wr.totalDiffBytes + r.totalDiffBytes
  totalAddedLines := wr.totalAddedLines + r.totalAddedLines
  succeeded := if r.persisted then wr.succeeded + 1 else wr.succeeded
  failed := wr.failed

/-- The `Err` arm of the worker loop. -/
def WorkerResult.onErr (wr : WorkerResult) : WorkerResult :=
    { wr with failed := wr.failed + 1 }

/-- The counters of the pipeline. -/
@[ext] structure ActorResult where
  newCommits : Nat
  commitsFailed : Nat
  newHunks : Nat
  totalDiffBytes : Nat
  totalAddedLines : Nat
deriving DecidableEq, Repr

/-- `ActorResult::default`. -/
def ActorResult.zero : ActorResult := ⟨0, 0, 0, 0, 0⟩

/-- What the calling function adds for a worker that returned its counters. -/
def ActorResult.join (out : ActorResult) (wr : WorkerResult) : ActorResult where
  newCommits := out.newCommits + wr.succeeded
  commitsFailed := out.commitsFailed + wr.failed
  newHunks := out.newHunks + wr.newHunks
  totalDiffBytes := out.totalDiffBytes + wr.totalDiffBytes
  totalAddedLines := out.totalAddedLines + wr.totalAddedLines

/-- A worker task with its counters. -/
structure Worker (τ : Type) where
  phase : Phase τ
  result : WorkerResult

/-- The calling function: awaiting the walker, awaiting worker `k`, or returned. -/
inductive MainPhase where
  | awaitingWalker
  | joining (k : Nat)
  | returned
deriving DecidableEq

/-- What became of a commit. -/
inductive Outcome where
  | skipped
  | finished (result : Except OhraError CommitWorkResult)
  | panicked

/-- The tasks, the channel between them and the storage. -/
structure Pipeline (σ τ : Type) (n : Nat) where
  storage : σ
  walker : Walker
  channel : List CommitMeta
  rxLock : Option (Fin n)
  workers : Fin n → Worker τ
  main : MainPhase
  out : ActorResult
  /-- Not held by the code: what became of the commits so far, latest first. -/
  log : List (CommitMeta × Outcome)

/-- Who moves. -/
inductive Actor (n : Nat) where
  | walk
  | acquire (i : Fin n)
  | receive (i : Fin n)
  | advance (i : Fin n)
  | join

/-- The first of two workers. -/
def workerA : Fin 2 := 0

/-- The second of two workers. -/
def workerB : Fin 2 := 1

namespace Pipeline

variable {σ τ : Type} {n : Nat}

/-- The state when the tasks have been spawned. -/
def start (n : Nat) (storage : σ) (commits : List CommitMeta) : Pipeline σ τ n where
  storage := storage
  walker := .checking commits
  channel := []
  rxLock := none
  workers := fun _ => { phase := .idle, result := WorkerResult.zero }
  main := .awaitingWalker
  out := ActorResult.zero
  log := []

/-- The task still owns its clone of the receiver. -/
def Phase.holdsReceiver : Phase τ → Bool
  | .exited => false
  | .panicked => false
  | _ => true

/-- The receiver lives: the calling function drops its own clone only when it returns. -/
def receiverHeld (s : Pipeline σ τ n) : Bool :=
    decide (s.main ≠ .returned) ||
      (List.finRange n).any fun i => Phase.holdsReceiver (s.workers i).phase

/-- A worker moves on. -/
def setWorker (s : Pipeline σ τ n) (i : Fin n) (worker : Worker τ) : Pipeline σ τ n :=
    { s with workers := Function.update s.workers i worker }

/-- A worker moves on with its counters as they are. -/
def setPhase (s : Pipeline σ τ n) (i : Fin n) (phase : Phase τ) : Pipeline σ τ n :=
    s.setWorker i { s.workers i with phase := phase }

/-- The fate of a commit is noted. -/
def record (s : Pipeline σ τ n) (commit : CommitMeta) (outcome : Outcome) : Pipeline σ τ n :=
    { s with log := (commit, outcome) :: s.log }

/-- The walker task. -/
def walk (process : CommitProcess σ τ) (s : Pipeline σ τ n) : Option (Pipeline σ τ n) :=
    match s.walker with
    | .checking [] => some { s with walker := .done }
    | .checking (commit :: rest) =>
        if process.commitExists s.storage commit then
          some ({ s with walker := .checking rest }.record commit .skipped)
        else
          some { s with walker := .sending commit rest }
    | .sending commit rest =>
        if !s.receiverHeld then
          some { s with walker := .done }
        else if s.channel.length < n then
          some { s with walker := .checking rest, channel := s.channel ++ [commit] }
        else
          none
    | .done => none

/-- `rx_for_worker.lock()`. -/
def acquire (s : Pipeline σ τ n) (i : Fin n) : Option (Pipeline σ τ n) :=
    match (s.workers i).phase, s.rxLock with
    | .idle, none => some { s.setPhase i .receiving with rxLock := some i }
    | _, _ => none

/-- `guard.recv()`, after which the guard is dropped. -/
def receive (process : CommitProcess σ τ) (s : Pipeline σ τ n) (i : Fin n) :
    Option (Pipeline σ τ n) :=
    match (s.workers i).phase, s.channel, s.walker with
    | .receiving, commit :: rest, _ =>
        some { s.setPhase i (.processing commit (process.start commit)) with
          channel := rest, rxLock := none }
    | .receiving, [], .done => some { s.setPhase i .exited with rxLock := none }
    | _, _, _ => none

/-- One step of a worker's processing. -/
def advance (process : CommitProcess σ τ) (s : Pipeline σ τ n) (i : Fin n) :
    Option (Pipeline σ τ n) :=
    match (s.workers i).phase with
    | .processing commit task =>
        match process.advance commit s.storage task with
        | (storage, .running task) =>
            some ({ s with storage := storage }.setPhase i (.processing commit task))
        | (storage, .finished (.ok r)) =>
            some (({ s with storage := storage }.setWorker i
              { phase := .idle, result := (s.workers i).result.onOk r }).record commit
                (.finished (.ok r)))
        | (storage, .finished (.error e)) =>
            some (({ s with storage := storage }.setWorker i
              { phase := .idle, result := (s.workers i).result.onErr }).record commit
                (.finished (.error e)))
        | (storage, .panicked) =>
            some (({ s with storage := storage }.setPhase i .panicked).record commit .panicked)
    | _ => none

/-- The calling function: `walker_handle.await`, then the join loop. -/
def join (s : Pipeline σ τ n) : Option (Pipeline σ τ n) :=
    match s.main with
    | .awaitingWalker =>
        match s.walker with
        | .done => some { s with main := .joining 0 }
        | _ => none
    | .joining k =>
        if inRange : k < n then
          match (s.workers ⟨k, inRange⟩).phase with
          | .exited =>
              some { s with
                main := .joining (k + 1)
                out := s.out.join (s.workers ⟨k, inRange⟩).result }
          | .panicked => some { s with main := .joining (k + 1) }
          | _ => none
        else
          some { s with main := .returned }
    | .returned => none

/-- One step of the pipeline. -/
def next (process : CommitProcess σ τ) (s : Pipeline σ τ n) : Actor n → Option (Pipeline σ τ n)
  | .walk => s.walk process
  | .acquire i => s.acquire i
  | .receive i => s.receive process i
  | .advance i => s.advance process i
  | .join => s.join

end Pipeline

end Ohara
