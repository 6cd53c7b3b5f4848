import Ohara.Index.Command
import Ohara.Index.CommitWrites

/-!
# What a step of the index system does

The branches of the machine as the cases of a relation, and what every reachable state keeps: the
tables are laid out, a run that is past the opening has its repository's row, and a run that is past
the walk has settled every commit of it that did not fail.
-/

namespace Ohara

namespace IndexSystem

variable (repository : Repository)

/-- One step, by what it does. -/
inductive Step (s : IndexSystem) : IndexLabel → IndexSystem → Prop
  | moveHead {head : String} (idle : s.run = none) : Step s (.moveHead head) { s with head := head }
  | refuseRebuild {inv : Invocation} (idle : s.run = none) : Step s (.invoke inv) s
  | invoke {inv : Invocation} (idle : s.run = none) :
      Step s (.invoke inv) (s.goto inv (if inv.rebuild then .deletingIndex else .openingRepo))
  | abort {run : CommandRun} (running : s.run = some run) : Step s .abort s.stop
  | deleteIndex {inv : Invocation} (running : s.run = some ⟨inv, .deletingIndex⟩) :
      Step s .advance ({ s with store := Store.fresh }.goto inv .openingRepo)
  | openRepo {inv : Invocation} (running : s.run = some ⟨inv, .openingRepo⟩) :
      Step s .advance ((s.withDb (Repo.upsert repository.repoId repository.path
        repository.firstCommitSha s.store.db)).goto inv
          (if inv.rebuild then afterGuard inv else .checkingMode))
  | refuseMode {inv : Invocation} {reason : String} (running : s.run = some ⟨inv, .checkingMode⟩)
      (assessed : CompatibilityStatus.assess inv.runtimeForCheck (s.recorded repository) =
        .needsRebuild reason) : Step s .advance s.stop
  | passMode {inv : Invocation} (running : s.run = some ⟨inv, .checkingMode⟩)
      (accepted : ∀ reason, CompatibilityStatus.assess inv.runtimeForCheck
        (s.recorded repository) ≠ .needsRebuild reason) :
      Step s .advance (s.goto inv (afterGuard inv))
  | clearSymbols {inv : Invocation} {db : Database}
      (running : s.run = some ⟨inv, .clearingSymbols⟩)
      (cleared : Symbol.clearAll s.store.db = .ok db) :
      Step s .advance ((s.withDb db).goto inv .listingCommits)
  | upToDate {inv : Invocation} (running : s.run = some ⟨inv, .checkingHead⟩)
      (current : s.watermark repository = some s.head) : Step s .advance s.stop
  | behind {inv : Invocation} (running : s.run = some ⟨inv, .checkingHead⟩)
      (moved : s.watermark repository ≠ some s.head) :
      Step s .advance (s.goto inv .listingCommits)
  | list {inv : Invocation} {walk : List CommitMeta}
      (running : s.run = some ⟨inv, .listingCommits⟩)
      (listed : repository.history.listCommits s.head (s.watermark repository) = .ok walk) :
      Step s .advance (s.goto inv (.indexing walk (Pipeline.start inv.nWorkers s.store walk)))
  | work {inv : Invocation} {walk : List CommitMeta}
      {pipeline pipeline' : Pipeline Store CommitTask inv.nWorkers} {actor : Actor inv.nWorkers}
      (running : s.run = some ⟨inv, .indexing walk pipeline⟩)
      (worked : Pipeline.Step (inv.commitEnv repository).process { pipeline with storage := s.store }
        actor pipeline') :
      Step s (.pipeline inv.nWorkers actor)
        ({ s with store := pipeline'.storage }.goto inv (.indexing walk pipeline'))
  | returnPipeline {inv : Invocation} {walk : List CommitMeta}
      {pipeline : Pipeline Store CommitTask inv.nWorkers}
      (running : s.run = some ⟨inv, .indexing walk pipeline⟩)
      (returned : pipeline.main = .returned) :
      Step s .advance (s.goto inv (.puttingSymbols walk (failedCommits pipeline.log)))
  | putSymbols {inv : Invocation} {walk failed : List CommitMeta} {symbols : List Symbol}
      {db : Database} (running : s.run = some ⟨inv, .puttingSymbols walk failed⟩)
      (extracted : inv.binary.headSymbols s.head = .ok symbols)
      (put : Symbol.putMany symbols s.store.db = .ok db) :
      Step s .advance ((s.withSymbols inv.binary db).goto inv (.settingWatermark walk failed))
  | setWatermark {inv : Invocation} {walk failed : List CommitMeta} {last : CommitMeta}
      (running : s.run = some ⟨inv, .settingWatermark walk failed⟩)
      (is_last : walk.getLast? = some last) :
      Step s .advance ((s.withDb (Repo.setWatermark repository.repoId last.commitSha
        s.store.db)).goto inv .puttingMetadata)
  | keepWatermark {inv : Invocation} {walk failed : List CommitMeta}
      (running : s.run = some ⟨inv, .settingWatermark walk failed⟩) (empty : walk = []) :
      Step s .advance (s.goto inv .puttingMetadata)
  | putMetadata {inv : Invocation} (running : s.run = some ⟨inv, .puttingMetadata⟩) :
      Step s .advance (s.withDb (IndexMetadata.putMany repository.repoId
        inv.runtimeMetadata.toStorageComponents s.store.db)).stop

variable {repository} {s s' : IndexSystem} {label : IndexLabel}

theorem advance_step {run : CommandRun} (running : s.run = some run)
    (stepped : s.advance repository run.inv run.phase = some s') :
    Step repository s .advance s' := by
  rcases run with ⟨inv, phase⟩
  cases phase with
  | deletingIndex =>
      cases stepped
      exact .deleteIndex running
  | openingRepo =>
      cases stepped
      exact .openRepo running
  | checkingMode =>
      simp only [advance] at stepped
      split at stepped
      · cases stepped
        exact .refuseMode running ‹_›
      · cases stepped
        exact .passMode running ‹_›
  | clearingSymbols =>
      simp only [advance] at stepped
      split at stepped
      · cases stepped
        exact .clearSymbols running ‹_›
      · cases stepped
  | checkingHead =>
      simp only [advance] at stepped
      split at stepped
      · cases stepped
        exact .upToDate running ‹_›
      · cases stepped
        exact .behind running ‹_›
  | listingCommits =>
      simp only [advance] at stepped
      split at stepped
      · cases stepped
        exact .list running ‹_›
      · cases stepped
  | indexing walk pipeline =>
      simp only [advance] at stepped
      split at stepped
      · cases stepped
        exact .returnPipeline running ‹_›
      · cases stepped
  | puttingSymbols walk failed =>
      simp only [advance] at stepped
      split at stepped
      · split at stepped
        · cases stepped
          exact .putSymbols running ‹_› ‹_›
        · cases stepped
      · cases stepped
  | settingWatermark walk failed =>
      simp only [advance] at stepped
      split at stepped
      · cases stepped
        exact .setWatermark running ‹_›
      · cases stepped
        exact .keepWatermark running (List.getLast?_eq_none_iff.1 ‹_›)
  | puttingMetadata =>
      cases stepped
      exact .putMetadata running

theorem step_of_next (stepped : s.next repository label = some s') :
    Step repository s label s' := by
  cases label with
  | moveHead head =>
      simp only [next] at stepped
      split at stepped
      · cases stepped
        exact .moveHead (by simpa using ‹s.run.isNone = true›)
      · cases stepped
  | invoke inv =>
      simp only [next] at stepped
      split at stepped
      · cases stepped
      · have idle : s.run = none := by simpa using ‹¬ s.run.isSome = true›
        split at stepped
        · cases stepped
          exact .refuseRebuild idle
        · cases stepped
          exact .invoke idle
  | advance =>
      simp only [next] at stepped
      split at stepped
      · exact advance_step ‹_› stepped
      · cases stepped
  | pipeline n actor =>
      simp only [next] at stepped
      split at stepped
      · next inv walk pipeline running =>
          split at stepped
          · next same =>
              subst same
              simp only [actorStep] at stepped
              split at stepped
              · next pipeline' moved =>
                  cases stepped
                  exact .work running (Pipeline.step_of_next moved)
              · cases stepped
          · cases stepped
      · cases stepped
  | abort =>
      simp only [next] at stepped
      split at stepped
      · cases stepped
        rcases Option.isSome_iff_exists.1 ‹s.run.isSome = true› with ⟨run, running⟩
        exact .abort running
      · cases stepped

end IndexSystem

end Ohara
