import Ohara.Index.CommandSound

/-!
# Nothing is lost behind the watermark

Every commit reachable from the recorded watermark is stored or was passed over by a run that
ignored all its paths, as long as no run that lost a commit to a failure goes on to move the
watermark past it.
-/

namespace Ohara

namespace GitHistory

variable {history : GitHistory} {head : String} {since : Option String} {walk : List CommitMeta}

theorem hidden_closed (a b : String)
    (hidden : ∃ w, since = some w ∧ history.Reaches w a) (parent : b ∈ history.parents a) :
    ∃ w, since = some w ∧ history.Reaches w b := by
  rcases hidden with ⟨w, is_since, reaches⟩
  exact ⟨w, is_since, reaches.tail parent⟩

/-- The last commit of a walk is the one it starts from. -/
theorem getLast?_walk (listed : history.listCommits head since = .ok walk) {last : CommitMeta}
    (is_last : walk.getLast? = some last) : last.commitSha = head := by
  apply (history.walks head since walk listed).getLast? hidden_closed
  simp [is_last]

/-- What is reached from the head is in the walk or reached from the hidden commit. -/
theorem mem_walk_or_hidden (listed : history.listCommits head since = .ok walk) {sha : String}
    (reaches : history.Reaches head sha) :
    (∃ commit ∈ walk, commit.commitSha = sha) ∨ ∃ w, since = some w ∧ history.Reaches w sha := by
  by_cases hidden : ∃ w, since = some w ∧ history.Reaches w sha
  · exact Or.inr hidden
  · have mem := ((history.walks head since walk listed).mem sha).2 ⟨reaches, hidden⟩
    exact Or.inl (List.mem_map.1 mem)

theorem reaches_of_mem_walk (listed : history.listCommits head since = .ok walk)
    {commit : CommitMeta} (mem : commit ∈ walk) : history.Reaches head commit.commitSha :=
  (((history.walks head since walk listed).mem _).1 (List.mem_map_of_mem mem)).1

end GitHistory

namespace IndexSystem

variable (repository : Repository)

/-- Every commit reachable from the watermark is stored, or a run passed it over as ignored. -/
def NothingLost (s : IndexSystem) : Prop :=
    ∀ w, s.watermark repository = some w → ∀ sha, repository.history.Reaches w sha →
      repository.Settled s.store sha

/-- Every commit reachable from HEAD is stored, or a run passed it over as ignored. -/
def HeadIndexed (s : IndexSystem) : Prop :=
    ∀ sha, repository.history.Reaches s.head sha → repository.Settled s.store sha

/-- The running invocation lost no commit: its pipeline has returned without a failed one, or it is
about to return because the watermark is at HEAD. -/
inductive FailureFree (s : IndexSystem) : Prop
  | walked {inv : Invocation} {walk : List CommitMeta}
      (running : s.run = some ⟨inv, .puttingSymbols walk []⟩)
  | upToDate {inv : Invocation} (running : s.run = some ⟨inv, .checkingHead⟩)
      (current : s.watermark repository = some s.head)

/-- The branch that goes wrong is not taken: a run does not set the watermark after a commit of
its walk failed that is neither stored nor passed over as ignored. -/
def FailuresSettled (s : IndexSystem) (label : IndexLabel) : Prop :=
    ∀ inv walk failed, label = .advance → s.run = some ⟨inv, .settingWatermark walk failed⟩ →
      ∀ commit ∈ failed, repository.Settled s.store commit.commitSha

variable {repository} {s s' : IndexSystem} {label : IndexLabel} {walk failed : List CommitMeta}

theorem NothingLost.mono (nothingLost : s.NothingLost repository)
    (watermark : s'.watermark repository = s.watermark repository)
    (grows : s.store.Grows repository.source s'.store) : s'.NothingLost repository := by
  intro w is_watermark sha reaches
  rw [watermark] at is_watermark
  exact (nothingLost w is_watermark sha reaches).mono grows

theorem Walked.headIndexed (walked : s.Walked repository walk failed)
    (nothingLost : s.NothingLost repository)
    (settled : ∀ commit ∈ failed, repository.Settled s.store commit.commitSha) :
    s.HeadIndexed repository := by
  intro sha reaches
  rcases GitHistory.mem_walk_or_hidden walked.lists reaches with
    ⟨commit, listed, rfl⟩ | ⟨w, is_watermark, hidden⟩
  · rcases walked.settled commit listed with lost | stored
    · exact settled commit lost
    · exact stored
  · exact nothingLost w is_watermark sha hidden

theorem Walked.watermark_setWatermark (walked : s.Walked repository walk failed)
    {last : CommitMeta} (is_last : walk.getLast? = some last) :
    (s.withDb (Repo.setWatermark repository.repoId last.commitSha s.store.db)).watermark
      repository = some s.head := by
  rw [← GitHistory.getLast?_walk walked.lists is_last]
  exact Repo.getStatus_setWatermark walked.opened

theorem nothingLost_step (sound : s.Sound repository) (nothingLost : s.NothingLost repository)
    (settled : s.FailuresSettled repository label) (step : Step repository s label s') :
    s'.NothingLost repository := by
  cases step with
  | deleteIndex running =>
      intro w is_watermark
      cases is_watermark
  | openRepo running =>
      exact nothingLost.mono (Repo.getStatus_upsert _ _ _ _) (Store.grows_of_same rfl rfl)
  | clearSymbols running cleared =>
      rcases Symbol.clearAll_spec sound.laid with ⟨db, done, put⟩
      cases cleared.symm.trans done
      apply nothingLost.mono
      · simp [watermark, Repo.getStatus, goto, withDb, put.aside.repo]
      · exact Store.grows_of_same put.shas rfl
  | work running worked =>
      have frame := (sound.phase _ _ running : s.Indexing repository _ _ _).frame worked
      apply nothingLost.mono
      · simp [watermark, Repo.getStatus, goto, frame.repo]
      · exact frame.grows
  | @putSymbols inv walk failed symbols db running extracted done =>
      rcases Symbol.putMany_spec symbols sound.laid with ⟨db', put_db, put⟩
      cases done.symm.trans put_db
      apply nothingLost.mono
      · simp [watermark, Repo.getStatus, goto, withSymbols, put.aside.repo]
      · exact Store.grows_of_same put.shas rfl
  | @setWatermark inv walk failed last running is_last =>
      have walked : s.Walked repository walk failed := sound.phase _ _ running
      have indexed := walked.headIndexed nothingLost (settled _ _ _ rfl running)
      intro w is_watermark sha reaches
      have at_head := (walked.watermark_setWatermark is_last).symm.trans is_watermark
      cases at_head
      exact indexed sha reaches
  | @putMetadata inv running =>
      rcases IndexMetadata.putMany_spec repository.repoId inv.runtimeMetadata.toStorageComponents
        s.store.db with ⟨rows, put⟩
      rw [put]
      exact nothingLost
  | _ => exact nothingLost

/-- When the watermark was moved past a failed commit and nothing is lost, the commit was settled. -/
theorem failuresSettled_of_nothingLost (sound : s.Sound repository)
    (kept : ∀ s', s.next repository label = some s' → s'.NothingLost repository) :
    s.FailuresSettled repository label := by
  rintro inv walk failed rfl running commit lost
  have walked : s.Walked repository walk failed := sound.phase _ _ running
  have listed := walked.failed_mem commit lost
  rcases List.getLast?_isSome.2 (List.ne_nil_of_mem listed) |> Option.isSome_iff_exists.1 with
    ⟨last, is_last⟩
  have stepped : s.next repository .advance = some ((s.withDb (Repo.setWatermark repository.repoId
      last.commitSha s.store.db)).goto inv .puttingMetadata) := by
    simp [next, running, advance, is_last]
  have reaches := GitHistory.reaches_of_mem_walk walked.lists listed
  exact kept _ stepped s.head (walked.watermark_setWatermark is_last) _ reaches

theorem FailureFree.headIndexed (sound : s.Sound repository)
    (nothingLost : s.NothingLost repository) (failureFree : s.FailureFree repository) :
    s.HeadIndexed repository := by
  cases failureFree with
  | @walked inv walk running =>
      have walked : s.Walked repository walk [] := sound.phase _ _ running
      exact walked.headIndexed nothingLost (by simp)
  | upToDate running current => exact nothingLost s.head current

theorem nothingLost_start (head : String) : (start head).NothingLost repository := by
  intro w is_watermark
  cases is_watermark

theorem sound_nothingLost_step (kept : s.Sound repository ∧ s.NothingLost repository)
    (settled : s.FailuresSettled repository label) (stepped : s.next repository label = some s') :
    s'.Sound repository ∧ s'.NothingLost repository := by
  have step := step_of_next stepped
  exact ⟨sound_step kept.1 step, nothingLost_step kept.1 kept.2 settled step⟩

/-- Nothing is ever lost behind the watermark exactly when no run sets it after losing a commit, and
then a run without a failure leaves every commit of HEAD stored or passed over as ignored. -/
theorem nothing_lost_iff (repository : Repository) (head : String) (labels : List IndexLabel) :
    (Execution.Along (next repository) (FailuresSettled repository) (start head) labels ↔
      Execution.Along (next repository)
        (fun s label => ∀ s', s.next repository label = some s' → s'.NothingLost repository)
        (start head) labels) ∧
    (Execution.Along (next repository) (FailuresSettled repository) (start head) labels →
      ∀ s, Execution.run (next repository) (start head) labels = some s →
        s.NothingLost repository ∧ (s.FailureFree repository → s.HeadIndexed repository)) := by
  have begun : (start head).Sound repository ∧ (start head).NothingLost repository :=
    ⟨sound_start head, nothingLost_start head⟩
  refine ⟨?_, ?_⟩
  · apply Execution.along_congr _ (fun _ _ _ => sound_nothingLost_step) _ begun
    intro s label ⟨sound, nothingLost⟩
    constructor
    · intro settled s' stepped
      exact nothingLost_step sound nothingLost settled (step_of_next stepped)
    · exact failuresSettled_of_nothingLost sound
  · intro along s ran
    rcases Execution.invariant_along _ (fun _ _ _ => sound_nothingLost_step) begun along ran with
      ⟨sound, nothingLost⟩
    exact ⟨nothingLost, FailureFree.headIndexed sound nothingLost⟩

end IndexSystem

namespace OneCommit

open IndexSystem

/-- An invocation whose embedder fails on the commit. -/
def failingInvocation : Invocation :=
    { invocation .off with
      fault := fun _ call => if call = .embedBatch then some (.embedding "out of memory") else none }

/-- A run whose only commit fails. -/
def failingRun : List IndexLabel :=
    indexing failingInvocation 1 ++ returnPipeline ++ finish

/-- An incremental run that finds the watermark at HEAD. -/
def upToDateRun : List IndexLabel :=
    [.invoke (invocation .off), .advance, .advance, .advance]

/-- After the failing run the watermark is at HEAD, which is neither stored nor passed over as
ignored, and the next run, without a failure, leaves it so. -/
theorem failed_commit_lost :
    ∃ s s', Execution.run (next repository) (start "a") failingRun = some s ∧ s.run.isNone ∧
      ¬ s.NothingLost repository ∧
      Execution.run (next repository) s upToDateRun = some s' ∧ s'.run.isNone ∧
      ¬ s'.HeadIndexed repository := by
  have unsettled : ∀ store : Store, store.db.shas = [] → store.passedIgnoring "a" = none →
      ¬ repository.Settled store "a" := by
    rintro store none_stored none_passed (stored | ⟨isIgnored, passed, -⟩)
    · simp [none_stored] at stored
    · cases none_passed.symm.trans passed
  refine ⟨_, _, rfl, rfl, ?_, rfl, rfl, ?_⟩
  · intro nothingLost
    exact unsettled _ rfl rfl (nothingLost "a" rfl "a" Relation.ReflTransGen.refl)
  · intro headIndexed
    exact unsettled _ rfl rfl (headIndexed "a" Relation.ReflTransGen.refl)

end OneCommit

end Ohara
