import Ohara.Index.Provenance

/-!
# One vector space

The hunk vectors of an index come from the inputs of a single embed mode, which is the mode of the
next accepted run, as long as no run is cut off between its first hunks and the first record of its
mode.
-/

namespace Ohara

/-- The input mode of an invocation, as it is recorded. -/
def Invocation.inputMode (inv : Invocation) : String :=
    inv.embedCache.indexMetadataValue

/-- The embed-mode guard lets the invocation through. -/
def Invocation.Accepted (inv : Invocation) (stored : StoredIndexMetadata) : Prop :=
    ∀ reason, CompatibilityStatus.assess inv.runtimeForCheck stored ≠ .needsRebuild reason

/-- Every hunk vector was computed from the inputs of the mode. -/
def Store.HunksOf (store : Store) (mode : String) : Prop :=
    store.Built fun build => build.embedInputMode = mode

/-- The calls behind the embed-mode guard. -/
def CommandPhase.Guarded {n : Nat} : CommandPhase n → Prop
  | .deletingIndex => False
  | .openingRepo => False
  | .checkingMode => False
  | _ => True

/-- The recorded embed mode. -/
def Repository.recordedMode (repository : Repository) (store : Store) : Option String :=
    (repository.recordedIn store).get "embed_input_mode"

namespace Invocation

variable {inv : Invocation} {stored : StoredIndexMetadata}

/-- An accepted mode is the recorded one, if there is any. -/
theorem Accepted.inputMode_eq (accepted : inv.Accepted stored) {mode : String}
    (recorded : stored.get "embed_input_mode" = some mode) : mode = inv.inputMode := by
  have vectors := CompatibilityStatus.accepted_iff.1 accepted
  have same := vectors ("embed_input_mode", inv.inputMode)
    (by simp [RuntimeIndexMetadata.vectorAffecting, runtimeForCheck, runtimeMetadataFrom, inputMode])
    mode recorded
  simpa [componentVersionsMatch] using same

/-- Without a recorded mode every mode is accepted that some mode is accepted beside. -/
theorem Accepted.with_mode (accepted : inv.Accepted stored)
    (unrecorded : stored.get "embed_input_mode" = none) (mode : EmbedMode) :
    { inv with embedCache := mode }.Accepted stored := by
  have vectors := CompatibilityStatus.accepted_iff.1 accepted
  apply CompatibilityStatus.accepted_iff.2
  simp only [RuntimeIndexMetadata.vectorAffecting, List.forall_mem_cons] at vectors ⊢
  rcases vectors with ⟨model, dimension, -⟩
  refine ⟨model, dimension, ?_, by simp⟩
  intro actual recorded
  simp [unrecorded] at recorded

theorem accepted_of_unrecorded (unrecorded : stored.components = []) : inv.Accepted stored := by
  apply CompatibilityStatus.accepted_iff.2
  intro component _ actual recorded
  simp [StoredIndexMetadata.get, unrecorded] at recorded

end Invocation

namespace IndexSystem

variable (repository : Repository)

/-- Between the runs: the hunks are of the recorded mode, and there are none without one. -/
structure ModeKnown (store : Store) : Prop where
  recorded : ∀ mode, repository.recordedMode store = some mode → store.HunksOf mode
  unrecorded : repository.recordedMode store = none → store.NoHunks

/-- Behind the guard: the hunks are of the mode of the run, which the record does not refuse. -/
structure ModeGuarded (store : Store) (inv : Invocation) : Prop where
  accepted : inv.Accepted (repository.recordedIn store)
  hunks : store.HunksOf inv.inputMode

/-- What is known of the modes at the next call of an invocation. -/
def ModePhase (store : Store) (inv : Invocation) : CommandPhase inv.nWorkers → Prop
  | .deletingIndex => ModeKnown repository store
  | .openingRepo => ModeKnown repository store ∧
      (inv.rebuild = true → (repository.recordedIn store).components = [])
  | .checkingMode => ModeKnown repository store
  | .checkingHead => ModeKnown repository store ∧ ModeGuarded repository store inv
  | _ => ModeGuarded repository store inv

/-- The vectors are of the recorded mode, or an invocation is about to record theirs. -/
structure ModeSound (s : IndexSystem) : Prop where
  idle : s.run = none → ModeKnown repository s.store
  phase : ∀ inv phase, s.run = some ⟨inv, phase⟩ → ModePhase repository s.store inv phase

/-- The vectors are of one mode; it is that of the run that is past the guard, and without one it is
the mode of every run that the guard accepts. -/
structure OneVectorSpace (s : IndexSystem) : Prop where
  one : ∃ mode, s.store.HunksOf mode
  running : ∀ inv phase, s.run = some ⟨inv, phase⟩ → phase.Guarded → s.store.HunksOf inv.inputMode
  accepted : (∀ inv phase, s.run = some ⟨inv, phase⟩ → ¬ phase.Guarded) →
    ∀ inv : Invocation, inv.Accepted (s.recorded repository) → s.store.HunksOf inv.inputMode

/-- The branch that goes wrong is not taken: no run is cut off when there are hunks and no recorded
mode. -/
def ModeRecorded (s : IndexSystem) (label : IndexLabel) : Prop :=
    label = .abort → repository.recordedMode s.store = none → s.store.NoHunks

variable {repository} {s s' : IndexSystem} {label : IndexLabel} {inv : Invocation}
  {store store' : Store}

theorem ModeKnown.congr (known : ModeKnown repository store) (rows : store.SameRows store')
    (recorded : repository.recordedIn store' = repository.recordedIn store) :
    ModeKnown repository store' where
  recorded := by
    intro mode recorded_mode
    rw [Repository.recordedMode, recorded] at recorded_mode
    exact (known.recorded mode recorded_mode).congr rows
  unrecorded := by
    intro unrecorded
    rw [Repository.recordedMode, recorded] at unrecorded
    exact (known.unrecorded unrecorded).congr rows

theorem ModeGuarded.congr (guarded : ModeGuarded repository store inv)
    (rows : store.SameRows store')
    (recorded : repository.recordedIn store' = repository.recordedIn store) :
    ModeGuarded repository store' inv where
  accepted := by
    rw [recorded]
    exact guarded.accepted
  hunks := guarded.hunks.congr rows

theorem ModeKnown.hunksOf (known : ModeKnown repository store)
    (accepted : inv.Accepted (repository.recordedIn store)) : store.HunksOf inv.inputMode := by
  cases recorded : repository.recordedMode store with
  | none => exact (known.unrecorded recorded).built
  | some mode =>
      rw [← accepted.inputMode_eq recorded]
      exact known.recorded mode recorded

/-- A run that has recorded its mode, or put nothing, can be cut off. -/
theorem ModeGuarded.known (guarded : ModeGuarded repository store inv)
    (unrecorded : repository.recordedMode store = none → store.NoHunks) :
    ModeKnown repository store where
  recorded := by
    intro mode recorded
    rw [guarded.accepted.inputMode_eq recorded]
    exact guarded.hunks
  unrecorded := unrecorded

theorem modeGuarded_of_guarded {phase : CommandPhase inv.nWorkers} (behind : phase.Guarded)
    (sound : ModePhase repository store inv phase) : ModeGuarded repository store inv := by
  cases phase with
  | deletingIndex => exact behind.elim
  | openingRepo => exact behind.elim
  | checkingMode => exact behind.elim
  | checkingHead => exact sound.2
  | _ => exact sound

/-- Before the guard the modes are known as between the runs. -/
theorem modeKnown_of_not_guarded {phase : CommandPhase inv.nWorkers} (before : ¬ phase.Guarded)
    (sound : ModePhase repository store inv phase) : ModeKnown repository store := by
  cases phase with
  | deletingIndex => exact sound
  | openingRepo => exact sound.1
  | checkingMode => exact sound
  | _ => exact absurd trivial before

/-- A run that the guard lets through goes on in the mode of the stored hunks. -/
theorem ModeKnown.afterGuard (known : ModeKnown repository store)
    (accepted : inv.Accepted (repository.recordedIn store)) :
    ModePhase repository store inv (afterGuard inv) := by
  have guarded : ModeGuarded repository store inv := ⟨accepted, known.hunksOf accepted⟩
  simp only [IndexSystem.afterGuard]
  split
  · exact guarded
  · split
    · exact ⟨known, guarded⟩
    · exact guarded

theorem modeSound_stop (known : ModeKnown repository s.store) : s.stop.ModeSound repository where
  idle := fun _ => known
  phase := by
    intro inv phase running
    cases running

theorem modeSound_goto {phase : CommandPhase inv.nWorkers}
    (sound : ModePhase repository s.store inv phase) : (s.goto inv phase).ModeSound repository where
  idle := by
    intro idle
    cases idle
  phase := by
    intro inv' phase' running
    cases running
    exact sound

theorem ModeSound.guarded (sound : s.ModeSound repository) {phase : CommandPhase inv.nWorkers}
    (running : s.run = some ⟨inv, phase⟩) (behind : phase.Guarded) :
    ModeGuarded repository s.store inv :=
  modeGuarded_of_guarded behind (sound.phase _ _ running)

theorem recordedMode_putMetadata (repository : Repository) (s : IndexSystem) (inv : Invocation) :
    repository.recordedMode (s.withDb (IndexMetadata.putMany repository.repoId
      inv.runtimeMetadata.toStorageComponents s.store.db)).store = some inv.inputMode := by
  simp only [Repository.recordedMode, Repository.recordedIn, withDb]
  apply IndexMetadata.get_putMany_of_unique
  · exact inv.runtimeMetadata.embedInputMode_mem
  · intro version mem
    exact inv.runtimeMetadata.embedInputMode_unique mem

theorem modeSound_step (sound : s.Sound repository) (modes : s.ModeSound repository)
    (recordedFirst : s.ModeRecorded repository label) (step : Step repository s label s') :
    s'.ModeSound repository := by
  cases step with
  | moveHead idle => exact ⟨modes.idle, modes.phase⟩
  | refuseRebuild idle => exact modes
  | @invoke inv idle =>
      apply modeSound_goto
      split
      · exact modes.idle idle
      · next incremental => exact ⟨modes.idle idle, fun rebuild => absurd rebuild incremental⟩
  | @abort run running =>
      rcases run with ⟨inv, phase⟩
      apply modeSound_stop
      by_cases behind : phase.Guarded
      · exact (modes.guarded running behind).known (recordedFirst rfl)
      · exact modeKnown_of_not_guarded behind (modes.phase _ _ running)
  | deleteIndex running =>
      apply modeSound_goto
      refine ⟨⟨?_, fun _ => Store.noHunks_fresh⟩, fun _ => rfl⟩
      intro mode recorded
      cases recorded
  | @openRepo inv running =>
      rcases modes.phase _ _ running with ⟨known, fresh⟩
      have rows := s.sameRows_aside (Repo.upsert repository.repoId repository.path
        repository.firstCommitSha s.store.db).repo s.store.db.indexMetadata
      have kept := known.congr rows rfl
      apply modeSound_goto
      split
      · next rebuild => exact kept.afterGuard (Invocation.accepted_of_unrecorded (fresh rebuild))
      · exact kept
  | refuseMode running assessed => exact modeSound_stop (modes.phase _ _ running)
  | @passMode inv running accepted =>
      have known : ModeKnown repository s.store := modes.phase _ _ running
      exact modeSound_goto (known.afterGuard accepted)
  | clearSymbols running cleared =>
      rcases Symbol.clearAll_spec sound.laid with ⟨db, done, put⟩
      cases cleared.symm.trans done
      refine modeSound_goto ?_
      exact (modes.guarded running trivial).congr (sameRows_putSymbols put _)
        (recordedIn_congr put.aside.indexMetadata)
  | upToDate running current => exact modeSound_stop (modes.phase _ _ running).1
  | behind running moved =>
      refine modeSound_goto ?_
      exact modes.guarded running trivial
  | list running listed =>
      refine modeSound_goto ?_
      exact modes.guarded running trivial
  | @work inv walk pipeline pipeline' actor running worked =>
      have guarded := modes.guarded running trivial
      have indexing : s.Indexing repository inv walk pipeline := sound.phase _ _ running
      have mine : ∀ inv', s.PutsHunks repository (.pipeline inv.nWorkers actor) inv' →
          inv'.runtimeMetadata.embedInputMode = inv.inputMode := by
        rintro inv' ⟨i, commit, work, store, ⟨walk', pipeline'', working, -⟩, -⟩
        cases running.symm.trans working
        rfl
      have hunks := built_step sound guarded.hunks mine (.work running worked)
      refine modeSound_goto ⟨?_, hunks⟩
      rw [recordedIn_congr (indexing.frame worked).indexMetadata]
      exact guarded.accepted
  | returnPipeline running returned =>
      refine modeSound_goto ?_
      exact modes.guarded running trivial
  | @putSymbols inv walk failed symbols db running extracted done =>
      rcases Symbol.putMany_spec symbols sound.laid with ⟨db', put_db, put⟩
      cases done.symm.trans put_db
      refine modeSound_goto ?_
      exact (modes.guarded running trivial).congr (sameRows_putSymbols put _)
        (recordedIn_congr put.aside.indexMetadata)
  | @setWatermark inv walk failed last running is_last =>
      have rows := s.sameRows_aside (Repo.setWatermark repository.repoId last.commitSha
        s.store.db).repo s.store.db.indexMetadata
      refine modeSound_goto ?_
      exact (modes.guarded running trivial).congr rows rfl
  | keepWatermark running empty =>
      refine modeSound_goto ?_
      exact modes.guarded running trivial
  | @putMetadata inv running =>
      have hunks := (modes.guarded running trivial).hunks
      have recorded := recordedMode_putMetadata repository s inv
      apply modeSound_stop
      refine ⟨?_, ?_⟩
      · intro mode recorded_mode
        rw [← Option.some.inj (recorded.symm.trans recorded_mode)]
        rcases IndexMetadata.putMany_spec repository.repoId inv.runtimeMetadata.toStorageComponents
          s.store.db with ⟨metadata, put⟩
        rw [put]
        exact hunks.congr (s.sameRows_aside s.store.db.repo metadata)
      · intro unrecorded
        rw [recorded] at unrecorded
        cases unrecorded

theorem ModeSound.oneVectorSpace (modes : s.ModeSound repository) :
    s.OneVectorSpace repository := by
  have unguarded : (∀ inv phase, s.run = some ⟨inv, phase⟩ → ¬ phase.Guarded) →
      ModeKnown repository s.store := by
    intro before
    cases running : s.run with
    | none => exact modes.idle running
    | some run =>
        exact modeKnown_of_not_guarded (before run.inv run.phase running)
          (modes.phase run.inv run.phase running)
  constructor
  · by_cases before : ∀ inv phase, s.run = some ⟨inv, phase⟩ → ¬ phase.Guarded
    · cases recorded : repository.recordedMode s.store with
      | none => exact ⟨"semantic", ((unguarded before).unrecorded recorded).built⟩
      | some mode => exact ⟨mode, (unguarded before).recorded mode recorded⟩
    · push Not at before
      rcases before with ⟨inv, phase, running, behind⟩
      exact ⟨inv.inputMode, (modes.guarded running behind).hunks⟩
  · intro inv phase running behind
    exact (modes.guarded running behind).hunks
  · intro before inv accepted
    exact (unguarded before).hunksOf accepted

/-- Hunks of both modes are none. -/
theorem noHunks_of_modes (semantic : store.HunksOf "semantic") (diff : store.HunksOf "diff") :
    store.NoHunks := by
  intro sha
  by_contra stored
  rcases semantic sha stored with ⟨build, is_build, is_semantic⟩
  rcases diff sha stored with ⟨build', is_build', is_diff⟩
  cases is_build.symm.trans is_build'
  exact absurd (is_semantic.symm.trans is_diff) (by decide)

/-- A run that is cut off without a recorded mode has put no hunks, if one vector space remains. -/
theorem modeRecorded_of_oneVectorSpace (modes : s.ModeSound repository)
    (kept : ∀ s', s.next repository label = some s' → s'.OneVectorSpace repository) :
    s.ModeRecorded repository label := by
  rintro rfl unrecorded
  cases running : s.run with
  | none => exact (modes.idle running).unrecorded unrecorded
  | some run =>
      by_cases behind : run.phase.Guarded
      · have guarded := modes.guarded running behind
        have stepped : s.next repository .abort = some s.stop := by simp [next, running]
        have space := (kept _ stepped).accepted (by simp [stop])
        exact noHunks_of_modes (space _ (guarded.accepted.with_mode unrecorded .semantic))
          (space _ (guarded.accepted.with_mode unrecorded .diff))
      · exact (modeKnown_of_not_guarded behind (modes.phase _ _ running)).unrecorded unrecorded

theorem modeSound_start (head : String) : (start head).ModeSound repository where
  idle := by
    intro _
    refine ⟨?_, fun _ => Store.noHunks_fresh⟩
    intro mode recorded
    cases recorded
  phase := by
    intro inv phase running
    cases running

theorem sound_modeSound_step (kept : s.Sound repository ∧ s.ModeSound repository)
    (recordedFirst : s.ModeRecorded repository label)
    (stepped : s.next repository label = some s') :
    s'.Sound repository ∧ s'.ModeSound repository := by
  have step := step_of_next stepped
  exact ⟨sound_step kept.1 step, modeSound_step kept.1 kept.2 recordedFirst step⟩

/-- The hunk vectors share one space throughout exactly when no run is cut off with hunks stored and
no mode recorded. -/
theorem one_vector_space_iff (repository : Repository) (head : String)
    (labels : List IndexLabel) :
    Execution.Along (next repository) (ModeRecorded repository) (start head) labels ↔
      Execution.Along (next repository)
        (fun s label => ∀ s', s.next repository label = some s' → s'.OneVectorSpace repository)
        (start head) labels := by
  apply Execution.along_congr _ (fun _ _ _ => sound_modeSound_step) _
    ⟨sound_start head, modeSound_start head⟩
  intro s label ⟨sound, modes⟩
  constructor
  · intro recordedFirst s' stepped
    exact (modeSound_step sound modes recordedFirst (step_of_next stepped)).oneVectorSpace
  · exact modeRecorded_of_oneVectorSpace modes

end IndexSystem

namespace OneCommit

open IndexSystem

/-- An invocation that is cut off when it has stored the commit and not recorded its mode. -/
def unrecordedRun : List IndexLabel :=
    indexing (invocation .off) 3 ++ [.abort]

set_option maxRecDepth 8000 in
/-- The next run is accepted in the other mode. -/
theorem other_mode_accepted :
    ∃ s, Execution.run (next repository) (start "a") unrecordedRun = some s ∧ s.run.isNone ∧
      (invocation .diff).Accepted (s.recorded repository) ∧ ¬ s.OneVectorSpace repository := by
  refine ⟨_, rfl, rfl, Invocation.accepted_of_unrecorded rfl, ?_⟩
  intro space
  have hunks := space.accepted (by simp [stop]) (invocation .diff)
    (Invocation.accepted_of_unrecorded rfl)
  rcases hunks "a" (List.cons_ne_nil _ _) with ⟨build, is_build, is_diff⟩
  cases is_build
  exact absurd is_diff (by decide)

end OneCommit

end Ohara
