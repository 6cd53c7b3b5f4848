import Ohara.Index.Watermark

/-!
# The incremental fast path

An incremental run returns early when the watermark is at HEAD. A full run would find nothing to do
there as long as nothing was lost behind the watermark, the symbol table is that of the watermark
whenever no run is at work on it, and the run has the parsers and the ignore files behind the index.
-/

namespace Ohara

/-- The symbols that the release finds in the tree of a commit, as they are seen once put. -/
def Binary.headViews (binary : Binary) (sha : String) : Except OhraError (List SymbolView) :=
    (binary.headSymbols sha).map (List.map Symbol.view)

/-- The symbol table holds the symbols that the release finds in the commit's tree. -/
def Binary.SymbolsOf (binary : Binary) (store : Store) (sha : String) : Prop :=
    binary.headViews sha = .ok store.db.symbolViews

/-- The symbol table holds those that the release which put them finds in the commit's tree. -/
def Store.SymbolsOf (store : Store) (sha : String) : Prop :=
    ∃ binary, store.symbolsBy = some binary ∧ binary.SymbolsOf store sha

/-- The symbol table holds those of the watermark. -/
def Repository.SymbolsFresh (repository : Repository) (store : Store) : Prop :=
    ∀ w, Repo.getStatus repository.repoId store.db = some w → store.SymbolsOf w

/-- The invocation may have changed the symbols and not the watermark. -/
def CommandRun.Rewriting (run : CommandRun) : Prop :=
    match run.phase with
    | .listingCommits => run.inv.force = true
    | .indexing _ _ => run.inv.force = true
    | .puttingSymbols _ _ => run.inv.force = true
    | .settingWatermark _ _ => True
    | _ => False

namespace IndexSystem

variable (repository : Repository)

/-- What is known of the symbols at the next call of an invocation. -/
def SymbolsPhase (store : Store) (head : String) (inv : Invocation) :
    CommandPhase inv.nWorkers → Prop
  | .clearingSymbols => repository.SymbolsFresh store ∧ inv.force = true
  | .listingCommits => inv.force = true ∨ repository.SymbolsFresh store
  | .indexing _ _ => inv.force = true ∨ repository.SymbolsFresh store
  | .puttingSymbols _ _ => inv.force = true ∨ repository.SymbolsFresh store
  | .settingWatermark _ _ => store.SymbolsOf head
  | _ => repository.SymbolsFresh store

/-- The symbols are those of the watermark, or an invocation is about to write HEAD's. -/
structure SymbolsSound (s : IndexSystem) : Prop where
  idle : s.run = none → repository.SymbolsFresh s.store
  phase : ∀ inv phase, s.run = some ⟨inv, phase⟩ →
    SymbolsPhase repository s.store s.head inv phase

/-- An early return would be right: nothing is lost, and the symbols are the watermark's unless an
invocation is at work on them. -/
structure FastPathReady (s : IndexSystem) : Prop where
  nothingLost : s.NothingLost repository
  symbols : (∀ run, s.run = some run → ¬ run.Rewriting) → repository.SymbolsFresh s.store

/-- The invocation is about to return early. -/
def ReturnsEarly (s : IndexSystem) (label : IndexLabel) (inv : Invocation) : Prop :=
    label = .advance ∧ s.run = some ⟨inv, .checkingHead⟩ ∧ s.watermark repository = some s.head

/-- What a full run is to leave: every commit reachable from HEAD is stored or ignored, and the
table holds the symbols of HEAD. -/
structure UpToDate (s : IndexSystem) (inv : Invocation) : Prop where
  commits : ∀ sha, repository.history.Reaches s.head sha →
    sha ∈ s.store.db.shas ∨ IgnoredCommit repository.source inv.isIgnored sha
  symbols : inv.binary.SymbolsOf s.store s.head

/-- The parsers and the ignore files of the invocation make no difference at HEAD. -/
structure AgreesWith (s : IndexSystem) (inv : Invocation) : Prop where
  symbols : ∀ binary, s.store.symbolsBy = some binary →
    inv.binary.headViews s.head = binary.headViews s.head
  ignored : ∀ sha, repository.history.Reaches s.head sha →
    s.store.PassedOver repository.source sha →
      sha ∈ s.store.db.shas ∨ IgnoredCommit repository.source inv.isIgnored sha

/-- The branches that go wrong are not taken: a watermark set past a lost commit, an invocation cut
off, or ended on an empty walk, when the symbols are not those of the watermark, and an early return
of an invocation that would find other symbols or ignore other commits. -/
structure KeepsFastPath (s : IndexSystem) (label : IndexLabel) : Prop where
  settled : s.FailuresSettled repository label
  aborted : label = .abort → repository.SymbolsFresh s.store
  unmoved : ∀ inv failed, label = .advance → s.run = some ⟨inv, .settingWatermark [] failed⟩ →
    repository.SymbolsFresh s.store
  agrees : ∀ inv, s.ReturnsEarly repository label inv → s.AgreesWith repository inv

variable {repository} {s s' : IndexSystem} {label : IndexLabel} {inv : Invocation}
  {store store' : Store}

theorem symbolsFresh_congr (fresh : repository.SymbolsFresh store)
    (repo : store'.db.repo = store.db.repo)
    (symbols : store'.db.symbolViews = store.db.symbolViews)
    (symbolsBy : store'.symbolsBy = store.symbolsBy) : repository.SymbolsFresh store' := by
  intro w is_watermark
  have before : Repo.getStatus repository.repoId store.db = some w := by
    simpa [Repo.getStatus, repo] using is_watermark
  rcases fresh w before with ⟨binary, put_by, views⟩
  refine ⟨binary, symbolsBy.trans put_by, ?_⟩
  rw [Binary.SymbolsOf, symbols]
  exact views

theorem symbolsSound_stop (fresh : repository.SymbolsFresh s.store) :
    s.stop.SymbolsSound repository where
  idle := fun _ => fresh
  phase := by
    intro inv phase running
    cases running

theorem symbolsSound_goto {phase : CommandPhase inv.nWorkers}
    (sound : SymbolsPhase repository s.store s.head inv phase) :
    (s.goto inv phase).SymbolsSound repository where
  idle := by
    intro idle
    cases idle
  phase := by
    intro inv' phase' running
    cases running
    exact sound

theorem symbolsPhase_afterGuard (fresh : repository.SymbolsFresh store) (head : String)
    (inv : Invocation) : SymbolsPhase repository store head inv (afterGuard inv) := by
  simp only [afterGuard]
  split
  · next forced => exact ⟨fresh, forced⟩
  · split
    · exact fresh
    · exact Or.inr fresh

theorem symbolsSound_step (sound : s.Sound repository) (symbols : s.SymbolsSound repository)
    (keeps : s.KeepsFastPath repository label) (step : Step repository s label s') :
    s'.SymbolsSound repository := by
  cases step with
  | moveHead idle =>
      refine ⟨symbols.idle, ?_⟩
      intro inv phase running
      cases idle.symm.trans running
  | refuseRebuild idle => exact symbols
  | invoke idle =>
      apply symbolsSound_goto
      split
      · exact symbols.idle idle
      · exact symbols.idle idle
  | abort running => exact symbolsSound_stop (keeps.aborted rfl)
  | deleteIndex running =>
      apply symbolsSound_goto
      intro w is_watermark
      cases is_watermark
  | @openRepo inv running =>
      have fresh : repository.SymbolsFresh (s.withDb (Repo.upsert repository.repoId
          repository.path repository.firstCommitSha s.store.db)).store := by
        intro w is_watermark
        rw [withDb, Repo.getStatus_upsert] at is_watermark
        exact (symbols.phase _ _ running : repository.SymbolsFresh s.store) w is_watermark
      apply symbolsSound_goto
      split
      · exact symbolsPhase_afterGuard fresh _ inv
      · exact fresh
  | refuseMode running assessed => exact symbolsSound_stop (symbols.phase _ _ running)
  | @passMode inv running accepted =>
      exact symbolsSound_goto (symbolsPhase_afterGuard (symbols.phase _ _ running) _ inv)
  | clearSymbols running cleared =>
      have forced := (symbols.phase _ _ running).2
      exact symbolsSound_goto (Or.inl forced)
  | upToDate running current => exact symbolsSound_stop (symbols.phase _ _ running)
  | behind running moved =>
      refine symbolsSound_goto (Or.inr ?_)
      exact symbols.phase _ _ running
  | @list inv walk running listed =>
      have known : inv.force = true ∨ repository.SymbolsFresh s.store := symbols.phase _ _ running
      exact symbolsSound_goto known
  | @work inv walk pipeline pipeline' actor running worked =>
      have frame := (sound.phase _ _ running : s.Indexing repository _ _ _).frame worked
      have known : inv.force = true ∨ repository.SymbolsFresh s.store := symbols.phase _ _ running
      refine symbolsSound_goto ?_
      exact known.imp_right fun fresh =>
        symbolsFresh_congr fresh frame.repo frame.symbolViews frame.symbolsBy
  | @returnPipeline inv walk pipeline running returned =>
      have known : inv.force = true ∨ repository.SymbolsFresh s.store := symbols.phase _ _ running
      exact symbolsSound_goto known
  | @putSymbols inv walk failed found db running extracted done =>
      rcases Symbol.putMany_spec found sound.laid with ⟨db', put_db, put⟩
      cases done.symm.trans put_db
      refine symbolsSound_goto ⟨inv.binary, rfl, ?_⟩
      have at_head : inv.binary.headViews s.head = .ok (found.map Symbol.view) := by
        rw [Binary.headViews, extracted]
        rfl
      exact at_head.trans (congrArg Except.ok put.symbolViews.symm)
  | @setWatermark inv walk failed last running is_last =>
      have walked : s.Walked repository walk failed := sound.phase _ _ running
      have of_head : s.store.SymbolsOf s.head := symbols.phase _ _ running
      refine symbolsSound_goto ?_
      intro w is_watermark
      rw [← Option.some.inj ((walked.watermark_setWatermark is_last).symm.trans is_watermark)]
      exact of_head
  | keepWatermark running empty =>
      subst empty
      refine symbolsSound_goto ?_
      exact keeps.unmoved _ _ rfl running
  | @putMetadata inv running =>
      rcases IndexMetadata.putMany_spec repository.repoId inv.runtimeMetadata.toStorageComponents
        s.store.db with ⟨metadata, put⟩
      apply symbolsSound_stop
      rw [put]
      exact symbols.phase _ _ running

theorem SymbolsSound.fresh (symbols : s.SymbolsSound repository)
    (settled : ∀ run, s.run = some run → ¬ run.Rewriting) : repository.SymbolsFresh s.store := by
  cases running : s.run with
  | none => exact symbols.idle running
  | some run =>
      have known := symbols.phase run.inv run.phase running
      have at_rest := settled run running
      rcases run with ⟨inv, phase⟩
      cases phase with
      | clearingSymbols => exact known.1
      | listingCommits => exact known.resolve_left at_rest
      | indexing walk pipeline => exact known.resolve_left at_rest
      | puttingSymbols walk failed => exact known.resolve_left at_rest
      | settingWatermark walk failed => exact absurd trivial at_rest
      | _ => exact known

/-- What every step that meets the condition keeps. -/
structure FastPathSound (repository : Repository) (s : IndexSystem) : Prop where
  sound : s.Sound repository
  nothingLost : s.NothingLost repository
  symbols : s.SymbolsSound repository

theorem FastPathSound.next (kept : FastPathSound repository s)
    (keeps : s.KeepsFastPath repository label) (stepped : s.next repository label = some s') :
    FastPathSound repository s' := by
  have step := step_of_next stepped
  exact ⟨sound_step kept.sound step, nothingLost_step kept.sound kept.nothingLost keeps.settled step,
    symbolsSound_step kept.sound kept.symbols keeps step⟩

theorem FastPathSound.ready (kept : FastPathSound repository s) : s.FastPathReady repository :=
  ⟨kept.nothingLost, kept.symbols.fresh⟩

/-- At an early return the symbols are those of HEAD, for the release that put them. -/
theorem FastPathSound.symbolsOf_head (kept : FastPathSound repository s)
    (early : s.ReturnsEarly repository label inv) : s.store.SymbolsOf s.head :=
  (kept.symbols.phase _ _ early.2.1 : repository.SymbolsFresh s.store) s.head early.2.2

theorem FastPathSound.upToDate (kept : FastPathSound repository s)
    (early : s.ReturnsEarly repository label inv) (agrees : s.AgreesWith repository inv) :
    s.UpToDate repository inv where
  commits := by
    intro sha reaches
    rcases kept.nothingLost s.head early.2.2 sha reaches with stored | passed
    · exact Or.inl stored
    · exact agrees.ignored sha reaches passed
  symbols := by
    rcases kept.symbolsOf_head early with ⟨binary, put_by, views⟩
    exact (agrees.symbols binary put_by).trans views

theorem FastPathSound.agreesWith (kept : FastPathSound repository s)
    (early : s.ReturnsEarly repository label inv) (upToDate : s.UpToDate repository inv) :
    s.AgreesWith repository inv where
  symbols := by
    intro binary put_by
    rcases kept.symbolsOf_head early with ⟨binary', put_by', views⟩
    cases put_by.symm.trans put_by'
    exact upToDate.symbols.trans views.symm
  ignored := fun sha reaches _ => upToDate.commits sha reaches

/-- Early returns are right, also after the step. -/
structure FastPathRight (repository : Repository) (s : IndexSystem) (label : IndexLabel) :
    Prop where
  returns : ∀ inv, s.ReturnsEarly repository label inv → s.UpToDate repository inv
  stays : ∀ s', s.next repository label = some s' → s'.FastPathReady repository

/-- A step that leaves early returns right took none of the wrong branches. -/
theorem FastPathSound.keepsFastPath (before : FastPathSound repository s)
    (right : FastPathRight repository s label) : s.KeepsFastPath repository label where
  settled :=
    failuresSettled_of_nothingLost before.sound fun s' stepped =>
      (right.stays s' stepped).nothingLost
  aborted := by
    rintro rfl
    cases running : s.run with
    | none => exact before.symbols.idle running
    | some run =>
        have stepped : s.next repository .abort = some s.stop := by simp [IndexSystem.next, running]
        exact (right.stays _ stepped).symbols (by simp [stop])
  unmoved := by
    rintro inv failed rfl running
    have stepped : s.next repository .advance = some (s.goto inv .puttingMetadata) := by
      simp [IndexSystem.next, running, advance]
    apply (right.stays _ stepped).symbols
    intro run is_run
    cases is_run
    exact id
  agrees := fun inv early => before.agreesWith early (right.returns inv early)

theorem FastPathSound.right (kept : FastPathSound repository s)
    (keeps : s.KeepsFastPath repository label) : FastPathRight repository s label where
  returns := fun inv early => kept.upToDate early (keeps.agrees inv early)
  stays := fun _ stepped => (kept.next keeps stepped).ready

theorem fastPathSound_start (head : String) : FastPathSound repository (start head) where
  sound := sound_start head
  nothingLost := nothingLost_start head
  symbols := by
    constructor
    · intro _ w is_watermark
      cases is_watermark
    · intro inv phase running
      cases running

/-- Every invocation that returns early leaves what a full run is to leave, and stays to be right in
it, exactly when none of the wrong branches is taken. -/
theorem fast_path_iff (repository : Repository) (head : String) (labels : List IndexLabel) :
    Execution.Along (next repository) (KeepsFastPath repository) (start head) labels ↔
      Execution.Along (next repository) (FastPathRight repository) (start head) labels := by
  have step : ∀ s label s', FastPathSound repository s → s.KeepsFastPath repository label →
      s.next repository label = some s' → FastPathSound repository s' :=
    fun _ _ _ kept keeps stepped => kept.next keeps stepped
  apply Execution.along_congr _ step _ (fastPathSound_start head)
  intro s label kept
  exact ⟨kept.right, kept.keepsFastPath⟩

end IndexSystem

namespace OneCommit

open IndexSystem

/-- An invocation with `--force`. -/
def forced : Invocation :=
    { invocation .off with force := true }

/-- The commit is indexed; then a forced run is cut off after it cleared the symbols. -/
def clearedRun : List IndexLabel :=
    indexing (invocation .off) 3 ++ returnPipeline ++ finish ++
      [.invoke forced, .advance, .advance, .advance, .abort]

set_option maxRecDepth 8000 in
/-- The next incremental run returns early, with no symbol in the table. -/
theorem cleared_symbols_trusted :
    ∃ s s', Execution.run (next repository) (start "a") clearedRun = some s ∧ s.run.isNone ∧
      Execution.run (next repository) s [.invoke (invocation .off), .advance, .advance] = some s' ∧
      s'.ReturnsEarly repository .advance (invocation .off) ∧
        ¬ s'.UpToDate repository (invocation .off) := by
  refine ⟨_, _, rfl, rfl, rfl, ⟨rfl, rfl, rfl⟩, ?_⟩
  intro upToDate
  cases upToDate.symbols

end OneCommit

end Ohara
