import Ohara.Index.Provenance

/-!
# Verdicts on the stored rows

A run records its component versions for the whole index, whatever versions the rows it left alone
were put under. A compatible verdict is true of every row as long as no run puts or stamps rows
across a change of versions.
-/

namespace Ohara

namespace RuntimeIndexMetadata

/-- The build has the runtime's versions of what decides on a hunk row. -/
structure HasVersions (build runtime : RuntimeIndexMetadata) : Prop where
  chunker : build.chunkerVersion = runtime.chunkerVersion
  semanticText : build.semanticTextVersion = runtime.semanticTextVersion
  parsers : ∀ parser ∈ runtime.parserVersions, parser ∈ build.parserVersions

/-- The build has every version on record of what decides on a hunk row. -/
structure AgreesWith (build : RuntimeIndexMetadata) (stored : StoredIndexMetadata) : Prop where
  chunker : ∀ version, stored.get "chunker_version" = some version →
    build.chunkerVersion = version
  semanticText : ∀ version, stored.get "semantic_text_version" = some version →
    build.semanticTextVersion = version
  parsers : ∀ language version, stored.get (parserKey language) = some version →
    (language, version) ∈ build.parserVersions

variable {build runtime : RuntimeIndexMetadata} {stored : StoredIndexMetadata}

theorem parserKey_injective {a b : String} (same : parserKey a = parserKey b) : a = b := by
  have lists := congrArg String.toList same
  simp only [parserKey, String.toList_append] at lists
  exact String.toList_inj.1 (List.append_cancel_left lists)

/-- The versions a run records for a parser are those of its parsers. -/
theorem mem_parsers {language version : String}
    (mem : (parserKey language, version) ∈ runtime.toStorageComponents) :
    (language, version) ∈ runtime.parserVersions := by
  simp only [toStorageComponents, List.mem_append, List.mem_map, Prod.mk.injEq] at mem
  rcases mem with fixed | ⟨parser, parser_mem, same, rfl⟩
  · simp only [List.mem_cons, Prod.mk.injEq, List.not_mem_nil, or_false] at fixed
    rcases fixed with same | same | same | same | same | same | same <;>
      exact absurd same.1 (parserKey_ne (by decide))
  · cases parserKey_injective same
    exact parser_mem

theorem fixed_unique {key version version' : String} (other : key.toList.head? ≠ some 'p')
    (mem : (key, version) ∈ runtime.toStorageComponents)
    (mem' : (key, version') ∈ runtime.toStorageComponents) : version' = version := by
  have fixed : ∀ {version}, (key, version) ∈ runtime.toStorageComponents →
      [("schema", runtime.schemaVersion), ("embedding_model", runtime.embeddingModel),
        ("embedding_dimension", toString runtime.embeddingDimension),
        ("reranker_model", runtime.rerankerModel), ("chunker_version", runtime.chunkerVersion),
        ("semantic_text_version", runtime.semanticTextVersion),
        ("embed_input_mode", runtime.embedInputMode)].lookup key = some version := by
    intro version mem
    simp only [toStorageComponents, List.mem_append, List.mem_map, Prod.mk.injEq] at mem
    rcases mem with fixed | ⟨parser, -, same, -⟩
    · simp only [List.mem_cons, Prod.mk.injEq, List.not_mem_nil, or_false] at fixed
      rcases fixed with ⟨rfl, rfl⟩ | ⟨rfl, rfl⟩ | ⟨rfl, rfl⟩ | ⟨rfl, rfl⟩ | ⟨rfl, rfl⟩ | ⟨rfl, rfl⟩ |
        ⟨rfl, rfl⟩ <;> rfl
    · exact absurd same (parserKey_ne other)
  exact Option.some.inj ((fixed mem').symm.trans (fixed mem))

theorem parser_mem_derived {parser : String × String} (mem : parser ∈ runtime.parserVersions) :
    (parserKey parser.1, parser.2) ∈ runtime.derived :=
  List.mem_append_right _ (List.mem_map.2 ⟨parser, mem, rfl⟩)

theorem parser_mem_components {parser : String × String} (mem : parser ∈ runtime.parserVersions) :
    (parserKey parser.1, parser.2) ∈ runtime.toStorageComponents :=
  List.mem_append_right _ (List.mem_map.2 ⟨parser, mem, rfl⟩)

theorem AgreesWith.hasVersions (agrees : build.AgreesWith stored)
    (compatible : CompatibilityStatus.assess runtime stored = .compatible) :
    build.HasVersions runtime := by
  have derived := (CompatibilityStatus.assess_eq_compatible.1 compatible).2
  constructor
  · exact agrees.chunker _ (derived ("chunker_version", _) (by simp [RuntimeIndexMetadata.derived]))
  · exact agrees.semanticText _
      (derived ("semantic_text_version", _) (by simp [RuntimeIndexMetadata.derived]))
  · intro parser mem
    exact agrees.parsers _ _ (derived _ (parser_mem_derived mem))

variable {id : RepoId} {db : Database}

/-- What a run finds on record after it recorded its versions. -/
theorem get_putMany_fixed {key version : String} (other : key.toList.head? ≠ some 'p')
    (mem : (key, version) ∈ runtime.toStorageComponents) :
    (IndexMetadata.get id (IndexMetadata.putMany id runtime.toStorageComponents db)).get key =
      some version :=
  IndexMetadata.get_putMany_of_unique mem (fun _ => fixed_unique other mem) db

theorem get_putMany_language (nodup : (runtime.parserVersions.map Prod.fst).Nodup)
    {parser : String × String} (mem : parser ∈ runtime.parserVersions) :
    (IndexMetadata.get id (IndexMetadata.putMany id runtime.toStorageComponents db)).get
      (parserKey parser.1) = some parser.2 := by
  apply IndexMetadata.get_putMany_of_unique (parser_mem_components mem)
  intro version mem'
  have same := List.inj_on_of_nodup_map nodup (mem_parsers mem') mem rfl
  exact congrArg Prod.snd same

/-- A build that has the versions of a run still has every version on record after the run. -/
theorem AgreesWith.putMany (agrees : build.AgreesWith (IndexMetadata.get id db))
    (same : build.HasVersions runtime) : build.AgreesWith
      (IndexMetadata.get id (IndexMetadata.putMany id runtime.toStorageComponents db)) := by
  constructor
  · intro version recorded
    have put := @get_putMany_fixed runtime id db "chunker_version" runtime.chunkerVersion (by decide)
      (by simp [toStorageComponents])
    rw [same.chunker]
    exact Option.some.inj (put.symm.trans recorded)
  · intro version recorded
    have put := @get_putMany_fixed runtime id db "semantic_text_version"
      runtime.semanticTextVersion (by decide)
      (by simp [toStorageComponents])
    rw [same.semanticText]
    exact Option.some.inj (put.symm.trans recorded)
  · intro language version recorded
    rcases IndexMetadata.get_putMany id runtime.toStorageComponents (parserKey language) db with
      ⟨version', put, found⟩ | ⟨absent, kept⟩
    · cases found.symm.trans recorded
      exact same.parsers _ (mem_parsers put)
    · exact agrees.parsers language version (kept.symm.trans recorded)

theorem componentVersionsMatch_self (key version : String) :
    componentVersionsMatch key version version = true := by
  simp [componentVersionsMatch, embeddingModelsEquivalent]

/-- The record is that of runtimes that find it compatible. -/
def Stamped (stored : StoredIndexMetadata) : Prop :=
    (∃ key version, stored.get key = some version) →
      ∃ runtime, CompatibilityStatus.assess runtime stored = .compatible ∧
        runtime.AgreesWith stored

theorem Stamped.parsers (stamped : Stamped stored) :
    ∃ parsers : List (String × String),
      (∀ parser ∈ parsers, stored.get (parserKey parser.1) = some parser.2) ∧
      ∀ language version, stored.get (parserKey language) = some version →
        (language, version) ∈ parsers := by
  by_cases recorded : ∃ key version, stored.get key = some version
  · rcases stamped recorded with ⟨runtime, compatible, agrees⟩
    refine ⟨runtime.parserVersions, ?_, agrees.parsers⟩
    intro parser mem
    exact (CompatibilityStatus.assess_eq_compatible.1 compatible).2 _ (parser_mem_derived mem)
  · refine ⟨[], by simp, ?_⟩
    intro language version found
    exact absurd ⟨_, _, found⟩ recorded

/-- The runtime, with parsers it does not have. -/
def withParsers (runtime : RuntimeIndexMetadata) (older : List (String × String)) :
    RuntimeIndexMetadata :=
    { runtime with
      parserVersions := runtime.parserVersions ++
        older.filter fun parser => decide (parser.1 ∉ runtime.parserVersions.map Prod.fst) }

theorem compatible_putMany (nodup : (runtime.parserVersions.map Prod.fst).Nodup)
    {older : List (String × String)}
    (recorded : ∀ parser ∈ older,
      (IndexMetadata.get id db).get (parserKey parser.1) = some parser.2) :
    CompatibilityStatus.assess (runtime.withParsers older)
      (IndexMetadata.get id (IndexMetadata.putMany id runtime.toStorageComponents db)) =
        .compatible := by
  have fixed : ∀ key version, key.toList.head? ≠ some 'p' →
      (key, version) ∈ runtime.toStorageComponents →
      (IndexMetadata.get id (IndexMetadata.putMany id runtime.toStorageComponents db)).get key =
        some version := fun key version other mem => get_putMany_fixed other mem
  apply CompatibilityStatus.assess_eq_compatible.2
  constructor
  · simp only [vectorAffecting, withParsers, List.forall_mem_cons]
    refine ⟨⟨_, fixed "embedding_model" _ (by decide) (by simp [toStorageComponents]),
      componentVersionsMatch_self _ _⟩, ⟨_, fixed "embedding_dimension" _ (by decide)
      (by simp [toStorageComponents]), componentVersionsMatch_self _ _⟩, ⟨_,
      fixed "embed_input_mode" _ (by decide) (by simp [toStorageComponents]),
      componentVersionsMatch_self _ _⟩, by simp⟩
  · intro component mem
    simp only [derived, withParsers, List.mem_append, List.map_append] at mem
    rcases mem with fixed_mem | parser_mem | older_mem
    · simp only [List.mem_cons, List.not_mem_nil, or_false] at fixed_mem
      rcases fixed_mem with rfl | rfl | rfl | rfl <;>
        exact fixed _ _ (by simp) (by simp [toStorageComponents])
    · rcases List.mem_map.1 parser_mem with ⟨parser, mem, rfl⟩
      exact get_putMany_language nodup mem
    · rcases List.mem_map.1 older_mem with ⟨parser, mem, rfl⟩
      rcases List.mem_filter.1 mem with ⟨mem, other⟩
      rcases IndexMetadata.get_putMany id runtime.toStorageComponents (parserKey parser.1) db with
        ⟨version, put, -⟩ | ⟨-, kept⟩
      · have own : parser.1 ∈ runtime.parserVersions.map Prod.fst :=
          List.mem_map.2 ⟨_, mem_parsers put, rfl⟩
        exact absurd own (of_decide_eq_true other)
      · exact kept.trans (recorded parser mem)

theorem Stamped.putMany (nodup : (runtime.parserVersions.map Prod.fst).Nodup)
    (stamped : Stamped (IndexMetadata.get id db)) :
    Stamped (IndexMetadata.get id (IndexMetadata.putMany id runtime.toStorageComponents db)) := by
  intro _
  rcases stamped.parsers with ⟨older, recorded, complete⟩
  refine ⟨runtime.withParsers older, compatible_putMany nodup recorded, ?_⟩
  constructor
  · intro version found
    have put := @get_putMany_fixed runtime id db "chunker_version" runtime.chunkerVersion (by decide)
      (by simp [toStorageComponents])
    exact Option.some.inj (put.symm.trans found)
  · intro version found
    have put := @get_putMany_fixed runtime id db "semantic_text_version"
      runtime.semanticTextVersion (by decide) (by simp [toStorageComponents])
    exact Option.some.inj (put.symm.trans found)
  · intro language version found
    simp only [withParsers, List.mem_append, List.mem_filter]
    rcases IndexMetadata.get_putMany id runtime.toStorageComponents (parserKey language) db with
      ⟨version', put, found'⟩ | ⟨absent, kept⟩
    · cases found'.symm.trans found
      exact Or.inl (mem_parsers put)
    · refine Or.inr ⟨complete language version (kept.symm.trans found), ?_⟩
      apply decide_eq_true
      intro own
      rcases List.mem_map.1 own with ⟨parser, mem, rfl⟩
      exact absent (List.mem_map_of_mem (parser_mem_components mem))

end RuntimeIndexMetadata

namespace IndexSystem

variable (repository : Repository)

/-- Whatever runtime finds the index compatible, every stored hunk was put under its versions. -/
def Truthful (s : IndexSystem) : Prop :=
    ∀ runtime, CompatibilityStatus.assess runtime (s.recorded repository) = .compatible →
      s.store.Built fun build => build.HasVersions runtime

/-- The step keeps to the versions of the index: a run puts hunks when it has the versions on
record, and records its own when every stored hunk was put under them. -/
structure KeepsVersions (s : IndexSystem) (label : IndexLabel) : Prop where
  puts : ∀ inv, s.PutsHunks repository label inv →
    inv.runtimeMetadata.AgreesWith (s.recorded repository)
  stamps : ∀ inv, s.run = some ⟨inv, .puttingMetadata⟩ → label = .advance →
    s.store.Built fun build => build.HasVersions inv.runtimeMetadata

/-- The stored hunks were put under the versions on record, and some runtime accepts these. -/
structure VersionsSound (s : IndexSystem) : Prop where
  built : s.store.Built fun build => build.AgreesWith (s.recorded repository)
  stamped : RuntimeIndexMetadata.Stamped (s.recorded repository)

variable {repository} {s s' : IndexSystem} {label : IndexLabel}

theorem VersionsSound.truthful (versions : s.VersionsSound repository) : s.Truthful repository := by
  intro runtime compatible
  exact versions.built.imp fun build agrees => agrees.hasVersions compatible

theorem versionsSound_fresh (fresh : s.store = Store.fresh) : s.VersionsSound repository := by
  constructor
  · rw [fresh]
    exact Store.built_fresh
  · rintro ⟨key, version, found⟩
    rw [recorded, fresh] at found
    cases found

theorem versionsSound_step (sound : s.Sound repository) (versions : s.VersionsSound repository)
    (keeps : s.KeepsVersions repository label) (step : Step repository s label s') :
    s'.VersionsSound repository := by
  rcases recorded_step sound step with same | fresh | ⟨inv, running, rfl, rfl⟩
  · have built := built_step sound versions.built keeps.puts step
    exact ⟨by rwa [same], by rw [same]; exact versions.stamped⟩
  · exact versionsSound_fresh fresh
  · rcases IndexMetadata.putMany_spec repository.repoId inv.runtimeMetadata.toStorageComponents
      s.store.db with ⟨metadata, put⟩
    have rows : s.store.SameRows (s.withDb (IndexMetadata.putMany repository.repoId
        inv.runtimeMetadata.toStorageComponents s.store.db)).store := by
      rw [put]
      exact s.sameRows_aside s.store.db.repo metadata
    constructor
    · rw [recorded_stop_withDb]
      intro sha stored
      simp only [stop] at stored ⊢
      rw [rows.hunkViews] at stored
      rw [rows.builtBy]
      rcases versions.built sha stored with ⟨build, is_build, agrees⟩
      rcases keeps.stamps inv running rfl sha stored with ⟨build', is_build', same⟩
      have same_build : build' = build := Option.some.inj (is_build'.symm.trans is_build)
      rw [same_build] at same
      exact ⟨build, is_build, agrees.putMany same⟩
    · rw [recorded_stop_withDb]
      exact versions.stamped.putMany inv.binary.parserVersions_nodup

/-- A step after which every verdict is true kept to the versions. -/
theorem keepsVersions_of_truthful (sound : s.Sound repository)
    (versions : s.VersionsSound repository)
    (kept : ∀ s', s.next repository label = some s' → s'.Truthful repository) :
    s.KeepsVersions repository label := by
  constructor
  · intro inv puts
    rcases puts.next sound with ⟨s', sha, stepped, stored, is_build, same⟩
    -- the hunks just put are under the versions of every runtime that finds the index compatible
    have agrees : ∀ runtime : RuntimeIndexMetadata,
        CompatibilityStatus.assess runtime (s.recorded repository) = .compatible →
        inv.runtimeMetadata.HasVersions runtime := by
      intro runtime compatible
      rw [← same] at compatible
      rcases kept s' stepped runtime compatible sha stored with ⟨build, is_build', has⟩
      rw [Option.some.inj (is_build.symm.trans is_build')]
      exact has
    constructor
    · intro version found
      rcases versions.stamped ⟨_, _, found⟩ with ⟨runtime, compatible, recorded⟩
      rw [(agrees runtime compatible).chunker]
      exact recorded.chunker version found
    · intro version found
      rcases versions.stamped ⟨_, _, found⟩ with ⟨runtime, compatible, recorded⟩
      rw [(agrees runtime compatible).semanticText]
      exact recorded.semanticText version found
    · intro language version found
      rcases versions.stamped ⟨_, _, found⟩ with ⟨runtime, compatible, recorded⟩
      exact (agrees runtime compatible).parsers _ (recorded.parsers language version found)
  · rintro inv running rfl
    have stepped : s.next repository .advance = some (s.withDb (IndexMetadata.putMany
        repository.repoId inv.runtimeMetadata.toStorageComponents s.store.db)).stop := by
      simp only [next, running, advance]
    have compatible := @RuntimeIndexMetadata.compatible_putMany inv.runtimeMetadata
      repository.repoId s.store.db inv.binary.parserVersions_nodup [] (by simp)
    rw [← recorded_stop_withDb] at compatible
    have built := kept _ stepped _ compatible
    have rows : s.store.SameRows (s.withDb (IndexMetadata.putMany repository.repoId
        inv.runtimeMetadata.toStorageComponents s.store.db)).store := by
      rcases IndexMetadata.putMany_spec repository.repoId inv.runtimeMetadata.toStorageComponents
        s.store.db with ⟨metadata, put⟩
      rw [put]
      exact s.sameRows_aside s.store.db.repo metadata
    apply (built.congr rows.symm).imp
    intro build has
    exact ⟨has.chunker, has.semanticText, fun parser mem =>
      has.parsers parser (List.mem_append_left _ mem)⟩

theorem sound_versionsSound_step (kept : s.Sound repository ∧ s.VersionsSound repository)
    (keeps : s.KeepsVersions repository label) (stepped : s.next repository label = some s') :
    s'.Sound repository ∧ s'.VersionsSound repository := by
  have step := step_of_next stepped
  exact ⟨sound_step kept.1 step, versionsSound_step kept.1 kept.2 keeps step⟩

/-- Every compatible verdict is true of every stored hunk throughout exactly when every step keeps
to the versions of the index. -/
theorem verdicts_truthful_iff (repository : Repository) (head : String)
    (labels : List IndexLabel) :
    Execution.Along (next repository) (KeepsVersions repository) (start head) labels ↔
      Execution.Along (next repository)
        (fun s label => ∀ s', s.next repository label = some s' → s'.Truthful repository)
        (start head) labels := by
  apply Execution.along_congr _ (fun _ _ _ => sound_versionsSound_step) _
    ⟨sound_start head, versionsSound_fresh rfl⟩
  intro s label ⟨sound, versions⟩
  constructor
  · intro keeps s' stepped
    exact (versionsSound_step sound versions keeps (step_of_next stepped)).truthful
  · exact keepsVersions_of_truthful sound versions

end IndexSystem

namespace OneCommit

open IndexSystem

/-- An invocation of a release with another chunker. -/
def upgraded : Invocation :=
    { invocation .off with binary := binary "3", incremental := false }

/-- The commit is indexed, and then nothing new by the other release. -/
def upgradeRun : List IndexLabel :=
    indexing (invocation .off) 3 ++ returnPipeline ++ finish ++
      [.invoke upgraded, .advance, .advance, .advance, .pipeline 1 .walk] ++ returnPipeline ++ finish

set_option maxRecDepth 8000 in
/-- The other release finds its own versions on record, over hunks it did not put. -/
theorem stale_hunks_compatible :
    ∃ s, Execution.run (next repository) (start "a") upgradeRun = some s ∧ s.run.isNone ∧
      CompatibilityStatus.assess upgraded.runtimeMetadata (s.recorded repository) = .compatible ∧
      ¬ s.Truthful repository := by
  refine ⟨_, rfl, rfl, rfl, ?_⟩
  intro truthful
  rcases truthful upgraded.runtimeMetadata rfl "a" (List.cons_ne_nil _ _) with
    ⟨build, is_build, has⟩
  cases is_build
  exact absurd has.chunker (by decide)

end OneCommit

end Ohara
