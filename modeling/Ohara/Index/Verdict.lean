import Ohara.Index.Stamp

/-!
# What a verdict says of the recorded components

The intended classification of a record, component by component. The verdict departs from it where
a vector-affecting component is not recorded and another one differs: the refresh it recommends
passes over the missing one. After a run has put its components the verdict is compatible.
-/

namespace Ohara

namespace CompatibilityStatus

variable {runtime : RuntimeIndexMetadata} {stored : StoredIndexMetadata}

/-- The component is recorded with an equivalent version. -/
def Agrees (stored : StoredIndexMetadata) (component : String × String) : Prop :=
    ∃ actual, stored.get component.1 = some actual ∧
      componentVersionsMatch component.1 actual component.2 = true

/-- The component is recorded with another version. -/
def Differs (stored : StoredIndexMetadata) (component : String × String) : Prop :=
    ∃ actual, stored.get component.1 = some actual ∧
      componentVersionsMatch component.1 actual component.2 = false

/-- The names of the components without a record, the vector-affecting ones first. -/
def missingComponents (runtime : RuntimeIndexMetadata) (stored : StoredIndexMetadata) :
    List String :=
    ((runtime.vectorAffecting ++ runtime.derived).filter fun component =>
      (stored.get component.1).isNone).map Prod.fst

/-- The verdict is the one that is intended for the record. -/
structure Classifies (runtime : RuntimeIndexMetadata) (stored : StoredIndexMetadata)
    (verdict : CompatibilityStatus) : Prop where
  rebuild : (∃ reason, verdict = .needsRebuild reason) ↔
    ∃ component ∈ runtime.vectorAffecting, Differs stored component
  compatible : verdict = .compatible ↔
    ∀ component ∈ runtime.toStorageComponents, Agrees stored component
  refresh : (∃ reason, verdict = .queryCompatibleNeedsRefresh reason) →
    (∀ component ∈ runtime.vectorAffecting, Agrees stored component) ∧
      ∃ component ∈ runtime.toStorageComponents, component ∉ runtime.vectorAffecting ∧
        Differs stored component
  unknown : (∀ component ∈ runtime.vectorAffecting, ¬Differs stored component) →
    (∃ component ∈ runtime.toStorageComponents, ¬Agrees stored component) →
    ¬((∀ component ∈ runtime.vectorAffecting, Agrees stored component) ∧
      ∃ component ∈ runtime.toStorageComponents, component ∉ runtime.vectorAffecting ∧
        Differs stored component) →
    verdict = .unknown (missingComponents runtime stored)

/-! ## Components -/

theorem mem_toStorageComponents {component : String × String} :
    component ∈ runtime.toStorageComponents ↔
      component ∈ runtime.vectorAffecting ∨ component ∈ runtime.derived := by
  simp only [RuntimeIndexMetadata.toStorageComponents, RuntimeIndexMetadata.vectorAffecting,
    RuntimeIndexMetadata.derived, List.mem_append, List.mem_cons, List.not_mem_nil, or_false]
  tauto

theorem derived_key_ne {component : String × String} (mem : component ∈ runtime.derived)
    {key : String} (vector : key ∈ runtime.vectorAffecting.map Prod.fst) : component.1 ≠ key := by
  have other : key.toList.head? ≠ some 'p' ∧ key ≠ "schema" ∧ key ≠ "chunker_version" ∧
      key ≠ "semantic_text_version" ∧ key ≠ "reranker_model" := by
    simp only [RuntimeIndexMetadata.vectorAffecting, List.map_cons, List.map_nil, List.mem_cons,
      List.not_mem_nil, or_false] at vector
    rcases vector with rfl | rfl | rfl
    · decide
    · decide
    · decide
  simp only [RuntimeIndexMetadata.derived, List.mem_append, List.mem_cons, List.not_mem_nil,
    or_false, List.mem_map] at mem
  rcases mem with (rfl | rfl | rfl | rfl) | ⟨parser, -, rfl⟩
  · exact other.2.1.symm
  · exact other.2.2.1.symm
  · exact other.2.2.2.1.symm
  · exact other.2.2.2.2.symm
  · exact RuntimeIndexMetadata.parserKey_ne other.1

theorem derived_not_vector {component : String × String} (mem : component ∈ runtime.derived) :
    component ∉ runtime.vectorAffecting := by
  intro vector
  exact derived_key_ne mem (List.mem_map_of_mem vector) rfl

theorem matches_derived {component : String × String} (mem : component ∈ runtime.derived)
    (actual : String) : componentVersionsMatch component.1 actual component.2 =
      decide (actual = component.2) := by
  have other : component.1 ≠ "embedding_model" :=
    derived_key_ne mem (by simp [RuntimeIndexMetadata.vectorAffecting])
  rw [componentVersionsMatch, if_neg other]

theorem agrees_or (stored : StoredIndexMetadata) (component : String × String) :
    Agrees stored component ∨ Differs stored component ∨ stored.get component.1 = none := by
  cases recorded : stored.get component.1 with
  | none => exact Or.inr (Or.inr rfl)
  | some actual =>
      cases same : componentVersionsMatch component.1 actual component.2 with
      | true => exact Or.inl ⟨actual, recorded, same⟩
      | false => exact Or.inr (Or.inl ⟨actual, recorded, same⟩)

theorem Agrees.not_differs {component : String × String} (agrees : Agrees stored component) :
    ¬Differs stored component := by
  rintro ⟨actual, recorded, differs⟩
  rcases agrees with ⟨actual', recorded', same⟩
  cases recorded.symm.trans recorded'
  rw [same] at differs
  cases differs

theorem Agrees.recorded {component : String × String} (agrees : Agrees stored component) :
    stored.get component.1 ≠ none := by
  rcases agrees with ⟨actual, recorded, -⟩
  rw [recorded]
  exact Option.some_ne_none actual

/-! ## The verdict -/

/-- The check stops at a component that differs, or finds the ones that are not recorded. -/
theorem checkComponents_cases (agree : String → String → String → Bool)
    (stored : StoredIndexMetadata) (components : List (String × String)) (missing : List String) :
    (∃ component ∈ components, ∃ actual, stored.get component.1 = some actual ∧
        agree component.1 actual component.2 = false ∧
        checkComponents agree stored components missing =
          .error (mismatchReason component.1 actual component.2)) ∨
      (∀ component ∈ components, ∀ actual, stored.get component.1 = some actual →
        agree component.1 actual component.2 = true) ∧
      checkComponents agree stored components missing =
        .ok (missing ++ (components.filter fun component =>
          (stored.get component.1).isNone).map Prod.fst) := by
  induction components generalizing missing with
  | nil => exact Or.inr ⟨by simp, by simp [checkComponents]⟩
  | cons component rest ih =>
      rcases component with ⟨key, expected⟩
      cases recorded : stored.get key with
      | none =>
          rcases ih (missing ++ [key]) with
            ⟨other, other_mem, actual, found, differs, stopped⟩ | ⟨agrees, passed⟩
          · refine Or.inl ⟨other, List.mem_cons_of_mem _ other_mem, actual, found, differs, ?_⟩
            simpa [checkComponents, recorded] using stopped
          · refine Or.inr ⟨?_, by simp [checkComponents, recorded, passed]⟩
            rw [List.forall_mem_cons]
            exact ⟨by simp [recorded], agrees⟩
      | some actual =>
          cases same : agree key actual expected with
          | false =>
              refine Or.inl ⟨(key, expected), List.mem_cons_self, actual, recorded, same, ?_⟩
              simp [checkComponents, recorded, same]
          | true =>
              rcases ih missing with
                ⟨other, other_mem, actual', found, differs, stopped⟩ | ⟨agrees, passed⟩
              · refine Or.inl ⟨other, List.mem_cons_of_mem _ other_mem, actual', found, differs, ?_⟩
                simpa [checkComponents, recorded, same] using stopped
              · refine Or.inr ⟨?_, by simp [checkComponents, recorded, same, passed]⟩
                rw [List.forall_mem_cons]
                refine ⟨?_, agrees⟩
                intro actual' found
                cases recorded.symm.trans found
                exact same

/-- The verdict by the components that differ, and those that are not recorded. -/
theorem assess_cases (runtime : RuntimeIndexMetadata) (stored : StoredIndexMetadata) :
    ((∃ component ∈ runtime.vectorAffecting, Differs stored component) ∧
        ∃ reason, assess runtime stored = .needsRebuild reason) ∨
      (∀ component ∈ runtime.vectorAffecting, ¬Differs stored component) ∧
        (((∃ component ∈ runtime.derived, Differs stored component) ∧
            ∃ reason, assess runtime stored = .queryCompatibleNeedsRefresh reason) ∨
          (∀ component ∈ runtime.derived, ¬Differs stored component) ∧
            assess runtime stored = match missingComponents runtime stored with
              | [] => .compatible
              | key :: rest => .unknown (key :: rest)) := by
  rcases checkComponents_cases componentVersionsMatch stored runtime.vectorAffecting [] with
    ⟨component, mem, actual, recorded, differs, stopped⟩ | ⟨vectors_agree, passed⟩
  · exact Or.inl ⟨⟨component, mem, actual, recorded, differs⟩, _, by rw [assess, stopped]⟩
  right
  refine ⟨?_, ?_⟩
  · rintro component mem ⟨actual, recorded, differs⟩
    rw [vectors_agree component mem actual recorded] at differs
    cases differs
  rw [List.nil_append] at passed
  rcases checkComponents_cases (fun _ actual expected => decide (actual = expected)) stored
    runtime.derived ((runtime.vectorAffecting.filter fun component =>
      (stored.get component.1).isNone).map Prod.fst) with
    ⟨component, mem, actual, recorded, differs, stopped⟩ | ⟨derived_agree, passed_derived⟩
  · rw [← matches_derived mem] at differs
    refine Or.inl ⟨⟨component, mem, actual, recorded, differs⟩,
      mismatchReason component.1 actual component.2, ?_⟩
    simp only [assess, passed, stopped]
  · rw [← List.map_append, ← List.filter_append, ← missingComponents] at passed_derived
    refine Or.inr ⟨?_, ?_⟩
    · rintro component mem ⟨actual, recorded, differs⟩
      rw [matches_derived mem, derived_agree component mem actual recorded] at differs
      cases differs
    · simp only [assess, passed, passed_derived]
      cases missingComponents runtime stored with
      | nil => rfl
      | cons key rest => rfl

theorem all_agree_iff :
    (∀ component ∈ runtime.toStorageComponents, Agrees stored component) ↔
      (∀ component ∈ runtime.vectorAffecting, ¬Differs stored component) ∧
        (∀ component ∈ runtime.derived, ¬Differs stored component) ∧
        missingComponents runtime stored = [] := by
  simp only [mem_toStorageComponents]
  constructor
  · intro agree
    refine ⟨fun component mem => (agree component (Or.inl mem)).not_differs,
      fun component mem => (agree component (Or.inr mem)).not_differs, ?_⟩
    rw [missingComponents, List.map_eq_nil_iff, List.filter_eq_nil_iff]
    intro component mem
    rw [Option.isNone_iff_eq_none]
    exact (agree component (List.mem_append.1 mem)).recorded
  · rintro ⟨vectors, derived, none_missing⟩ component mem
    rw [missingComponents, List.map_eq_nil_iff, List.filter_eq_nil_iff] at none_missing
    have recorded := none_missing component (List.mem_append.2 mem)
    rw [Option.isNone_iff_eq_none] at recorded
    rcases agrees_or stored component with agrees | differs | missing
    · exact agrees
    · exact absurd differs (mem.elim (vectors component) (derived component))
    · exact absurd missing recorded

theorem classifies_rebuild {reason : String}
    (differs : ∃ component ∈ runtime.vectorAffecting, Differs stored component) :
    Classifies runtime stored (.needsRebuild reason) where
  rebuild := ⟨fun _ => differs, fun _ => ⟨reason, rfl⟩⟩
  compatible := by
    refine ⟨by simp, fun agree => ?_⟩
    rcases differs with ⟨component, mem, differs⟩
    exact absurd differs ((all_agree_iff.1 agree).1 component mem)
  refresh := by simp
  unknown := by
    intro same
    rcases differs with ⟨component, mem, differs⟩
    exact absurd differs (same component mem)

/-- A recommended refresh is intended when every vector-affecting component is recorded. -/
theorem classifies_refresh_iff {reason : String}
    (vectors : ∀ component ∈ runtime.vectorAffecting, ¬Differs stored component)
    (differs : ∃ component ∈ runtime.derived, Differs stored component) :
    Classifies runtime stored (.queryCompatibleNeedsRefresh reason) ↔
      ∀ component ∈ runtime.vectorAffecting, stored.get component.1 ≠ none := by
  constructor
  · intro classifies component mem
    exact ((classifies.refresh ⟨reason, rfl⟩).1 component mem).recorded
  · intro recorded
    rcases differs with ⟨other, other_mem, differs⟩
    have agree : ∀ component ∈ runtime.vectorAffecting, Agrees stored component := by
      intro component mem
      rcases agrees_or stored component with agrees | differs | missing
      · exact agrees
      · exact absurd differs (vectors component mem)
      · exact absurd missing (recorded component mem)
    have refresh : (∀ component ∈ runtime.vectorAffecting, Agrees stored component) ∧
        ∃ component ∈ runtime.toStorageComponents, component ∉ runtime.vectorAffecting ∧
          Differs stored component :=
      ⟨agree, other, mem_toStorageComponents.2 (Or.inr other_mem), derived_not_vector other_mem,
        differs⟩
    constructor
    · refine ⟨by simp, ?_⟩
      rintro ⟨component, mem, differs⟩
      exact absurd differs (vectors component mem)
    · refine ⟨by simp, fun agree => ?_⟩
      exact absurd differs ((all_agree_iff.1 agree).2.1 other other_mem)
    · exact fun _ => refresh
    · intro _ _ not_refresh
      exact absurd refresh not_refresh

theorem classifies_missing
    (vectors : ∀ component ∈ runtime.vectorAffecting, ¬Differs stored component)
    (derived : ∀ component ∈ runtime.derived, ¬Differs stored component) :
    Classifies runtime stored (match missingComponents runtime stored with
      | [] => .compatible
      | key :: rest => .unknown (key :: rest)) := by
  have none_differs : ¬∃ component ∈ runtime.vectorAffecting, Differs stored component := by
    rintro ⟨component, mem, differs⟩
    exact vectors component mem differs
  cases missing : missingComponents runtime stored with
  | nil =>
      have agree := all_agree_iff.2 ⟨vectors, derived, missing⟩
      refine ⟨⟨by simp, fun differs => absurd differs none_differs⟩, ⟨fun _ => agree, fun _ => rfl⟩,
        by simp, ?_⟩
      rintro - ⟨component, mem, differs⟩ -
      exact absurd (agree component mem) differs
  | cons key rest =>
      refine ⟨⟨by simp, fun differs => absurd differs none_differs⟩, ⟨by simp, fun agree => ?_⟩,
        by simp, fun _ _ _ => by rw [missing]⟩
      have none_missing := (all_agree_iff.1 agree).2.2
      rw [missing] at none_missing
      cases none_missing

/-- The verdict is the intended one unless a vector-affecting component is not recorded, none
differs, and a derived one does. -/
theorem assess_classifies_iff (runtime : RuntimeIndexMetadata) (stored : StoredIndexMetadata) :
    Classifies runtime stored (assess runtime stored) ↔
      (∃ component ∈ runtime.vectorAffecting, Differs stored component) ∨
      (∀ component ∈ runtime.vectorAffecting, stored.get component.1 ≠ none) ∨
      ∀ component ∈ runtime.derived, ¬Differs stored component := by
  rcases assess_cases runtime stored with
    ⟨differs, reason, verdict⟩ | ⟨vectors, ⟨differs, reason, verdict⟩ | ⟨derived, verdict⟩⟩
  · rw [verdict]
    exact ⟨fun _ => Or.inl differs, fun _ => classifies_rebuild differs⟩
  · rw [verdict, classifies_refresh_iff vectors differs]
    constructor
    · exact fun recorded => Or.inr (Or.inl recorded)
    · rintro (⟨component, mem, vector_differs⟩ | recorded | derived)
      · exact absurd vector_differs (vectors component mem)
      · exact recorded
      · rcases differs with ⟨component, mem, differs⟩
        exact absurd differs (derived component mem)
  · rw [verdict]
    exact ⟨fun _ => Or.inr (Or.inr derived), fun _ => classifies_missing vectors derived⟩

/-- A runtime, and a record of an older schema without the embedding model. -/
def bareRuntime : RuntimeIndexMetadata where
  schemaVersion := "4"
  embeddingModel := "bge-small-en-v1.5"
  embeddingDimension := 384
  rerankerModel := "bge-reranker-base"
  chunkerVersion := "1"
  semanticTextVersion := "1"
  parserVersions := []
  embedInputMode := "semantic"

/-- Components recorded without the model. -/
def withoutModel : StoredIndexMetadata where
  components := [("embedding_dimension", "384"), ("embed_input_mode", "semantic"), ("schema", "3")]

/-- The refresh that is recommended here does not mention that no embedding model is recorded. -/
theorem not_classifies_without_model :
    ¬∀ runtime stored, Classifies runtime stored (assess runtime stored) := by
  intro classifies
  have refresh := (classifies bareRuntime withoutModel).refresh ⟨_, rfl⟩
  exact (refresh.1 ("embedding_model", _) List.mem_cons_self).recorded rfl

end CompatibilityStatus

/-! ## Putting and reading back -/

namespace IndexMetadata

theorem get_putOne_of_ne {id other : RepoId} (differs : other ≠ id) (db : Database)
    (component : String × String) : get other (putOne id db component) = get other db := by
  have apart : id.value ≠ other.value := by
    intro same
    exact differs (congrArg RepoId.mk same).symm
  have aside := Rows.filter_upsert (fun row : IndexMetadataRow => (row.repoId, row.component))
    ⟨id.value, component.1, component.2⟩ (fun old => { old with version := component.2 })
    (fun row => decide (row.repoId = other.value)) (by simp [apart])
    (by
      intro old same
      have same_repo : old.repoId = id.value := congrArg Prod.fst same
      simp [same_repo, apart])
    db.indexMetadata
  rw [get, get, putOne]
  exact congrArg
    (fun rows => StoredIndexMetadata.mk (rows.map fun row => (row.component, row.version)))
    aside

theorem get_putMany_of_ne {id other : RepoId} (differs : other ≠ id)
    (components : List (String × String)) (db : Database) :
    get other (putMany id components db) = get other db := by
  induction components generalizing db with
  | nil => rfl
  | cons component rest ih =>
      have later := ih (putOne id db component)
      rwa [get_putOne_of_ne differs] at later

/-- What is put for a repository is read back as compatible, beside whatever else is recorded. -/
theorem metadata_round_trip (runtime : RuntimeIndexMetadata) (id : RepoId) (db : Database)
    (languages : (runtime.parserVersions.map Prod.fst).Nodup) :
    CompatibilityStatus.assess runtime
        (get id (putMany id runtime.toStorageComponents db)) = .compatible ∧
      (∀ key ∉ runtime.toStorageComponents.map Prod.fst,
        (get id (putMany id runtime.toStorageComponents db)).get key = (get id db).get key) ∧
      ∀ other, other ≠ id →
        get other (putMany id runtime.toStorageComponents db) = get other db := by
  refine ⟨?_, ?_, fun other differs => get_putMany_of_ne differs _ db⟩
  · have same : runtime.withParsers [] = runtime := by simp [RuntimeIndexMetadata.withParsers]
    have compatible := @RuntimeIndexMetadata.compatible_putMany runtime id db languages [] (by simp)
    rwa [same] at compatible
  · intro key absent
    rcases get_putMany id runtime.toStorageComponents key db with ⟨version, put, -⟩ | ⟨-, kept⟩
    · exact absurd (List.mem_map_of_mem put) absent
    · exact kept

/-- A record of a repository with an old parser, beside another repository's. -/
def twoRepositories : Database :=
    { Database.empty with
      indexMetadata := [⟨"r", "parser_go", "1"⟩, ⟨"r", "schema", "3"⟩, ⟨"other", "schema", "3"⟩] }

theorem metadata_round_trip_two_repositories :
    CompatibilityStatus.assess CompatibilityStatus.bareRuntime (get ⟨"r"⟩ (putMany ⟨"r"⟩
        CompatibilityStatus.bareRuntime.toStorageComponents twoRepositories)) = .compatible ∧
      (get ⟨"r"⟩ (putMany ⟨"r"⟩ CompatibilityStatus.bareRuntime.toStorageComponents
        twoRepositories)).get "parser_go" = some "1" ∧
      get ⟨"other"⟩ (putMany ⟨"r"⟩ CompatibilityStatus.bareRuntime.toStorageComponents
        twoRepositories) = ⟨[("schema", "3")]⟩ := by
  have trip := metadata_round_trip CompatibilityStatus.bareRuntime ⟨"r"⟩ twoRepositories
    List.nodup_nil
  refine ⟨trip.1, ?_, ?_⟩
  · rw [trip.2.1 "parser_go" (by decide)]
    rfl
  · rw [trip.2.2 ⟨"other"⟩ (by decide)]
    rfl

end IndexMetadata

end Ohara
