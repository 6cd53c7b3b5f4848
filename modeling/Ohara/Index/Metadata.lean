import Ohara.Storage.Repo

/-!
# Index compatibility

What a binary expects of an index, the components it records after a run, and the verdict on an
index that was recorded by another binary.
-/

namespace Ohara

/-- The version of the tables. -/
def schemaVersion : String := "4"

/-- The version of the semantic texts. -/
def semanticTextVersion : String := "1"

/-- What the running binary expects the index to have been built with. -/
structure RuntimeIndexMetadata where
  schemaVersion : String
  embeddingModel : String
  embeddingDimension : Nat
  rerankerModel : String
  chunkerVersion : String
  semanticTextVersion : String
  /-- Parser version by language, in the order of the languages. -/
  parserVersions : List (String × String)
  embedInputMode : String
deriving DecidableEq, Repr

namespace RuntimeIndexMetadata

/-- The key under which a language's parser version is recorded. -/
def parserKey (language : String) : String := "parser_" ++ language

/-- `to_storage_components`. -/
def toStorageComponents (runtime : RuntimeIndexMetadata) : List (String × String) :=
    [("schema", runtime.schemaVersion),
      ("embedding_model", runtime.embeddingModel),
      ("embedding_dimension", toString runtime.embeddingDimension),
      ("reranker_model", runtime.rerankerModel),
      ("chunker_version", runtime.chunkerVersion),
      ("semantic_text_version", runtime.semanticTextVersion),
      ("embed_input_mode", runtime.embedInputMode)] ++
    runtime.parserVersions.map fun parser => (parserKey parser.1, parser.2)

theorem parserKey_ne {language key : String} (other : key.toList.head? ≠ some 'p') :
    parserKey language ≠ key := by
  rintro rfl
  apply other
  simp [parserKey, String.toList_append]

/-- The components whose change makes the stored vectors wrong. -/
def vectorAffecting (runtime : RuntimeIndexMetadata) : List (String × String) :=
    [("embedding_model", runtime.embeddingModel),
      ("embedding_dimension", toString runtime.embeddingDimension),
      ("embed_input_mode", runtime.embedInputMode)]

/-- The components that can be refreshed without new vectors. -/
def derived (runtime : RuntimeIndexMetadata) : List (String × String) :=
    [("schema", runtime.schemaVersion),
      ("chunker_version", runtime.chunkerVersion),
      ("semantic_text_version", runtime.semanticTextVersion),
      ("reranker_model", runtime.rerankerModel)] ++
    runtime.parserVersions.map fun parser => (parserKey parser.1, parser.2)

theorem embedInputMode_mem (runtime : RuntimeIndexMetadata) :
    ("embed_input_mode", runtime.embedInputMode) ∈ runtime.toStorageComponents := by
  simp [toStorageComponents]

theorem embedInputMode_unique (runtime : RuntimeIndexMetadata) {version : String}
    (mem : ("embed_input_mode", version) ∈ runtime.toStorageComponents) :
    version = runtime.embedInputMode := by
  simp only [toStorageComponents, List.mem_append, List.mem_cons, List.mem_map, Prod.mk.injEq,
    List.not_mem_nil, or_false] at mem
  rcases mem with fixed | ⟨parser, -, same, -⟩
  · simpa using fixed
  · exact absurd same (parserKey_ne (by decide))

end RuntimeIndexMetadata

/-- Models whose vectors are interchangeable. -/
def equivalentEmbeddingModels : List (List String) :=
    [["bge-small-en-v1.5", "bge-small-en-v1.5-q"]]

/-- The vectors of the two models can be compared. -/
def embeddingModelsEquivalent (a b : String) : Bool :=
    decide (a = b) || equivalentEmbeddingModels.any fun models =>
      decide (a ∈ models) && decide (b ∈ models)

/-- `component_versions_match`. -/
def componentVersionsMatch (key actual expected : String) : Bool :=
    if key = "embedding_model" then embeddingModelsEquivalent actual expected
    else decide (actual = expected)

/-- What an index is good for. -/
inductive CompatibilityStatus where
  | compatible
  | queryCompatibleNeedsRefresh (reason : String)
  | needsRebuild (reason : String)
  | unknown (missingComponents : List String)
deriving DecidableEq, Repr

namespace CompatibilityStatus

/-- The reason given for a component that differs. -/
def mismatchReason (key actual expected : String) : String :=
    key ++ " mismatch (index has \"" ++ actual ++ "\", binary expects \"" ++ expected ++ "\")"

/-- The first component that is recorded and does not match, or the components not recorded. -/
def checkComponents (agree : String → String → String → Bool) (stored : StoredIndexMetadata) :
    List (String × String) → List String → Except String (List String)
  | [], missing => .ok missing
  | (key, expected) :: rest, missing =>
      match stored.get key with
      | some actual =>
          if agree key actual expected then checkComponents agree stored rest missing
          else .error (mismatchReason key actual expected)
      | none => checkComponents agree stored rest (missing ++ [key])

/-- `assess`: vector-affecting components first, then the derived ones. -/
def assess (runtime : RuntimeIndexMetadata) (stored : StoredIndexMetadata) :
    CompatibilityStatus :=
    match checkComponents componentVersionsMatch stored runtime.vectorAffecting [] with
    | .error reason => .needsRebuild reason
    | .ok missing =>
        match checkComponents (fun _ actual expected => decide (actual = expected)) stored
            runtime.derived missing with
        | .error reason => .queryCompatibleNeedsRefresh reason
        | .ok [] => .compatible
        | .ok (key :: rest) => .unknown (key :: rest)

/-- The check passes when every recorded component agrees; it returns those not recorded. -/
theorem checkComponents_eq_ok {agree : String → String → String → Bool}
    {stored : StoredIndexMetadata} {components : List (String × String)}
    {missing missing' : List String} :
    checkComponents agree stored components missing = .ok missing' ↔
      (∀ component ∈ components, ∀ actual, stored.get component.1 = some actual →
        agree component.1 actual component.2 = true) ∧
      missing' = missing ++ (components.filter fun component =>
        (stored.get component.1).isNone).map Prod.fst := by
  induction components generalizing missing with
  | nil =>
      simp only [checkComponents, Except.ok.injEq, List.not_mem_nil, List.filter_nil, List.map_nil,
        List.append_nil]
      exact ⟨fun same => ⟨by simp, same.symm⟩, fun same => same.2.symm⟩
  | cons component rest ih =>
      rcases component with ⟨key, expected⟩
      cases recorded : stored.get key with
      | none => simp [checkComponents, recorded, ih]
      | some actual =>
          by_cases agrees : agree key actual expected = true
          · simp [checkComponents, recorded, agrees, ih]
          · simp [checkComponents, recorded, agrees]

/-- An index is not refused when its recorded vector-affecting components match. -/
theorem accepted_iff {runtime : RuntimeIndexMetadata} {stored : StoredIndexMetadata} :
    (∀ reason, assess runtime stored ≠ .needsRebuild reason) ↔
      ∀ component ∈ runtime.vectorAffecting, ∀ actual, stored.get component.1 = some actual →
        componentVersionsMatch component.1 actual component.2 = true := by
  cases vectors : checkComponents componentVersionsMatch stored runtime.vectorAffecting [] with
  | error reason =>
      constructor
      · intro accepted
        exact absurd (by simp [assess, vectors]) (accepted reason)
      · intro agree
        have passed : checkComponents componentVersionsMatch stored runtime.vectorAffecting [] =
            .ok _ := checkComponents_eq_ok.2 ⟨agree, rfl⟩
        cases vectors.symm.trans passed
  | ok missing =>
      refine ⟨fun _ => (checkComponents_eq_ok.1 vectors).1, fun _ reason => ?_⟩
      simp only [assess, vectors]
      split
      · simp
      · simp
      · simp

theorem passes_iff {agree : String → String → String → Bool} {stored : StoredIndexMetadata}
    {components : List (String × String)} :
    checkComponents agree stored components [] = .ok [] ↔
      ∀ component ∈ components, ∃ actual, stored.get component.1 = some actual ∧
        agree component.1 actual component.2 = true := by
  rw [checkComponents_eq_ok]
  constructor
  · rintro ⟨agrees, nothing_missing⟩ component mem
    cases recorded : stored.get component.1 with
    | some actual => exact ⟨actual, rfl, agrees component mem actual recorded⟩
    | none =>
        have missing : component ∈ components.filter fun component =>
            (stored.get component.1).isNone := List.mem_filter.2 ⟨mem, by simp [recorded]⟩
        have empty := List.map_eq_nil_iff.1 nothing_missing.symm
        rw [empty] at missing
        cases missing
  · intro agrees
    refine ⟨?_, ?_⟩
    · intro component mem actual recorded
      rcases agrees component mem with ⟨actual', recorded', agree'⟩
      cases recorded.symm.trans recorded'
      exact agree'
    · have none_missing : components.filter (fun component =>
          (stored.get component.1).isNone) = [] := by
        apply List.filter_eq_nil_iff.2
        intro component mem
        rcases agrees component mem with ⟨actual, recorded, -⟩
        simp [recorded]
      rw [none_missing]
      rfl

/-- The verdict is compatible when every component is recorded and agrees. -/
theorem assess_eq_compatible {runtime : RuntimeIndexMetadata} {stored : StoredIndexMetadata} :
    assess runtime stored = .compatible ↔
      (∀ component ∈ runtime.vectorAffecting, ∃ actual, stored.get component.1 = some actual ∧
        componentVersionsMatch component.1 actual component.2 = true) ∧
      ∀ component ∈ runtime.derived, stored.get component.1 = some component.2 := by
  constructor
  · intro compatible
    simp only [assess] at compatible
    split at compatible
    · cases compatible
    · next missing vectors =>
        split at compatible
        · cases compatible
        · next derived =>
            have nothing_missing := (checkComponents_eq_ok.1 derived).2
            have none_before : missing = [] := (List.append_eq_nil_iff.1 nothing_missing.symm).1
            subst none_before
            refine ⟨passes_iff.1 vectors, ?_⟩
            intro component mem
            rcases passes_iff.1 derived component mem with ⟨actual, recorded, same⟩
            rw [recorded, of_decide_eq_true same]
        · cases compatible
  · rintro ⟨vectors, derived⟩
    have vectors_pass := passes_iff.2 vectors
    have derived_pass : checkComponents (fun _ actual expected => decide (actual = expected))
        stored runtime.derived [] = .ok [] :=
      passes_iff.2 fun component mem => ⟨component.2, derived component mem, by simp⟩
    simp [assess, vectors_pass, derived_pass]

end CompatibilityStatus

end Ohara
