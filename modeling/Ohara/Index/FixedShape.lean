import Ohara.Embed.Providers
import Ohara.Index.WorkerOrder

/-!
# An index through a session of fixed shape

What a run stores depends on the vectors of the texts alone. An index whose vectors come from calls
of one shape, in slices and filled up, has the contents of one that is built commit by commit with
a provider that takes the texts as they come.
-/

namespace Ohara

namespace EmbedStage

variable {stage : EmbedStage} {embedOne : String → Option Vector}

/-- The stage with another provider, and its texts in other batches. -/
def withProvider (stage : EmbedStage) (embedder : Embedder) (embedBatch : Nat) : EmbedStage :=
    { stage with embedder := embedder, embedBatch := embedBatch }

theorem embedInChunks_withProvider {a b : Embedder} (each : a.EachText embedOne)
    (each' : b.EachText embedOne) (m k : Nat) (texts : List String) :
    ((stage.withProvider a m).embedInChunks texts).toOption =
      ((stage.withProvider b k).embedInChunks texts).toOption := by
  have given : ∀ vectors, (stage.withProvider a m).embedInChunks texts = .ok vectors ↔
      texts.map embedOne = vectors.map some := fun _ => embedInChunks_each each
  have given' : ∀ vectors, (stage.withProvider b k).embedInChunks texts = .ok vectors ↔
      texts.map embedOne = vectors.map some := fun _ => embedInChunks_each each'
  apply Option.ext
  intro vectors
  rw [Fallible.toOption_eq_some, Fallible.toOption_eq_some, given, given']

theorem embedBatch_each {a b : Embedder} (each : a.EachText embedOne)
    (each' : b.EachText embedOne) (texts : List String) :
    (a.embedBatch texts).toOption = (b.embedBatch texts).toOption := by
  apply Option.ext
  intro vectors
  rw [Fallible.toOption_eq_some, Fallible.toOption_eq_some, each, each']

/-- A stage gives what another one gives that has the same vectors for single texts. -/
theorem run_withProvider {a b : Embedder} (each : a.EachText embedOne) (each' : b.EachText embedOne)
    (m k : Nat) (cached : List (ContentHash × Vector)) (message : String)
    (hunks : List AttributedHunk) :
    ((stage.withProvider a m).run cached message hunks).toOption =
      ((stage.withProvider b k).run cached message hunks).toOption := by
  unfold run
  split
  · rw [embedMessage, embedMessage]
    apply Fallible.toOption_bind_congr
    · apply Fallible.toOption_bind_congr (embedBatch_each each each' [message])
      intro embs
      rfl
    · intro output
      rfl
  · apply Fallible.toOption_bind_congr (embedInChunks_withProvider each each' m k _)
    intro vectors
    rfl

end EmbedStage

namespace CommitEnv

variable {env : CommitEnv} {embedOne : String → Option Vector} {a b : Embedder}

/-- The processing of commits with another provider. -/
def withProvider (env : CommitEnv) (embedder : Embedder) (embedBatch : Nat) : CommitEnv :=
    { env with stage := env.stage.withProvider embedder embedBatch }

theorem cachedVectors_withProvider (sameModel : a.modelId = b.modelId) (m k : Nat) (db : Database)
    (sha : String) (hunks : List AttributedHunk) :
    (env.withProvider a m).cachedVectors db sha hunks =
      (env.withProvider b k).cachedVectors db sha hunks := by
  unfold cachedVectors
  simp only [withProvider, EmbedStage.withProvider, sameModel]
  rfl

theorem readCommit_withProvider (each : a.EachText embedOne) (each' : b.EachText embedOne)
    (sameModel : a.modelId = b.modelId) (m k : Nat) (db : Database) (commit : CommitMeta) :
    ((env.withProvider a m).readCommit db commit).toOption =
      ((env.withProvider b k).readCommit db commit).toOption := by
  unfold readCommit
  apply Fallible.toOption_bind_congr rfl
  intro _
  apply Fallible.toOption_bind_congr rfl
  intro records
  change (if fullyIgnored env.isIgnored records then _ else _ : Except OhraError _).toOption =
    (if fullyIgnored env.isIgnored records then _ else _ : Except OhraError _).toOption
  split
  · rfl
  · apply Fallible.toOption_bind_congr
    · apply Fallible.toOption_bind_congr rfl
      intro _
      apply Fallible.toOption_bind_congr rfl
      intro attributed
      apply Fallible.toOption_bind_congr (by rw [cachedVectors_withProvider sameModel m k])
      intro cached
      apply Fallible.toOption_bind_congr rfl
      intro _
      apply Fallible.toOption_bind_congr
        (EmbedStage.run_withProvider each each' m k cached commit.message attributed)
      intro embedded
      rfl
    · intro work
      rfl

theorem putCache_withProvider (sameModel : a.modelId = b.modelId) (m k : Nat) (commit : CommitMeta)
    (work : CommitWork) (store : Store) :
    (env.withProvider a m).putCache commit work store =
      (env.withProvider b k).putCache commit work store := by
  unfold putCache
  simp only [withProvider, EmbedStage.withProvider, sameModel]
  rfl

/-- A commit is processed to the same store, up to the error it fails with. -/
theorem runCommitTimed_withProvider (each : a.EachText embedOne) (each' : b.EachText embedOne)
    (sameModel : a.modelId = b.modelId) (m k : Nat) (commit : CommitMeta) (store : Store) :
    ((env.withProvider a m).runCommitTimed commit store).1 =
      ((env.withProvider b k).runCommitTimed commit store).1 := by
  have same : ((env.withProvider a m).readCommit store.db commit).toOption =
      ((env.withProvider b k).readCommit store.db commit).toOption :=
    readCommit_withProvider each each' sameModel m k store.db commit
  unfold runCommitTimed
  cases read : (env.withProvider a m).readCommit store.db commit with
  | error e =>
      cases read' : (env.withProvider b k).readCommit store.db commit with
      | error e' => rfl
      | ok work' => simp [read, read', Except.toOption] at same
  | ok work =>
      rw [read, eq_comm] at same
      rw [Fallible.toOption_eq_some.1 same]
      cases work with
      | none => rfl
      | some work =>
          simp only [putCache_withProvider sameModel m k]
          rfl

theorem indexOne_withProvider (each : a.EachText embedOne) (each' : b.EachText embedOne)
    (sameModel : a.modelId = b.modelId) (m k : Nat) (store : Store) (commit : CommitMeta) :
    (env.withProvider a m).indexOne store commit =
      (env.withProvider b k).indexOne store commit := by
  unfold indexOne
  rw [runCommitTimed_withProvider each each' sameModel m k]
  rfl

theorem indexSerially_withProvider (each : a.EachText embedOne) (each' : b.EachText embedOne)
    (sameModel : a.modelId = b.modelId) (m k : Nat) (commits : List CommitMeta) (store : Store) :
    (env.withProvider a m).indexSerially store commits =
      (env.withProvider b k).indexSerially store commits := by
  induction commits generalizing store with
  | nil => rfl
  | cons commit rest ih =>
      have first : (env.withProvider a m).indexOne store commit =
          (env.withProvider b k).indexOne store commit :=
        indexOne_withProvider each each' sameModel m k store commit
      have later := ih ((env.withProvider b k).indexOne store commit)
      simp only [indexSerially, List.foldl_cons, first] at later ⊢
      exact later

/-- The contents that the indexed commits and their files have in a store. -/
structure SameContents (s s' : Store) : Prop where
  stored : ∀ sha, sha ∈ s.db.shas ↔ sha ∈ s'.db.shas
  commits : ∀ sha, s.db.commitView sha = s'.db.commitView sha
  hunks : ∀ sha, s.db.hunkViews sha = s'.db.hunkViews sha
  symbols : s.db.symbolViews = s'.db.symbolViews

theorem EachAlone.sameContents {commits : List CommitMeta} {initial s s' : Store}
    (alone : env.EachAlone embedOne commits initial s)
    (alone' : env.EachAlone embedOne commits initial s') : SameContents s s' where
  stored := by
    intro sha
    rw [← Commit.commitExists_iff_shas, ← Commit.commitExists_iff_shas,
      (alone.alike alone' sha).stored]
  commits := by
    intro sha
    exact congrArg Footprint.commit (alone.alike alone' sha).same
  hunks := by
    intro sha
    exact congrArg Footprint.hunks (alone.alike alone' sha).same
  symbols := congrArg Footprint.symbols (alone.alike alone' "").same

/-- A run of the workers that returned leaves what each commit alone leaves. -/
theorem eachAlone_of_run {n : Nat} {commits : List CommitMeta} {store : Store}
    {labels : List (Actor n)} {s : Pipeline Store CommitTask n}
    (ran : Execution.run (Pipeline.next env.process) (Pipeline.start n store commits) labels =
      some s) (returned : s.main = .returned)
    (each : env.stage.embedder.EachText embedOne)
    (collisionFree : Function.Injective env.stage.fromText) (workersExist : 0 < n)
    (distinct : (commits.map CommitMeta.commitSha).Nodup) (laid : store.db.Laid) :
    env.EachAlone embedOne commits store s.storage := by
  have consistent := Pipeline.consistent_run ran
  have calm := (Pipeline.kept_run (taskRules env) laid ran).calm
  have owned := Pipeline.owned_run (ownRules each collisionFree commits store) distinct
    ⟨laid, fun _ _ => Alike.refl laid⟩ (fun _ _ => Alike.refl laid) ran
  exact .of_owned owned fun _ listed => consistent.mem_log workersExist calm returned listed

section Workers

variable {n : Nat} {commits : List CommitMeta} {store : Store} {labels : List (Actor n)}
  {s : Pipeline Store CommitTask n}

/-- Workers leave what indexing the commits one by one leaves with another provider of the same
model, in whatever batches the one and the other are sent. -/
theorem sameContents_of_run (env : CommitEnv) (each : a.EachText embedOne)
    (each' : b.EachText embedOne) (sameModel : a.modelId = b.modelId) (m k : Nat)
    (collisionFree : Function.Injective env.stage.fromText) (workersExist : 0 < n)
    (distinct : (commits.map CommitMeta.commitSha).Nodup) (laid : store.db.Laid)
    (ran : Execution.run (Pipeline.next (env.withProvider a m).process)
      (Pipeline.start n store commits) labels = some s) (returned : s.main = .returned) :
    SameContents s.storage ((env.withProvider b k).indexSerially store commits) := by
  have by_workers := eachAlone_of_run ran returned each collisionFree workersExist distinct laid
  rw [← indexSerially_withProvider each each' sameModel m k commits store]
  exact by_workers.sameContents (indexSerially_alone each collisionFree distinct laid)

/-- The batches that workers send the quantized model do not show in the contents. -/
theorem quantized_index (env : CommitEnv) {session : EmbedSession}
    (rowWise : FastEmbed.RowWise session embedOne) (m k : Nat)
    (collisionFree : Function.Injective env.stage.fromText) (workersExist : 0 < n)
    (distinct : (commits.map CommitMeta.commitSha).Nodup) (laid : store.db.Laid)
    (ran : Execution.run (Pipeline.next (env.withProvider (FastEmbed.provider session) m).process)
      (Pipeline.start n store commits) labels = some s) (returned : s.main = .returned) :
    SameContents s.storage
      ((env.withProvider (FastEmbed.provider session) k).indexSerially store commits) :=
  have each := FastEmbed.provider_each rowWise
  sameContents_of_run env each each rfl m k collisionFree workersExist distinct laid ran returned

end Workers

/-- A session that has one vector for every text. -/
def constant : EmbedSession :=
    fun rows => .ok (rows.map fun _ => List.replicate 384 0)

theorem map_constant_iff {rows : List String} {vectors : List Vector} :
    rows.map (fun _ => List.replicate 384 0) = vectors ↔
      rows.map (fun _ => some (List.replicate 384 (0 : F32))) = vectors.map some := by
  rw [← (List.map_injective_iff.2 (Option.some_injective Vector)).eq_iff, List.map_map]
  rfl

/-- The workers of the example, behind the session of fixed shape. -/
def fixedEnv : CommitEnv :=
    OneCommit.cachingEnv.withProvider (CoreMlFixed.provider constant) 4

end CommitEnv

end Ohara
