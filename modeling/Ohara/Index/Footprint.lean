import Ohara.Index.CommitWrites
import Ohara.Index.EmbedEach

/-!
# What the processing of a commit depends on

The footprint of a commit in a store is what is stored under its sha, with the vector each text
would be given. Processing a commit depends on the commit's own footprint only, and changes no other
commit's: what it writes under its sha is its own, and what it adds to the embed cache is what the
next commit would have computed.
-/

namespace Ohara

/-- What a store holds of a commit, and its symbols. -/
@[ext] structure Footprint where
  stored : Bool
  commit : Option CommitRow × Option (List UInt8)
  hunks : List HunkView
  symbols : List SymbolView
  vectors : String → Option Vector

namespace CommitEnv

/-- What is seen of a commit, with the vectors its hunks would be given. -/
def footprint (env : CommitEnv) (embedOne : String → Option Vector) (sha : String)
    (store : Store) : Footprint where
  stored := Commit.commitExists store.db sha
  commit := store.db.commitView sha
  hunks := store.db.hunkViews sha
  symbols := store.db.symbolViews
  vectors := env.stage.vectorIn embedOne store.db

/-- Two stores with laid out tables that have the same footprint of a commit. -/
structure Alike (env : CommitEnv) (embedOne : String → Option Vector) (sha : String)
    (a b : Store) : Prop where
  laid_left : a.db.Laid
  laid_right : b.db.Laid
  same : env.footprint embedOne sha a = env.footprint embedOne sha b

variable {env : CommitEnv} {embedOne : String → Option Vector} {commit : CommitMeta}
  {sha : String} {a b c store store' : Store} {work work' : CommitWork}

theorem Alike.refl (laid : a.db.Laid) : env.Alike embedOne sha a a :=
  ⟨laid, laid, rfl⟩

theorem Alike.symm (alike : env.Alike embedOne sha a b) : env.Alike embedOne sha b a :=
  ⟨alike.laid_right, alike.laid_left, alike.same.symm⟩

theorem Alike.trans (alike : env.Alike embedOne sha a b) (alike' : env.Alike embedOne sha b c) :
    env.Alike embedOne sha a c :=
  ⟨alike.laid_left, alike'.laid_right, alike.same.trans alike'.same⟩

/-- What is noted of a commit that is passed over is in no footprint. -/
theorem Alike.pass (alike : env.Alike embedOne sha a b) (sha' : String)
    (isIgnored isIgnored' : String → Bool) :
    env.Alike embedOne sha (a.pass sha' isIgnored) (b.pass sha' isIgnored') :=
  ⟨alike.laid_left, alike.laid_right, alike.same⟩

theorem Alike.stored (alike : env.Alike embedOne sha a b) :
    Commit.commitExists a.db sha = Commit.commitExists b.db sha :=
  congrArg Footprint.stored alike.same

theorem Alike.vectors (alike : env.Alike embedOne sha a b) :
    env.stage.vectorIn embedOne a.db = env.stage.vectorIn embedOne b.db :=
  congrArg Footprint.vectors alike.same

theorem vectorIn_aside {stage : EmbedStage} {db db' : Database} (aside : db.SameAside db') :
    stage.vectorIn embedOne db' = stage.vectorIn embedOne db := by
  funext text
  rw [EmbedStage.vectorIn, EmbedStage.vectorIn, EmbedStage.cachedVector, EmbedStage.cachedVector,
    aside.chunkEmbedCache]

/-! ## The three writes -/

/-- A write either fails on both stores or leaves both alike. -/
def WritesAlike (env : CommitEnv) (embedOne : String → Option Vector) (sha : String)
    (written written' : Except OhraError Store) : Prop :=
    (∃ e e', written = .error e ∧ written' = .error e') ∨
      ∃ a b, written = .ok a ∧ written' = .ok b ∧ env.Alike embedOne sha a b

theorem putCache_footprint (collisionFree : Function.Injective env.stage.fromText)
    (computed : env.stage.Computed embedOne work.entries)
    (put : env.putCache commit work store = .ok store') :
    env.footprint embedOne sha store' = env.footprint embedOne sha store := by
  rcases Fallible.bind_eq_ok.1 put with ⟨_, -, written⟩
  cases written
  have vectors := EmbedStage.vectorIn_putMany collisionFree computed store.db
  rcases EmbedCache.putMany_spec work.entries env.stage.embedder.modelId store.db with ⟨rows, same⟩
  rw [same] at vectors ⊢
  exact Footprint.ext rfl rfl rfl rfl vectors

theorem putCommit_footprint (embedOne : String → Option Vector) (sha : String)
    (laid : store.db.Laid) (put : env.putCommit commit work store = .ok store') :
    store'.db.Laid ∧ env.footprint embedOne sha store' =
      if sha = commit.commitSha then
        { env.footprint embedOne sha store with
          stored := true
          commit := (some (PersistStage.commitRecord commit work.output).row,
            some (vecToBytes work.output.commitEmbedding)) }
      else env.footprint embedOne sha store := by
  rcases putCommit_ok laid put with ⟨db, put_db, rfl⟩
  refine ⟨put_db.laid, ?_⟩
  have vectors : env.stage.vectorIn embedOne db = env.stage.vectorIn embedOne store.db :=
    vectorIn_aside put_db.aside
  have shas := put_db.shas sha
  have commitView := put_db.commitView sha
  have own : (PersistStage.commitRecord commit work.output).sha = commit.commitSha := rfl
  rw [own] at shas commitView
  split
  · next same =>
      rw [if_pos same] at commitView
      refine Footprint.ext ?_ commitView ?_ put_db.symbolViews vectors
      · exact Commit.commitExists_iff_shas.2 (shas.2 (Or.inr same))
      · exact congrFun put_db.hunkViews sha
  · next other =>
      rw [if_neg other] at commitView
      refine Footprint.ext ?_ commitView ?_ put_db.symbolViews vectors
      · apply Bool.eq_iff_iff.2
        rw [footprint, footprint, Commit.commitExists_iff_shas, Commit.commitExists_iff_shas, shas]
        simp [other]
      · exact congrFun put_db.hunkViews sha

theorem putHunks_footprint (embedOne : String → Option Vector) (sha : String)
    (laid : store.db.Laid) (fromSource : env.FromSource commit work)
    (put : env.putHunks commit work store = .ok store') :
    store'.db.Laid ∧ env.footprint embedOne sha store' =
      if sha = commit.commitSha ∧ PersistStage.hunkRows work.output ≠ [] then
        { env.footprint embedOne sha store with
          hunks := (PersistStage.hunkRows work.output).map HunkRecord.view }
      else env.footprint embedOne sha store := by
  rcases putHunks_ok laid put with ⟨db, put_db, rfl⟩
  refine ⟨put_db.laid, ?_⟩
  have vectors : env.stage.vectorIn embedOne db = env.stage.vectorIn embedOne store.db :=
    vectorIn_aside put_db.aside
  have stored : Commit.commitExists db sha = Commit.commitExists store.db sha := by
    apply Bool.eq_iff_iff.2
    rw [Commit.commitExists_iff_shas, Commit.commitExists_iff_shas, put_db.shas]
  have commitView := congrFun put_db.commitView sha
  have hunkViews := put_db.hunkViews sha
  have own : ∀ record ∈ PersistStage.hunkRows work.output, record.sha = commit.commitSha :=
    fun record mem => fromSource.sha mem
  split
  · next mine =>
      rcases mine with ⟨rfl, some_row⟩
      have listed : commit.commitSha ∈ (PersistStage.hunkRows work.output).map HunkRecord.sha := by
        rcases List.exists_mem_of_ne_nil _ some_row with ⟨record, mem⟩
        exact own record mem ▸ List.mem_map_of_mem mem
      have all_mine : (PersistStage.hunkRows work.output).filter
          (fun record => decide (record.sha = commit.commitSha)) =
          PersistStage.hunkRows work.output := by
        apply List.filter_eq_self.2
        intro record mem
        simp [own record mem]
      rw [if_pos listed, all_mine] at hunkViews
      exact Footprint.ext stored commitView hunkViews put_db.symbolViews vectors
  · next other =>
      have unlisted : sha ∉ (PersistStage.hunkRows work.output).map HunkRecord.sha := by
        intro listed
        rcases List.mem_map.1 listed with ⟨record, mem, rfl⟩
        exact other ⟨own record mem, List.ne_nil_of_mem mem⟩
      rw [if_neg unlisted] at hunkViews
      exact Footprint.ext stored commitView hunkViews put_db.symbolViews vectors

theorem writesAlike_of_defined {sha' : String} {call : CommitCall} {x y : Except OhraError Store}
    (defined : (∃ written, x = .ok written) ↔ ∃ written, y = .ok written)
    (alike : ∀ written written', (env.call sha' call >>= fun _ => x) = .ok written →
      (env.call sha' call >>= fun _ => y) = .ok written' →
      env.Alike embedOne sha written written') :
    env.WritesAlike embedOne sha (env.call sha' call >>= fun _ => x)
      (env.call sha' call >>= fun _ => y) := by
  cases called : env.call sha' call with
  | error e => exact Or.inl ⟨e, e, rfl, rfl⟩
  | ok _ =>
      rw [called] at alike
      simp only [Fallible.ok_bind] at alike ⊢
      cases x with
      | error e =>
          cases y with
          | error e' => exact Or.inl ⟨e, e', rfl, rfl⟩
          | ok written' =>
              rcases defined.2 ⟨written', rfl⟩ with ⟨written, impossible⟩
              cases impossible
      | ok written =>
          rcases defined.1 ⟨written, rfl⟩ with ⟨written', rfl⟩
          exact Or.inr ⟨written, written', rfl, rfl, alike _ _ rfl rfl⟩

theorem putCache_alike (collisionFree : Function.Injective env.stage.fromText)
    (computed : env.stage.Computed embedOne work.entries)
    (computed' : env.stage.Computed embedOne work'.entries)
    (alike : env.Alike embedOne sha a b) :
    env.WritesAlike embedOne sha (env.putCache commit work a) (env.putCache commit work' b) := by
  apply writesAlike_of_defined
  · exact ⟨fun _ => ⟨_, rfl⟩, fun _ => ⟨_, rfl⟩⟩
  · intro written written' put put'
    rcases putCache_ok put with ⟨rows, rfl⟩
    rcases putCache_ok put' with ⟨rows', rfl⟩
    refine ⟨?_, ?_, ?_⟩
    · exact (a.db.sameIndex_aside a.db.repo a.db.indexMetadata rows).laid alike.laid_left
    · exact (b.db.sameIndex_aside b.db.repo b.db.indexMetadata rows').laid alike.laid_right
    · rw [putCache_footprint collisionFree computed put,
        putCache_footprint collisionFree computed' put', alike.same]

theorem exists_mapError_bind {ε δ α β : Type} {g : ε → δ} {x : Except ε α} {f : α → β} :
    (∃ b, (x.mapError g >>= fun a => pure (f a)) = Except.ok b) ↔ ∃ a, x = .ok a := by
  cases x with
  | error e => simp
  | ok a => simp

theorem putCommit_alike (output : work.output = work'.output)
    (alike : env.Alike embedOne sha a b) :
    env.WritesAlike embedOne sha (env.putCommit commit work a) (env.putCommit commit work' b) := by
  apply writesAlike_of_defined
  · rw [exists_mapError_bind, exists_mapError_bind, Commit.put_defined alike.laid_left,
      Commit.put_defined alike.laid_right, output]
  · intro written written' put put'
    rcases putCommit_footprint embedOne sha alike.laid_left put with
      ⟨laid, footprint⟩
    rcases putCommit_footprint embedOne sha alike.laid_right put' with
      ⟨laid', footprint'⟩
    exact ⟨laid, laid', by rw [footprint, footprint', alike.same, output]⟩

theorem putHunks_alike (fromSource : env.FromSource commit work)
    (fromSource' : env.FromSource commit work') (output : work.output = work'.output)
    (alike : env.Alike embedOne commit.commitSha a b) :
    env.WritesAlike embedOne commit.commitSha (env.putHunks commit work a)
      (env.putHunks commit work' b) := by
  apply writesAlike_of_defined
  · have stored : commit.commitSha ∈ a.db.shas ↔ commit.commitSha ∈ b.db.shas := by
      rw [← Commit.commitExists_iff_shas, ← Commit.commitExists_iff_shas, alike.stored]
    rw [exists_mapError_bind, exists_mapError_bind, Hunk.putMany_defined alike.laid_left,
      Hunk.putMany_defined alike.laid_right, ← output]
    apply forall₂_congr
    intro record mem
    rw [fromSource.sha mem, stored]
  · intro written written' put put'
    rcases putHunks_footprint embedOne commit.commitSha alike.laid_left
      fromSource put with ⟨laid, footprint⟩
    rcases putHunks_footprint embedOne commit.commitSha alike.laid_right
      fromSource' put' with ⟨laid', footprint'⟩
    exact ⟨laid, laid', by rw [footprint, footprint', alike.same, output]⟩

end CommitEnv

end Ohara
