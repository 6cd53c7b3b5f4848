import Ohara.Engine.Requests
import Ohara.Engine.Transparency

/-!
# What is served after an invalidation

A cleared cache can be filled again with a datum from before the clearing, by a request that
computed it earlier and inserts it later. Where no request does so, a request that starts after an
invalidation is answered from data made after the invalidation began.
-/

namespace Ohara

namespace Server

variable {ResponseMeta Hits : Type}

namespace Phase

/-- Everything the phase holds is about one repository. -/
def About (repoId : RepoId) : Phase ResponseMeta → Prop
  | .lookup target => target.repoId = repoId
  | .opening target => target.repoId = repoId
  | .opened mine => mine.value.repoId = repoId
  | .holding handle => handle.value.repoId = repoId
  | .metaMissed handle => handle.value.repoId = repoId
  | .metaMade handle _ => handle.value.repoId = repoId
  | .hasMeta handle _ => handle.value.repoId = repoId
  | .hashed handle key => handle.value.repoId = repoId ∧ ∀ k ∈ key, k.repoId = repoId
  | .blameMissed handle key => handle.value.repoId = repoId ∧ ∀ k ∈ key, k.repoId = repoId
  | .blamed handle key _ => handle.value.repoId = repoId ∧ ∀ k ∈ key, k.repoId = repoId
  | .hasBlame handle _ => handle.value.repoId = repoId

end Phase

/-- No invalidation that ended before the request started began after the datum was made. -/
def Allows (completed : List Completed) (repoId : RepoId) (startedAt stamp : Nat) : Prop :=
    ∀ call ∈ completed, call.repoId = repoId → call.endedAt < startedAt → call.beganAt ≤ stamp

/-- The datum is as young as every one of these clearings of the repository. -/
def Outlives (clearings : List Clearing) (repoId : RepoId) (stamp : Nat) : Prop :=
    ∀ clearing ∈ clearings, clearing.repoId = repoId → clearing.beganAt ≤ stamp

/-- The caches an invalidation has cleared when it is about to clear the given one. -/
def ClearedSoFar (following kind : CacheKind) : Prop :=
    match following with
    | .repos => False
    | .metas => kind = .repos
    | .blames => kind = .repos ∨ kind = .metas

/-- The data of a request are allowed, and about its repository. -/
structure RequestFresh (clock : Nat) (completed : List Completed)
    (request : Request ResponseMeta) : Prop where
  started : request.startedAt < clock
  about : request.phase.About request.repoId
  stamps : ∀ stamp ∈ request.phase.stamps, Allows completed request.repoId request.startedAt stamp

@[simp]
theorem mem_invalidateRepo {cache : StampedBlameCache} {repoId : RepoId}
    {entry : BlameKey × Stamped (List BlameRange)} :
    entry ∈ (cache.invalidateRepo repoId).entries ↔
      entry ∈ cache.entries ∧ entry.1.repoId ≠ repoId :=
  LruCache.mem_foldl_pop_filter fun key : BlameKey => key.repoId = repoId

namespace State

/-- Every request that started after an invalidation was answered from data made since it began. -/
def ServesFresh (s : State ResponseMeta Hits) : Prop :=
    ∀ answered ∈ s.answers, ∀ stamp ∈ answered.stamps,
      Allows s.completed answered.repoId answered.startedAt stamp

/-- A step that inserts into a cache inserts no datum from before an invalidation that has
already cleared it. -/
def InsertsFresh (s : State ResponseMeta Hits) : Event → Prop
  | .step id _ =>
      match (s.requests id).map Request.phase with
      | some (.opened mine) =>
          s.repos mine.value.repoId = none →
            Outlives (s.cleared .repos) mine.value.repoId mine.madeAt
      | some (.metaMade handle mine) =>
          Outlives (s.cleared .metas) handle.value.repoId mine.madeAt
      | some (.blamed _ (some key) mine) => Outlives (s.cleared .blames) key.repoId mine.madeAt
      | _ => True
  | _ => True

/-- No cache holds a datum from before an invalidation that has cleared it. -/
structure Fresh (s : State ResponseMeta Hits) : Prop where
  repos : ∀ repoId handle, s.repos repoId = some handle →
    handle.value.repoId = repoId ∧ Outlives (s.cleared .repos) repoId handle.madeAt
  metas : ∀ repoId responseMeta, s.metaCache repoId = some responseMeta →
    Outlives (s.cleared .metas) repoId responseMeta.madeAt
  blames : ∀ entry ∈ s.blameCache.entries,
    Outlives (s.cleared .blames) entry.1.repoId entry.2.madeAt
  completed : ∀ call ∈ s.completed, call.beganAt ≤ call.endedAt ∧ call.endedAt < s.clock ∧
    ∀ kind, ⟨call.repoId, call.beganAt⟩ ∈ s.cleared kind
  invalidations : ∀ id call, s.invalidations id = some call → call.beganAt < s.clock ∧
    ∀ kind, ClearedSoFar call.following kind → ⟨call.repoId, call.beganAt⟩ ∈ s.cleared kind
  requests : ∀ id request, s.requests id = some request →
    RequestFresh s.clock s.completed request
  answered : ∀ answered ∈ s.answers, answered.startedAt < s.clock
  answers : s.ServesFresh

variable {s : State ResponseMeta Hits} {id : Nat} {request : Request ResponseMeta}

theorem fresh_new (world : World) : (new world : State ResponseMeta Hits).Fresh where
  repos _ _ found := by cases found
  metas _ _ found := by cases found
  blames _ entry_mem := by cases entry_mem
  completed _ call_mem := by cases call_mem
  invalidations _ _ found := by cases found
  requests _ _ found := by cases found
  answered _ answered_mem := by cases answered_mem
  answers _ answered_mem := by cases answered_mem

/-- What outlives the clearings of a cache is allowed to every request. -/
theorem Fresh.allows (fresh : s.Fresh) {kind : CacheKind} {repoId : RepoId} {stamp : Nat}
    (outlives : Outlives (s.cleared kind) repoId stamp) (startedAt : Nat) :
    Allows s.completed repoId startedAt stamp := by
  intro call call_mem same _
  exact outlives _ ((fresh.completed call call_mem).2.2 kind) same

theorem Fresh.allows_now (fresh : s.Fresh) (found : s.requests id = some request) :
    Allows s.completed request.repoId request.startedAt s.clock := by
  intro call call_mem _ ended
  have order := (fresh.completed call call_mem).1
  have started := (fresh.requests id request found).started
  omega

/-! ## The steps of a request -/

theorem Fresh.tick (fresh : s.Fresh) : s.tick.Fresh where
  repos := fresh.repos
  metas := fresh.metas
  blames := fresh.blames
  completed call call_mem := by
    rcases fresh.completed call call_mem with ⟨order, ended, cleared⟩
    exact ⟨order, Nat.lt_succ_of_lt ended, cleared⟩
  invalidations id call found := by
    rcases fresh.invalidations id call found with ⟨began, cleared⟩
    exact ⟨Nat.lt_succ_of_lt began, cleared⟩
  requests id request found := by
    rcases fresh.requests id request found with ⟨started, about, stamps⟩
    exact ⟨Nat.lt_succ_of_lt started, about, stamps⟩
  answered request answered_mem := Nat.lt_succ_of_lt (fresh.answered request answered_mem)
  answers := fresh.answers

theorem Fresh.drop (fresh : s.Fresh) (id : Nat) : (s.drop id).Fresh :=
  { fresh with
    requests := by
      intro other request found
      simp only [State.drop, Function.update_apply] at found
      split at found
      · cases found
      · exact fresh.requests other request found }

theorem Fresh.setPhase (fresh : s.Fresh) (found : s.requests id = some request)
    (phase : Phase ResponseMeta) (about : phase.About request.repoId)
    (stamps : ∀ stamp ∈ phase.stamps,
      Allows s.completed request.repoId request.startedAt stamp) :
    (s.setPhase id request phase).Fresh :=
  { fresh with
    requests := by
      intro other moved moved_found
      simp only [State.setPhase, Function.update_apply] at moved_found
      split at moved_found
      · cases moved_found
        exact ⟨(fresh.requests id request found).started, about, stamps⟩
      · exact fresh.requests other moved moved_found }

theorem Fresh.answer (fresh : s.Fresh) (found : s.requests id = some request)
    (answer : Answer ResponseMeta Hits) : (s.answer id request answer).Fresh :=
  { fresh.drop id with
    answered := by
      intro answered answered_mem
      rcases List.mem_append.1 answered_mem with before | now
      · exact fresh.answered answered before
      · rw [List.mem_singleton.1 now]
        exact (fresh.requests id request found).started
    answers := by
      intro answered answered_mem
      rcases List.mem_append.1 answered_mem with before | now
      · exact fresh.answers answered before
      · rw [List.mem_singleton.1 now]
        exact (fresh.requests id request found).stamps }

/-- A request that has found a handle in the map goes on with it. -/
theorem Fresh.holding (fresh : s.Fresh) (found : s.requests id = some request)
    {handle : Stamped RepoHandle} (cached : s.repos request.repoId = some handle) :
    (s.setPhase id request (.holding handle)).Fresh := by
  rcases fresh.repos _ _ cached with ⟨same, outlives⟩
  apply fresh.setPhase found (.holding handle) same
  intro stamp stamp_mem
  rw [List.mem_singleton.1 stamp_mem]
  exact fresh.allows outlives _

theorem Fresh.insertHandle (fresh : s.Fresh) (found : s.requests id = some request)
    {mine : Stamped RepoHandle} (opened : request.phase = .opened mine)
    (clean : s.repos mine.value.repoId = none →
      Outlives (s.cleared .repos) mine.value.repoId mine.madeAt) :
    (s.insertHandle id request mine).Fresh := by
  rcases fresh.requests id request found with ⟨-, about, stamps⟩
  rw [opened] at about stamps
  have same : mine.value.repoId = request.repoId := about
  unfold State.insertHandle
  split
  · next existing cached => exact fresh.holding found (same ▸ cached)
  · next absent =>
      have inserted : State.Fresh
          { s with repos := Function.update s.repos mine.value.repoId (some mine) } :=
        { fresh with
          repos := by
            intro repoId handle cached
            simp only [Function.update_apply] at cached
            split at cached
            · next same_repo =>
                cases cached
                exact ⟨same_repo.symm, same_repo ▸ clean absent⟩
            · exact fresh.repos repoId handle cached }
      exact inserted.setPhase found (.holding mine) about stamps

theorem Fresh.lookupMeta (fresh : s.Fresh) (found : s.requests id = some request)
    {handle : Stamped RepoHandle} (expired : Bool) (held : request.phase = .holding handle) :
    (s.lookupMeta id request expired handle).Fresh := by
  rcases fresh.requests id request found with ⟨-, about, stamps⟩
  rw [held] at about stamps
  have missed := fresh.setPhase found (.metaMissed handle) about stamps
  unfold State.lookupMeta
  split
  · next cached cached_eq =>
      split
      · exact missed
      · apply fresh.setPhase found (.hasMeta handle cached) about
        intro stamp stamp_mem
        rcases List.mem_pair.1 stamp_mem with rfl | rfl
        · exact stamps _ List.mem_cons_self
        · have same : handle.value.repoId = request.repoId := about
          exact fresh.allows (fresh.metas _ _ (same ▸ cached_eq)) _
  · exact missed

/-- A datum made now can stand next to one the request may use. -/
theorem Fresh.allows_beside_now (fresh : s.Fresh) (found : s.requests id = some request)
    {madeAt : Nat} (allows : Allows s.completed request.repoId request.startedAt madeAt) :
    ∀ stamp ∈ [madeAt, s.clock], Allows s.completed request.repoId request.startedAt stamp := by
  intro stamp stamp_mem
  rcases List.mem_pair.1 stamp_mem with rfl | rfl
  · exact allows
  · exact fresh.allows_now found

theorem Fresh.dispatch (fresh : s.Fresh) (found : s.requests id = some request)
    {handle : Stamped RepoHandle} (expired : Bool) (held : request.phase = .holding handle) :
    (s.dispatch id request expired handle).Fresh := by
  unfold State.dispatch
  split
  · exact fresh.answer found _
  · exact fresh.lookupMeta found expired held
  · exact fresh.lookupMeta found expired held
  · next query _ =>
      rcases fresh.requests id request found with ⟨-, about, stamps⟩
      rw [held] at about stamps
      refine fresh.setPhase found (.hashed handle _) ⟨about, ?_⟩ stamps
      intro key keyed
      exact (World.blameKey_repoId keyed).1.trans about

theorem Fresh.insertMeta (fresh : s.Fresh) (found : s.requests id = some request)
    {handle : Stamped RepoHandle} {mine : Stamped ResponseMeta}
    (made : request.phase = .metaMade handle mine)
    (clean : Outlives (s.cleared .metas) handle.value.repoId mine.madeAt) :
    ({ s with metaCache :=
        Function.update s.metaCache handle.value.repoId (some mine) }.setPhase id request
      (.hasMeta handle mine)).Fresh := by
  rcases fresh.requests id request found with ⟨-, about, stamps⟩
  rw [made] at about stamps
  have inserted : State.Fresh
      { s with metaCache := Function.update s.metaCache handle.value.repoId (some mine) } :=
    { fresh with
      metas := by
        intro repoId responseMeta cached
        simp only [Function.update_apply] at cached
        split at cached
        · next same_repo =>
            cases cached
            exact same_repo ▸ clean
        · exact fresh.metas repoId responseMeta cached }
  exact inserted.setPhase found (.hasMeta handle mine) about stamps

theorem Fresh.finishWithMeta (backend : Backend ResponseMeta Hits) (fresh : s.Fresh)
    (found : s.requests id = some request) (handle : Stamped RepoHandle)
    (responseMeta : Stamped ResponseMeta) :
    (s.finishWithMeta backend id request handle responseMeta).Fresh := by
  unfold State.finishWithMeta
  split
  · split
    · exact fresh.answer found _
    · split
      · exact fresh.answer found _
      · exact fresh.drop id
  · exact fresh.answer found _

theorem Fresh.touchBlame (fresh : s.Fresh) (key : BlameKey) :
    State.Fresh { s with blameCache := (s.blameCache.get key).2 } :=
  { fresh with
    blames := by
      intro entry entry_mem
      exact fresh.blames entry (LruCache.mem_get.1 entry_mem) }

theorem Fresh.lookupBlame (fresh : s.Fresh) (found : s.requests id = some request)
    {handle : Stamped RepoHandle} {key : Option BlameKey}
    (hashed : request.phase = .hashed handle key) :
    (s.lookupBlame id request handle key).Fresh := by
  rcases fresh.requests id request found with ⟨-, about, stamps⟩
  rw [hashed] at about stamps
  unfold State.lookupBlame
  split
  · exact fresh.setPhase found (.blameMissed handle none) about stamps
  · next key =>
      have touched := fresh.touchBlame key
      have looked_up := LruCache.get_fst s.blameCache key
      split
      · next cached cache hit =>
          rw [hit] at touched looked_up
          apply touched.setPhase found (.hasBlame handle cached) about.1
          intro stamp stamp_mem
          rcases List.mem_pair.1 stamp_mem with rfl | rfl
          · exact stamps _ List.mem_cons_self
          · have outlives := fresh.blames _ (LruCache.peek_eq_some.1 looked_up.symm)
            rw [← about.2 key rfl]
            exact fresh.allows outlives _
      · next cache miss =>
          rw [miss] at touched
          exact touched.setPhase found (.blameMissed handle (some key)) about stamps

theorem Fresh.blame (fresh : s.Fresh) (found : s.requests id = some request)
    {handle : Stamped RepoHandle} {key : Option BlameKey}
    (missed : request.phase = .blameMissed handle key) :
    (s.blame id request handle key).Fresh := by
  rcases fresh.requests id request found with ⟨-, about, stamps⟩
  rw [missed] at about stamps
  unfold State.blame
  split
  · split
    · next ranges _ =>
        exact fresh.setPhase found (.blamed handle key ⟨ranges, s.clock⟩) about
          (fresh.allows_beside_now found (stamps _ List.mem_cons_self))
    · exact fresh.drop id
  · exact fresh.drop id

theorem Fresh.insertBlame (fresh : s.Fresh) (found : s.requests id = some request)
    {handle : Stamped RepoHandle} {key : Option BlameKey} {mine : Stamped (List BlameRange)}
    (blamed : request.phase = .blamed handle key mine)
    (clean : ∀ k ∈ key, Outlives (s.cleared .blames) k.repoId mine.madeAt) :
    (s.insertBlame id request handle key mine).Fresh := by
  rcases fresh.requests id request found with ⟨-, about, stamps⟩
  rw [blamed] at about stamps
  unfold State.insertBlame
  split
  · exact fresh.setPhase found (.hasBlame handle mine) about.1 stamps
  · next key =>
      have inserted : State.Fresh { s with blameCache := s.blameCache.put key mine } :=
        { fresh with
          blames := by
            intro entry entry_mem
            rcases LruCache.mem_put entry_mem with rfl | ⟨kept, -⟩
            · exact clean key rfl
            · exact fresh.blames entry kept }
      exact inserted.setPhase found (.hasBlame handle mine) about.1 stamps

theorem Fresh.explain (fresh : s.Fresh) (found : s.requests id = some request)
    (handle : Stamped RepoHandle) (ranges : Stamped (List BlameRange)) :
    (s.explain id request handle ranges).Fresh := by
  unfold State.explain
  split
  · split
    · exact fresh.answer found _
    · exact fresh.drop id
  · exact fresh.drop id

/-- A step of a request that inserts no old datum keeps the caches fresh. -/
theorem Fresh.advance (backend : Backend ResponseMeta Hits) (fresh : s.Fresh)
    (found : s.requests id = some request) (expired : Bool)
    (clean : s.InsertsFresh (.step id expired)) :
    (s.advance backend id request expired).Fresh := by
  rcases fresh.requests id request found with ⟨-, about, stamps⟩
  simp only [InsertsFresh, found, Option.map_some] at clean
  unfold State.advance
  split
  · next target at_lookup =>
      rw [at_lookup] at about
      have same : target.repoId = request.repoId := about
      split
      · next existing cached => exact fresh.holding found (same ▸ cached)
      · exact fresh.setPhase found (.opening target) about (by simp [Phase.stamps])
  · next target at_opening =>
      rw [at_opening] at about
      split
      · apply fresh.setPhase found (.opened ⟨target, s.clock⟩) about
        intro stamp stamp_mem
        rw [List.mem_singleton.1 stamp_mem]
        exact fresh.allows_now found
      · exact fresh.drop id
  · next mine opened =>
      rw [opened] at clean
      exact fresh.insertHandle found opened clean
  · next handle held => exact fresh.dispatch found expired held
  · next handle missed =>
      rw [missed] at about stamps
      split
      · next responseMeta _ =>
          exact fresh.setPhase found (.metaMade handle ⟨responseMeta, s.clock⟩) about
            (fresh.allows_beside_now found (stamps _ List.mem_cons_self))
      · exact fresh.drop id
  · next handle mine made =>
      rw [made] at clean
      exact fresh.insertMeta found made clean
  · next handle responseMeta _ => exact fresh.finishWithMeta backend found handle responseMeta
  · next handle key hashed => exact fresh.lookupBlame found hashed
  · next handle key missed => exact fresh.blame found missed
  · next handle key mine blamed =>
      apply fresh.insertBlame found blamed
      rintro k rfl
      rw [blamed] at clean
      exact clean
  · next handle ranges _ => exact fresh.explain found handle ranges

/-! ## The steps of an invalidation -/

theorem mem_recordClearing {kind : CacheKind} {call : Invalidation} {clearing : Clearing}
    {other : CacheKind} : clearing ∈ s.recordClearing kind call other ↔
      clearing ∈ s.cleared other ∨ other = kind ∧ clearing = ⟨call.repoId, call.beganAt⟩ := by
  unfold recordClearing
  by_cases same : other = kind
  · subst same
    simp [or_comm]
  · simp [same]

/-- What an invalidation clears from a cache is the entries of its repository. -/
theorem outlives_recordClearing (kind : CacheKind) (call : Invalidation) {other : CacheKind}
    {repoId : RepoId}
    {stamp : Nat} (outlives : Outlives (s.cleared other) repoId stamp)
    (spared : other = kind → repoId ≠ call.repoId) :
    Outlives (s.recordClearing kind call other) repoId stamp := by
  intro clearing clearing_mem same
  rcases mem_recordClearing.1 clearing_mem with before | ⟨same_kind, rfl⟩
  · exact outlives clearing before same
  · exact absurd same.symm (spared same_kind)

/-- An invalidation that goes on to the next cache has cleared the ones before it. -/
theorem Fresh.moved (fresh : s.Fresh) {call : Invalidation} {kind following : CacheKind}
    (found : s.invalidations id = some call)
    (order : ∀ cleared, ClearedSoFar following cleared →
      ClearedSoFar call.following cleared ∨ cleared = kind) :
    ∀ other moved, Function.update s.invalidations id
        (some { call with following := following }) other = some moved →
      moved.beganAt < s.clock ∧ ∀ cleared, ClearedSoFar moved.following cleared →
        ⟨moved.repoId, moved.beganAt⟩ ∈ s.recordClearing kind call cleared := by
  intro other moved moved_found
  simp only [Function.update_apply] at moved_found
  split at moved_found
  · cases moved_found
    rcases fresh.invalidations id call found with ⟨began, so_far⟩
    refine ⟨began, ?_⟩
    intro cleared is_cleared
    rw [mem_recordClearing]
    rcases order cleared is_cleared with before | now
    · exact Or.inl (so_far cleared before)
    · exact Or.inr ⟨now, rfl⟩
  · rcases fresh.invalidations other moved moved_found with ⟨began, so_far⟩
    exact ⟨began, fun cleared is_cleared =>
      mem_recordClearing.2 (Or.inl (so_far cleared is_cleared))⟩

theorem Fresh.completed_recordClearing (fresh : s.Fresh) (kind : CacheKind) (call : Invalidation) :
    ∀ ended ∈ s.completed, ended.beganAt ≤ ended.endedAt ∧ ended.endedAt < s.clock ∧
      ∀ cleared, ⟨ended.repoId, ended.beganAt⟩ ∈ s.recordClearing kind call cleared := by
  intro ended ended_mem
  rcases fresh.completed ended ended_mem with ⟨order, past, cleared⟩
  exact ⟨order, past, fun other => mem_recordClearing.2 (Or.inl (cleared other))⟩

/-- An invalidation that returns now started no request. -/
theorem allows_cons {completed : List Completed} {repoId other : RepoId}
    {startedAt stamp beganAt clock : Nat} (allows : Allows completed repoId startedAt stamp)
    (started : startedAt < clock) :
    Allows (⟨other, beganAt, clock⟩ :: completed) repoId startedAt stamp := by
  intro call call_mem same ended
  rcases List.mem_cons.1 call_mem with rfl | before
  · exact absurd ended (Nat.not_lt.2 (Nat.le_of_lt started))
  · exact allows call before same ended

theorem Fresh.clearRepos (fresh : s.Fresh) {call : Invalidation}
    (found : s.invalidations id = some call) :
    State.Fresh { s with
      repos := Function.update s.repos call.repoId none
      cleared := s.recordClearing .repos call
      invalidations := Function.update s.invalidations id
        (some { call with following := .metas }) } where
  repos := by
    intro repoId handle cached
    simp only [Function.update_apply] at cached
    split at cached
    · cases cached
    · next other =>
        rcases fresh.repos repoId handle cached with ⟨same, outlives⟩
        exact ⟨same, outlives_recordClearing .repos call outlives fun _ => other⟩
  metas repoId responseMeta cached :=
    outlives_recordClearing .repos call (fresh.metas repoId responseMeta cached) (by simp)
  blames entry entry_mem :=
    outlives_recordClearing .repos call (fresh.blames entry entry_mem) (by simp)
  completed := fresh.completed_recordClearing .repos call
  invalidations := fresh.moved found (by simp [ClearedSoFar])
  requests := fresh.requests
  answered := fresh.answered
  answers := fresh.answers

theorem Fresh.clearMetas (fresh : s.Fresh) {call : Invalidation}
    (found : s.invalidations id = some call) (at_metas : call.following = .metas) :
    State.Fresh { s with
      metaCache := Function.update s.metaCache call.repoId none
      cleared := s.recordClearing .metas call
      invalidations := Function.update s.invalidations id
        (some { call with following := .blames }) } where
  repos repoId handle cached := by
    rcases fresh.repos repoId handle cached with ⟨same, outlives⟩
    exact ⟨same, outlives_recordClearing .metas call outlives (by simp)⟩
  metas := by
    intro repoId responseMeta cached
    simp only [Function.update_apply] at cached
    split at cached
    · cases cached
    · next other =>
        exact outlives_recordClearing .metas call (fresh.metas repoId responseMeta cached)
          fun _ => other
  blames entry entry_mem :=
    outlives_recordClearing .metas call (fresh.blames entry entry_mem) (by simp)
  completed := fresh.completed_recordClearing .metas call
  invalidations := fresh.moved found (by simp [ClearedSoFar, at_metas])
  requests := fresh.requests
  answered := fresh.answered
  answers := fresh.answers

theorem Fresh.clearBlames (fresh : s.Fresh) {call : Invalidation}
    (found : s.invalidations id = some call) (at_blames : call.following = .blames) :
    (State.tick { s with
      blameCache := s.blameCache.invalidateRepo call.repoId
      cleared := s.recordClearing .blames call
      invalidations := Function.update s.invalidations id none
      completed := ⟨call.repoId, call.beganAt, s.clock⟩ :: s.completed }).Fresh where
  repos repoId handle cached := by
    rcases fresh.repos repoId handle cached with ⟨same, outlives⟩
    exact ⟨same, outlives_recordClearing .blames call outlives (by simp)⟩
  metas repoId responseMeta cached :=
    outlives_recordClearing .blames call (fresh.metas repoId responseMeta cached) (by simp)
  blames := by
    intro entry entry_mem
    rcases mem_invalidateRepo.1 entry_mem with ⟨kept, other⟩
    exact outlives_recordClearing .blames call (fresh.blames entry kept) fun _ => other
  completed := by
    intro ended ended_mem
    rcases List.mem_cons.1 ended_mem with rfl | before
    · rcases fresh.invalidations id call found with ⟨began, so_far⟩
      refine ⟨Nat.le_of_lt began, Nat.lt_succ_self _, ?_⟩
      intro kind
      rw [at_blames] at so_far
      apply mem_recordClearing.2
      cases kind with
      | repos => exact Or.inl (so_far .repos (Or.inl rfl))
      | metas => exact Or.inl (so_far .metas (Or.inr rfl))
      | blames => exact Or.inr ⟨rfl, rfl⟩
    · rcases fresh.completed_recordClearing .blames call ended before with ⟨order, past, cleared⟩
      exact ⟨order, Nat.lt_succ_of_lt past, cleared⟩
  invalidations := by
    intro other moved moved_found
    simp only [State.tick, Function.update_apply] at moved_found
    split at moved_found
    · cases moved_found
    · rcases fresh.invalidations other moved moved_found with ⟨began, so_far⟩
      exact ⟨Nat.lt_succ_of_lt began,
        fun kind is_cleared => mem_recordClearing.2 (Or.inl (so_far kind is_cleared))⟩
  requests := by
    intro other request request_found
    rcases fresh.requests other request request_found with ⟨started, about, stamps⟩
    exact ⟨Nat.lt_succ_of_lt started, about,
      fun stamp stamp_mem => allows_cons (stamps stamp stamp_mem) started⟩
  answered request answered_mem := Nat.lt_succ_of_lt (fresh.answered request answered_mem)
  answers request answered_mem stamp stamp_mem :=
    allows_cons (fresh.answers request answered_mem stamp stamp_mem)
      (fresh.answered request answered_mem)

theorem Fresh.advanceInvalidation (fresh : s.Fresh) {call : Invalidation}
    (found : s.invalidations id = some call) : (s.advanceInvalidation id call).tick.Fresh := by
  unfold State.advanceInvalidation
  split
  · exact (fresh.clearRepos found).tick
  · next at_metas => exact (fresh.clearMetas found at_metas).tick
  · next at_blames => exact fresh.clearBlames found at_blames

/-! ## Runs -/

theorem Fresh.start (fresh : s.Fresh) (id : Nat) (call : Call) (repoPath : String) :
    (s.start id call repoPath).tick.Fresh := by
  unfold State.start
  split
  · next target _ =>
      exact { fresh.tick with
        requests := by
          intro other request found
          simp only [State.tick, Function.update_apply] at found
          split at found
          · cases found
            exact ⟨Nat.lt_succ_self _, rfl, by simp [Phase.stamps]⟩
          · exact fresh.tick.requests other request found }
  · exact fresh.tick

theorem Fresh.startInvalidate (fresh : s.Fresh) (id : Nat) (repoPath : String) :
    (s.startInvalidate id repoPath).tick.Fresh := by
  unfold State.startInvalidate
  split
  · next target _ =>
      exact { fresh.tick with
        invalidations := by
          intro other call found
          simp only [State.tick, Function.update_apply] at found
          split at found
          · cases found
            exact ⟨Nat.lt_succ_self _, fun kind cleared => by cases cleared⟩
          · exact fresh.tick.invalidations other call found }
  · exact fresh.tick

theorem Fresh.next (backend : Backend ResponseMeta Hits) {s' : State ResponseMeta Hits}
    {event : Event} (fresh : s.Fresh) (clean : s.InsertsFresh event)
    (stepped : s.next backend event = some s') : s'.Fresh := by
  cases event with
  | updateWorld world =>
      cases stepped
      have moved : State.Fresh { s with world := world } := { fresh with }
      exact moved.tick
  | start id call repoPath =>
      simp only [State.next] at stepped
      split at stepped
      · cases stepped
      · cases stepped
        exact fresh.start id call repoPath
  | step id expired =>
      simp only [State.next] at stepped
      split at stepped
      · next request found =>
          cases stepped
          exact (fresh.advance backend found expired clean).tick
      · cases stepped
  | startInvalidate id repoPath =>
      simp only [State.next] at stepped
      split at stepped
      · cases stepped
      · cases stepped
        exact fresh.startInvalidate id repoPath
  | stepInvalidate id =>
      simp only [State.next] at stepped
      split at stepped
      · next call found =>
          cases stepped
          exact fresh.advanceInvalidation found
      · cases stepped

/-- In every interleaving in which no step inserts a datum from before an invalidation that has
already cleared the cache, what is served after an invalidation was made since it began. -/
theorem serves_fresh (backend : Backend ResponseMeta Hits) (world : World) (events : List Event)
    (s : State ResponseMeta Hits)
    (clean : Execution.Along (State.next backend) InsertsFresh (new world) events)
    (ran : Execution.run (State.next backend) (new world) events = some s) : s.ServesFresh :=
  (Execution.invariant_along Fresh (fun _ _ _ fresh clean_step stepped =>
    fresh.next backend clean_step stepped) (fresh_new world) clean ran).answers

/-! Two requests for the handle of one repository, and an invalidation between them. -/

namespace TwoOpens

/-- An engine whose answers do not matter. -/
def backend : Backend Unit Unit where
  composeResponseMeta := fun _ _ => .ok ()
  needsRebuild := fun _ => false
  findPatternWithProfile := fun _ _ _ => .ok ()

/-- A file of two lines, in one repository. -/
def oneRepo : World :=
    RetrievalEngine.plainWorld RetrievalEngine.twoLineRepo

/-- The first request is through before the invalidation begins. -/
def apart : List Event :=
    [.start 0 .openRepo "/r", .step 0 false, .step 0 false, .step 0 false, .step 0 false,
      .startInvalidate 0 "/r", .stepInvalidate 0, .stepInvalidate 0, .stepInvalidate 0,
      .start 1 .openRepo "/r", .step 1 false, .step 1 false, .step 1 false, .step 1 false]

/-- The first request inserts its handle after the invalidation has returned. -/
def overlapping : List Event :=
    [.start 0 .openRepo "/r", .step 0 false, .step 0 false,
      .updateWorld oneRepo, .startInvalidate 0 "/r", .stepInvalidate 0, .stepInvalidate 0,
      .stepInvalidate 0, .step 0 false,
      .start 1 .openRepo "/r", .step 1 false, .step 1 false]

end TwoOpens

open TwoOpens in
theorem serves_fresh_apart : ∃ s, Execution.run (State.next backend) (new oneRepo) apart = some s ∧
    s.ServesFresh := by
  refine ⟨_, rfl, serves_fresh backend oneRepo apart _ ?_ rfl⟩
  iterate 3 refine (Execution.along_cons rfl).2 ⟨trivial, ?_⟩
  refine (Execution.along_cons rfl).2 ⟨fun _ _ cleared => (nomatch cleared), ?_⟩
  iterate 8 refine (Execution.along_cons rfl).2 ⟨trivial, ?_⟩
  refine (Execution.along_cons rfl).2 ⟨?_, ?_⟩
  · intro _ clearing cleared _
    rw [List.mem_singleton.1 cleared]
    decide
  · exact (Execution.along_cons rfl).2 ⟨trivial, trivial⟩

open TwoOpens in
/-- The second request is answered from the handle opened before the invalidation. -/
theorem late_insert_served :
    ∃ s, Execution.run (State.next backend) (new oneRepo) overlapping = some s ∧
      ¬ s.ServesFresh := by
  refine ⟨_, rfl, ?_⟩
  intro serves
  have younger := serves ⟨⟨"/r"⟩, 9, [2], .handle ⟨⟨"/r"⟩, "/r"⟩⟩ List.mem_cons_self 2
    List.mem_cons_self ⟨⟨"/r"⟩, 4, 7⟩ List.mem_cons_self rfl (by decide)
  exact absurd younger (by decide)

end State

end Server

end Ohara
