import Ohara.Engine.Explain
import Ohara.Retriever.Coordinator

/-!
# Requests and invalidations step by step

The engine serves many requests at once. A request looks a datum up, computes it where it is
missing and inserts it, each at a moment of its own; an invalidation clears the three caches one
after the other. Every datum carries the moment it was opened or computed at.
-/

namespace Ohara

namespace Server

/-- A datum with the moment it was made at. -/
structure Stamped (α : Type) where
  value : α
  madeAt : Nat

/-- What a pattern request runs besides the caches. -/
structure Backend (ResponseMeta Hits : Type) where
  composeResponseMeta : World → RepoHandle → Except EngineError ResponseMeta
  needsRebuild : ResponseMeta → Bool
  findPatternWithProfile : World → RepoHandle → Retriever.PatternQuery → Except EngineError Hits

/-- What is asked of the engine. -/
inductive Call where
  | openRepo
  | indexStatus
  | findPattern (query : Retriever.PatternQuery)
  | explainChange (query : ExplainQuery)

/-- Where a request is between two of its steps. -/
inductive Phase (ResponseMeta : Type) where
  /-- `open_repo` is about to read the map. -/
  | lookup (target : RepoHandle)
  | opening (target : RepoHandle)
  /-- A handle was opened and is about to be inserted. -/
  | opened (mine : Stamped RepoHandle)
  /-- `open_repo` has returned. -/
  | holding (handle : Stamped RepoHandle)
  | metaMissed (handle : Stamped RepoHandle)
  | metaMade (handle : Stamped RepoHandle) (mine : Stamped ResponseMeta)
  | hasMeta (handle : Stamped RepoHandle) (responseMeta : Stamped ResponseMeta)
  | hashed (handle : Stamped RepoHandle) (key : Option BlameKey)
  | blameMissed (handle : Stamped RepoHandle) (key : Option BlameKey)
  | blamed (handle : Stamped RepoHandle) (key : Option BlameKey) (mine : Stamped (List BlameRange))
  | hasBlame (handle : Stamped RepoHandle) (ranges : Stamped (List BlameRange))

namespace Phase

variable {ResponseMeta : Type}

/-- The moments of the data the request goes by. -/
def stamps : Phase ResponseMeta → List Nat
  | .lookup _ => []
  | .opening _ => []
  | .opened mine => [mine.madeAt]
  | .holding handle => [handle.madeAt]
  | .metaMissed handle => [handle.madeAt]
  | .metaMade handle mine => [handle.madeAt, mine.madeAt]
  | .hasMeta handle responseMeta => [handle.madeAt, responseMeta.madeAt]
  | .hashed handle _ => [handle.madeAt]
  | .blameMissed handle _ => [handle.madeAt]
  | .blamed handle _ mine => [handle.madeAt, mine.madeAt]
  | .hasBlame handle ranges => [handle.madeAt, ranges.madeAt]

end Phase

/-- A request on its way through the caches. -/
structure Request (ResponseMeta : Type) where
  call : Call
  repoId : RepoId
  startedAt : Nat
  phase : Phase ResponseMeta

/-- What a request is answered with. -/
inductive Answer (ResponseMeta Hits : Type) where
  | handle (handle : RepoHandle)
  | status (responseMeta : ResponseMeta)
  | hits (hits : Hits) (responseMeta : ResponseMeta)
  | needsRebuild
  | explained (result : ExplainResult)

/-- A request that was answered, with the moments of the data it was answered from. -/
structure Answered (ResponseMeta Hits : Type) where
  repoId : RepoId
  startedAt : Nat
  stamps : List Nat
  answer : Answer ResponseMeta Hits

/-- The caches of the engine. -/
inductive CacheKind where
  | repos
  | metas
  | blames
deriving DecidableEq, Repr

/-- An invalidation in progress, with the cache it clears next. -/
structure Invalidation where
  repoId : RepoId
  beganAt : Nat
  following : CacheKind
deriving DecidableEq, Repr

/-- A cache was cleared of a repository by an invalidation that began at some moment. -/
structure Clearing where
  repoId : RepoId
  beganAt : Nat
deriving DecidableEq, Repr

/-- An invalidation that has returned. -/
structure Completed where
  repoId : RepoId
  beganAt : Nat
  endedAt : Nat
deriving DecidableEq, Repr

/-- The blame cache, each entry with the time of its data. -/
abbrev StampedBlameCache := LruCache BlameKey (Stamped (List BlameRange))

/-- The entries of the repository are popped one by one. -/
def StampedBlameCache.invalidateRepo (cache : StampedBlameCache) (repoId : RepoId) :
    StampedBlameCache :=
    let keys := (cache.entries.filter fun entry => decide (entry.1.repoId = repoId)).map Prod.fst
    keys.foldl LruCache.pop cache

/-- The world, the caches, and the requests and invalidations in flight. -/
structure State (ResponseMeta Hits : Type) where
  clock : Nat
  world : World
  repos : RepoId → Option (Stamped RepoHandle)
  metaCache : RepoId → Option (Stamped ResponseMeta)
  blameCache : StampedBlameCache
  requests : Nat → Option (Request ResponseMeta)
  invalidations : Nat → Option Invalidation
  answers : List (Answered ResponseMeta Hits)
  /-- Not in the code: the clearings of each cache so far. -/
  cleared : CacheKind → List Clearing
  /-- Not in the code: the invalidations that have returned. -/
  completed : List Completed

/-- One step of the world, of a request or of an invalidation. -/
inductive Event where
  /-- The index is updated or the repository moves. -/
  | updateWorld (world : World)
  | start (id : Nat) (call : Call) (repoPath : String)
  /-- A request makes its next step; `expired` is whether a cached meta is past its TTL. -/
  | step (id : Nat) (expired : Bool)
  | startInvalidate (id : Nat) (repoPath : String)
  | stepInvalidate (id : Nat)

variable {ResponseMeta Hits : Type}

namespace State

/-- Empty caches over a world. -/
def new (world : World) : State ResponseMeta Hits where
  clock := 0
  world := world
  repos := fun _ => none
  metaCache := fun _ => none
  blameCache := LruCache.new 64 (by decide)
  requests := fun _ => none
  invalidations := fun _ => none
  answers := []
  cleared := fun _ => []
  completed := []

/-- A request moves on. -/
def setPhase (s : State ResponseMeta Hits) (id : Nat) (request : Request ResponseMeta)
    (phase : Phase ResponseMeta) : State ResponseMeta Hits :=
    { s with requests := Function.update s.requests id (some { request with phase := phase }) }

/-- The request fails. -/
def drop (s : State ResponseMeta Hits) (id : Nat) : State ResponseMeta Hits :=
    { s with requests := Function.update s.requests id none }

/-- A request is answered. -/
def answer (s : State ResponseMeta Hits) (id : Nat) (request : Request ResponseMeta)
    (answer : Answer ResponseMeta Hits) : State ResponseMeta Hits :=
    { s with
      requests := Function.update s.requests id none
      answers := s.answers ++
        [⟨request.repoId, request.startedAt, request.phase.stamps, answer⟩] }

/-- The step of `open_repo` after the handle was opened: the map is read again under the lock. -/
def insertHandle (s : State ResponseMeta Hits) (id : Nat) (request : Request ResponseMeta)
    (mine : Stamped RepoHandle) : State ResponseMeta Hits :=
    match s.repos mine.value.repoId with
    | some existing => s.setPhase id request (.holding existing)
    | none =>
        { s with repos := Function.update s.repos mine.value.repoId (some mine) }.setPhase id
          request (.holding mine)

/-- `cached_meta`, the lookup. -/
def lookupMeta (s : State ResponseMeta Hits) (id : Nat) (request : Request ResponseMeta)
    (expired : Bool) (handle : Stamped RepoHandle) : State ResponseMeta Hits :=
    match s.metaCache handle.value.repoId with
    | some cached =>
        if expired then s.setPhase id request (.metaMissed handle)
        else s.setPhase id request (.hasMeta handle cached)
    | none => s.setPhase id request (.metaMissed handle)

/-- `BlameCache::get` under the key of the file at HEAD. -/
def lookupBlame (s : State ResponseMeta Hits) (id : Nat) (request : Request ResponseMeta)
    (handle : Stamped RepoHandle) (key : Option BlameKey) : State ResponseMeta Hits :=
    match key with
    | none => s.setPhase id request (.blameMissed handle none)
    | some key =>
        match s.blameCache.get key with
        | (some cached, cache) =>
            { s with blameCache := cache }.setPhase id request (.hasBlame handle cached)
        | (none, cache) =>
            { s with blameCache := cache }.setPhase id request (.blameMissed handle (some key))

/-- The blame a request has computed is cached under its key. -/
def insertBlame (s : State ResponseMeta Hits) (id : Nat) (request : Request ResponseMeta)
    (handle : Stamped RepoHandle) (key : Option BlameKey) (mine : Stamped (List BlameRange)) :
    State ResponseMeta Hits :=
    match key with
    | none => s.setPhase id request (.hasBlame handle mine)
    | some key =>
        { s with blameCache := s.blameCache.put key mine }.setPhase id request
          (.hasBlame handle mine)

/-- What a request does once `open_repo` has returned. -/
def dispatch (s : State ResponseMeta Hits) (id : Nat) (request : Request ResponseMeta)
    (expired : Bool) (handle : Stamped RepoHandle) : State ResponseMeta Hits :=
    match request.call with
    | .openRepo => s.answer id request (.handle handle.value)
    | .indexStatus => s.lookupMeta id request expired handle
    | .findPattern _ => s.lookupMeta id request expired handle
    | .explainChange query =>
        s.setPhase id request (.hashed handle (s.world.blameKey handle.value query.file))

/-- What a request does once it has the response meta: an index that needs a rebuild is refused. -/
def finishWithMeta (backend : Backend ResponseMeta Hits) (s : State ResponseMeta Hits) (id : Nat)
    (request : Request ResponseMeta) (handle : Stamped RepoHandle)
    (responseMeta : Stamped ResponseMeta) : State ResponseMeta Hits :=
    match request.call with
    | .findPattern query =>
        if backend.needsRebuild responseMeta.value then s.answer id request .needsRebuild
        else
          match backend.findPatternWithProfile s.world handle.value query with
          | .ok hits => s.answer id request (.hits hits responseMeta.value)
          | .error _ => s.drop id
    | _ => s.answer id request (.status responseMeta.value)

/-- Run the blamer, for the query of an `explain_change`. -/
def blame (s : State ResponseMeta Hits) (id : Nat) (request : Request ResponseMeta)
    (handle : Stamped RepoHandle) (key : Option BlameKey) : State ResponseMeta Hits :=
    match request.call with
    | .explainChange query =>
        match s.world.blameRange handle.value query with
        | .ok ranges => s.setPhase id request (.blamed handle key ⟨ranges, s.clock⟩)
        | .error _ => s.drop id
    | _ => s.drop id

/-- The answer from the ranges. -/
def explain (s : State ResponseMeta Hits) (id : Nat) (request : Request ResponseMeta)
    (handle : Stamped RepoHandle) (ranges : Stamped (List BlameRange)) :
    State ResponseMeta Hits :=
    match request.call with
    | .explainChange query =>
        match s.world.explainRanges handle.value query ranges.value with
        | .ok result => s.answer id request (.explained result)
        | .error _ => s.drop id
    | _ => s.drop id

/-- The next step of a request. -/
def advance (backend : Backend ResponseMeta Hits) (s : State ResponseMeta Hits) (id : Nat)
    (request : Request ResponseMeta) (expired : Bool) : State ResponseMeta Hits :=
    match request.phase with
    | .lookup target =>
        match s.repos target.repoId with
        | some existing => s.setPhase id request (.holding existing)
        | none => s.setPhase id request (.opening target)
    | .opening target =>
        match s.world.openHandle target with
        | .ok () => s.setPhase id request (.opened ⟨target, s.clock⟩)
        | .error _ => s.drop id
    | .opened mine => s.insertHandle id request mine
    | .holding handle => s.dispatch id request expired handle
    | .metaMissed handle =>
        match backend.composeResponseMeta s.world handle.value with
        | .ok fresh => s.setPhase id request (.metaMade handle ⟨fresh, s.clock⟩)
        | .error _ => s.drop id
    | .metaMade handle mine =>
        { s with metaCache := Function.update s.metaCache handle.value.repoId (some mine) }.setPhase
          id request (.hasMeta handle mine)
    | .hasMeta handle responseMeta => s.finishWithMeta backend id request handle responseMeta
    | .hashed handle key => s.lookupBlame id request handle key
    | .blameMissed handle key => s.blame id request handle key
    | .blamed handle key mine => s.insertBlame id request handle key mine
    | .hasBlame handle ranges => s.explain id request handle ranges

/-- A cache has been cleared for the invalidation. -/
def recordClearing (s : State ResponseMeta Hits) (kind : CacheKind) (call : Invalidation) :
    CacheKind → List Clearing :=
    Function.update s.cleared kind (⟨call.repoId, call.beganAt⟩ :: s.cleared kind)

/-- The next step of `invalidate_repo`; the third one returns. -/
def advanceInvalidation (s : State ResponseMeta Hits) (id : Nat) (call : Invalidation) :
    State ResponseMeta Hits :=
    match call.following with
    | .repos =>
        { s with
          repos := Function.update s.repos call.repoId none
          cleared := s.recordClearing .repos call
          invalidations := Function.update s.invalidations id
            (some { call with following := .metas }) }
    | .metas =>
        { s with
          metaCache := Function.update s.metaCache call.repoId none
          cleared := s.recordClearing .metas call
          invalidations := Function.update s.invalidations id
            (some { call with following := .blames }) }
    | .blames =>
        { s with
          blameCache := s.blameCache.invalidateRepo call.repoId
          cleared := s.recordClearing .blames call
          invalidations := Function.update s.invalidations id none
          completed := ⟨call.repoId, call.beganAt, s.clock⟩ :: s.completed }

/-- The clock of the steps. -/
def tick (s : State ResponseMeta Hits) : State ResponseMeta Hits :=
    { s with clock := s.clock + 1 }

/-- Start a request; a repository that cannot be identified fails it at once. -/
def start (s : State ResponseMeta Hits) (id : Nat) (call : Call) (repoPath : String) :
    State ResponseMeta Hits :=
    match s.world.identify repoPath with
    | .ok target =>
        { s with
          requests := Function.update s.requests id
            (some ⟨call, target.repoId, s.clock, .lookup target⟩) }
    | .error _ => s

/-- `invalidate_repo` begins with the identity of the repository. -/
def startInvalidate (s : State ResponseMeta Hits) (id : Nat) (repoPath : String) :
    State ResponseMeta Hits :=
    match s.world.identify repoPath with
    | .ok target =>
        { s with
          invalidations := Function.update s.invalidations id
            (some ⟨target.repoId, s.clock, .repos⟩) }
    | .error _ => s

/-- One step of the engine. -/
def next (backend : Backend ResponseMeta Hits) (s : State ResponseMeta Hits) :
    Event → Option (State ResponseMeta Hits)
  | .updateWorld world => some { s with world := world }.tick
  | .start id call repoPath =>
      match s.requests id with
      | some _ => none
      | none => some (s.start id call repoPath).tick
  | .step id expired =>
      match s.requests id with
      | some request => some (s.advance backend id request expired).tick
      | none => none
  | .startInvalidate id repoPath =>
      match s.invalidations id with
      | some _ => none
      | none => some (s.startInvalidate id repoPath).tick
  | .stepInvalidate id =>
      match s.invalidations id with
      | some call => some (s.advanceInvalidation id call).tick
      | none => none

end State

end Server

end Ohara
