import Mathlib.Data.List.Forall2
import Ohara.Engine.RegistryJson
import Ohara.Engine.RegistryRuns

/-!
# Sweeping the directories of other versions

A daemon that starts asks the daemons of other versions to shut down and removes their directories.
Whom it asks it learns from `list_alive`, which drops a live daemon whose heartbeat is old; such a
daemon is not asked, and its directory goes while it runs.
-/

namespace Ohara

namespace Registry

/-- An entry of the daemon root; the registry is the contents of `registry.json`, when it exists. -/
structure DirEntry where
  name : String
  isDir : Bool
  registryJson : Option Bytes
deriving DecidableEq, Repr

/-- What the sweep sees of a response. -/
structure Response where
  /-- The message of the error payload, when there is one. -/
  error : Option String
deriving DecidableEq, Repr

/-- What the sweep meets at an entry: how the file operations of `open` and of `list_alive` end, what
`list_alive` finds outside the file, and how each call ends. -/
structure Visit where
  opening : Except RegistryError Unit
  listing : Except RegistryError Unit
  moment : Moment
  shutdown : Nat → DaemonRecord → Except EngineError Response

/-- What is left of the entry, and the calls that were made. -/
structure Swept where
  left : Option DirEntry
  asked : List (DaemonRecord × Except EngineError Response)

/-- The calls to the listed daemons, one after the other. -/
def askAll (shutdown : Nat → DaemonRecord → Except EngineError Response)
    (alive : List DaemonRecord) : List (DaemonRecord × Except EngineError Response) :=
    alive.zipIdx.map fun listed => (listed.1, shutdown listed.2 listed.1)

/-- Every daemon has acknowledged its shutdown. -/
def allStopped (asked : List (DaemonRecord × Except EngineError Response)) : Bool :=
    asked.all fun call => call.2.toBool

/-- A daemon that answered is unregistered; whether that succeeds is ignored. -/
def unregisterStopped (json : Json) (asked : List (DaemonRecord × Except EngineError Response))
    (contents : Bytes) : Bytes :=
    asked.foldl (fun contents call =>
      match call.2 with
      | .ok _ => (mutate json (fun rf => (unregisterPid call.1.pid rf, ())) contents).2
      | .error _ => contents) contents

/-- What becomes of one entry of the directory. -/
def sweepEntry (json : Json) (currentVersion : String) (entry : DirEntry) (visit : Visit) : Swept :=
    if entry.name = currentVersion then ⟨some entry, []⟩
    else if !entry.isDir then ⟨some entry, []⟩
    else
      match entry.registryJson with
      | none => ⟨some entry, []⟩
      | some contents =>
          match visit.opening with
          | .error _ => ⟨some entry, []⟩
          | .ok () =>
              match visit.listing,
                lockedUpdate json visit.moment (fun daemons => (daemons, daemons))
                  (seedIfEmpty contents) with
              | .ok (), (.ok alive, pruned) =>
                  let asked := askAll visit.shutdown alive
                  if allStopped asked then ⟨none, asked⟩
                  else
                    ⟨some { entry with registryJson := some (unregisterStopped json asked pruned) },
                      asked⟩
              | _, _ => ⟨some { entry with registryJson := some (seedIfEmpty contents) }, []⟩

/-- The entries are those that can be read; none when the root cannot. -/
def sweepStaleVersions (json : Json) (currentVersion : String)
    (entries : List (DirEntry × Visit)) : List Swept :=
    entries.map fun entry => sweepEntry json currentVersion entry.1 entry.2

/-! ## What the sweep should do -/

/-- The daemon answered, and not with an error. -/
def Acknowledged (asked : List (DaemonRecord × Except EngineError Response)) (d : DaemonRecord) :
    Prop :=
    ∃ response, (d, .ok response) ∈ asked ∧ response.error = none

/-- A directory is removed only when it is another version's, has a registry, and every recorded
daemon that is alive has acknowledged the shutdown. -/
def RemovedSafely (json : Json) (currentVersion : String) (entry : DirEntry × Visit)
    (swept : Swept) : Prop :=
    swept.left = none →
      entry.1.name ≠ currentVersion ∧ entry.1.isDir = true ∧
      ∃ contents rf, entry.1.registryJson = some contents ∧
        json.fromStr (seedIfEmpty contents) = .ok rf ∧
        ∀ d ∈ rf.daemons, entry.2.moment.pidAlive d.pid = true → Acknowledged swept.asked d

/-- The registry that the sweep reads in the entry. -/
def Swept.Reads (json : Json) (currentVersion : String) (entry : DirEntry) (visit : Visit)
    (rf : RegistryFile) : Prop :=
    entry.name ≠ currentVersion ∧ entry.isDir = true ∧ visit.opening = .ok () ∧
      visit.listing = .ok () ∧
      ∃ contents, entry.registryJson = some contents ∧ json.fromStr (seedIfEmpty contents) = .ok rf

/-- A call to a live daemon with a recent heartbeat fails; or no live daemon has an old heartbeat,
and each gives an answer that is not an error. -/
def Settles (visit : Visit) (rf : RegistryFile) : Prop :=
    (∃ n d e, (pruneDead visit.moment rf).daemons[n]? = some d ∧ visit.shutdown n d = .error e) ∨
      ∀ d ∈ rf.daemons, visit.moment.pidAlive d.pid = true →
        visit.moment.now - d.lastHealthUnix ≤ 5 * 60 ∧
        ∃ n response, (pruneDead visit.moment rf).daemons[n]? = some d ∧
          visit.shutdown n d = .ok response ∧ response.error = none

/-! ## One entry -/

section OneEntry

variable {json : Json} {currentVersion : String} {entry : DirEntry} {visit : Visit}
  {rf : RegistryFile}

theorem mem_askAll {shutdown : Nat → DaemonRecord → Except EngineError Response}
    {alive : List DaemonRecord} {d : DaemonRecord} {answer : Except EngineError Response} :
    (d, answer) ∈ askAll shutdown alive ↔ ∃ n, alive[n]? = some d ∧ shutdown n d = answer := by
  simp only [askAll, List.mem_map, Prod.exists, List.mem_zipIdx_iff_getElem?, Prod.mk.injEq]
  constructor
  · rintro ⟨d, n, listed, rfl, answered⟩
    exact ⟨n, listed, answered⟩
  · rintro ⟨n, listed, answered⟩
    exact ⟨d, n, listed, rfl, answered⟩

theorem allStopped_askAll_iff {shutdown : Nat → DaemonRecord → Except EngineError Response}
    {alive : List DaemonRecord} :
    allStopped (askAll shutdown alive) = true ↔
      ¬ ∃ n d e, alive[n]? = some d ∧ shutdown n d = .error e := by
  simp only [allStopped, List.all_eq_true, Prod.forall, mem_askAll]
  constructor
  · rintro stopped ⟨n, d, e, listed, failed⟩
    have answered := stopped d _ ⟨n, listed, rfl⟩
    simp [failed, Except.toBool] at answered
  · rintro none_failed d answer ⟨n, listed, rfl⟩
    cases answered : shutdown n d with
    | ok response => rfl
    | error e => exact absurd ⟨n, d, e, listed, answered⟩ none_failed

variable (json currentVersion entry visit) in
/-- An entry whose registry is read is removed unless a call fails; any other one stays. -/
theorem sweepEntry_cases :
    (∃ rf, Swept.Reads json currentVersion entry visit rf ∧
      (sweepEntry json currentVersion entry visit).asked
        = askAll visit.shutdown (pruneDead visit.moment rf).daemons ∧
      ((sweepEntry json currentVersion entry visit).left = none ↔
        allStopped (askAll visit.shutdown (pruneDead visit.moment rf).daemons) = true)) ∨
    (sweepEntry json currentVersion entry visit).left ≠ none ∧
      ∀ rf, ¬ Swept.Reads json currentVersion entry visit rf := by
  unfold sweepEntry
  by_cases current : entry.name = currentVersion
  · right
    rw [if_pos current]
    exact ⟨by simp, fun rf reads => reads.1 current⟩
  rw [if_neg current]
  cases dir : entry.isDir with
  | false =>
      right
      refine ⟨by simp, fun rf reads => ?_⟩
      simp [Swept.Reads, dir] at reads
  | true =>
      cases registry : entry.registryJson with
      | none =>
          right
          refine ⟨by simp, fun rf reads => ?_⟩
          simp [Swept.Reads, registry] at reads
      | some contents =>
          cases opened : visit.opening with
          | error e =>
              right
              refine ⟨by simp, fun rf reads => ?_⟩
              simp [Swept.Reads, opened] at reads
          | ok _ =>
              cases listed : visit.listing with
              | error e =>
                  right
                  refine ⟨by simp, fun rf reads => ?_⟩
                  simp [Swept.Reads, listed] at reads
              | ok _ =>
                  cases parsed : json.fromStr (seedIfEmpty contents) with
                  | error e =>
                      right
                      refine ⟨by simp [lockedUpdate, mutate, parsed], fun rf reads => ?_⟩
                      simp [Swept.Reads, registry, parsed] at reads
                  | ok rf =>
                      left
                      refine ⟨rf, ⟨current, dir, opened, listed, contents, registry, parsed⟩, ?_⟩
                      have updated : lockedUpdate json visit.moment
                          (fun daemons => (daemons, daemons)) (seedIfEmpty contents)
                          = (.ok (pruneDead visit.moment rf).daemons,
                            json.toVec (pruneDead visit.moment rf)) := mutate_ok parsed
                      simp only [updated, Bool.not_true, Bool.false_eq_true, if_false]
                      split
                      · next stopped => exact ⟨rfl, by simp [stopped]⟩
                      · next failed => exact ⟨rfl, by simp [failed]⟩

theorem Swept.Reads.unique {rf' : RegistryFile}
    (reads : Swept.Reads json currentVersion entry visit rf)
    (reads' : Swept.Reads json currentVersion entry visit rf') : rf = rf' := by
  rcases reads with ⟨-, -, -, -, contents, stored, parsed⟩
  rcases reads' with ⟨-, -, -, -, contents', stored', parsed'⟩
  cases stored.symm.trans stored'
  exact Except.ok.inj (parsed.symm.trans parsed')

/-- The daemons that are listed are the live ones with a recent heartbeat. -/
theorem mem_pruneDead {d : DaemonRecord} {moment : Moment} :
    d ∈ (pruneDead moment rf).daemons ↔
      d ∈ rf.daemons ∧ moment.pidAlive d.pid = true ∧ moment.now - d.lastHealthUnix ≤ 5 * 60 := by
  simp [pruneDead]

theorem removedSafely_iff :
    RemovedSafely json currentVersion (entry, visit) (sweepEntry json currentVersion entry visit) ↔
      ∀ rf, Swept.Reads json currentVersion entry visit rf → Settles visit rf := by
  rcases sweepEntry_cases json currentVersion entry visit with
    ⟨rf, reads, asked, removed⟩ | ⟨stays, not_read⟩
  · have only : (∀ rf, Swept.Reads json currentVersion entry visit rf → Settles visit rf) ↔
        Settles visit rf :=
      ⟨fun settles => settles rf reads, fun settles rf' reads' => reads.unique reads' ▸ settles⟩
    rw [only, RemovedSafely, removed, asked, allStopped_askAll_iff]
    constructor
    · intro safe
      by_cases failed : ∃ n d e, (pruneDead visit.moment rf).daemons[n]? = some d ∧
          visit.shutdown n d = .error e
      · exact .inl failed
      · right
        rcases safe failed with ⟨-, -, contents, rf', stored, parsed, acknowledged⟩
        cases reads.unique ⟨reads.1, reads.2.1, reads.2.2.1, reads.2.2.2.1, contents, stored, parsed⟩
        intro d d_mem alive
        rcases acknowledged d d_mem alive with ⟨response, answered, no_error⟩
        rcases mem_askAll.1 answered with ⟨n, listed, answered⟩
        exact ⟨(mem_pruneDead.1 (List.mem_of_getElem? listed)).2.2, n, response, listed, answered,
          no_error⟩
    · intro settles none_failed
      rcases reads with ⟨other, dir, -, -, contents, stored, parsed⟩
      refine ⟨other, dir, contents, rf, stored, parsed, fun d d_mem alive => ?_⟩
      rcases settles with failed | answered
      · exact absurd failed none_failed
      · rcases answered d d_mem alive with ⟨-, n, response, listed, answer, no_error⟩
        exact ⟨response, mem_askAll.2 ⟨n, listed, answer⟩, no_error⟩
  · simp [RemovedSafely, stays, not_read]

end OneEntry

/-- Every directory that goes is removed safely exactly when the calls to its daemons settle each
registry that the sweep reads. -/
theorem sweepStaleVersions_safe_iff (json : Json) (currentVersion : String)
    (entries : List (DirEntry × Visit)) :
    List.Forall₂ (RemovedSafely json currentVersion) entries
        (sweepStaleVersions json currentVersion entries) ↔
      ∀ entry ∈ entries, ∀ rf, Swept.Reads json currentVersion entry.1 entry.2 rf →
        Settles entry.2 rf := by
  rw [sweepStaleVersions, List.forall₂_map_right_iff, List.forall₂_same]
  exact forall₂_congr fun entry _ => removedSafely_iff

/-- A daemon of another version that was suspended: alive, with an old heartbeat. -/
def suspended : DaemonRecord :=
    ⟨7, "/tmp/ohara-7.sock", "0.7.3", none, 0, 0⟩

/-- A version with a daemon that does not answer. -/
def suspendedEntry : DirEntry :=
    ⟨"0.7.3", true, some (compactJson.toVec ⟨[suspended]⟩)⟩

/-- What the sweep finds there once the heartbeat is too old. -/
def afterSuspension : Visit where
  opening := .ok ()
  listing := .ok ()
  moment := ⟨1000, fun _ => true⟩
  shutdown _ _ := .ok ⟨none⟩

/-- The daemon is not asked and its directory is removed. -/
theorem not_removedSafely_suspended :
    ¬ List.Forall₂ (RemovedSafely compactJson "0.7.4") [(suspendedEntry, afterSuspension)]
        (sweepStaleVersions compactJson "0.7.4" [(suspendedEntry, afterSuspension)]) := by
  intro safe
  have reads : Swept.Reads compactJson "0.7.4" suspendedEntry afterSuspension ⟨[suspended]⟩ := by
    have written := compactJson.fromStr_toVec ⟨[suspended]⟩
    exact ⟨by decide, rfl, rfl, rfl, _, rfl, (seedIfEmpty_of_fromStr written).symm ▸ written⟩
  have settles := removedSafely_iff.1 (List.forall₂_cons.1 safe).1 _ reads
  rcases settles with ⟨n, d, e, -, failed⟩ | recent
  · cases failed
  · exact absurd (recent suspended List.mem_cons_self rfl).1 (by decide)

end Registry

end Ohara
