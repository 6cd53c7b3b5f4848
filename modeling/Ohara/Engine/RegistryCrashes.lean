import Ohara.Engine.RegistryRuns

/-!
# Updates that stop half way

An update truncates the registry file and writes it anew. When it stops in between, the next
`open` takes an empty file for a new one, and nobody can read a file that was written in part.
-/

namespace Ohara

namespace Registry

/-- An update of the registry, with what it takes from outside the file. -/
inductive Update where
  | register (rec : DaemonRecord)
  | unregister (pid : Nat)
  | touchHealth (pid now : Nat)
  | listAlive (moment : Moment)
  | lockedUpdate (moment : Moment) (f : List DaemonRecord → List DaemonRecord)

/-- The registry as the update intends it. -/
def Update.apply (rf : RegistryFile) : Update → RegistryFile
  | .register rec => registerRecord rec rf
  | .unregister pid => unregisterPid pid rf
  | .touchHealth pid now => Registry.touchHealth pid now rf
  | .listAlive moment => (pruneThen moment (fun daemons => (daemons, daemons)) rf).1
  | .lockedUpdate moment f => (pruneThen moment (fun daemons => (f daemons, ())) rf).1

/-- The pieces in which `write_all` writes the text. -/
structure WriteAll (serialised : Bytes) (chunks : List Bytes) : Prop where
  flatten : chunks.flatten = serialised
  nonempty : ∀ chunk ∈ chunks, chunk ≠ []

/-- The file after an update that stopped after `n` file operations. -/
def stoppedAfter (contents : Bytes) (chunks : List Bytes) (n : Nat) : Bytes :=
    ((OpenFile.afterRead contents).applyAll ((rewrite chunks).take n)).contents

/-- What a later `open` and `list` see. -/
def readBack (json : Json) (contents : Bytes) : Except RegistryError (List DaemonRecord) :=
    (withLocked json RegistryFile.daemons (seedIfEmpty contents)).1

/-- The registry is seen as it was before the update, or as the update intends it. -/
def OldOrNew (json : Json) (rf : RegistryFile) (update : Update) (contents : Bytes) : Prop :=
    readBack json contents = .ok rf.daemons ∨
      readBack json contents = .ok (update.apply rf).daemons

variable {json : Json} {contents : Bytes} {chunks : List Bytes} {rf : RegistryFile}

/-! ## The file after a part of the operations -/

theorem applyAll_writes (file : OpenFile) (at_end : file.cursor = file.contents.length)
    (chunks : List Bytes) :
    (file.applyAll (chunks.map FileOp.write)).contents = file.contents ++ chunks.flatten := by
  induction chunks generalizing file with
  | nil => simp [OpenFile.applyAll]
  | cons chunk chunks ih =>
      have written : file.write chunk =
          ⟨file.contents ++ chunk, file.contents.length + chunk.length⟩ := by
        simp [OpenFile.write, at_end]
      have rest := ih (file.write chunk) (by simp [written])
      rw [List.map_cons, List.flatten_cons, ← List.append_assoc]
      calc (file.applyAll (FileOp.write chunk :: chunks.map FileOp.write)).contents
          = ((file.write chunk).applyAll (chunks.map FileOp.write)).contents := rfl
        _ = file.contents ++ chunk ++ chunks.flatten := by rw [rest, written]

theorem stoppedAfter_zero : stoppedAfter contents chunks 0 = contents := rfl

theorem stoppedAfter_one : stoppedAfter contents chunks 1 = [] := rfl

/-- After the truncation, the file holds the pieces that were written. -/
theorem stoppedAfter_add_two (written : Nat) :
    stoppedAfter contents chunks (written + 2) = (chunks.take written).flatten := by
  have appended := applyAll_writes ⟨[], 0⟩ rfl (chunks.take written)
  rw [List.nil_append, List.map_take] at appended
  rw [← appended]
  rfl

theorem flatten_take {serialised : Bytes} (writes : WriteAll serialised chunks) (written : Nat) :
    (chunks.take written).flatten = serialised.take (chunks.take written).flatten.length ∧
      (written < chunks.length → (chunks.take written).flatten.length < serialised.length) := by
  have whole : (chunks.take written).flatten ++ (chunks.drop written).flatten = serialised := by
    rw [← List.flatten_append, List.take_append_drop, writes.flatten]
  refine ⟨?_, fun missing => ?_⟩
  · rw [← whole, List.take_left]
  · have next_mem : chunks[written] ∈ chunks := List.getElem_mem missing
    have next_length := List.length_pos_iff.2 (writes.nonempty _ next_mem)
    rw [← whole, List.length_append, List.drop_eq_getElem_cons missing, List.flatten_cons,
      List.length_append]
    omega

theorem flatten_take_pos {serialised : Bytes} (writes : WriteAll serialised chunks)
    (some_chunk : chunks ≠ []) (written : Nat) :
    0 < (chunks.take (written + 1)).flatten.length := by
  cases chunks with
  | nil => exact absurd rfl some_chunk
  | cons chunk rest =>
      have first_length := List.length_pos_iff.2 (writes.nonempty chunk List.mem_cons_self)
      rw [List.take_succ_cons, List.flatten_cons, List.length_append]
      omega

/-! ## What is read back -/

theorem readBack_of_fromStr (parsed : json.fromStr contents = .ok rf) :
    readBack json contents = .ok rf.daemons := by
  rw [readBack, seedIfEmpty_of_fromStr parsed, withLocked, parsed]

theorem readBack_nil : readBack json [] = .ok [] := by
  rw [readBack, seedIfEmpty_nil, withLocked, fromStr_seed]

/-- A text that was written in part cannot be read. -/
theorem readBack_take {n : Nat} (some_written : 0 < n) (cut : n < (json.toVec rf).length) :
    ∃ e, readBack json ((json.toVec rf).take n) = .error e := by
  rcases json.fromStr_take rf n cut with ⟨e, unreadable⟩
  have not_empty : ¬ ((json.toVec rf).take n).length = 0 := by
    rw [List.length_take]
    omega
  exact ⟨e, by rw [readBack, seedIfEmpty, if_neg not_empty, withLocked, unreadable]⟩

theorem chunks_ne_nil (writes : WriteAll (json.toVec rf) chunks) : chunks ≠ [] := by
  rintro rfl
  rcases fromStr_nil json with ⟨e, unreadable⟩
  have parsed := json.fromStr_toVec rf
  rw [← writes.flatten, List.flatten_nil, unreadable] at parsed
  cases parsed

/-- An update leaves the old or the intended registry exactly when it stops before it truncates
the file or after it has written the whole text, or when it stops with the file empty and one of
the two registries is empty. -/
theorem oldOrNew_iff (json : Json) {contents : Bytes} {rf : RegistryFile}
    (parsed : json.fromStr contents = .ok rf) (update : Update) {chunks : List Bytes}
    (writes : WriteAll (json.toVec (update.apply rf)) chunks) (n : Nat) :
    OldOrNew json rf update (stoppedAfter contents chunks n) ↔
      n = 0 ∨ chunks.length + 2 ≤ n ∨
        (n ≤ 2 ∧ (rf.daemons = [] ∨ (update.apply rf).daemons = [])) := by
  have some_chunk := List.length_pos_iff.2 (chunks_ne_nil writes)
  -- with the file empty, the empty registry is read back
  have truncated : OldOrNew json rf update [] ↔
      rf.daemons = [] ∨ (update.apply rf).daemons = [] := by
    simp only [OldOrNew, readBack_nil, Except.ok.injEq]
    exact or_congr eq_comm eq_comm
  rcases n with _ | _ | written
  · simp [stoppedAfter_zero, OldOrNew, readBack_of_fromStr parsed]
  · have not_written : ¬ chunks.length + 2 ≤ 0 + 1 := by omega
    rw [Nat.zero_add, stoppedAfter_one, truncated]
    simp [not_written]
  · rw [stoppedAfter_add_two]
    rcases Nat.lt_or_ge written chunks.length with cut_off | complete
    · rcases written with _ | written
      · have not_written : ¬ chunks.length + 2 ≤ 0 + 1 + 1 := by omega
        rw [List.take_zero, List.flatten_nil, truncated]
        simp [not_written]
      · rcases flatten_take writes (written + 1) with ⟨text, shorter⟩
        rcases readBack_take (flatten_take_pos writes (chunks_ne_nil writes) written)
          (shorter cut_off) with ⟨e, unreadable⟩
        rw [← text] at unreadable
        simp only [OldOrNew, unreadable, reduceCtorEq, or_self, false_iff]
        rintro (untouched | complete | ⟨early, -⟩)
        · omega
        · omega
        · omega
    · have whole : OldOrNew json rf update (chunks.take written).flatten := by
        rw [List.take_of_length_le complete, writes.flatten]
        exact Or.inr (readBack_of_fromStr (json.fromStr_toVec _))
      refine iff_of_true whole (Or.inr (Or.inl ?_))
      omega

namespace OneDaemon

/-- A daemon that is registered. -/
def running : DaemonRecord := ⟨7, "/tmp/ohara-7.sock", "0.7.4", some "abc", 1, 1⟩

/-- A daemon about to be registered. -/
def starting : DaemonRecord := ⟨8, "/tmp/ohara-8.sock", "0.7.4", some "abc", 9, 9⟩

/-- The registry with the first one. -/
def registry : RegistryFile := ⟨[running]⟩

/-- The text with the new daemon, written in one piece. -/
def serialised : Bytes := compactJson.toVec ((Update.register starting).apply registry)

end OneDaemon

theorem oldOrNew_written :
    OldOrNew compactJson OneDaemon.registry (.register OneDaemon.starting)
      (stoppedAfter (compactJson.toVec OneDaemon.registry) [OneDaemon.serialised] 3) := by
  have nonempty : OneDaemon.serialised ≠ [] := List.cons_ne_nil 123 _
  have writes : WriteAll OneDaemon.serialised [OneDaemon.serialised] :=
    ⟨List.append_nil _, fun chunk chunk_mem => by rwa [List.mem_singleton.1 chunk_mem]⟩
  exact (oldOrNew_iff compactJson (compactJson.fromStr_toVec _) (.register OneDaemon.starting)
    writes 3).2 (Or.inr (Or.inl (Nat.le_refl 3)))

/-- Stopped after the truncation, the registration of one daemon makes the other vanish; stopped
after the first byte, it leaves a file nobody can read. -/
theorem registration_stops_half_way :
    ¬ OldOrNew compactJson OneDaemon.registry (.register OneDaemon.starting)
        (stoppedAfter (compactJson.toVec OneDaemon.registry) [OneDaemon.serialised] 1) ∧
      ∃ e, readBack compactJson (stoppedAfter (compactJson.toVec OneDaemon.registry)
        [OneDaemon.serialised.take 1, OneDaemon.serialised.drop 1] 3) = .error e := by
  constructor
  · rw [stoppedAfter_one, OldOrNew, readBack_nil]
    rintro (old | new)
    · exact absurd (Except.ok.inj old) (by decide)
    · exact absurd (Except.ok.inj new) (by decide)
  · have cut : 1 < OneDaemon.serialised.length := by decide +kernel
    rw [stoppedAfter_add_two]
    exact readBack_take Nat.one_pos cut

end Registry

end Ohara
