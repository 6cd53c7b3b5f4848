import Ohara.Index.Stages
import Ohara.Parse.Extract

/-!
# From the callbacks of the diff printer to hunks

`diff.print` calls back once for each printed line with the delta the line is of. The fold keeps
the hunk that is being written and starts a new one where the path changes, and a line that is not
UTF-8 adds its origin character alone. How a path that is not UTF-8 is shown is a parameter.
-/

namespace Ohara

/-- `git2::Delta`. -/
inductive DeltaStatus where
  | unmodified
  | added
  | deleted
  | modified
  | renamed
  | copied
  | ignored
  | untracked
  | typechange
  | unreadable
  | conflicted
deriving DecidableEq, Repr

/-- What git says of a changed file. -/
structure DiffDelta where
  status : DeltaStatus
  newFile : Option (List UInt8)
  oldFile : Option (List UInt8)
deriving DecidableEq, Repr

/-- A line that git prints. -/
structure DiffLine where
  /-- `+`, `-` and a blank before content lines; `F`, `H`, `B`, `=`, `>` and `<` elsewhere. -/
  origin : Char
  content : ByteArray

/-- A delta with the lines printed for it. -/
abbrev PrintedDelta := DiffDelta × List DiffLine

namespace GitDiff

/-- The kind of change that is stored. -/
def changeKind (delta : DiffDelta) : ChangeKind :=
    match delta.status with
    | .added => .added
    | .deleted => .deleted
    | .renamed => .renamed
    | _ => .modified

/-- The character put before the content. -/
def linePrefix (line : DiffLine) : String :=
    if line.origin ∈ ['+', '-', ' '] then String.singleton line.origin else ""

/-- What one line adds to the buffer. -/
def renderLine (line : DiffLine) : String :=
    linePrefix line ++ (String.fromUTF8? line.content).getD ""

/-- The variables the callback closes over. -/
structure Grouping where
  hunks : List Hunk
  current : Option (String × ChangeKind)
  buf : String
deriving DecidableEq, Repr

variable (toStringLossy : List UInt8 → String) (sha : String)

/-- The new path, or the old one of a file that is gone. -/
def deltaPath (delta : DiffDelta) : String :=
    ((delta.newFile.or delta.oldFile).map toStringLossy).getD ""

/-- The callback of `diff.print`: a line of another path starts another hunk. -/
def onLine (g : Grouping) (callback : DiffDelta × DiffLine) : Grouping :=
    let path := deltaPath toStringLossy callback.1
    let kind := changeKind callback.1
    let turned : Grouping :=
      match g.current with
      | some (p, k) =>
          if p ≠ path then
            { hunks := g.hunks ++ [makeHunk sha p k g.buf], current := some (path, kind), buf := "" }
          else g
      | none => { g with current := some (path, kind) }
    { turned with buf := turned.buf ++ renderLine callback.2 }

/-- The hunk still being written at the end. -/
def finish (g : Grouping) : List Hunk :=
    match g.current with
    | some (p, k) => g.hunks ++ [makeHunk sha p k g.buf]
    | none => g.hunks

/-- `hunks_for_commit`, from the printer's callbacks on. -/
def hunksForCommit (callbacks : List (DiffDelta × DiffLine)) : List Hunk :=
    finish sha (callbacks.foldl (onLine toStringLossy sha) ⟨[], none, ""⟩)

/-- The callbacks for a list of deltas. -/
def callbacks (deltas : List PrintedDelta) : List (DiffDelta × DiffLine) :=
    deltas.flatMap fun delta => delta.2.map fun line => (delta.1, line)

/-- The deltas that have lines. -/
def printed (deltas : List PrintedDelta) : List PrintedDelta :=
    deltas.filter fun delta => !delta.2.isEmpty

/-! ## What a hunk should hold -/

/-- The bytes of a printed line. -/
def lineBytes (line : DiffLine) : ByteArray :=
    (linePrefix line).toByteArray ++ line.content

/-- The bytes of the printed lines. -/
def textBytes (lines : List DiffLine) : ByteArray :=
    lines.foldr (fun line rest => lineBytes line ++ rest) ByteArray.empty

/-- The hunk is what a printed file becomes. -/
structure HunkOf (delta : PrintedDelta) (hunk : Hunk) : Prop where
  commitSha : hunk.commitSha = sha
  filePath : hunk.filePath = deltaPath toStringLossy delta.1
  language : hunk.language = detectLanguage (deltaPath toStringLossy delta.1)
  changeKind : hunk.changeKind = changeKind delta.1
  text : hunk.diffText.toByteArray = textBytes delta.2

/-- One hunk for each delta that has lines, in order, with all its bytes. -/
def Lossless (deltas : List PrintedDelta) : Prop :=
    List.Forall₂ (HunkOf toStringLossy sha) (printed deltas)
      (hunksForCommit toStringLossy sha (callbacks deltas))

/-! ## The text of the lines -/

/-- The text of the printed lines. -/
def linesText (lines : List DiffLine) : String :=
    lines.foldr (fun line rest => renderLine line ++ rest) ""

theorem renderLine_bytes {line : DiffLine} (valid : line.content.IsValidUTF8) :
    (renderLine line).toByteArray = lineBytes line := by
  rw [renderLine, String.fromUTF8?, dif_pos valid, Option.getD_some, String.toByteArray_append]
  rfl

theorem renderLine_size_lt {line : DiffLine} (invalid : ¬line.content.IsValidUTF8) :
    (renderLine line).toByteArray.size < (lineBytes line).size := by
  have some_byte : line.content.size ≠ 0 := by
    intro empty
    apply invalid
    rw [ByteArray.size_eq_zero_iff.1 empty]
    exact ByteArray.isValidUTF8_empty
  rw [renderLine, String.fromUTF8?, dif_neg invalid, Option.getD_none, String.append_empty,
    lineBytes, ByteArray.size_append]
  omega

theorem renderLine_size_le (line : DiffLine) :
    (renderLine line).toByteArray.size ≤ (lineBytes line).size := by
  by_cases valid : line.content.IsValidUTF8
  · rw [renderLine_bytes valid]
  · exact (renderLine_size_lt valid).le

theorem linesText_size_le (lines : List DiffLine) :
    (linesText lines).toByteArray.size ≤ (textBytes lines).size := by
  induction lines with
  | nil => exact Nat.le_refl 0
  | cons line rest ih =>
      have first := renderLine_size_le line
      simp only [linesText, textBytes, List.foldr_cons, String.toByteArray_append,
        ByteArray.size_append] at ih ⊢
      omega

theorem linesText_bytes_iff (lines : List DiffLine) :
    (linesText lines).toByteArray = textBytes lines ↔
      ∀ line ∈ lines, line.content.IsValidUTF8 := by
  induction lines with
  | nil => simp [linesText, textBytes]
  | cons line rest ih =>
      have first := renderLine_size_le line
      have others := linesText_size_le rest
      rw [List.forall_mem_cons, ← ih]
      simp only [linesText, textBytes, List.foldr_cons, String.toByteArray_append] at others ⊢
      constructor
      · intro same
        have sizes := congrArg ByteArray.size same
        rw [ByteArray.size_append, ByteArray.size_append] at sizes
        have valid : line.content.IsValidUTF8 := by
          by_contra invalid
          have lost := renderLine_size_lt invalid
          omega
        rw [renderLine_bytes valid] at same
        exact ⟨valid, (ByteArray.append_right_inj _).1 same⟩
      · rintro ⟨valid, same⟩
        rw [renderLine_bytes valid, same]

/-! ## The fold by deltas -/

section Fold

variable {toStringLossy : List UInt8 → String} {sha : String}

/-- The lines of a delta whose path is the current one go to the buffer. -/
theorem foldl_same_path (delta : DiffDelta) (lines : List DiffLine) (g : Grouping)
    {kind : ChangeKind} (current : g.current = some (deltaPath toStringLossy delta, kind)) :
    (lines.map fun line => (delta, line)).foldl (onLine toStringLossy sha) g =
      { g with buf := g.buf ++ linesText lines } := by
  induction lines generalizing g with
  | nil => simp [linesText]
  | cons line rest ih =>
      have step : onLine toStringLossy sha g (delta, line) =
          { g with buf := g.buf ++ renderLine line } := by
        simp [onLine, current]
      rw [List.map_cons, List.foldl_cons, step,
        ih { g with buf := g.buf ++ renderLine line } current]
      simp [linesText, String.append_assoc]

/-- A delta with another path closes the current hunk and opens its own. -/
theorem foldl_delta (delta : PrintedDelta) (some_line : delta.2 ≠ []) (hunks : List Hunk)
    (path : String) (kind : ChangeKind) (buf : String) :
    (delta.2.map fun line => (delta.1, line)).foldl (onLine toStringLossy sha)
        ⟨hunks, some (path, kind), buf⟩ =
      if path = deltaPath toStringLossy delta.1 then
        ⟨hunks, some (path, kind), buf ++ linesText delta.2⟩
      else
        ⟨hunks ++ [makeHunk sha path kind buf],
          some (deltaPath toStringLossy delta.1, changeKind delta.1), linesText delta.2⟩ := by
  rcases delta with ⟨delta, lines⟩
  cases lines with
  | nil => exact absurd rfl some_line
  | cons line rest =>
      by_cases same : path = deltaPath toStringLossy delta
      · subst same
        simp only [if_true]
        exact foldl_same_path delta (line :: rest) _ rfl
      · have step : onLine toStringLossy sha ⟨hunks, some (path, kind), buf⟩ (delta, line) =
            ⟨hunks ++ [makeHunk sha path kind buf],
              some (deltaPath toStringLossy delta, changeKind delta), renderLine line⟩ := by
          simp [onLine, same]
        rw [List.map_cons, List.foldl_cons, step, foldl_same_path delta rest _ rfl, if_neg same]
        rfl

theorem foldl_first_delta (delta : PrintedDelta) (some_line : delta.2 ≠ []) :
    (delta.2.map fun line => (delta.1, line)).foldl (onLine toStringLossy sha) ⟨[], none, ""⟩ =
      ⟨[], some (deltaPath toStringLossy delta.1, changeKind delta.1), linesText delta.2⟩ := by
  rcases delta with ⟨delta, lines⟩
  cases lines with
  | nil => exact absurd rfl some_line
  | cons line rest =>
      have step : onLine toStringLossy sha ⟨[], none, ""⟩ (delta, line) =
          ⟨[], some (deltaPath toStringLossy delta, changeKind delta), renderLine line⟩ := by
        simp [onLine]
      rw [List.map_cons, List.foldl_cons, step, foldl_same_path delta rest _ rfl]
      rfl

variable (toStringLossy sha) in
/-- The hunks from an open one on: a delta with the open path is merged into it. -/
def merged (path : String) (kind : ChangeKind) (buf : String) : List PrintedDelta → List Hunk
  | [] => [makeHunk sha path kind buf]
  | delta :: rest =>
      if path = deltaPath toStringLossy delta.1 then
        merged path kind (buf ++ linesText delta.2) rest
      else
        makeHunk sha path kind buf ::
          merged (deltaPath toStringLossy delta.1) (changeKind delta.1) (linesText delta.2) rest

theorem finish_foldl (deltas : List PrintedDelta) (some_lines : ∀ delta ∈ deltas, delta.2 ≠ [])
    (hunks : List Hunk) (path : String) (kind : ChangeKind) (buf : String) :
    finish sha ((callbacks deltas).foldl (onLine toStringLossy sha)
        ⟨hunks, some (path, kind), buf⟩) =
      hunks ++ merged toStringLossy sha path kind buf deltas := by
  induction deltas generalizing hunks path kind buf with
  | nil => rfl
  | cons delta rest ih =>
      rw [List.forall_mem_cons] at some_lines
      rw [callbacks, List.flatMap_cons, List.foldl_append, foldl_delta delta some_lines.1,
        ← callbacks, merged]
      split
      · exact ih some_lines.2 _ _ _ _
      · rw [ih some_lines.2, List.append_assoc]
        rfl

theorem callbacks_printed (deltas : List PrintedDelta) :
    callbacks (printed deltas) = callbacks deltas := by
  induction deltas with
  | nil => rfl
  | cons delta rest ih =>
      rcases delta with ⟨delta, lines⟩
      cases lines with
      | nil => simpa [printed, callbacks] using ih
      | cons line lines => simpa [printed, callbacks] using ih

theorem hunksForCommit_eq (deltas : List PrintedDelta) :
    hunksForCommit toStringLossy sha (callbacks deltas) =
      match printed deltas with
      | [] => []
      | delta :: rest =>
          merged toStringLossy sha (deltaPath toStringLossy delta.1) (changeKind delta.1)
            (linesText delta.2) rest := by
  have some_lines : ∀ delta ∈ printed deltas, delta.2 ≠ [] := by
    simp [printed]
  rw [hunksForCommit, ← callbacks_printed]
  cases found : printed deltas with
  | nil => rfl
  | cons delta rest =>
      rw [found, List.forall_mem_cons] at some_lines
      rw [callbacks, List.flatMap_cons, List.foldl_append, foldl_first_delta delta some_lines.1,
        ← callbacks, finish_foldl rest some_lines.2]
      rfl

variable (toStringLossy sha) in
/-- The hunk of a delta on its own. -/
def ownHunk (delta : PrintedDelta) : Hunk :=
    makeHunk sha (deltaPath toStringLossy delta.1) (changeKind delta.1) (linesText delta.2)

theorem merged_of_chain {path : String} {deltas : List PrintedDelta}
    (chain : (path :: deltas.map fun delta => deltaPath toStringLossy delta.1).IsChain (· ≠ ·))
    (kind : ChangeKind) (buf : String) :
    merged toStringLossy sha path kind buf deltas =
      makeHunk sha path kind buf :: deltas.map (ownHunk toStringLossy sha) := by
  induction deltas generalizing path kind buf with
  | nil => rfl
  | cons delta rest ih =>
      rw [List.map_cons, List.isChain_cons_cons] at chain
      rw [merged, if_neg chain.1, ih chain.2, List.map_cons]
      rfl

variable (toStringLossy sha) in
theorem length_merged_le (path : String) (kind : ChangeKind) (buf : String)
    (deltas : List PrintedDelta) :
    (merged toStringLossy sha path kind buf deltas).length ≤ deltas.length + 1 := by
  induction deltas generalizing path kind buf with
  | nil => exact Nat.le_refl 1
  | cons delta rest ih =>
      rw [merged, List.length_cons]
      split
      · exact (ih _ _ _).trans (Nat.le_succ _)
      · exact Nat.succ_le_succ (ih _ _ _)

/-- Two neighbours with one path cost a hunk. -/
theorem chain_of_length_merged {path : String} {kind : ChangeKind} {buf : String}
    {deltas : List PrintedDelta}
    (all : deltas.length < (merged toStringLossy sha path kind buf deltas).length) :
    (path :: deltas.map fun delta => deltaPath toStringLossy delta.1).IsChain (· ≠ ·) := by
  induction deltas generalizing path kind buf with
  | nil => exact List.IsChain.singleton _
  | cons delta rest ih =>
      rw [merged, List.length_cons] at all
      rw [List.map_cons, List.isChain_cons_cons]
      split at all
      · have bound := length_merged_le toStringLossy sha path kind (buf ++ linesText delta.2) rest
        omega
      · next different =>
          rw [List.length_cons, Nat.succ_lt_succ_iff] at all
          exact ⟨different, ih all⟩

theorem hunkOf_ownHunk_iff (delta : PrintedDelta) :
    HunkOf toStringLossy sha delta (ownHunk toStringLossy sha delta) ↔
      ∀ line ∈ delta.2, line.content.IsValidUTF8 := by
  rw [← linesText_bytes_iff]
  constructor
  · intro hunk
    exact hunk.text
  · intro same
    exact ⟨rfl, rfl, rfl, rfl, same⟩

end Fold

/-- No hunk is lost, merged or cut exactly when neighbouring deltas with lines have different paths
and every line is UTF-8. -/
theorem hunks_lossless_iff (deltas : List PrintedDelta) :
    Lossless toStringLossy sha deltas ↔
      ((printed deltas).map fun delta => deltaPath toStringLossy delta.1).IsChain (· ≠ ·) ∧
        ∀ delta ∈ deltas, ∀ line ∈ delta.2, line.content.IsValidUTF8 := by
  have valid_iff : (∀ delta ∈ deltas, ∀ line ∈ delta.2, line.content.IsValidUTF8) ↔
      ∀ delta ∈ printed deltas, ∀ line ∈ delta.2, line.content.IsValidUTF8 := by
    constructor
    · intro valid delta delta_mem
      exact valid delta (List.mem_of_mem_filter delta_mem)
    · intro valid delta delta_mem line line_mem
      apply valid delta _ line line_mem
      rw [printed, List.mem_filter]
      cases lines : delta.2 with
      | nil => simp [lines] at line_mem
      | cons => exact ⟨delta_mem, rfl⟩
  have own_iff : ∀ ds : List PrintedDelta,
      List.Forall₂ (HunkOf toStringLossy sha) ds (ds.map (ownHunk toStringLossy sha)) ↔
        ∀ delta ∈ ds, ∀ line ∈ delta.2, line.content.IsValidUTF8 := by
    intro ds
    rw [List.forall₂_map_right_iff, List.forall₂_same]
    exact forall₂_congr fun delta _ => hunkOf_ownHunk_iff delta
  rw [valid_iff, ← own_iff, Lossless, hunksForCommit_eq]
  cases printed deltas with
  | nil => simp
  | cons delta rest =>
      constructor
      · intro lossless
        have lengths := lossless.length_eq
        have chain := chain_of_length_merged (by rw [← lengths]; exact Nat.lt_succ_self _)
        simp only [merged_of_chain chain] at lossless
        exact ⟨chain, lossless⟩
      · rintro ⟨chain, own⟩
        simp only [merged_of_chain chain]
        exact own

/-! ## The source the indexer reads -/

theorem onLine_hunks {g : Grouping} {callback : DiffDelta × DiffLine}
    (made : ∀ hunk ∈ g.hunks, ∃ path kind text, hunk = makeHunk sha path kind text) :
    ∀ hunk ∈ (onLine toStringLossy sha g callback).hunks,
      ∃ path kind text, hunk = makeHunk sha path kind text := by
  rcases g with ⟨hunks, current, buf⟩
  rcases current with _ | ⟨path, kind⟩
  · exact made
  · simp only [onLine]
    split
    · intro hunk hunk_mem
      rcases List.mem_append.1 hunk_mem with before | closed
      · exact made hunk before
      · exact ⟨path, kind, buf, List.mem_singleton.1 closed⟩
    · exact made

theorem hunksForCommit_made (callbacks : List (DiffDelta × DiffLine)) :
    ∀ hunk ∈ hunksForCommit toStringLossy sha callbacks,
      ∃ path kind text, hunk = makeHunk sha path kind text := by
  have folded : ∀ (callbacks : List (DiffDelta × DiffLine)) (g : Grouping),
      (∀ hunk ∈ g.hunks, ∃ path kind text, hunk = makeHunk sha path kind text) →
      ∀ hunk ∈ (callbacks.foldl (onLine toStringLossy sha) g).hunks,
        ∃ path kind text, hunk = makeHunk sha path kind text := by
    intro callbacks
    induction callbacks with
    | nil => exact fun g made => made
    | cons callback rest ih => exact fun g made => ih _ (onLine_hunks toStringLossy sha made)
  have made := folded callbacks ⟨[], none, ""⟩ (by simp)
  rw [hunksForCommit, finish]
  split
  · next path kind _ =>
      intro hunk hunk_mem
      rcases List.mem_append.1 hunk_mem with before | last
      · exact made hunk before
      · exact ⟨path, kind, _, List.mem_singleton.1 last⟩
  · exact made

/-- A repository whose diffs are printed, as the indexer's source of commits. -/
def commitSource (print : String → Except OhraError (List (DiffDelta × DiffLine)))
    (fileAtCommit : String → String → Except OhraError (Option String)) : CommitSource where
  hunksForCommit sha := do
    let callbacks ← print sha
    return hunksForCommit toStringLossy sha callbacks
  fileAtCommit := fileAtCommit
  detectLanguage := detectLanguage
  hunk_sha sha hunks returned hunk hunk_mem := by
    rcases Fallible.bind_eq_ok.1 returned with ⟨callbacks, _, ⟨⟩⟩
    rcases hunksForCommit_made toStringLossy sha callbacks hunk hunk_mem with ⟨_, _, _, rfl⟩
    rfl
  hunk_language sha hunks returned hunk hunk_mem := by
    rcases Fallible.bind_eq_ok.1 returned with ⟨callbacks, _, ⟨⟩⟩
    rcases hunksForCommit_made toStringLossy sha callbacks hunk hunk_mem with ⟨_, _, _, rfl⟩
    rfl

/-- A path of ASCII characters as it is shown. -/
def asciiPath (path : List UInt8) : String :=
    String.ofList (path.map fun byte => Char.ofNat byte.toNat)

/-- A file that becomes a link: the deletion and the addition of one path. -/
def typeChange : List PrintedDelta :=
    [(⟨.deleted, some [97], some [97]⟩, [⟨'-', "f\n".toByteArray⟩]),
      (⟨.added, some [97], some [97]⟩, [⟨'+', "g\n".toByteArray⟩])]

/-- The two deltas become one hunk. -/
theorem not_lossless_typeChange : ¬Lossless asciiPath "c" typeChange := by
  intro lossless
  have lengths := lossless.length_eq
  simp [printed, typeChange, hunksForCommit, callbacks, onLine, finish, deltaPath] at lengths

end GitDiff

end Ohara
