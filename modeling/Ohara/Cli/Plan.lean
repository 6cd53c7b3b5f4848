import Ohara.Library.Markers
import Ohara.Storage.MatchQuery

/-!
# The ignore file of a plan

The generated section of `.oharaignore` is fenced by two markers and followed by a hint for the
user. Merging cuts out what is up to the end of the line of the end marker, so the hint of the old
section stays while the new section brings its own: the file grows with every merge.
-/

namespace Ohara

open Markers

/-- How the marker before the generated lines begins. -/
def markerBeginPrefix : List Char := "# === ohara plan v".toList

/-- The marker after the generated lines. -/
def markerEnd : List Char := "# === end auto-generated ===".toList

/-- What the rendered section says below its end marker. -/
def userHint : List Char :=
    "# user-added lines below this marker are preserved across `ohara plan` re-runs ".toList ++
      "(use --replace to overwrite the entire file)\n".toList

/-- What the rendered section says between its markers. -/
def generatedLines (patterns : List String) (version timestamp : String) : List Char :=
    version.toList ++ " — auto-generated ".toList ++ timestamp.toList ++ " ===\n".toList
      ++ patterns.flatMap fun pattern => pattern.toList ++ ['\n']

/-- The generated section, with its hint for the user. -/
def renderOharaignoreBody (patterns : List String) (version timestamp : String) : List Char :=
    markerBeginPrefix ++ generatedLines patterns version timestamp ++ markerEnd
      ++ '\n' :: '\n' :: userHint

/-- What is after the first line feed; everything when there is none. -/
def afterMarkerLine (text : List Char) : List Char :=
    match text.dropInfix? ['\n'] with
    | some (_, next) => next
    | none => text

/-- The file with its generated section replaced, or put in front of what the user wrote. -/
def mergeOharaignore (existing newSection : List Char) : Except String (List Char) :=
    if (trim existing).isEmpty then .ok newSection
    else
      match existing.dropInfix? markerBeginPrefix with
      | none =>
          .error ("existing .oharaignore has content but no auto-generated markers; " ++
            "pass --replace to overwrite or delete the file and re-run")
      | some (before, after) =>
          match (markerBeginPrefix ++ after).dropInfix? markerEnd with
          | none =>
              .error "existing .oharaignore has begin marker but no end marker; refusing to merge"
          | some (_, rest) => .ok (before ++ newSection ++ afterMarkerLine rest)

/-- Merging the same section a number of times. -/
def mergeTimes (newSection : List Char) : Nat → List Char → Except String (List Char)
  | 0, text => .ok text
  | n + 1, text => do
      let merged ← mergeOharaignore text newSection
      mergeTimes newSection n merged

/-- A file with a marked block: no begin marker before it, and no end marker inside. -/
structure MarkedFile where
  before : List Char
  inside : List Char
  after : List Char
  unmarked : ¬ markerBeginPrefix <:+: before
  single : ¬ markerEnd <:+: inside

namespace MarkedFile

/-- The file as it is read. -/
def text (file : MarkedFile) : List Char :=
    file.before ++ markerBeginPrefix ++ file.inside ++ markerEnd ++ file.after

end MarkedFile

/-- Merging keeps what is before and after the block, the text has the new section for its only
block, and merging the section once more changes nothing. -/
def MergesStably (file : MarkedFile) (newSection : List Char) : Prop :=
    ∃ merged, mergeOharaignore file.text newSection = .ok merged ∧
      file.before <+: merged ∧ file.after <:+ merged ∧
      (∃ before after, merged = before ++ newSection ++ after ∧
        ¬ markerBeginPrefix <:+: before ∧ ¬ markerBeginPrefix <:+: after) ∧
      mergeOharaignore merged newSection = .ok merged

/-! ## One merge -/

theorem solid_markerBeginPrefix : Solid markerBeginPrefix := by
  decide +kernel

theorem solid_markerEnd : Solid markerEnd := by
  decide +kernel

theorem apart_markers : Apart markerEnd markerBeginPrefix := by
  decide +kernel

theorem trim_ne_nil_of_mem {c : Char} {text : List Char} (visible : isWhitespace c = false)
    (c_mem : c ∈ text) : trim text ≠ [] := by
  intro blank
  rw [trim, List.rdropWhile_eq_nil_iff] at blank
  rw [← List.takeWhile_append_dropWhile (p := isWhitespace) (l := text), List.mem_append] at c_mem
  rcases c_mem with c_mem | c_mem
  · have taken := List.mem_takeWhile_imp c_mem
    simp [visible] at taken
  · have dropped := blank c c_mem
    simp [visible] at dropped

theorem mergeOharaignore_marked {before inside after : List Char} (newSection : List Char)
    (unmarked : ¬ markerBeginPrefix <:+: before)
    (single : ¬ markerEnd <:+: markerBeginPrefix ++ inside) :
    mergeOharaignore (before ++ markerBeginPrefix ++ inside ++ markerEnd ++ after) newSection
      = .ok (before ++ newSection ++ afterMarkerLine after) := by
  have visible : trim (before ++ markerBeginPrefix ++ inside ++ markerEnd ++ after) ≠ [] := by
    have hash_mem : '#' ∈ markerEnd := by decide +kernel
    exact trim_ne_nil_of_mem (c := '#') (by decide +kernel) (by simp [hash_mem])
  have begins : (before ++ markerBeginPrefix ++ inside ++ markerEnd ++ after).dropInfix?
      markerBeginPrefix = some (before, inside ++ markerEnd ++ after) :=
    (dropInfix?_eq_some_iff_absent solid_markerBeginPrefix).2
      ⟨by simp only [List.append_assoc], unmarked⟩
  have ends : (markerBeginPrefix ++ (inside ++ markerEnd ++ after)).dropInfix? markerEnd
      = some (markerBeginPrefix ++ inside, after) :=
    (dropInfix?_eq_some_iff_absent solid_markerEnd).2 ⟨by simp only [List.append_assoc], single⟩
  rw [mergeOharaignore, if_neg (by simpa using visible), begins]
  simp only [ends]

theorem MarkedFile.merge (file : MarkedFile) (newSection : List Char) :
    mergeOharaignore file.text newSection
      = .ok (file.before ++ newSection ++ afterMarkerLine file.after) :=
  mergeOharaignore_marked newSection file.unmarked
    fun occurs => file.single (apart_markers.infix_of_append occurs)

/-! ## Merging again -/

theorem afterMarkerLine_of_lineFeed {line next : List Char} (more : List Char)
    (first : '\n' ∉ line) : afterMarkerLine (line ++ '\n' :: next ++ more) = next ++ more := by
  have solid : Solid ['\n'] := List.not_mem_nil
  have cut : (line ++ '\n' :: next ++ more).dropInfix? ['\n'] = some (line, next ++ more) :=
    (dropInfix?_eq_some_iff_absent solid).2
      ⟨by simp, by simpa [List.singleton_infix_iff] using first⟩
  rw [afterMarkerLine, cut]

/-- Where the first end marker of a rendered section is, and what is below its line. -/
theorem exists_below_markerEnd (patterns : List String) (version timestamp : String) :
    ∃ inside line below,
      renderOharaignoreBody patterns version timestamp
        = markerBeginPrefix ++ inside ++ markerEnd ++ (line ++ '\n' :: below) ∧
      ¬ markerEnd <:+: markerBeginPrefix ++ inside ∧ '\n' ∉ line ∧ below ≠ [] := by
  have lineFeed_solid : Solid ['\n'] := List.not_mem_nil
  rcases exists_first_occurrence solid_markerEnd (generatedLines patterns version timestamp) with
    ⟨inside, overlap, first_end, single⟩
  rcases exists_first_occurrence lineFeed_solid overlap with ⟨line, more, first_feed, no_feed⟩
  refine ⟨inside, line, more ++ '\n' :: userHint, ?_, ?_, ?_, by simp⟩
  · calc renderOharaignoreBody patterns version timestamp
      _ = markerBeginPrefix ++ (generatedLines patterns version timestamp ++ markerEnd)
            ++ '\n' :: '\n' :: userHint := by
          simp only [renderOharaignoreBody, List.append_assoc]
      _ = markerBeginPrefix ++ inside ++ markerEnd ++ (overlap ++ ['\n'] ++ '\n' :: userHint) := by
          simp only [first_end, List.append_assoc, List.singleton_append]
      _ = markerBeginPrefix ++ inside ++ markerEnd
            ++ (line ++ '\n' :: (more ++ '\n' :: userHint)) := by
          simp only [first_feed, List.append_assoc, List.cons_append, List.nil_append]
  · exact fun occurs => single (apart_markers.infix_of_append occurs)
  · exact fun mem => no_feed ((List.singleton_infix_iff '\n' line).2 mem)

/-- Every further merge adds once more what a section says below its end marker. -/
theorem mergeTimes_grows (patterns : List String) (version timestamp : String) :
    ∃ below, below ≠ [] ∧ ∀ (before after : List Char), ¬ markerBeginPrefix <:+: before → ∀ n,
      mergeTimes (renderOharaignoreBody patterns version timestamp) n
          (before ++ renderOharaignoreBody patterns version timestamp ++ after)
        = .ok (before ++ renderOharaignoreBody patterns version timestamp
            ++ (List.replicate n below).flatten ++ after) := by
  rcases exists_below_markerEnd patterns version timestamp with
    ⟨inside, line, below, rendered, single, no_feed, below_ne_nil⟩
  refine ⟨below, below_ne_nil, fun before after unmarked n => ?_⟩
  generalize renderOharaignoreBody patterns version timestamp = newSection at rendered
  have once : ∀ rest, mergeOharaignore (before ++ newSection ++ rest) newSection
      = .ok (before ++ newSection ++ (below ++ rest)) := by
    intro rest
    have merged : mergeOharaignore (before ++ markerBeginPrefix ++ inside ++ markerEnd
        ++ (line ++ '\n' :: below ++ rest)) newSection = _ :=
      mergeOharaignore_marked newSection unmarked single
    rw [afterMarkerLine_of_lineFeed rest no_feed] at merged
    rw [← merged, rendered]
    simp only [List.append_assoc]
  induction n generalizing after with
  | zero => simp [mergeTimes]
  | succ n ih =>
      rw [mergeTimes, once after]
      refine (ih (below ++ after)).trans ?_
      rw [List.replicate_succ', List.flatten_append, List.flatten_singleton]
      simp only [List.append_assoc]

theorem mergeOharaignore_changes (patterns : List String) (version timestamp : String)
    {before : List Char} (after : List Char) (unmarked : ¬ markerBeginPrefix <:+: before) :
    mergeOharaignore (before ++ renderOharaignoreBody patterns version timestamp ++ after)
        (renderOharaignoreBody patterns version timestamp)
      ≠ .ok (before ++ renderOharaignoreBody patterns version timestamp ++ after) := by
  rcases mergeTimes_grows patterns version timestamp with ⟨below, below_ne_nil, grows⟩
  intro unchanged
  have grown := grows before after unmarked 1
  rw [mergeTimes, unchanged] at grown
  have length_eq := congrArg List.length (Except.ok.inj grown)
  have below_pos := List.length_pos_iff.2 below_ne_nil
  simp only [List.replicate_one, List.flatten_singleton, List.length_append] at length_eq
  omega

/-- A second merge changes every file with a generated section. -/
theorem not_mergesStably (file : MarkedFile) (patterns : List String) (version timestamp : String) :
    ¬ MergesStably file (renderOharaignoreBody patterns version timestamp) := by
  rintro ⟨merged, first, -, -, -, second⟩
  rw [file.merge] at first
  cases first
  exact mergeOharaignore_changes patterns version timestamp _ file.unmarked second

/-- A file as the first run writes it, with a line of the user's below. -/
def writtenFile : MarkedFile where
  before := []
  inside := "0.7.7 — auto-generated 2024-01-01T00:00:00Z ===\nvendor/\n".toList
  after := '\n' :: '\n' :: userHint ++ "dist/\n".toList
  unmarked := by decide +kernel
  single := by decide +kernel

theorem not_mergesStably_writtenFile :
    ¬ MergesStably writtenFile
        (renderOharaignoreBody ["vendor/"] "0.7.7" "2024-01-02T00:00:00Z") := by
  rintro ⟨merged, first, -, -, -, second⟩
  rw [writtenFile.merge] at first
  cases first
  exact mergeOharaignore_changes ["vendor/"] "0.7.7" "2024-01-02T00:00:00Z" _
    writtenFile.unmarked second

end Ohara
