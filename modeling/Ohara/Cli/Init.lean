import Ohara.Library.Fallible
import Ohara.Library.Markers

/-!
# The managed block of `ohara init`

The post-commit hook and CLAUDE.md each hold a block between two markers. Whether the block is
replaced or appended is decided by looking for the two markers on their own, while the replacement
looks for an end marker after the first begin marker, so a begin marker without its end marker
leads to a failure, or to an appended block that the next installation merges with it.
-/

namespace Ohara

open Markers

/-- The markers of a managed block and what is between them. -/
structure Fence where
  beginMarker : List Char
  endMarker : List Char
  body : List Char
  solid_begin : Solid beginMarker
  solid_end : Solid endMarker
  apart : Apart endMarker beginMarker
  one_line_begin : '\n' ∉ beginMarker
  one_line_end : '\n' ∉ endMarker
  clean_begin : ¬ beginMarker <:+: body
  clean_end : ¬ endMarker <:+: body

namespace Fence

/-- What stands between the markers. -/
def inside (fence : Fence) : List Char :=
    '\n' :: fence.body ++ ['\n']

/-- The block with its markers. -/
def managed (fence : Fence) : List Char :=
    fence.beginMarker ++ fence.inside ++ fence.endMarker

end Fence

/-- The first line of the block in a hook. -/
def hookMarkerBegin : List Char := "# >>> ohara managed (do not edit) >>>".toList

/-- The last line of the block in a hook. -/
def hookMarkerEnd : List Char := "# <<< ohara managed <<<".toList

/-- The first line of the stanza in `CLAUDE.md`. -/
def claudeMarkerBegin : List Char := "<!-- ohara:start -->".toList

/-- The last line of the stanza in `CLAUDE.md`. -/
def claudeMarkerEnd : List Char := "<!-- ohara:end -->".toList

/-- The commands of the hook. -/
def hookBody : String :=
    "# Re-index this repo on every commit. Silently skipped if `ohara` is not on PATH.\n# Pinned to the CPU embedder on purpose: a per-commit incremental index is a\n# tiny batch (a handful of hunks), so it can't amortize CoreML's one-time ~30s\n# compile — CPU keeps `git commit` fast. `auto` still picks CoreML for larger\n# manual `ohara index` runs.\nif command -v ohara >/dev/null 2>&1; then\n  ( cd \"$(git rev-parse --show-toplevel)\" && ohara index --incremental --embed-provider cpu >/dev/null 2>&1 ) || true\nfi"

/-- The text of the stanza. -/
def claudeBody : String :=
    "## ohara\n\nThis repo is indexed by [ohara](https://github.com/vss96/ohara). Use the `find_pattern` MCP tool to ask \"how have we solved X before?\" — it returns ranked commits with diff excerpts and provenance.\n\n- Index updates automatically via the `post-commit` hook installed by `ohara init`.\n- Manual refresh: `ohara index --incremental`.\n- Status: `ohara status`."

/-! The markers do not occur in the bodies; the literals are spelled out before they are searched. -/

set_option maxRecDepth 4000 in
theorem clean_hookBody :
    ¬ hookMarkerBegin <:+: hookBody.toList ∧ ¬ hookMarkerEnd <:+: hookBody.toList := by
  rw [show hookBody.toList = _ from String.toList_ofList]
  decide +kernel

set_option maxRecDepth 4000 in
theorem clean_claudeBody :
    ¬ claudeMarkerBegin <:+: claudeBody.toList ∧ ¬ claudeMarkerEnd <:+: claudeBody.toList := by
  rw [show claudeBody.toList = _ from String.toList_ofList]
  decide +kernel

/-- The block of a hook. -/
def hookFence : Fence where
  beginMarker := hookMarkerBegin
  endMarker := hookMarkerEnd
  body := hookBody.toList
  solid_begin := by decide +kernel
  solid_end := by decide +kernel
  apart := by decide +kernel
  one_line_begin := by decide +kernel
  one_line_end := by decide +kernel
  clean_begin := clean_hookBody.1
  clean_end := clean_hookBody.2

/-- The stanza of `CLAUDE.md`. -/
def claudeFence : Fence where
  beginMarker := claudeMarkerBegin
  endMarker := claudeMarkerEnd
  body := claudeBody.toList
  solid_begin := by decide +kernel
  solid_end := by decide +kernel
  apart := by decide +kernel
  one_line_begin := by decide +kernel
  one_line_end := by decide +kernel
  clean_begin := clean_claudeBody.1
  clean_end := clean_claudeBody.2

/-! ## Installing -/

/-- The text with what stands from the first begin marker to the next end marker replaced. -/
def replaceBlock (existing beginMarker endMarker managed : List Char) : Option (List Char) := do
    let (before, after) ← existing.dropInfix? beginMarker
    let (_, rest) ← (beginMarker ++ after).dropInfix? endMarker
    return before ++ managed ++ rest

/-- The text with the block at its end, after an empty line. -/
def appendManagedBlock (existing managed : List Char) : List Char :=
    existing ++ (if existing.getLast? = some '\n' then [] else ['\n'])
      ++ '\n' :: managed ++ ['\n']

/-- A text that has both markers gets its block replaced, any other one a new block. -/
def newContents (fence : Fence) (failure : String) (existing : List Char) :
    Except String (List Char) :=
    if fence.beginMarker <:+: existing ∧ fence.endMarker <:+: existing then
      match replaceBlock existing fence.beginMarker fence.endMarker fence.managed with
      | some contents => .ok contents
      | none => .error failure
    else .ok (appendManagedBlock existing fence.managed)

/-- The text as it is written. -/
def textToBytes (text : List Char) : ByteArray :=
    (String.ofList text).toByteArray

/-- `fs::read_to_string` of a file that exists. -/
def readToString (path : String) (content : ByteArray) : Except String (List Char) :=
    match String.fromUTF8? content with
    | some text => .ok text.toList
    | none => .error s!"read {path}"

/-- What the two writers share: the text of a fresh file is the head and the block. -/
def writeManaged (fence : Fence) (head failure path : String) (force : Bool) :
    Option ByteArray → Except String ByteArray
  | none => .ok (textToBytes (head.toList ++ fence.managed ++ ['\n']))
  | some content =>
      if force then .ok (textToBytes (head.toList ++ fence.managed ++ ['\n']))
      else do
        let existing ← readToString path content
        let contents ← newContents fence failure existing
        return textToBytes contents

/-- The contents of a hook after `write_hook`. -/
def writeHook (path : String) (force : Bool) (existing : Option ByteArray) :
    Except String ByteArray :=
    writeManaged hookFence "#!/bin/sh\n" s!"failed to replace managed block in {path}" path force
      existing

/-- The contents of `CLAUDE.md` after `write_claude_md`. -/
def writeClaudeMd (path : String) (existing : Option ByteArray) : Except String ByteArray :=
    writeManaged claudeFence "" s!"failed to replace ohara stanza in {path}" path false existing

/-- The files that `ohara init` writes. -/
inductive ManagedFile where
  | hook
  | claudeMd
deriving DecidableEq, Repr

namespace ManagedFile

/-- The block of each file. -/
def fence : ManagedFile → Fence
  | .hook => hookFence
  | .claudeMd => claudeFence

/-- An installation without `--force`. -/
def install (file : ManagedFile) (path : String) (existing : Option ByteArray) :
    Except String ByteArray :=
    match file with
    | .hook => writeHook path false existing
    | .claudeMd => writeClaudeMd path existing

/-- A number of installations, one after the other. -/
def installs (file : ManagedFile) (path : String) : Nat → ByteArray → Except String ByteArray
  | 0, content => .ok content
  | n + 1, content => do
      let installed ← file.install path (some content)
      file.installs path n installed

end ManagedFile

/-! ## What installing should do -/

/-- One complete block was replaced, and the rest is as it was; or text was added at the end. -/
def KeepsText (fence : Fence) (existing installed : List Char) : Prop :=
    (∃ before inside after,
      existing = before ++ fence.beginMarker ++ inside ++ fence.endMarker ++ after ∧
      ¬ fence.beginMarker <:+: inside ∧ ¬ fence.endMarker <:+: inside ∧
      installed = before ++ fence.managed ++ after) ∨
    existing <+: installed

/-- Installing succeeds, keeps what is not in a managed block, puts the block into the file, and
from then on changes nothing. -/
def Conservative (file : ManagedFile) (path : String) (content : ByteArray) : Prop :=
    ∃ existing installed, content = textToBytes existing ∧
      file.install path (some content) = .ok (textToBytes installed) ∧
      KeepsText file.fence existing installed ∧ file.fence.managed <:+: installed ∧
      ∀ n, file.installs path n (textToBytes installed) = .ok (textToBytes installed)

/-- The first begin marker, if there is one, has an end marker before the next begin marker. -/
def Balanced (fence : Fence) (existing : List Char) : Prop :=
    ∀ before after, existing = before ++ fence.beginMarker ++ after →
      ¬ fence.beginMarker <:+: before →
      ∃ inside rest, after = inside ++ fence.endMarker ++ rest ∧ ¬ fence.beginMarker <:+: inside

/-! ## One installation -/

theorem infix_or_infix_of_lineFeeds {marker xs feeds ys : List Char} (one_line : '\n' ∉ marker)
    (feeds_ne_nil : feeds ≠ []) (all_feeds : ∀ c ∈ feeds, c = '\n')
    (occurs : marker <:+: xs ++ (feeds ++ ys)) : marker <:+: xs ∨ marker <:+: ys := by
  induction feeds generalizing xs with
  | nil => exact absurd rfl feeds_ne_nil
  | cons c feeds ih =>
      rw [List.forall_mem_cons] at all_feeds
      cases all_feeds.1
      rcases infix_or_infix_of_separator one_line occurs with in_xs | later
      · exact .inl in_xs
      · by_cases last : feeds = []
        · subst last
          exact .inr later
        · rcases @ih [] last all_feeds.2 later with in_nil | in_ys
          · exact .inl (in_nil.trans List.nil_infix)
          · exact .inr in_ys

theorem not_infix_append_lineFeeds {marker text feeds : List Char} (solid : Solid marker)
    (one_line : '\n' ∉ marker) (feeds_ne_nil : feeds ≠ []) (all_feeds : ∀ c ∈ feeds, c = '\n')
    (absent : ¬ marker <:+: text) : ¬ marker <:+: text ++ feeds := by
  intro occurs
  rw [← List.append_nil feeds] at occurs
  rcases infix_or_infix_of_lineFeeds one_line feeds_ne_nil all_feeds occurs with in_text | in_nil
  · exact absent in_text
  · exact solid.ne_nil (List.infix_nil.1 in_nil)

theorem not_infix_inside {fence : Fence} {marker : List Char} (solid : Solid marker)
    (one_line : '\n' ∉ marker) (clean : ¬ marker <:+: fence.body) : ¬ marker <:+: fence.inside := by
  intro occurs
  have split : marker <:+: [] ∨ marker <:+: fence.body ++ ['\n'] :=
    infix_or_infix_of_separator one_line occurs
  rcases split with in_nil | in_body
  · exact solid.ne_nil (List.infix_nil.1 in_nil)
  · exact not_infix_append_lineFeeds solid one_line (by simp) (by simp) clean in_body

theorem appendManagedBlock_eq (existing managed : List Char) :
    ∃ feeds, feeds ≠ [] ∧ (∀ c ∈ feeds, c = '\n') ∧
      appendManagedBlock existing managed = existing ++ feeds ++ managed ++ ['\n'] := by
  unfold appendManagedBlock
  split
  · exact ⟨['\n'], by simp⟩
  · exact ⟨['\n', '\n'], by simp⟩

section OneInstallation

variable {fence : Fence} {failure : String} {before inside after : List Char}

theorem Fence.begin_not_infix_inside (fence : Fence) : ¬ fence.beginMarker <:+: fence.inside :=
  not_infix_inside fence.solid_begin fence.one_line_begin fence.clean_begin

theorem Fence.end_not_infix_inside (fence : Fence) : ¬ fence.endMarker <:+: fence.inside :=
  not_infix_inside fence.solid_end fence.one_line_end fence.clean_end

theorem newContents_of_unmarked {existing : List Char}
    (unmarked : ¬ fence.beginMarker <:+: existing) :
    newContents fence failure existing = .ok (appendManagedBlock existing fence.managed) :=
  if_neg fun marked => unmarked marked.1

theorem newContents_of_block (unmarked : ¬ fence.beginMarker <:+: before)
    (single : ¬ fence.endMarker <:+: inside) :
    newContents fence failure
        (before ++ fence.beginMarker ++ inside ++ fence.endMarker ++ after)
      = .ok (before ++ fence.managed ++ after) := by
  have both :
      fence.beginMarker <:+: before ++ fence.beginMarker ++ inside ++ fence.endMarker ++ after ∧
      fence.endMarker <:+: before ++ fence.beginMarker ++ inside ++ fence.endMarker ++ after :=
    ⟨⟨before, inside ++ fence.endMarker ++ after, by simp⟩,
      ⟨before ++ fence.beginMarker ++ inside, after, rfl⟩⟩
  have begins : (before ++ fence.beginMarker ++ inside ++ fence.endMarker ++ after).dropInfix?
      fence.beginMarker = some (before, inside ++ fence.endMarker ++ after) :=
    (dropInfix?_eq_some_iff_absent fence.solid_begin).2
      ⟨by simp only [List.append_assoc], unmarked⟩
  have ends : (fence.beginMarker ++ (inside ++ fence.endMarker ++ after)).dropInfix? fence.endMarker
      = some (fence.beginMarker ++ inside, after) :=
    (dropInfix?_eq_some_iff_absent fence.solid_end).2
      ⟨by simp only [List.append_assoc], fun occurs => single (fence.apart.infix_of_append occurs)⟩
  rw [newContents, if_pos both, replaceBlock, begins]
  simp only [Option.bind_eq_bind, Option.bind_some, ends, Option.pure_def]

/-- A block as it is written is replaced by itself. -/
theorem newContents_managed (unmarked : ¬ fence.beginMarker <:+: before) :
    newContents fence failure (before ++ fence.managed ++ after)
      = .ok (before ++ fence.managed ++ after) := by
  have again : newContents fence failure (before ++ fence.beginMarker ++ fence.inside
      ++ fence.endMarker ++ after) = .ok (before ++ fence.managed ++ after) :=
    newContents_of_block unmarked fence.end_not_infix_inside
  have spelled : before ++ fence.managed ++ after
      = before ++ fence.beginMarker ++ fence.inside ++ fence.endMarker ++ after := by
    simp only [Fence.managed, List.append_assoc]
  rw [← again, spelled]

/-- A begin marker without an end marker after it. -/
theorem newContents_of_unended (unmarked : ¬ fence.beginMarker <:+: before)
    (unended : ¬ fence.endMarker <:+: after) {contents : List Char}
    (installed : newContents fence failure (before ++ fence.beginMarker ++ after) = .ok contents) :
    contents = appendManagedBlock (before ++ fence.beginMarker ++ after) fence.managed := by
  have begins : (before ++ fence.beginMarker ++ after).dropInfix? fence.beginMarker
      = some (before, after) :=
    (dropInfix?_eq_some_iff_absent fence.solid_begin).2 ⟨rfl, unmarked⟩
  have ends : (fence.beginMarker ++ after).dropInfix? fence.endMarker = none := by
    by_contra! found
    rcases Option.ne_none_iff_exists'.1 found with ⟨⟨earlier, later⟩, cut⟩
    have cut := ((dropInfix?_eq_some_iff_absent fence.solid_end).1 cut).1
    exact unended (fence.apart.infix_of_append ⟨earlier, later, cut.symm⟩)
  unfold newContents at installed
  split at installed
  · rw [replaceBlock, begins] at installed
    simp [ends] at installed
  · exact (Except.ok.inj installed).symm

theorem newContents_appended {existing : List Char}
    (unmarked : ¬ fence.beginMarker <:+: existing) :
    newContents fence failure (appendManagedBlock existing fence.managed)
      = .ok (appendManagedBlock existing fence.managed) := by
  rcases appendManagedBlock_eq existing fence.managed with
    ⟨feeds, feeds_ne_nil, all_feeds, appended⟩
  rw [appended]
  exact newContents_managed (not_infix_append_lineFeeds fence.solid_begin fence.one_line_begin
    feeds_ne_nil all_feeds unmarked)

/-- A block appended below a begin marker without an end marker is no longer there after the next
installation, and neither is what is between. -/
theorem newContents_appended_ne (unmarked : ¬ fence.beginMarker <:+: before)
    (unended : ¬ fence.endMarker <:+: after) :
    newContents fence failure
        (appendManagedBlock (before ++ fence.beginMarker ++ after) fence.managed)
      ≠ .ok (appendManagedBlock (before ++ fence.beginMarker ++ after) fence.managed) := by
  rcases appendManagedBlock_eq (before ++ fence.beginMarker ++ after) fence.managed with
    ⟨feeds, feeds_ne_nil, all_feeds, appended⟩
  -- the end marker of the appended block is the first one after the stray begin marker
  have single : ¬ fence.endMarker <:+: after ++ (feeds ++ (fence.beginMarker ++ fence.inside)) := by
    intro occurs
    rcases infix_or_infix_of_lineFeeds fence.one_line_end feeds_ne_nil all_feeds occurs with
      in_after | in_block
    · exact unended in_after
    · exact fence.end_not_infix_inside (fence.apart.infix_of_append in_block)
  have spelled : appendManagedBlock (before ++ fence.beginMarker ++ after) fence.managed
      = before ++ fence.beginMarker ++ (after ++ (feeds ++ (fence.beginMarker ++ fence.inside)))
          ++ fence.endMarker ++ ['\n'] := by
    rw [appended]
    simp only [Fence.managed, List.append_assoc]
  rw [spelled, newContents_of_block unmarked single]
  intro same
  have lengths := congrArg List.length (Except.ok.inj same)
  have begin_pos := List.length_pos_iff.2 fence.solid_begin.ne_nil
  simp only [List.length_append, Fence.managed] at lengths
  omega

/-- The block that is replaced is not one that begins later. -/
theorem not_replaced_later {overlap inside' after' : List Char}
    (single : ¬ fence.endMarker <:+: inside) (inside_ne : inside ≠ fence.inside)
    (overlap_ne_nil : overlap ≠ [])
    (split : fence.beginMarker ++ (inside ++ (fence.endMarker ++ after))
      = overlap ++ (fence.beginMarker ++ (inside' ++ (fence.endMarker ++ after'))))
    (replaced : fence.managed ++ after = overlap ++ (fence.managed ++ after')) : False := by
  rcases fence.solid_begin.prefix_of_append overlap_ne_nil split with ⟨rest, rfl⟩
  simp only [Fence.managed, List.append_assoc, List.append_cancel_left_eq] at split replaced
  by_cases ended : fence.endMarker <:+: rest ++ fence.beginMarker
  · rcases exists_cut_of_infix fence.solid_end ended with ⟨earlier, later, cut⟩
    rcases (dropInfix?_eq_some_iff_absent fence.solid_end).1 cut with ⟨whole, unended⟩
    rw [← List.append_assoc, ← List.append_assoc, whole, List.append_assoc _ later] at split replaced
    rw [before_unique fence.solid_end replaced fence.end_not_infix_inside unended] at inside_ne
    exact inside_ne (before_unique fence.solid_end split single unended)
  · have unended : ¬ fence.endMarker <:+: rest ++ fence.beginMarker ++ fence.inside := by
      intro occurs
      rcases infix_or_infix_of_separator fence.one_line_end occurs with earlier | in_body
      · exact ended earlier
      · exact fence.end_not_infix_inside (in_body.trans (List.suffix_cons _ _).isInfix)
    have aligned : fence.inside ++ fence.endMarker ++ after
        = rest ++ fence.beginMarker ++ fence.inside ++ fence.endMarker ++ after' := by
      simpa only [List.append_assoc] using replaced
    have lengths := congrArg List.length
      (before_unique fence.solid_end aligned fence.end_not_infix_inside unended)
    have begin_pos := List.length_pos_iff.2 fence.solid_begin.ne_nil
    simp only [List.length_append] at lengths
    omega

/-- Replacing up to the first end marker takes with it what is before a second begin marker. -/
theorem not_keepsText_of_begin_inside (unmarked : ¬ fence.beginMarker <:+: before)
    (single : ¬ fence.endMarker <:+: inside) (marked : fence.beginMarker <:+: inside) :
    ¬ KeepsText fence (before ++ fence.beginMarker ++ inside ++ fence.endMarker ++ after)
        (before ++ fence.managed ++ after) := by
  have inside_ne : inside ≠ fence.inside := by
    rintro rfl
    exact fence.begin_not_infix_inside marked
  have cut : before <+: before ++ fence.managed ++ after := ⟨fence.managed ++ after, by simp⟩
  rintro (⟨before', inside', after', split, unmarked_inside, single', replaced⟩ | ⟨more, kept⟩)
  · have cut' : before' <+: before ++ fence.managed ++ after :=
      ⟨fence.managed ++ after', by simp [replaced]⟩
    have longer : before.length ≤ before'.length := by
      have begins := (dropInfix?_eq_some_iff_absent fence.solid_begin).2
        (⟨rfl, unmarked⟩ : before ++ fence.beginMarker ++ (inside ++ fence.endMarker ++ after)
          = before ++ fence.beginMarker ++ (inside ++ fence.endMarker ++ after) ∧ _)
      apply (dropInfix?_eq_some_iff_least.1 begins).2 before'
        (inside' ++ fence.endMarker ++ after')
      simpa only [List.append_assoc] using split
    rcases List.prefix_of_prefix_length_le cut cut' longer with ⟨overlap, rfl⟩
    by_cases same_begin : overlap = []
    · subst same_begin
      simp only [List.append_nil, List.append_assoc, List.append_cancel_left_eq] at split
      simp only [← List.append_assoc] at split
      cases before_unique fence.solid_end split single single'
      exact unmarked_inside marked
    · exact not_replaced_later single inside_ne same_begin
        (by simpa only [List.append_assoc, List.append_cancel_left_eq] using split)
        (by simpa only [List.append_assoc, List.append_cancel_left_eq] using replaced)
  · simp only [Fence.managed, List.append_assoc, List.append_cancel_left_eq] at kept
    simp only [← List.append_assoc] at kept
    rw [List.append_assoc (inside ++ fence.endMarker)] at kept
    exact inside_ne (before_unique fence.solid_end kept single fence.end_not_infix_inside)

end OneInstallation

/-! ## Files -/

theorem textToBytes_injective {text text' : List Char}
    (same : textToBytes text = textToBytes text') : text = text' :=
  String.ofList_injective (String.toByteArray_inj.1 same)

theorem readToString_eq_ok {path : String} {content : ByteArray} {text : List Char} :
    readToString path content = .ok text ↔ content = textToBytes text := by
  constructor
  · intro read
    unfold readToString String.fromUTF8? at read
    split at read
    · next existing valid =>
        split at valid
        · cases valid
          cases read
          simp [textToBytes, String.fromUTF8]
        · cases valid
    · cases read
  · rintro rfl
    have valid : (textToBytes text).IsValidUTF8 := (String.ofList text).isValidUTF8
    rw [readToString, String.fromUTF8?, dif_pos valid]
    exact congrArg Except.ok String.toList_ofList

namespace ManagedFile

variable (file : ManagedFile) (path : String)

theorem install_eq : ∃ failure, ∀ content, file.install path (some content) = do
    let existing ← readToString path content
    let contents ← newContents file.fence failure existing
    return textToBytes contents := by
  cases file with
  | hook => exact ⟨_, fun content => rfl⟩
  | claudeMd => exact ⟨_, fun content => rfl⟩

theorem install_eq_ok : ∃ failure, ∀ content installed,
    file.install path (some content) = .ok installed ↔
      ∃ existing contents, content = textToBytes existing ∧ installed = textToBytes contents ∧
        newContents file.fence failure existing = .ok contents := by
  rcases file.install_eq path with ⟨failure, install_is⟩
  refine ⟨failure, fun content installed => ?_⟩
  rw [install_is]
  constructor
  · intro installed_ok
    rcases Fallible.bind_eq_ok.1 installed_ok with ⟨existing, read, written⟩
    rcases Fallible.bind_eq_ok.1 written with ⟨contents, new_contents, bytes⟩
    exact ⟨existing, contents, readToString_eq_ok.1 read, (Except.ok.inj bytes).symm, new_contents⟩
  · rintro ⟨existing, contents, read, rfl, new_contents⟩
    rw [readToString_eq_ok.2 read, Fallible.ok_bind, new_contents]
    rfl

/-- A text that one more installation leaves as it is stays the same for good. -/
theorem installs_of_fixed {content : ByteArray}
    (fixed : file.install path (some content) = .ok content) (n : Nat) :
    file.installs path n content = .ok content := by
  induction n with
  | zero => rfl
  | succ n ih => rw [installs, fixed, Fallible.ok_bind, ih]

end ManagedFile

theorem Conservative.balanced {file : ManagedFile} {path : String} {content : ByteArray}
    (conservative : Conservative file path content) :
    ∃ existing, content = textToBytes existing ∧ Balanced file.fence existing := by
  rcases file.install_eq_ok path with ⟨failure, install_ok⟩
  rcases conservative with ⟨existing, installed, rfl, first, keeps, -, fixed⟩
  refine ⟨existing, rfl, ?_⟩
  rintro before after rfl unmarked
  rcases (install_ok _ _).1 first with ⟨text, contents, same, same', written⟩
  cases textToBytes_injective same
  cases textToBytes_injective same'
  by_cases ended : file.fence.endMarker <:+: after
  · rcases exists_cut_of_infix file.fence.solid_end ended with ⟨inside, rest, cut⟩
    rcases (dropInfix?_eq_some_iff_absent file.fence.solid_end).1 cut with ⟨rfl, single⟩
    refine ⟨inside, rest, rfl, fun marked => ?_⟩
    have replaced : newContents file.fence failure (before ++ file.fence.beginMarker ++ inside
        ++ file.fence.endMarker ++ rest) = _ := newContents_of_block unmarked single
    simp only [← List.append_assoc] at written keeps
    rw [written] at replaced
    cases Except.ok.inj replaced
    exact not_keepsText_of_begin_inside unmarked single marked keeps
  · exfalso
    cases newContents_of_unended unmarked ended written
    rcases Fallible.bind_eq_ok.1 (fixed 1) with ⟨again, second, last⟩
    cases last
    rcases (install_ok _ _).1 second with ⟨text, contents, same, same', rewritten⟩
    cases textToBytes_injective same
    cases textToBytes_injective same'
    exact newContents_appended_ne unmarked ended rewritten

/-- The block that a balanced text with a begin marker starts with. -/
theorem Balanced.exists_block {fence : Fence} {existing : List Char}
    (balanced : Balanced fence existing) (marked : fence.beginMarker <:+: existing) :
    ∃ before inside after,
      existing = before ++ fence.beginMarker ++ inside ++ fence.endMarker ++ after ∧
      ¬ fence.beginMarker <:+: before ∧ ¬ fence.beginMarker <:+: inside ∧
      ¬ fence.endMarker <:+: inside := by
  rcases exists_cut_of_infix fence.solid_begin marked with ⟨before, after, cut⟩
  rcases (dropInfix?_eq_some_iff_absent fence.solid_begin).1 cut with ⟨split, unmarked⟩
  rcases balanced before after split unmarked with ⟨inside, rest, rfl, unmarked_inside⟩
  rcases exists_first_occurrence fence.solid_end inside with ⟨shorter, overlap, first_end, single⟩
  have lengths := congrArg List.length first_end
  simp only [List.length_append] at lengths
  have shorter_start : shorter <+: inside ++ fence.endMarker :=
    ⟨fence.endMarker ++ overlap, by rw [first_end, List.append_assoc]⟩
  have shorter_part : shorter <+: inside :=
    List.prefix_of_prefix_length_le shorter_start (List.prefix_append inside fence.endMarker)
      (by omega)
  refine ⟨before, shorter, overlap ++ rest, ?_, unmarked, ?_, single⟩
  · calc existing
      _ = before ++ fence.beginMarker ++ (inside ++ fence.endMarker) ++ rest := by
          simp only [split, List.append_assoc]
      _ = before ++ fence.beginMarker ++ shorter ++ fence.endMarker ++ (overlap ++ rest) := by
          simp only [first_end, List.append_assoc]
  · exact fun occurs => unmarked_inside (occurs.trans shorter_part.isInfix)

/-- Installing into a file, once and again, leaves what stands outside the block exactly when the
file is a text whose first begin marker, if there is one, is ended before the next. -/
theorem conservative_iff (file : ManagedFile) (path : String) (content : ByteArray) :
    Conservative file path content ↔
      ∃ existing, content = textToBytes existing ∧ Balanced file.fence existing := by
  rcases file.install_eq_ok path with ⟨failure, install_ok⟩
  constructor
  · exact Conservative.balanced
  · rintro ⟨existing, rfl, balanced⟩
    by_cases marked : file.fence.beginMarker <:+: existing
    · rcases balanced.exists_block marked with
        ⟨before, inside, after, rfl, unmarked, unmarked_inside, single⟩
      refine ⟨_, before ++ file.fence.managed ++ after, rfl, ?_, ?_, ?_, ?_⟩
      · exact (install_ok _ _).2 ⟨_, _, rfl, rfl, newContents_of_block unmarked single⟩
      · exact .inl ⟨before, inside, after, rfl, unmarked_inside, single, rfl⟩
      · exact ⟨before, after, rfl⟩
      · apply file.installs_of_fixed path
        exact (install_ok _ _).2 ⟨_, _, rfl, rfl, newContents_managed unmarked⟩
    · rcases appendManagedBlock_eq existing file.fence.managed with ⟨feeds, -, -, appended⟩
      refine ⟨existing, appendManagedBlock existing file.fence.managed, rfl, ?_, ?_, ?_, ?_⟩
      · exact (install_ok _ _).2 ⟨existing, _, rfl, rfl, newContents_of_unmarked marked⟩
      · exact .inr ⟨feeds ++ file.fence.managed ++ ['\n'], by simp [appended]⟩
      · exact ⟨existing ++ feeds, ['\n'], appended.symm⟩
      · apply file.installs_of_fixed path
        exact (install_ok _ _).2 ⟨_, _, rfl, rfl, newContents_appended marked⟩

/-- The end of the block was lost: the first installation appends a block, the second cuts out what
is from the stray begin marker on. -/
theorem not_conservative_stray :
    ¬ Conservative .hook ".git/hooks/post-commit"
        (textToBytes ("#!/bin/sh\n".toList ++ hookMarkerBegin ++ "\nmake check\n".toList)) := by
  intro conservative
  rcases conservative.balanced with ⟨existing, same, balanced⟩
  cases textToBytes_injective same
  rcases balanced _ _ rfl (by decide +kernel) with ⟨inside, rest, ended, -⟩
  have unended : ¬ hookMarkerEnd <:+: "\nmake check\n".toList := by decide +kernel
  exact unended ⟨inside, rest, ended.symm⟩

end Ohara
