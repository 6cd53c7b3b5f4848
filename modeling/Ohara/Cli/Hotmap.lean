import Mathlib.Data.List.Sort
import Mathlib.Data.String.Basic
import Ohara.Library.BinaryRounding
import Ohara.Library.Paths

/-!
# The hotmap of a plan

The planner counts for every directory the commits that touch it, and suggests to ignore the
top-level directories with a high share. The share is compared in `f64`, where the counts are
rounded to 53 bits.
-/

namespace Ohara

open BinaryRounding (nearest)
open Paths

/-- A counter for each directory key. -/
abbrev Counts := Std.TreeMap String Nat

/-- The commits seen so far, and how many of them touch each directory. -/
structure HotmapAggregator where
  counts : Counts
  total : Nat

namespace HotmapAggregator

/-- `HotmapAggregator::new`. -/
def empty : HotmapAggregator where
  counts := ∅
  total := 0

/-- `+= 1` on a `u64`, as the release profile compiles it. -/
def increment (n : Nat) : Nat :=
    (n + 1) % 2 ^ 64

/-- The keys of the components of a path, after those in `buf`. -/
def keysFrom (p : List Char) : List Char → List (List Char) → List String
  | _, [] => []
  | buf, component :: rest =>
      let buf := (if buf = [] then buf else buf ++ ['/']) ++ component
      let key := if buf ++ ['/'] <+: p then buf ++ ['/'] else buf
      String.ofList key :: keysFrom p buf rest

/-- The keys of a path's components. -/
def keys (path : String) : List String :=
    keysFrom path.toList [] (path.toList.splitOn '/')

/-- A key is counted when it is not among those seen. -/
def bump (state : List String × Counts) (key : String) : List String × Counts :=
    if key ∈ state.1 then state
    else (key :: state.1, state.2.insert key (increment (state.2.getD key 0)))

/-- One commit: every key of its paths is counted once. -/
def record (agg : HotmapAggregator) (paths : List String) : HotmapAggregator where
  counts := (paths.foldl (fun state p => (keys p).foldl bump state) ([], agg.counts)).2
  total := increment agg.total

end HotmapAggregator

/-- Directories that are never suggested. -/
def docsAllowlist : List String := ["Documentation/", "docs/", "doc/"]

/-- The literal `0.05`. -/
def highShareThreshold : ℚ := nearest 52 (5 / 100)

/-- `(count as f64) / (total as f64)`. -/
def share (count total : Nat) : ℚ :=
    nearest 52 (nearest 52 count / nearest 52 total)

/-- Exactly one slash, at the end. -/
def isToplevelDir (key : String) : Bool :=
    key.toList.count '/' == 1 && key.toList.getLast? == some '/'

/-- The top-level directories outside the allowlist with a high share, sorted. -/
def suggestPatterns (agg : HotmapAggregator) : List String :=
    if nearest 52 agg.total ≤ 0 then []
    else
      ((agg.counts.toList.filter fun entry =>
        isToplevelDir entry.1 && !docsAllowlist.contains entry.1
          && decide (highShareThreshold ≤ share entry.2 agg.total)).map Prod.fst).mergeSort

/-! ## Commits -/

/-- The path as git reports it. -/
def pathText (path : RelPath) : String :=
    String.ofList path.text

/-- The key of a directory. -/
def dirKey (dir : List Name) : String :=
    String.ofList (dirText dir)

/-- The aggregator after the commits, in their order. -/
def recordAll (commits : List (List String)) : HotmapAggregator :=
    commits.foldl HotmapAggregator.record HotmapAggregator.empty

/-- The hotmap of commits that change the paths. -/
def hotmapOf (commits : List (List RelPath)) : HotmapAggregator :=
    recordAll (commits.map fun paths => paths.map pathText)

/-- The commits that touch a path below the directory. -/
def touched (commits : List (List RelPath)) (dir : List Name) : Nat :=
    commits.countP fun paths => decide (∃ path ∈ paths, RelPath.Below dir path)

/-! ## The keys of a path -/

namespace HotmapAggregator

section Keys

variable {front rest : List Name} {component : Name}

theorem buf_eq (named : ∀ name ∈ front, IsName name) :
    (if join front = [] then join front else join front ++ ['/']) ++ component
      = join (front ++ [component]) := by
  by_cases first : front = []
  · simp [first]
  · rw [if_neg (by rwa [join_eq_nil_iff named]), join_append first (by simp), join_singleton]
    simp

/-- The prefix test on the whole path tells whether a component follows. -/
theorem dirText_prefix_iff :
    join (front ++ [component]) ++ ['/'] <+: join (front ++ component :: rest) ↔ rest ≠ [] := by
  by_cases last : rest = []
  · rw [last]
    simp only [ne_eq, not_true_eq_false, iff_false]
    intro front_of
    have longer := front_of.length_le
    simp at longer
  · have whole : front ++ component :: rest = (front ++ [component]) ++ rest := by simp
    rw [whole, join_append (by simp) last]
    simp [last]

theorem mem_keysFrom {key : String} (named : ∀ name ∈ front ++ rest, IsName name) :
    key ∈ keysFrom (join (front ++ rest)) (join front) rest ↔
      ∃ before after, rest = before ++ after ∧ before ≠ [] ∧
        key = String.ofList
          (if after = [] then join (front ++ before) else dirText (front ++ before)) := by
  induction rest generalizing front with
  | nil =>
      simp only [keysFrom, List.not_mem_nil, false_iff]
      rintro ⟨before, after, whole, some_name, -⟩
      exact some_name (List.append_eq_nil_iff.1 whole.symm).1
  | cons component rest ih =>
      have front_named : ∀ name ∈ front, IsName name := by
        intro name name_mem
        exact named name (List.mem_append_left _ name_mem)
      have whole : front ++ component :: rest = (front ++ [component]) ++ rest := by simp
      have step := @ih (front ++ [component]) (by rwa [← whole])
      rw [← whole] at step
      simp only [keysFrom, buf_eq front_named, List.mem_cons, step, dirText_prefix_iff]
      constructor
      · rintro (rfl | ⟨before, after, rfl, some_name, rfl⟩)
        · refine ⟨[component], rest, by simp, by simp, ?_⟩
          by_cases last : rest = []
          · simp [last]
          · simp [last, dirText]
        · exact ⟨component :: before, after, by simp, by simp, by simp⟩
      · rintro ⟨before, after, split, some_name, rfl⟩
        cases before with
        | nil => exact absurd rfl some_name
        | cons first before =>
            rw [List.cons_append, List.cons.injEq] at split
            rcases split with ⟨rfl, rfl⟩
            by_cases single : before = []
            · left
              by_cases last : after = []
              · simp [single, last]
              · simp [single, last, dirText]
            · right
              exact ⟨before, after, rfl, single, by simp⟩

end Keys

theorem mem_keys {key : String} {path : RelPath} :
    key ∈ keys (pathText path) ↔
      ∃ before after, path.names = before ++ after ∧ before ≠ [] ∧
        key = String.ofList (if after = [] then join before else dirText before) := by
  have split : (pathText path).toList.splitOn '/' = path.names := by
    rw [pathText, String.toList_ofList]
    exact splitOn_join path.nonempty path.named
  have from_start := @mem_keysFrom [] path.names key path.named
  rw [keys, split, pathText, String.toList_ofList]
  exact from_start

/-- A directory key is that of the directories the path is in. -/
theorem dirKey_mem_keys {dir : List Name} {path : RelPath} (some_name : dir ≠ [])
    (named : ∀ name ∈ dir, IsName name) :
    dirKey dir ∈ keys (pathText path) ↔ RelPath.Below dir path := by
  rw [mem_keys]
  constructor
  · rintro ⟨before, after, whole, some_before, same⟩
    have before_named : ∀ name ∈ before, IsName name := by
      intro name name_mem
      exact path.named name (by simp [whole, name_mem])
    have texts := String.ofList_injective same
    by_cases last : after = []
    · rw [if_pos last] at texts
      exact absurd (by simp [← texts, dirText]) (slash_not_last before_named)
    · rw [if_neg last] at texts
      have same_names := join_injective some_name some_before named before_named
        (List.append_cancel_right texts)
      subst same_names
      refine ⟨⟨after, whole.symm⟩, ?_⟩
      rw [whole]
      simpa using last
  · rintro ⟨⟨after, whole⟩, strict⟩
    have more : after ≠ [] := by
      rintro rfl
      exact strict (by simpa using whole)
    exact ⟨dir, after, whole.symm, some_name, by simp [dirKey, more]⟩

theorem isToplevelDir_iff {key : String} {path : RelPath} (key_mem : key ∈ keys (pathText path)) :
    isToplevelDir key = true ↔ ∃ name, IsName name ∧ key = dirKey [name] := by
  constructor
  · intro top
    rcases mem_keys.1 key_mem with ⟨before, after, whole, some_name, rfl⟩
    have named : ∀ name ∈ before, IsName name := by
      intro name name_mem
      exact path.named name (by simp [whole, name_mem])
    simp only [isToplevelDir, String.toList_ofList, Bool.and_eq_true, beq_iff_eq] at top
    by_cases last : after = []
    · rw [if_pos last] at top
      exact absurd top.2 (slash_not_last named)
    · rw [if_neg last, dirText] at top
      have slashes := count_slash_join some_name named
      rcases List.length_eq_one_iff.1 (by simpa using slashes.symm.trans (by simpa using top.1))
        with ⟨name, rfl⟩
      exact ⟨name, named name (by simp), by simp [last, dirKey]⟩
  · rintro ⟨name, is_name, rfl⟩
    have none_inside : name.count '/' = 0 := List.count_eq_zero_of_not_mem is_name.2
    simp [isToplevelDir, dirKey, dirText, none_inside]

/-! ## Counting -/

/-- A key that occurs is counted once, unless it was seen. -/
theorem getElem?_foldl_bump (new : List String) (seen : List String) (counts : Counts)
    (key : String) :
    (new.foldl bump (seen, counts)).2[key]?
      = if key ∈ new ∧ key ∉ seen then some (increment (counts.getD key 0)) else counts[key]? := by
  induction new generalizing seen counts with
  | nil => simp
  | cons first new ih =>
      rw [List.foldl_cons]
      by_cases again : first ∈ seen
      · rw [bump, if_pos again, ih]
        by_cases same : key = first
        · simp [same, again]
        · simp [same]
      · rw [bump, if_neg again, ih]
        by_cases same : key = first
        · subst same
          simp [again]
        · have other : compare first key ≠ .eq := by simpa using Ne.symm same
          simp [same, Std.TreeMap.getElem?_insert, Std.TreeMap.getD_insert, other]

theorem getElem?_record (agg : HotmapAggregator) (paths : List String) (key : String) :
    (agg.record paths).counts[key]?
      = if ∃ p ∈ paths, key ∈ keys p then some (increment (agg.counts.getD key 0))
        else agg.counts[key]? := by
  have flat := getElem?_foldl_bump (paths.flatMap keys) [] agg.counts key
  rw [List.foldl_flatMap] at flat
  simpa only [record, List.mem_flatMap, List.not_mem_nil, not_false_eq_true, and_true] using flat

/-- The key was counted `n` times. -/
def Tallies (agg : HotmapAggregator) (key : String) (n : Nat) : Prop :=
    agg.counts[key]? = if n = 0 then none else some (n % 2 ^ 64)

theorem increment_mod (n : Nat) : increment (n % 2 ^ 64) = (n + 1) % 2 ^ 64 := by
  rw [increment]
  omega

theorem Tallies.record {agg : HotmapAggregator} {key : String} {n : Nat}
    (tallies : Tallies agg key n) (paths : List String) :
    Tallies (agg.record paths) key
      (n + if decide (∃ p ∈ paths, key ∈ keys p) = true then 1 else 0) := by
  have before : agg.counts.getD key 0 = n % 2 ^ 64 := by
    rw [Std.TreeMap.getD_eq_getD_getElem?, tallies]
    split
    · next zero => simp [zero]
    · rfl
  rw [Tallies, getElem?_record, before, increment_mod]
  by_cases touches : ∃ p ∈ paths, key ∈ keys p
  · simp [touches]
  · simp only [touches, decide_false, Bool.false_eq_true, if_false, Nat.add_zero]
    exact tallies

theorem Tallies.foldl_record {agg : HotmapAggregator} {key : String} {n : Nat}
    (tallies : Tallies agg key n) (commits : List (List String)) :
    Tallies (commits.foldl HotmapAggregator.record agg) key
      (n + commits.countP fun paths => decide (∃ p ∈ paths, key ∈ keys p)) := by
  induction commits generalizing agg n with
  | nil => exact tallies
  | cons paths commits ih =>
      have step := ih (tallies.record paths)
      rwa [Nat.add_assoc, Nat.add_comm _ (commits.countP _), ← List.countP_cons] at step

theorem tallies_recordAll (commits : List (List String)) (key : String) :
    Tallies (recordAll commits) key
      (commits.countP fun paths => decide (∃ p ∈ paths, key ∈ keys p)) := by
  have start : Tallies empty key 0 := by simp [Tallies, empty]
  have run := start.foldl_record commits
  rwa [Nat.zero_add] at run

theorem total_foldl_record (agg : HotmapAggregator) (n : Nat) (start : agg.total = n % 2 ^ 64)
    (commits : List (List String)) :
    (commits.foldl HotmapAggregator.record agg).total = (n + commits.length) % 2 ^ 64 := by
  induction commits generalizing agg n with
  | nil => exact start
  | cons paths commits ih =>
      have step : (agg.record paths).total = (n + 1) % 2 ^ 64 := by
        rw [record, start, increment_mod]
      rw [List.foldl_cons, ih _ (n + 1) step, List.length_cons]
      congr 1
      omega

theorem total_hotmapOf (commits : List (List RelPath)) :
    (hotmapOf commits).total = commits.length % 2 ^ 64 := by
  have run := total_foldl_record empty 0 rfl (commits.map fun paths => paths.map pathText)
  rwa [Nat.zero_add, List.length_map] at run

theorem tallies_hotmapOf (commits : List (List RelPath)) (key : String) :
    Tallies (hotmapOf commits) key
      (commits.countP fun paths => decide (∃ path ∈ paths, key ∈ keys (pathText path))) := by
  have run := tallies_recordAll (commits.map fun paths => paths.map pathText) key
  simp only [List.countP_map, Function.comp_def, List.mem_map,
    exists_exists_and_eq_and] at run
  exact run

theorem tallies_dirKey (commits : List (List RelPath)) {dir : List Name} (some_name : dir ≠ [])
    (named : ∀ name ∈ dir, IsName name) :
    Tallies (hotmapOf commits) (dirKey dir) (touched commits dir) := by
  have run := tallies_hotmapOf commits (dirKey dir)
  simp only [dirKey_mem_keys some_name named] at run
  exact run

end HotmapAggregator

/-! ## The threshold -/

/-- The double that the literal denotes is a little more than a twentieth. -/
theorem highShareThreshold_eq :
    highShareThreshold = (7205759403792794 : ℤ) * 2 ^ ((-5 : ℤ) - (52 : ℕ)) := by
  have unit : BinaryRounding.ulp 52 (5 / 100) = 2 ^ ((-5 : ℤ) - (52 : ℕ)) := by
    rw [BinaryRounding.ulp, BinaryRounding.log_of_bounds (e := -5) (by norm_num) (by norm_num)]
  have floor_eq : ⌊(5 / 100 / 2 ^ ((-5 : ℤ) - (52 : ℕ)) : ℚ)⌋ = 7205759403792793 := by
    rw [Int.floor_eq_iff]
    norm_num
  have rounded : BinaryRounding.roundEven (5 / 100 / 2 ^ ((-5 : ℤ) - (52 : ℕ))) =
      7205759403792794 := by
    rw [BinaryRounding.roundEven, floor_eq]
    norm_num
  rw [highShareThreshold, nearest, unit, rounded]

theorem highShareThreshold_le_iff {count total : Nat} (some_commit : 0 < total) :
    highShareThreshold ≤ share count total ↔
      (2 ^ 56 - 1) * nearest 52 total ≤ 20 * 2 ^ 56 * nearest 52 count := by
  have total_pos : (0 : ℚ) < nearest 52 total :=
    BinaryRounding.nearest_pos (by exact_mod_cast some_commit)
  have count_nonneg : (0 : ℚ) ≤ nearest 52 count := BinaryRounding.nearest_nonneg (by positivity)
  rw [highShareThreshold_eq, share,
    BinaryRounding.even_le_nearest_iff (by norm_num) (by norm_num) (by norm_num)
      (div_nonneg count_nonneg total_pos.le),
    le_div_iff₀ total_pos]
  constructor
  · intro le
    norm_num at le ⊢
    linarith
  · intro le
    norm_num at le ⊢
    linarith

/-- Up to `2 ^ 53` commits the comparison is exact. -/
theorem highShareThreshold_le_iff_exact {count total : Nat} (some_commit : 0 < total)
    (small : total ≤ 2 ^ 53) (within : count ≤ total) :
    highShareThreshold ≤ share count total ↔ total ≤ 20 * count := by
  rw [highShareThreshold_le_iff some_commit, BinaryRounding.nearest_natCast small,
    BinaryRounding.nearest_natCast (within.trans small)]
  have naturals : (2 ^ 56 - 1) * (total : ℚ) ≤ 20 * 2 ^ 56 * count ↔
      (2 ^ 56 - 1) * total ≤ 20 * 2 ^ 56 * count := by
    norm_num
    exact_mod_cast Iff.rfl
  rw [naturals]
  omega

/-! ## Suggestions -/

theorem mem_suggestPatterns {agg : HotmapAggregator} {pattern : String} :
    pattern ∈ suggestPatterns agg ↔
      0 < agg.total ∧ isToplevelDir pattern = true ∧ pattern ∉ docsAllowlist ∧
        ∃ count, agg.counts[pattern]? = some count ∧
          highShareThreshold ≤ share count agg.total := by
  rw [suggestPatterns]
  by_cases none_yet : agg.total = 0
  · simp [none_yet]
  · have total_pos : (0 : ℚ) < nearest 52 agg.total :=
      BinaryRounding.nearest_pos (by exact_mod_cast Nat.pos_of_ne_zero none_yet)
    rw [if_neg (not_le.2 total_pos)]
    simp only [List.mem_mergeSort, List.mem_map, List.mem_filter, Prod.exists, exists_and_right,
      exists_eq_right, Std.TreeMap.mem_toList_iff_getElem?_eq_some, Bool.and_eq_true,
      decide_eq_true_eq, Bool.not_eq_true', List.contains_eq_mem, decide_eq_false_iff_not]
    constructor
    · rintro ⟨count, at_key, ⟨top, outside⟩, high⟩
      exact ⟨Nat.pos_of_ne_zero none_yet, top, outside, count, at_key, high⟩
    · rintro ⟨-, top, outside, count, at_key, high⟩
      exact ⟨count, at_key, ⟨top, outside⟩, high⟩

theorem pairwise_suggestPatterns (agg : HotmapAggregator) :
    (suggestPatterns agg).Pairwise (· < ·) := by
  rw [suggestPatterns]
  split
  · exact List.Pairwise.nil
  · have ordered := (Std.TreeMap.ordered_keys_toList (t := agg.counts)).filter fun entry =>
      isToplevelDir entry.1 && !docsAllowlist.contains entry.1
        && decide (highShareThreshold ≤ share entry.2 agg.total)
    have keys_ordered := List.pairwise_map.2 (ordered.imp fun lt => compare_lt_iff_lt.1 lt)
    rw [List.mergeSort_of_pairwise]
    · exact keys_ordered
    · apply keys_ordered.imp
      intro a b lt
      simpa using lt.le

/-! ## What the plan reports -/

/-- At least five percent. -/
def HighShare (count total : Nat) : Prop :=
    total ≤ 20 * count

/-- At least five percent up to a factor of `1 - 2 ^ -56`, of the counts rounded to 53 bits. -/
def HighShareF64 (count total : Nat) : Prop :=
    (2 ^ 56 - 1) * nearest 52 total ≤ 20 * 2 ^ 56 * nearest 52 count

/-- The counts are those of the commits, and the suggestions are the top-level directories outside
the allowlist with a share that is `high`, each once and in order. -/
structure HotmapExact (high : Nat → Nat → Prop) (commits : List (List RelPath)) : Prop where
  total : (hotmapOf commits).total = commits.length
  counts : ∀ dir : RelPath,
    (hotmapOf commits).counts.getD (dirKey dir.names) 0 = touched commits dir.names
  ordered : (suggestPatterns (hotmapOf commits)).Pairwise (· < ·)
  suggested : ∀ pattern, pattern ∈ suggestPatterns (hotmapOf commits) ↔
    ∃ name, IsName name ∧ pattern = dirKey [name] ∧ pattern ∉ docsAllowlist ∧
      0 < touched commits [name] ∧ high (touched commits [name]) commits.length

section Commits

variable {commits : List (List RelPath)}

theorem touched_le (dir : List Name) : touched commits dir ≤ commits.length :=
  List.countP_le_length

theorem getElem?_dirKey {name : Name} (is_name : IsName name) :
    (hotmapOf commits).counts[dirKey [name]]?
      = if touched commits [name] = 0 then none else some (touched commits [name] % 2 ^ 64) :=
  HotmapAggregator.tallies_dirKey commits (by simp) (by simpa using is_name)

/-- Only the keys of paths are in the map. -/
theorem exists_path_of_mem_counts {key : String} {count : Nat}
    (at_key : (hotmapOf commits).counts[key]? = some count) :
    ∃ path, key ∈ HotmapAggregator.keys (pathText path) := by
  have tallies := HotmapAggregator.tallies_hotmapOf commits key
  rw [HotmapAggregator.Tallies, at_key] at tallies
  split at tallies
  · cases tallies
  · next some_commit =>
      rcases List.countP_pos_iff.1 (Nat.pos_of_ne_zero some_commit) with ⟨paths, -, touches⟩
      rcases of_decide_eq_true touches with ⟨path, -, key_mem⟩
      exact ⟨path, key_mem⟩

/-- The top-level directory is outside the allowlist, and the counters give it a high share. -/
structure Measured (commits : List (List RelPath)) (name : Name) : Prop where
  is_name : IsName name
  outside : dirKey [name] ∉ docsAllowlist
  some_commit : 0 < commits.length % 2 ^ 64
  occurs : 0 < touched commits [name]
  high : highShareThreshold ≤ share (touched commits [name] % 2 ^ 64) (commits.length % 2 ^ 64)

/-- The top-level directories that are measured are suggested. -/
theorem mem_suggestPatterns_hotmapOf {pattern : String} :
    pattern ∈ suggestPatterns (hotmapOf commits) ↔
      ∃ name, Measured commits name ∧ pattern = dirKey [name] := by
  rw [mem_suggestPatterns, HotmapAggregator.total_hotmapOf]
  constructor
  · rintro ⟨some_commit, top, outside, count, at_key, high⟩
    rcases exists_path_of_mem_counts at_key with ⟨path, key_mem⟩
    rcases (HotmapAggregator.isToplevelDir_iff key_mem).1 top with ⟨name, is_name, rfl⟩
    rw [getElem?_dirKey is_name] at at_key
    split at at_key
    · cases at_key
    · next occurs =>
        cases at_key
        exact ⟨name, ⟨is_name, outside, some_commit, Nat.pos_of_ne_zero occurs, high⟩, rfl⟩
  · rintro ⟨name, measured, rfl⟩
    have at_key := @getElem?_dirKey commits name measured.is_name
    rw [if_neg measured.occurs.ne'] at at_key
    rcases exists_path_of_mem_counts at_key with ⟨path, key_mem⟩
    exact ⟨measured.some_commit,
      (HotmapAggregator.isToplevelDir_iff key_mem).2 ⟨name, measured.is_name, rfl⟩,
      measured.outside, _, at_key, measured.high⟩

theorem hotmapExact_of_high {high : Nat → Nat → Prop} (fits : commits.length < 2 ^ 64)
    (same : ∀ count, 0 < commits.length → count ≤ commits.length →
      (highShareThreshold ≤ share count commits.length ↔ high count commits.length)) :
    HotmapExact high commits where
  total := by
    rw [HotmapAggregator.total_hotmapOf, Nat.mod_eq_of_lt fits]
  counts := by
    intro dir
    have tallies := HotmapAggregator.tallies_dirKey commits dir.nonempty dir.named
    have within := @touched_le commits dir.names
    rw [Std.TreeMap.getD_eq_getD_getElem?, tallies]
    split
    · next zero => exact zero.symm
    · exact Nat.mod_eq_of_lt (by omega)
  ordered := pairwise_suggestPatterns _
  suggested := by
    intro pattern
    rw [mem_suggestPatterns_hotmapOf]
    apply exists_congr
    intro name
    have within := @touched_le commits [name]
    have total_fits := Nat.mod_eq_of_lt fits
    have count_fits : touched commits [name] % 2 ^ 64 = touched commits [name] :=
      Nat.mod_eq_of_lt (by omega)
    have agree := same (touched commits [name])
    constructor
    · rintro ⟨⟨is_name, outside, some_commit, occurs, share_high⟩, rfl⟩
      rw [count_fits, total_fits] at share_high
      exact ⟨is_name, rfl, outside, occurs, (agree (by omega) within).1 share_high⟩
    · rintro ⟨is_name, rfl, outside, occurs, share_high⟩
      refine ⟨⟨is_name, outside, by omega, occurs, ?_⟩, rfl⟩
      rw [count_fits, total_fits]
      exact (agree (by omega) within).2 share_high

theorem HotmapExact.suggests_dir_iff {high : Nat → Nat → Prop}
    (exact_map : HotmapExact high commits) {name : Name} :
    dirKey [name] ∈ suggestPatterns (hotmapOf commits) ↔
      IsName name ∧ dirKey [name] ∉ docsAllowlist ∧ 0 < touched commits [name] ∧
        high (touched commits [name]) commits.length := by
  rw [exact_map.suggested]
  constructor
  · rintro ⟨other, is_name, same, outside, occurs, share_high⟩
    have texts := String.ofList_injective same
    simp only [dirText, join_singleton] at texts
    cases List.append_cancel_right texts
    exact ⟨is_name, outside, occurs, share_high⟩
  · rintro ⟨is_name, outside, occurs, share_high⟩
    exact ⟨name, is_name, rfl, outside, occurs, share_high⟩

end Commits

/-- The hotmap is exact, and the shares are compared as `f64` does it; up to `2 ^ 53` commits that is
the exact comparison. -/
theorem hotmapExact (commits : List (List RelPath)) (fits : commits.length < 2 ^ 64) :
    HotmapExact HighShareF64 commits ∧
      (commits.length ≤ 2 ^ 53 → HotmapExact HighShare commits) := by
  constructor
  · apply hotmapExact_of_high fits
    intro count some_commit _
    exact highShareThreshold_le_iff some_commit
  · intro small
    apply hotmapExact_of_high fits
    intro count some_commit within
    exact highShareThreshold_le_iff_exact some_commit small within

/-- The path `src/a.rs`. -/
def srcPath : RelPath where
  names := ["src".toList, "a.rs".toList]
  nonempty := by simp
  named := by decide +kernel

/-- The path `lib/b.rs`. -/
def libPath : RelPath where
  names := ["lib".toList, "b.rs".toList]
  nonempty := by simp
  named := by decide +kernel

/-- The path `docs/c.md`. -/
def docsPath : RelPath where
  names := ["docs".toList, "c.md".toList]
  nonempty := by simp
  named := by decide +kernel

/-- Of 21 commits two touch `src`, one `lib` and all but one the documentation. -/
def fewCommits : List (List RelPath) :=
    [srcPath] :: [srcPath, libPath, docsPath] :: List.replicate 19 [docsPath]

theorem touched_fewCommits : touched fewCommits ["src".toList] = 2 ∧
    touched fewCommits ["lib".toList] = 1 ∧ touched fewCommits ["docs".toList] = 20 := by
  decide +kernel

theorem hotmapExact_fewCommits :
    fewCommits.length < 2 ^ 64 ∧ HotmapExact HighShare fewCommits ∧
      dirKey ["src".toList] ∈ suggestPatterns (hotmapOf fewCommits) ∧
      dirKey ["lib".toList] ∉ suggestPatterns (hotmapOf fewCommits) ∧
      dirKey ["docs".toList] ∉ suggestPatterns (hotmapOf fewCommits) := by
  rcases touched_fewCommits with ⟨src, lib, -⟩
  have exact_map := (hotmapExact fewCommits (by decide)).2 (by decide)
  rw [exact_map.suggests_dir_iff, exact_map.suggests_dir_iff, exact_map.suggests_dir_iff, src, lib]
  refine ⟨by decide, exact_map, ?_, ?_, ?_⟩
  · exact ⟨by decide +kernel, by decide +kernel, by decide, by unfold HighShare; decide⟩
  · rintro ⟨-, -, -, high⟩
    exact absurd high (by unfold HighShare; decide)
  · rintro ⟨-, outside, -⟩
    exact outside (by decide +kernel)

/-- One commit more than twenty times those that touch `src`, past `2 ^ 53` of them. -/
def manyCommits : List (List RelPath) :=
    List.replicate 450359962737050 [srcPath] ++ List.replicate 8556839292003951 []

theorem length_manyCommits : manyCommits.length = 9007199254741001 := by
  rw [manyCommits, List.length_append, List.length_replicate, List.length_replicate]

theorem touched_manyCommits : touched manyCommits ["src".toList] = 450359962737050 := by
  have touches : (∃ path ∈ [srcPath], RelPath.Below ["src".toList] path) := by decide +kernel
  rw [touched, manyCommits, List.countP_append, List.countP_replicate, List.countP_replicate]
  simp only [touches, decide_true, if_true]
  simp

/-- The rounded total is twenty times the count. -/
theorem nearest_length_manyCommits : nearest 52 (9007199254741001 : ℕ) = 9007199254741000 := by
  have unit : BinaryRounding.ulp 52 ((9007199254741001 : ℕ) : ℚ) = 2 := by
    rw [BinaryRounding.ulp, BinaryRounding.log_of_bounds (e := 53) (by norm_num) (by norm_num)]
    norm_num
  have floor_eq : ⌊(((9007199254741001 : ℕ) : ℚ) / 2)⌋ = 4503599627370500 := by
    rw [Int.floor_eq_iff]
    norm_num
  have rounded : BinaryRounding.roundEven (((9007199254741001 : ℕ) : ℚ) / 2) =
      4503599627370500 := by
    rw [BinaryRounding.roundEven, floor_eq]
    norm_num
  rw [nearest, unit, rounded]
  norm_num

/-- Past `2 ^ 53` commits a share below five percent is suggested, and at `2 ^ 64` the total is
zero. -/
theorem not_hotmapExact_manyCommits :
    (hotmapOf (List.replicate (2 ^ 64) [])).total = 0 ∧
      ¬∀ commits, HotmapExact HighShare commits := by
  constructor
  · rw [HotmapAggregator.total_hotmapOf, List.length_replicate, Nat.mod_self]
  · intro all
    have suggested : dirKey ["src".toList] ∈ suggestPatterns (hotmapOf manyCommits) := by
      rw [mem_suggestPatterns_hotmapOf]
      refine ⟨"src".toList, ⟨by decide +kernel, by decide +kernel, ?_, ?_, ?_⟩, rfl⟩
      · rw [length_manyCommits]
        norm_num
      · rw [touched_manyCommits]
        norm_num
      · rw [length_manyCommits, touched_manyCommits,
          Nat.mod_eq_of_lt (show 450359962737050 < 2 ^ 64 by norm_num),
          Nat.mod_eq_of_lt (show 9007199254741001 < 2 ^ 64 by norm_num),
          highShareThreshold_le_iff (by norm_num), nearest_length_manyCommits,
          BinaryRounding.nearest_natCast (by norm_num)]
        norm_num
    rcases (all manyCommits).suggests_dir_iff.1 suggested with ⟨-, -, -, high⟩
    rw [HighShare, length_manyCommits, touched_manyCommits] at high
    norm_num at high

end Ohara
