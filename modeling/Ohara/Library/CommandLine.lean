import Mathlib.Data.List.Nodup
import Mathlib.Data.List.TakeWhile
import Mathlib.Data.Sum.Basic

/-!
# Command lines

The words of a command line as flags, options with their values, and positional words. A value is
the rest of its word after an equals sign, or else the next word; one dash before letters is a
cluster of short flags, and a word of two dashes makes all words after it positional.
-/

namespace CommandLine

universe u v

/-- A word of a command line. -/
abbrev Word := List Char

/-- What a word, or an option with its value, says. -/
inductive Item (Flag : Type u) (Opt : Type v) where
  | flag (f : Flag)
  | option (o : Opt) (value : Word)
  | positional (word : Word)

/-- The names of the flags and of the options, each read back as what it names. -/
structure Grammar (Flag : Type u) (Opt : Type v) where
  long : Flag ⊕ Opt → Word
  named : Word → Option (Flag ⊕ Opt)
  short : Char → Option Flag
  named_long : ∀ key, named (long key) = some key
  long_ne_nil : ∀ key, long key ≠ []
  no_equals : ∀ key, '=' ∉ long key

/-- A word that is no value and no positional: a dash with something after it. -/
def isOption : Word → Bool
  | '-' :: _ :: _ => true
  | _ => false

/-- What a word alone says. -/
inductive Reading (Flag : Type u) (Opt : Type v) where
  | items (found : List (Item Flag Opt))
  | needs (o : Opt)
  | escape
  | refused

variable {Flag : Type u} {Opt : Type v} (g : Grammar Flag Opt)

namespace Grammar

/-- A word without its two dashes. -/
def readLong (body : Word) : Reading Flag Opt :=
    match g.named (body.takeWhile (· ≠ '=')), body.dropWhile (· ≠ '=') with
    | some (.inl f), [] => .items [.flag f]
    | some (.inr o), [] => .needs o
    | some (.inr o), _ :: value => .items [.option o value]
    | _, _ => .refused

/-- How a word is read. -/
def readWord : Word → Reading Flag Opt
  | ['-', '-'] => .escape
  | '-' :: '-' :: body => g.readLong body
  | '-' :: c :: cluster =>
      match (c :: cluster).mapM g.short with
      | some flags => .items (flags.map .flag)
      | none => .refused
  | word => .items [.positional word]

/-- The items of a command line; none is an error. -/
def read : List Word → Option (List (Item Flag Opt))
  | [] => some []
  | word :: rest =>
      match g.readWord word with
      | .items found => (read rest).map (found ++ ·)
      | .needs o =>
          match rest with
          | [] => none
          | value :: rest' =>
              if isOption value then none else (read rest').map (.option o value :: ·)
      | .escape => some (rest.map .positional)
      | .refused => none

/-- The long form of a flag or an option. -/
def dashed (key : Flag ⊕ Opt) : Word :=
    '-' :: '-' :: g.long key

/-- The words of an item. -/
def write : Item Flag Opt → List Word
  | .flag f => [g.dashed (.inl f)]
  | .option o value => [g.dashed (.inr o), value]
  | .positional word => [word]

end Grammar

/-- Values and positionals that are not read as options. -/
def Item.Writable : Item Flag Opt → Prop
  | .flag _ => True
  | .option _ value => isOption value = false
  | .positional word => isOption word = false

namespace Grammar

variable {g} {word : Word}

theorem readWord_dashed (key : Flag ⊕ Opt) :
    g.readWord (g.dashed key) = g.readLong (g.long key) := by
  cases name : g.long key with
  | nil => exact absurd name (g.long_ne_nil key)
  | cons c rest => simp [dashed, name, readWord]

theorem readLong_long (key : Flag ⊕ Opt) :
    g.readLong (g.long key)
      = match key with
        | .inl f => .items [.flag f]
        | .inr o => .needs o := by
  have letters : ∀ c ∈ g.long key, decide (c ≠ '=') = true := by
    intro c c_mem
    rw [decide_eq_true_iff]
    exact fun same => g.no_equals key (same ▸ c_mem)
  rw [readLong, List.takeWhile_eq_self_iff.2 letters, List.dropWhile_eq_nil_iff.2 letters,
    g.named_long]
  cases key with
  | inl f => rfl
  | inr o => rfl

theorem readWord_positional (plain : isOption word = false) :
    g.readWord word = .items [.positional word] := by
  unfold isOption at plain
  unfold readWord
  split <;> simp_all

theorem read_write {item : Item Flag Opt} (writable : item.Writable) (rest : List Word) :
    g.read (g.write item ++ rest) = (g.read rest).map (item :: ·) := by
  cases item with
  | flag f => simp [write, read, readWord_dashed, readLong_long]
  | option o value =>
      have plain : isOption value = false := writable
      simp [write, read, readWord_dashed, readLong_long, plain]
  | positional word => simp [write, read, readWord_positional writable]

/-- What is written is read back, whatever comes after it. -/
theorem read_write_append {items : List (Item Flag Opt)}
    (writable : ∀ item ∈ items, item.Writable) (rest : List Word) :
    g.read (items.flatMap g.write ++ rest) = (g.read rest).map (items ++ ·) := by
  induction items with
  | nil => simp
  | cons item items ih =>
      rw [List.forall_mem_cons] at writable
      rw [List.flatMap_cons, List.append_assoc, read_write writable.1, ih writable.2,
        Option.map_map]
      rfl

/-- An option word holds no positional. -/
theorem not_positional_of_isOption (dash : isOption word = true) {found : List (Item Flag Opt)}
    (read : g.readWord word = .items found) (w : Word) : .positional w ∉ found := by
  unfold readWord at read
  split at read
  case h_1 => cases read
  case h_2 =>
    unfold readLong at read
    split at read
    all_goals cases read
    all_goals simp
  case h_3 =>
    split at read
    · cases read
      simp
    · cases read
  case h_4 word_ne_escape word_ne_long word_ne_short =>
    unfold isOption at dash
    split at dash
    · exact absurd rfl (word_ne_short _ _)
    · cases dash

/-- A positional is not read from a single option word. -/
theorem not_positional_of_read_singleton (dash : isOption word = true)
    {items : List (Item Flag Opt)} (found : g.read [word] = some items) (w : Word) :
    .positional w ∉ items := by
  cases here : g.readWord word with
  | items found' =>
      have same : found' = items := by simpa [read, here] using found
      subst same
      exact not_positional_of_isOption dash here w
  | needs o => simp [read, here] at found
  | escape =>
      have none : items = [] := by simpa [read, here] using found.symm
      simp [none]
  | refused => simp [read, here] at found

/-- A positional is one of the words. -/
theorem mem_of_positional_mem {ws : List Word} {items : List (Item Flag Opt)} {w : Word}
    (found : g.read ws = some items) (w_mem : .positional w ∈ items) : w ∈ ws := by
  fun_induction g.read ws generalizing items with
  | case1 =>
      cases found
      cases w_mem
  | case2 word rest found_here read_here ih =>
      rcases Option.map_eq_some_iff.1 found with ⟨later, found_later, rfl⟩
      rcases List.mem_append.1 w_mem with here | after
      · cases dash : isOption word with
        | true => exact absurd here (not_positional_of_isOption dash read_here w)
        | false =>
            rw [readWord_positional dash] at read_here
            cases read_here
            cases List.mem_singleton.1 here
            exact List.mem_cons_self
      · exact List.mem_cons_of_mem word (ih found_later after)
  | case3 => cases found
  | case4 => cases found
  | case5 word o needed value rest plain ih =>
      rcases Option.map_eq_some_iff.1 found with ⟨later, found_later, rfl⟩
      have after : .positional w ∈ later := by simpa using w_mem
      exact List.mem_cons_of_mem word (List.mem_cons_of_mem value (ih found_later after))
  | case6 word rest =>
      cases found
      apply List.mem_cons_of_mem
      simpa using w_mem
  | case7 => cases found

end Grammar

/-! ## What was given -/

section Given

/-- The flag or option of an item. -/
def Item.key : Item Flag Opt → Option (Flag ⊕ Opt)
  | .flag f => some (.inl f)
  | .option o _ => some (.inr o)
  | .positional _ => none

/-- The flags and options in their order. -/
def keys (items : List (Item Flag Opt)) : List (Flag ⊕ Opt) :=
    items.filterMap Item.key

/-- The words that belong to no option. -/
def positionals (items : List (Item Flag Opt)) : List Word :=
    items.filterMap fun item =>
      match item with
      | .positional word => some word
      | _ => none

/-- A flag that may be left out. -/
def flagged (f : Flag) (present : Bool) : List (Item Flag Opt) :=
    if present then [.flag f] else []

/-- An option that may be left out. -/
def valued (o : Opt) (value : Option Word) : List (Item Flag Opt) :=
    (value.map (.option o)).toList

/-- The flag is there. -/
def given [DecidableEq Flag] (items : List (Item Flag Opt)) (f : Flag) : Bool :=
    items.any fun item =>
      match item with
      | .flag f' => decide (f' = f)
      | _ => false

/-- The value of the option, where it is there first. -/
def valueOf [DecidableEq Opt] (items : List (Item Flag Opt)) (o : Opt) : Option Word :=
    items.findSome? fun item =>
      match item with
      | .option o' value => if o' = o then some value else none
      | _ => none

variable {items later : List (Item Flag Opt)} {f f' : Flag} {o o' : Opt} {value : Option Word}
variable {present : Bool} {word : Word}

theorem mem_positionals : word ∈ positionals items ↔ .positional word ∈ items := by
  simp only [positionals, List.mem_filterMap]
  constructor
  · rintro ⟨item, item_mem, spelled⟩
    cases item with
    | flag f => cases spelled
    | option o value => cases spelled
    | positional w =>
        cases spelled
        exact item_mem
  · intro word_mem
    exact ⟨.positional word, word_mem, rfl⟩

@[simp]
theorem keys_append : keys (items ++ later) = keys items ++ keys later :=
  List.filterMap_append

@[simp]
theorem keys_positionals (ws : List Word) :
    keys (ws.map .positional : List (Item Flag Opt)) = [] := by
  simp [keys, List.filterMap_map, Function.comp_def, Item.key]

theorem keys_flagged : (keys (flagged f present : List (Item Flag Opt))).Sublist [.inl f] := by
  cases present <;> simp [flagged, keys, Item.key]

theorem keys_valued : (keys (valued o value : List (Item Flag Opt))).Sublist [.inr o] := by
  cases value <;> simp [valued, keys, Item.key]

theorem sublist_cons_of_append {α : Type u} {x : α} {xs ys rest : List α} (first : xs.Sublist [x])
    (later : ys.Sublist rest) : (xs ++ ys).Sublist (x :: rest) :=
  first.append later

@[simp]
theorem positionals_append :
    positionals (items ++ later) = positionals items ++ positionals later :=
  List.filterMap_append

@[simp]
theorem positionals_flagged : positionals (flagged f present : List (Item Flag Opt)) = [] := by
  cases present <;> rfl

@[simp]
theorem positionals_valued : positionals (valued o value : List (Item Flag Opt)) = [] := by
  cases value <;> rfl

@[simp]
theorem positionals_positionals (ws : List Word) :
    positionals (ws.map .positional : List (Item Flag Opt)) = ws := by
  simp [positionals, List.filterMap_map]

section Flags

variable [DecidableEq Flag]

@[simp]
theorem given_append : given (items ++ later) f = (given items f || given later f) :=
  List.any_append

@[simp]
theorem given_flagged :
    given (flagged f present : List (Item Flag Opt)) f' = (decide (f = f') && present) := by
  cases present <;> simp [given, flagged]

@[simp]
theorem given_valued : given (valued o value : List (Item Flag Opt)) f = false := by
  cases value <;> rfl

@[simp]
theorem given_positionals (ws : List Word) :
    given (ws.map .positional : List (Item Flag Opt)) f = false := by
  simp [given]

end Flags

section Options

variable [DecidableEq Opt]

@[simp]
theorem valueOf_append : valueOf (items ++ later) o = (valueOf items o).or (valueOf later o) :=
  List.findSome?_append

@[simp]
theorem valueOf_flagged : valueOf (flagged f present : List (Item Flag Opt)) o = none := by
  cases present <;> rfl

@[simp]
theorem valueOf_valued :
    valueOf (valued o value : List (Item Flag Opt)) o' = if o = o' then value else none := by
  cases value <;> simp [valueOf, valued]

@[simp]
theorem valueOf_positionals (ws : List Word) :
    valueOf (ws.map .positional : List (Item Flag Opt)) o = none := by
  simp [valueOf, List.findSome?_map, Function.comp_def]

end Options

end Given

end CommandLine
