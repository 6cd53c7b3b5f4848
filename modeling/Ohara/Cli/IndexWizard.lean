import Ohara.Library.CommandLine
import Ohara.Library.ShellWords
import Ohara.Library.Utf8
import Ohara.Retriever.Since

/-!
# The command of the index wizard

The wizard assembles the arguments of `ohara index` from the answers and shows the command that
says the same. The path of the repository goes into that line as it is, after a lossy decoding, so
the line is read back only where the path is a plain word that does not look like an option.
-/

namespace Ohara

namespace IndexWizard

open CommandLine
open ShellWords (PlainWord)

/-- The values of `--embed-provider`. -/
inductive ProviderArg where
  | auto
  | cpu
  | coreml
  | cuda
deriving DecidableEq

/-- The values of `--resources`. -/
inductive ResourcesArg where
  | auto
  | conservative
  | aggressive
deriving DecidableEq

/-- The values of `--embed-cache`. -/
inductive EmbedCacheArg where
  | off
  | semantic
  | diff
deriving DecidableEq

/-- The path is what the operating system has of it: bytes. -/
structure Args where
  path : List UInt8
  interactive : Bool
  incremental : Bool
  force : Bool
  rebuild : Bool
  yes : Bool
  commitBatch : Option UInt64
  embedBatch : Option UInt64
  threads : Option UInt64
  noProgress : Bool
  profile : Bool
  embedProvider : Option ProviderArg
  resources : ResourcesArg
  embedCache : EmbedCacheArg
  workers : Option UInt64
deriving DecidableEq

/-! ## Answers -/

/-- The providers offered by the wizard. -/
inductive ProviderChoice where
  | auto
  | cpu
  | coreml
  | cuda
deriving DecidableEq

/-- What the choice puts on the command line; `auto` puts nothing. -/
def ProviderChoice.toProviderArg : ProviderChoice → Option ProviderArg
  | .auto => none
  | .cpu => some .cpu
  | .coreml => some .coreml
  | .cuda => some .cuda

/-- The kinds of runs offered by the wizard. -/
inductive ModeChoice where
  | standard
  | incremental
  | force
  | rebuild
deriving DecidableEq

/-- What the user chose. -/
structure WizardAnswers where
  provider : ProviderChoice
  intensity : ResourcesArg
  mode : ModeChoice
  threads : Option UInt64
  workers : Option UInt64
  commitBatch : Option UInt64
  embedBatch : Option UInt64
  embedCache : EmbedCacheArg
  noProgress : Bool
  profile : Bool

/-- The answers of a plain `ohara index`. -/
def WizardAnswers.default : WizardAnswers where
  provider := .auto
  intensity := .auto
  mode := .standard
  threads := none
  workers := none
  commitBatch := none
  embedBatch := none
  embedCache := .off
  noProgress := false
  profile := false

/-- The arguments of `ohara index` alone. -/
def Args.default : Args where
  path := Utf8.encode ['.']
  interactive := false
  incremental := false
  force := false
  rebuild := false
  yes := false
  commitBatch := none
  embedBatch := none
  threads := none
  noProgress := false
  profile := false
  embedProvider := none
  resources := .auto
  embedCache := .off
  workers := none

/-- The answers on top of the arguments the command was started with. -/
def assembleArgs (ans : WizardAnswers) (base : Args) : Args where
  path := base.path
  interactive := false
  incremental := ans.mode == .incremental
  force := ans.mode == .force
  rebuild := ans.mode == .rebuild
  yes := ans.mode == .rebuild
  commitBatch := ans.commitBatch
  embedBatch := ans.embedBatch
  threads := ans.threads
  noProgress := ans.noProgress
  profile := ans.profile
  embedProvider := ans.provider.toProviderArg
  resources := ans.intensity
  embedCache := ans.embedCache
  workers := ans.workers

/-! ## The line -/

/-- The provider as it is shown. -/
def providerArgStr : ProviderArg → Word
  | .auto => "auto".toList
  | .cpu => "cpu".toList
  | .coreml => "coreml".toList
  | .cuda => "cuda".toList

/-- The resource plan as it is shown. -/
def resourcesStr : ResourcesArg → Word
  | .auto => "auto".toList
  | .conservative => "conservative".toList
  | .aggressive => "aggressive".toList

/-- The cache mode as it is shown. -/
def embedCacheStr : EmbedCacheArg → Word
  | .off => "off".toList
  | .semantic => "semantic".toList
  | .diff => "diff".toList

/-- A number as it is displayed. -/
def numberStr (n : UInt64) : Word :=
    Nat.toDigits 10 n.toNat

/-- A flag, when the field is set. -/
def pushFlag (name : String) (field : Bool) : List Word :=
    if field then [name.toList] else []

/-- An option and its value, when there is one. -/
def pushOption (name : String) (value : Option Word) : List Word :=
    match value with
    | some v => [name.toList, v]
    | none => []

/-- A value that is left out where it is the default. -/
def notDefault {α : Type} [DecidableEq α] (default value : α) : Option α :=
    if value ≠ default then some value else none

/-- The parts of the line that come before the path. -/
def optionParts (a : Args) : List Word :=
    pushOption "--embed-provider" (a.embedProvider.map providerArgStr)
      ++ pushOption "--resources" ((notDefault .auto a.resources).map resourcesStr)
      ++ pushFlag "--incremental" a.incremental
      ++ pushFlag "--force" a.force
      ++ pushFlag "--rebuild" a.rebuild
      ++ pushFlag "--yes" a.rebuild
      ++ pushOption "--commit-batch" (a.commitBatch.map numberStr)
      ++ pushOption "--embed-batch" (a.embedBatch.map numberStr)
      ++ pushOption "--threads" (a.threads.map numberStr)
      ++ pushOption "--workers" (a.workers.map numberStr)
      ++ pushOption "--embed-cache" ((notDefault .off a.embedCache).map embedCacheStr)
      ++ pushFlag "--no-progress" a.noProgress
      ++ pushFlag "--profile" a.profile

/-- The parts are joined by blanks, and nothing is quoted. -/
def argsToCommand (a : Args) : List Char :=
    let path := Utf8.decodeLossy a.path
    let parts := "ohara".toList :: "index".toList :: optionParts a
    Words.joined ' ' (parts ++ if path ≠ ['.'] then [path] else [])

/-! ## The argument grammar -/

/-- The options without a value. -/
inductive ArgFlag where
  | interactive
  | incremental
  | force
  | rebuild
  | yes
  | noProgress
  | profile
deriving DecidableEq

/-- The options with a value. -/
inductive ArgOption where
  | commitBatch
  | embedBatch
  | threads
  | embedProvider
  | resources
  | embedCache
  | workers
deriving DecidableEq

/-- The name after the two dashes. -/
def longName : ArgFlag ⊕ ArgOption → Word
  | .inl .interactive => "interactive".toList
  | .inl .incremental => "incremental".toList
  | .inl .force => "force".toList
  | .inl .rebuild => "rebuild".toList
  | .inl .yes => "yes".toList
  | .inl .noProgress => "no-progress".toList
  | .inl .profile => "profile".toList
  | .inr .commitBatch => "commit-batch".toList
  | .inr .embedBatch => "embed-batch".toList
  | .inr .threads => "threads".toList
  | .inr .embedProvider => "embed-provider".toList
  | .inr .resources => "resources".toList
  | .inr .embedCache => "embed-cache".toList
  | .inr .workers => "workers".toList

/-- In the order in which the fields are declared. -/
def argKeys : List (ArgFlag ⊕ ArgOption) :=
    [.inl .interactive, .inl .incremental, .inl .force, .inl .rebuild, .inl .yes,
      .inr .commitBatch, .inr .embedBatch, .inr .threads, .inl .noProgress, .inl .profile,
      .inr .embedProvider, .inr .resources, .inr .embedCache, .inr .workers]

theorem mem_argKeys (key : ArgFlag ⊕ ArgOption) : key ∈ argKeys := by
  rcases key with f | o
  · cases f <;> simp [argKeys]
  · cases o <;> simp [argKeys]

/-- The grammar of `ohara index`. A request for help ends the program, like an error. -/
def indexGrammar : Grammar ArgFlag ArgOption where
  long := longName
  named name := argKeys.find? fun key => longName key = name
  short c := if c = 'i' then some .interactive else none
  named_long key := by
    have named : ∀ key ∈ argKeys,
        argKeys.find? (fun key' => longName key' = longName key) = some key := by decide
    exact named key (mem_argKeys key)
  long_ne_nil key := by
    have named : ∀ key ∈ argKeys, longName key ≠ [] := by decide
    exact named key (mem_argKeys key)
  no_equals key := by
    have named : ∀ key ∈ argKeys, '=' ∉ longName key := by decide
    exact named key (mem_argKeys key)

/-- `str::parse` at `usize`. -/
def parseUsize (text : Word) : Option UInt64 :=
    let digits :=
      match text with
      | '+' :: rest => rest
      | _ => text
    (FindPattern.readDigits digits).bind fun n => if n < 2 ^ 64 then some (UInt64.ofNat n) else none

/-- The value of an enumeration by its name on the command line. -/
def valueEnum {α : Type} (values : List (Word × α)) (text : Word) : Option α :=
    (values.find? fun value => value.1 = text).map Prod.snd

/-- The provider of a word. -/
def ProviderArg.parse : Word → Option ProviderArg :=
    valueEnum [("auto".toList, .auto), ("cpu".toList, .cpu), ("coreml".toList, .coreml),
      ("cuda".toList, .cuda)]

/-- The resource plan of a word. -/
def ResourcesArg.parse : Word → Option ResourcesArg :=
    valueEnum [("auto".toList, .auto), ("conservative".toList, .conservative),
      ("aggressive".toList, .aggressive)]

/-- The cache mode of a word. -/
def EmbedCacheArg.parse : Word → Option EmbedCacheArg :=
    valueEnum [("off".toList, .off), ("semantic".toList, .semantic), ("diff".toList, .diff)]

/-- An option that was not given has no value; a value that is not read is an error. -/
def typed {α : Type} (parse : Word → Option α) : Option Word → Option (Option α)
  | none => some none
  | some text => (parse text).map some

/-- An empty path is refused, and so is a second one. -/
def pathOf : List Word → Option (List UInt8)
  | [] => some (Utf8.encode ['.'])
  | [text] => if text = [] then none else some (Utf8.encode text)
  | _ => none

/-- What the declared conflicts and requirements say of the flags. -/
def Consistent (items : List (Item ArgFlag ArgOption)) : Prop :=
    (keys items).Nodup
      ∧ (given items .rebuild = true →
        given items .incremental = false ∧ given items .force = false)
      ∧ (given items .yes = true → given items .rebuild = true)

instance (items : List (Item ArgFlag ArgOption)) : Decidable (Consistent items) :=
    inferInstanceAs (Decidable (_ ∧ _))

/-- The arguments that a command line gives, when its options go together. -/
def Args.ofItems (items : List (Item ArgFlag ArgOption)) : Option Args :=
    if Consistent items then do
      let path ← pathOf (positionals items)
      let commitBatch ← typed parseUsize (valueOf items .commitBatch)
      let embedBatch ← typed parseUsize (valueOf items .embedBatch)
      let threads ← typed parseUsize (valueOf items .threads)
      let embedProvider ← typed ProviderArg.parse (valueOf items .embedProvider)
      let resources ← typed ResourcesArg.parse (valueOf items .resources)
      let embedCache ← typed EmbedCacheArg.parse (valueOf items .embedCache)
      let workers ← typed parseUsize (valueOf items .workers)
      some
        { path := path
          interactive := given items .interactive
          incremental := given items .incremental
          force := given items .force
          rebuild := given items .rebuild
          yes := given items .yes
          commitBatch := commitBatch
          embedBatch := embedBatch
          threads := threads
          noProgress := given items .noProgress
          profile := given items .profile
          embedProvider := embedProvider
          resources := resources.getD .auto
          embedCache := embedCache.getD .off
          workers := workers }
    else none

/-- The program, the subcommand, and the words of its arguments. -/
def parseCommand (words : List Word) : Option Args :=
    match words with
    | program :: command :: rest =>
        if program = "ohara".toList ∧ command = "index".toList then
          (indexGrammar.read rest).bind Args.ofItems
        else none
    | _ => none

/-- The words a shell hands over for the printed line, in every environment, are parsed to the
arguments it was printed from. -/
def Equivalent (ans : WizardAnswers) (base : Args) : Prop :=
    (ShellWords.split (argsToCommand (assembleArgs ans base))).bind parseCommand
      = some (assembleArgs ans base)

/-- A path that the shell hands over as it is written, with nothing to quote and nothing to expand,
and that is not taken for an option. -/
def Unquoted (path : List UInt8) : Prop :=
    ∃ text, path = Utf8.encode text ∧ PlainWord text ∧ isOption text = false

/-! ## What is printed is read back -/

/-- The options and flags of the line. -/
def itemsOf (a : Args) : List (Item ArgFlag ArgOption) :=
    List.flatten
      [valued .embedProvider (a.embedProvider.map providerArgStr),
        valued .resources ((notDefault .auto a.resources).map resourcesStr),
        flagged .incremental a.incremental,
        flagged .force a.force,
        flagged .rebuild a.rebuild,
        flagged .yes a.rebuild,
        valued .commitBatch (a.commitBatch.map numberStr),
        valued .embedBatch (a.embedBatch.map numberStr),
        valued .threads (a.threads.map numberStr),
        valued .workers (a.workers.map numberStr),
        valued .embedCache ((notDefault .off a.embedCache).map embedCacheStr),
        flagged .noProgress a.noProgress,
        flagged .profile a.profile]

theorem write_valued {name : String} {o : ArgOption}
    (spelled : name.toList = indexGrammar.dashed (.inr o)) (value : Option Word) :
    (valued o value).flatMap indexGrammar.write = pushOption name value := by
  cases value with
  | none => rfl
  | some v => simp [valued, pushOption, spelled, Grammar.write]

theorem write_flagged {name : String} {f : ArgFlag}
    (spelled : name.toList = indexGrammar.dashed (.inl f)) (field : Bool) :
    (flagged f field).flatMap indexGrammar.write = pushFlag name field := by
  cases field with
  | false => rfl
  | true => simp [flagged, pushFlag, spelled, Grammar.write]

theorem write_itemsOf (a : Args) : (itemsOf a).flatMap indexGrammar.write = optionParts a := by
  simp only [itemsOf, List.flatten_cons, List.flatten_nil, List.append_nil, List.flatMap_append,
    optionParts, List.append_assoc]
  repeat' apply congrArg₂ (· ++ ·)
  all_goals first | exact write_valued rfl _ | exact write_flagged rfl _

theorem isDigit_of_mem_numberStr {n : UInt64} {c : Char} (c_mem : c ∈ numberStr n) :
    c.isDigit = true :=
  Nat.isDigit_of_mem_toDigits (by decide) (by decide) c_mem

theorem parseUsize_numberStr (n : UInt64) : parseUsize (numberStr n) = some n := by
  have digits : ∀ c ∈ numberStr n, c.isDigit = true := fun _ => isDigit_of_mem_numberStr
  have value : FindPattern.readDigits (numberStr n) = some n.toNat := by
    rw [FindPattern.readDigits, if_pos ⟨Nat.toDigits_ne_nil, List.all_eq_true.2 digits⟩, numberStr,
      Nat.ofDigitChars_ten_toDigits]
  unfold parseUsize
  split
  case h_1 rest plus =>
    have digit := digits '+' (by simp [plus])
    simp at digit
  · simp [value, n.toNat_lt]

theorem parse_providerArgStr (p : ProviderArg) : ProviderArg.parse (providerArgStr p) = some p := by
  cases p <;> rfl

theorem parse_resourcesStr (r : ResourcesArg) : ResourcesArg.parse (resourcesStr r) = some r := by
  cases r <;> rfl

theorem parse_embedCacheStr (c : EmbedCacheArg) :
    EmbedCacheArg.parse (embedCacheStr c) = some c := by
  cases c <;> rfl

theorem typed_map {α : Type} {parse : Word → Option α} {display : α → Word}
    (reads : ∀ x, parse (display x) = some x) (value : Option α) :
    typed parse (value.map display) = some value := by
  cases value with
  | none => rfl
  | some x => simp [typed, reads]

@[simp]
theorem getD_notDefault {α : Type} [DecidableEq α] (default value : α) :
    (notDefault default value).getD default = value := by
  unfold notDefault
  split
  · rfl
  · next same => simpa using (not_not.1 same).symm

/-- In the order of the line. -/
def printedKeys : List (ArgFlag ⊕ ArgOption) :=
    [.inr .embedProvider, .inr .resources, .inl .incremental, .inl .force, .inl .rebuild, .inl .yes,
      .inr .commitBatch, .inr .embedBatch, .inr .threads, .inr .workers, .inr .embedCache,
      .inl .noProgress, .inl .profile]

theorem keys_itemsOf (a : Args) : (keys (itemsOf a)).Sublist printedKeys := by
  simp only [itemsOf, List.flatten_cons, List.flatten_nil, List.append_nil, keys_append]
  repeat' apply sublist_cons_of_append
  all_goals first | exact keys_valued | exact keys_flagged

theorem consistent_itemsOf (ans : WizardAnswers) (base : Args) (words : List Word) :
    Consistent (itemsOf (assembleArgs ans base) ++ words.map .positional) := by
  refine ⟨?_, ?_, ?_⟩
  · have order : printedKeys.Nodup := by decide
    rw [keys_append, keys_positionals, List.append_nil]
    exact order.sublist (keys_itemsOf _)
  · cases mode : ans.mode <;> simp [itemsOf, assembleArgs, mode]
  · simp [itemsOf]

/-- The options and flags are read back, whatever path is given. -/
theorem ofItems_itemsOf (ans : WizardAnswers) (base : Args) (words : List Word) :
    Args.ofItems (itemsOf (assembleArgs ans base) ++ words.map .positional)
      = (pathOf words).map fun path => { assembleArgs ans base with path := path } := by
  rw [Args.ofItems, if_pos (consistent_itemsOf ans base words)]
  cases path : pathOf words with
  | none => simp [itemsOf, path]
  | some path' =>
      simp [itemsOf, path, assembleArgs, typed_map parseUsize_numberStr,
        typed_map parse_providerArgStr, typed_map parse_resourcesStr, typed_map parse_embedCacheStr]

example :
    Words.joined ' ' (optionParts (assembleArgs { WizardAnswers.default with
      provider := .coreml, mode := .force, threads := some 4, embedCache := .diff } Args.default))
      = "--embed-provider coreml --force --threads 4 --embed-cache diff".toList := by decide

/-! ## The words of the line -/

theorem plain_numberStr (n : UInt64) : PlainWord (numberStr n) := by
  have no_digit : ShellWords.specials.all (fun c => !c.isDigit) = true := by decide
  rw [List.all_eq_true] at no_digit
  apply ShellWords.plainWord_of_not_special Nat.toDigits_ne_nil
  intro c c_mem special
  have digit : c.isDigit = true := isDigit_of_mem_numberStr c_mem
  have other := no_digit c special
  simp [digit] at other

theorem plain_pushFlag {name : String} (plain : PlainWord name.toList) (field : Bool) :
    ∀ word ∈ pushFlag name field, PlainWord word := by
  cases field <;> simp [pushFlag, plain]

theorem plain_pushOption {α : Type} {name : String} {display : α → Word}
    (plain : PlainWord name.toList) (plain_value : ∀ x, PlainWord (display x)) (value : Option α) :
    ∀ word ∈ pushOption name (value.map display), PlainWord word := by
  cases value <;> simp [pushOption, plain, plain_value]

theorem plain_optionParts (a : Args) : ∀ word ∈ optionParts a, PlainWord word := by
  have provider : ∀ p, PlainWord (providerArgStr p) := by
    intro p
    cases p <;> decide
  have resources : ∀ r, PlainWord (resourcesStr r) := by
    intro r
    cases r <;> decide
  have embedCache : ∀ c, PlainWord (embedCacheStr c) := by
    intro c
    cases c <;> decide
  simp only [optionParts, List.forall_mem_append, and_assoc]
  refine ⟨plain_pushOption (by decide) provider _, plain_pushOption (by decide) resources _,
    plain_pushFlag (by decide) _, plain_pushFlag (by decide) _, plain_pushFlag (by decide) _,
    plain_pushFlag (by decide) _, plain_pushOption (by decide) plain_numberStr _,
    plain_pushOption (by decide) plain_numberStr _, plain_pushOption (by decide) plain_numberStr _,
    plain_pushOption (by decide) plain_numberStr _, plain_pushOption (by decide) embedCache _,
    plain_pushFlag (by decide) _, plain_pushFlag (by decide) _⟩

theorem plain_parts (a : Args) :
    ∀ word ∈ "ohara".toList :: "index".toList :: optionParts a, PlainWord word := by
  rw [List.forall_mem_cons, List.forall_mem_cons]
  exact ⟨by decide, by decide, plain_optionParts a⟩

/-- What the shell makes of the end of the line. -/
def pathWords (path : List UInt8) : Option (List Word) :=
    if Utf8.decodeLossy path ≠ ['.'] then ShellWords.split (Utf8.decodeLossy path) else some []

theorem split_argsToCommand (a : Args) :
    ShellWords.split (argsToCommand a)
      = (pathWords a.path).map ("ohara".toList :: "index".toList :: optionParts a ++ ·) := by
  rw [argsToCommand, pathWords]
  by_cases here : Utf8.decodeLossy a.path = ['.']
  · rw [if_neg (not_not.2 here), if_neg (not_not.2 here), List.append_nil,
      ShellWords.split_joined (plain_parts a)]
    simp
  · rw [if_pos here, if_pos here, ShellWords.split_joined_append (plain_parts a)]

theorem writable_valued {α : Type} {display : α → Word} (o : ArgOption)
    (value_plain : ∀ x, isOption (display x) = false) (value : Option α) :
    ∀ item ∈ (valued o (value.map display) : List (Item ArgFlag ArgOption)), item.Writable := by
  cases value <;> simp [valued, Item.Writable, value_plain]

theorem writable_flagged (f : ArgFlag) (field : Bool) :
    ∀ item ∈ (flagged f field : List (Item ArgFlag ArgOption)), item.Writable := by
  cases field <;> simp [flagged, Item.Writable]

theorem isOption_numberStr (n : UInt64) : isOption (numberStr n) = false := by
  unfold isOption
  split
  · next dash =>
      have digit := isDigit_of_mem_numberStr (n := n) (c := '-') (by simp [dash])
      simp at digit
  · rfl

theorem writable_itemsOf (a : Args) : ∀ item ∈ itemsOf a, item.Writable := by
  have provider : ∀ p, isOption (providerArgStr p) = false := by
    intro p
    cases p <;> rfl
  have resources : ∀ r, isOption (resourcesStr r) = false := by
    intro r
    cases r <;> rfl
  have embedCache : ∀ c, isOption (embedCacheStr c) = false := by
    intro c
    cases c <;> rfl
  simp only [itemsOf, List.flatten_cons, List.flatten_nil, List.append_nil, List.forall_mem_append]
  exact ⟨writable_valued _ provider _, writable_valued _ resources _, writable_flagged _ _,
    writable_flagged _ _, writable_flagged _ _, writable_flagged _ _,
    writable_valued _ isOption_numberStr _, writable_valued _ isOption_numberStr _,
    writable_valued _ isOption_numberStr _, writable_valued _ isOption_numberStr _,
    writable_valued _ embedCache _, writable_flagged _ _, writable_flagged _ _⟩

theorem parseCommand_cons (words : List Word) :
    parseCommand ("ohara".toList :: "index".toList :: words)
      = (indexGrammar.read words).bind Args.ofItems := by
  simp [parseCommand]

theorem parseCommand_parts (a : Args) (words : List Word) :
    parseCommand ("ohara".toList :: "index".toList :: optionParts a ++ words)
      = (indexGrammar.read words).bind fun items => Args.ofItems (itemsOf a ++ items) := by
  have written := Grammar.read_write_append (g := indexGrammar) (writable_itemsOf a) words
  rw [write_itemsOf] at written
  rw [List.cons_append, List.cons_append, parseCommand_cons, written, Option.bind_map]
  simp

/-- The line is read back as its options, and as what the words of the path are read as. -/
theorem parse_argsToCommand (a : Args) :
    (ShellWords.split (argsToCommand a)).bind parseCommand
      = (pathWords a.path).bind fun words =>
          (indexGrammar.read words).bind fun items => Args.ofItems (itemsOf a ++ items) := by
  rw [split_argsToCommand, Option.bind_map]
  simp only [Function.comp_def, parseCommand_parts]

theorem path_of_ofItems {items : List (Item ArgFlag ArgOption)} {a : Args}
    (parsed : Args.ofItems items = some a) : pathOf (positionals items) = some a.path := by
  unfold Args.ofItems at parsed
  split at parsed
  · cases path : pathOf (positionals items) with
    | none => simp [path] at parsed
    | some path' =>
        simp only [path, Option.bind_eq_bind, Option.bind_some, Option.bind_eq_some_iff,
          Option.some.injEq] at parsed
        rcases parsed with ⟨_, _, _, _, _, _, _, _, _, _, _, _, _, _, rfl⟩
        rfl
  · cases parsed

theorem positionals_itemsOf (a : Args) : positionals (itemsOf a) = [] := by
  simp [itemsOf]

/-- Where the path is among the words it is read as, it is the only one, and no option. -/
theorem unquoted_of_read {text : Word} {words : List Word} {items : List (Item ArgFlag ArgOption)}
    (words_found : pathWords (Utf8.encode text) = some words)
    (items_read : indexGrammar.read words = some items) (named : positionals items = [text]) :
    Unquoted (Utf8.encode text) := by
  have text_item : .positional text ∈ items := mem_positionals.1 (by simp [named])
  have text_mem : text ∈ words := Grammar.mem_of_positional_mem items_read text_item
  rw [pathWords, Utf8.decodeLossy_encode] at words_found
  split at words_found
  · have plain := ShellWords.plainWord_of_mem_split words_found text_mem
    rw [ShellWords.split_word plain] at words_found
    cases words_found
    refine ⟨text, rfl, plain, ?_⟩
    rw [Bool.eq_false_iff]
    intro dash
    exact Grammar.not_positional_of_read_singleton dash items_read text text_item
  · cases words_found
    cases text_mem

theorem read_positionals {words : List Word} (no_options : ∀ word ∈ words, isOption word = false) :
    indexGrammar.read words = some (words.map .positional) := by
  have writable : ∀ item ∈ (words.map .positional : List (Item ArgFlag ArgOption)),
      item.Writable := by
    simpa [Item.Writable] using no_options
  have written := Grammar.read_write_append (g := indexGrammar) writable []
  simpa [List.flatMap_map, Grammar.write, Grammar.read] using written

theorem pathWords_of_plain {text : Word} (plain : PlainWord text) :
    pathWords (Utf8.encode text) = some (if text = ['.'] then [] else [text]) := by
  rw [pathWords, Utf8.decodeLossy_encode]
  by_cases here : text = ['.']
  · rw [if_neg (not_not.2 here), if_pos here]
  · rw [if_pos here, if_neg here, ShellWords.split_word plain]

/-- The printed line says the same exactly when the path needs no quotes. -/
theorem equivalent_iff_unquoted (ans : WizardAnswers) (base : Args) :
    Equivalent ans base ↔ Unquoted base.path := by
  have path_kept : (assembleArgs ans base).path = base.path := rfl
  rw [Equivalent, parse_argsToCommand, path_kept]
  constructor
  · intro equivalent
    rcases Option.bind_eq_some_iff.1 equivalent with ⟨words, words_found, rest⟩
    rcases Option.bind_eq_some_iff.1 rest with ⟨items, items_read, parsed⟩
    have path := path_of_ofItems parsed
    rw [positionals_append, positionals_itemsOf, List.nil_append, path_kept] at path
    match named : positionals items with
    | [] =>
        rw [named] at path
        exact ⟨['.'], (Option.some.inj path).symm, by decide, rfl⟩
    | [text] =>
        rw [named, pathOf] at path
        split at path
        · cases path
        have spelled : base.path = Utf8.encode text := (Option.some.inj path).symm
        rw [spelled] at words_found ⊢
        exact unquoted_of_read words_found items_read named
    | _ :: _ :: _ =>
        rw [named] at path
        cases path
  · rintro ⟨text, spelled, plain, no_option⟩
    have read : indexGrammar.read (if text = ['.'] then [] else [text])
        = some ((if text = ['.'] then [] else [text]).map .positional) := by
      apply read_positionals
      split <;> simp [no_option]
    have path : pathOf (if text = ['.'] then [] else [text]) = some base.path := by
      rw [spelled]
      split
      · next here => rw [here, pathOf]
      · rw [pathOf, if_neg plain.nonempty]
    rw [spelled, pathWords_of_plain plain, Option.bind_some, read, Option.bind_some,
      ofItems_itemsOf, path]
    rfl

/-- A path with a blank. -/
def spacedArgs : Args :=
    { Args.default with path := Utf8.encode "/my repo".toList }

theorem pathWords_spacedArgs : pathWords spacedArgs.path = some ["/my".toList, "repo".toList] := by
  rw [spacedArgs, pathWords, Utf8.decodeLossy_encode]
  rfl

/-- A path with a blank is two words, and the second one is an argument too many. -/
theorem not_equivalent_spacedArgs : ¬ ∀ ans base, Equivalent ans base := by
  intro everywhere
  have equivalent := everywhere .default spacedArgs
  have path_kept : (assembleArgs .default spacedArgs).path = spacedArgs.path := rfl
  rw [Equivalent, parse_argsToCommand, path_kept, pathWords_spacedArgs, Option.bind_some,
    read_positionals (by decide), Option.bind_some, ofItems_itemsOf] at equivalent
  cases equivalent

end IndexWizard

end Ohara
