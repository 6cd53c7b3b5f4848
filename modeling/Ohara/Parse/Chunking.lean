import Mathlib.Algebra.Ring.Int.Defs
import Ohara.Parse.Extract

/-!
# Atoms merged into chunks

The merge walk cuts the atoms into the greedy groups of their token estimates. A chunk is written
from the first atom's start to the last atom's end: it covers its atoms unless one of them ends
after the last, and its text holds what is between the atoms, which the budget does not count.
-/

namespace Ohara

open Weights

/-! ## Byte ranges -/

namespace ChunkBuilder

theorem slice_eq_some_iff {source text : String} {start stop : Nat} :
    slice source start stop = some text ↔
      ∃ before after, source.toList = before ++ text.toList ++ after ∧
        weigh Char.utf8Size before = start ∧ weigh Char.utf8Size (before ++ text.toList) = stop := by
  unfold slice
  split
  · next ordered =>
      simp only [Option.bind_eq_bind, Option.bind_eq_some_iff, Prod.exists,
        splitWeight_eq_some_iff Char.utf8Size_pos]
      constructor
      · rintro ⟨before, rest, ⟨whole, starts⟩, inside, after, ⟨rfl, stops⟩, ⟨⟩⟩
        refine ⟨before, after, by simpa using whole, starts, ?_⟩
        simp
        omega
      · rintro ⟨before, after, whole, starts, stops⟩
        rw [weigh_append] at stops
        exact ⟨before, text.toList ++ after, ⟨by simpa using whole, starts⟩,
          text.toList, after, ⟨rfl, by omega⟩, by simp⟩
  · next reversed =>
      simp only [reduceCtorEq, false_iff]
      rintro ⟨before, after, -, rfl, rfl⟩
      simp at reversed

/-- The text from the start of one slice to the end of one that does not end before it. -/
theorem slice_isSome_of_slices {source : String} {start start' stop stop' : Nat}
    (slice_start : (slice source start stop).isSome)
    (slice_stop : (slice source start' stop').isSome)
    (ordered : start ≤ stop') : (slice source start stop').isSome := by
  rcases Option.isSome_iff_exists.1 slice_start with ⟨text, slice_start⟩
  rcases Option.isSome_iff_exists.1 slice_stop with ⟨text', slice_stop⟩
  rcases slice_eq_some_iff.1 slice_start with ⟨before, after, whole, starts, -⟩
  rcases slice_eq_some_iff.1 slice_stop with ⟨before', after', whole', -, stops⟩
  have prefix_start : before <+: source.toList := ⟨text.toList ++ after, by simp [whole]⟩
  have prefix_stop : before' ++ text'.toList <+: source.toList := ⟨after', whole'.symm⟩
  rcases prefix_of_weigh_le Char.utf8Size_pos prefix_start prefix_stop (by omega) with
    ⟨inside, cut⟩
  refine Option.isSome_iff_exists.2 ⟨String.ofList inside, slice_eq_some_iff.2
    ⟨before, after', ?_, starts, ?_⟩⟩
  · simp [whole', ← cut]
  · simpa [cut] using stops

/-- The characters before a byte offset between two characters. -/
def charsBefore (source : String) (offset : Nat) : Nat :=
    match splitWeight Char.utf8Size offset source.toList with
    | some (before, _) => before.length
    | none => 0

theorem charsBefore_append {source : String} {before after : List Char}
    (whole : source.toList = before ++ after) :
    charsBefore source (weigh Char.utf8Size before) = before.length := by
  have cut := (splitWeight_eq_some_iff Char.utf8Size_pos).2 ⟨whole, rfl⟩
  simp [charsBefore, cut]

theorem charsBefore_stop_of_slice {source text : String} {start stop : Nat}
    (sliced : slice source start stop = some text) :
    charsBefore source stop = charsBefore source start + text.length := by
  rcases slice_eq_some_iff.1 sliced with ⟨before, after, whole, rfl, rfl⟩
  rw [charsBefore_append whole]
  rw [List.append_assoc] at whole
  rw [charsBefore_append whole, List.length_append, String.length_toList]

end ChunkBuilder

/-! ## The groups -/

/-- What an atom counts for in the budget. -/
def atomTokens (atom : Symbol) : Nat :=
    estimateTokens atom.sourceText

namespace ChunkBuilder

/-- The chunk in progress after an atom and its siblings. -/
def ofAtoms (primary : Symbol) (siblings : List Symbol) : ChunkBuilder :=
    siblings.foldl (fun chunk sibling => chunk.append sibling (atomTokens sibling))
      (.start primary (atomTokens primary))

section OfAtoms

variable (primary : Symbol) (siblings : List Symbol)

theorem ofAtoms_append (sibling : Symbol) :
    ofAtoms primary (siblings ++ [sibling]) =
      (ofAtoms primary siblings).append sibling (atomTokens sibling) := by
  simp [ofAtoms]

@[simp]
theorem primary_ofAtoms : (ofAtoms primary siblings).primary = primary := by
  induction siblings using List.reverseRecOn with
  | nil => rfl
  | append_singleton siblings sibling ih => simpa [ofAtoms_append, append] using ih

@[simp]
theorem siblingNames_ofAtoms :
    (ofAtoms primary siblings).siblingNames = siblings.map Symbol.name := by
  induction siblings using List.reverseRecOn with
  | nil => rfl
  | append_singleton siblings sibling ih => simp [ofAtoms_append, append, ih]

@[simp]
theorem spanEnd_ofAtoms :
    (ofAtoms primary siblings).spanEnd = ((siblings.getLast?).getD primary).spanEnd := by
  induction siblings using List.reverseRecOn with
  | nil => rfl
  | append_singleton siblings sibling ih => simp [ofAtoms_append, append]

@[simp]
theorem runningTokens_ofAtoms :
    (ofAtoms primary siblings).runningTokens = weigh atomTokens (primary :: siblings) := by
  induction siblings using List.reverseRecOn with
  | nil => simp [ofAtoms, start]
  | append_singleton siblings sibling ih =>
      simp only [ofAtoms_append, append, ih, weigh_cons, weigh_append, weigh_nil]
      omega

end OfAtoms

end ChunkBuilder

/-- The chunk is what the walk makes of the atoms of the group. -/
def ChunkOf (source : String) (group : List Symbol) (chunk : Symbol) : Prop :=
    ∃ primary siblings, group = primary :: siblings ∧
      chunk = (ChunkBuilder.ofAtoms primary siblings).finish source

section Walk

variable {maxTokens : Nat} {source : String}

theorem chunkSymbols_ofAtoms (primary : Symbol) (siblings rest : List Symbol) :
    List.Forall₂ (ChunkOf source)
      (groupsFrom atomTokens maxTokens (primary :: siblings) rest)
      (chunkSymbols maxTokens source (some (.ofAtoms primary siblings)) rest) := by
  induction rest generalizing primary siblings with
  | nil =>
      simp only [groupsFrom, chunkSymbols, List.forall₂_cons, List.Forall₂.nil, and_true]
      exact ⟨primary, siblings, rfl, rfl⟩
  | cons atom rest ih =>
      rw [groupsFrom, chunkSymbols, ChunkBuilder.runningTokens_ofAtoms]
      by_cases room : weigh atomTokens (primary :: siblings) + atomTokens atom ≤ maxTokens
      · rw [if_pos room]
        rw [atomTokens] at room
        rw [if_pos room]
        have grown := ih primary (siblings ++ [atom])
        rwa [ChunkBuilder.ofAtoms_append] at grown
      · rw [if_neg room]
        rw [atomTokens] at room
        rw [if_neg room]
        exact List.Forall₂.cons ⟨primary, siblings, rfl, rfl⟩ (ih atom [])

theorem chunkSymbols_groups (atoms : List Symbol) :
    List.Forall₂ (ChunkOf source) (groups atomTokens maxTokens atoms)
      (chunkSymbols maxTokens source none atoms) := by
  cases atoms with
  | nil => exact List.Forall₂.nil
  | cons atom rest => exact chunkSymbols_ofAtoms atom [] rest

end Walk

theorem ChunkOf.names {source : String} {group : List Symbol} {chunk : Symbol}
    (made : ChunkOf source group chunk) :
    chunk.name :: chunk.siblingNames = group.map Symbol.name := by
  rcases made with ⟨primary, siblings, rfl, rfl⟩
  simp [ChunkBuilder.finish]

theorem map_names_of_chunkOf {source : String} {groups : List (List Symbol)} {chunks : List Symbol}
    (made : List.Forall₂ (ChunkOf source) groups chunks) :
    chunks.map (fun chunk => chunk.name :: chunk.siblingNames)
      = groups.map (List.map Symbol.name) := by
  induction made with
  | nil => rfl
  | cons chunk_of _ ih => rw [List.map_cons, List.map_cons, ih, chunk_of.names]

/-- The chunks are the greedy groups of the atoms, and their names are the names of the atoms, each
once and in order. -/
theorem chunkSymbols_partition (maxTokens : Nat) (source : String) (atoms : List Symbol) :
    ∃ groups : List (List Symbol), Greedy atomTokens maxTokens atoms groups ∧
      (chunkSymbols maxTokens source none atoms).map (fun chunk => chunk.name :: chunk.siblingNames)
        = groups.map (List.map Symbol.name) ∧
      (chunkSymbols maxTokens source none atoms).flatMap (fun chunk =>
        chunk.name :: chunk.siblingNames) = atoms.map Symbol.name := by
  have greedy : Greedy atomTokens maxTokens atoms _ := groups_greedy atoms
  have made : List.Forall₂ (ChunkOf source) (groups atomTokens maxTokens atoms) _ :=
    chunkSymbols_groups atoms
  have named := map_names_of_chunkOf made
  refine ⟨_, greedy, named, ?_⟩
  rw [List.flatMap_def, named, ← List.map_flatten, greedy.flatten]

/-! ## What a chunk covers -/

section Pieces

variable {β : Type} {R P : List Symbol → β → Prop} {Q : List Symbol → Prop}
  {groups : List (List Symbol)} {chunks : List β}

theorem forall₂_iff_of_forall₂ (made : List.Forall₂ R groups chunks)
    (agrees : ∀ group ∈ groups, ∀ chunk, R group chunk → (P group chunk ↔ Q group)) :
    List.Forall₂ P groups chunks ↔ ∀ group ∈ groups, Q group := by
  induction made with
  | nil => simp
  | cons first _ ih =>
      rw [List.forall_mem_cons] at agrees
      rw [List.forall₂_cons, List.forall_mem_cons, agrees.1 _ first, ih agrees.2]

theorem forall_mem_iff_of_forall₂ {P : β → Prop} (made : List.Forall₂ R groups chunks)
    (agrees : ∀ group ∈ groups, ∀ chunk, R group chunk → (P chunk ↔ Q group)) :
    (∀ chunk ∈ chunks, P chunk) ↔ ∀ group ∈ groups, Q group := by
  induction made with
  | nil => simp
  | cons first _ ih =>
      rw [List.forall_mem_cons] at agrees
      rw [List.forall_mem_cons, List.forall_mem_cons, agrees.1 _ first, ih agrees.2]

end Pieces

/-- The atoms are sorted by their start. -/
def SourceOrdered (atoms : List Symbol) : Prop :=
    atoms.Pairwise fun atom next => atom.spanStart ≤ next.spanStart

/-- The byte range of the symbol is one of the source, between characters. -/
def Within (source : String) (atom : Symbol) : Prop :=
    (ChunkBuilder.slice source atom.spanStart.toNat atom.spanEnd.toNat).isSome

/-- The chunk's range covers the atoms, and its text is what the source has there. -/
structure Spans (source : String) (group : List Symbol) (chunk : Symbol) : Prop where
  start : ∀ atom ∈ group, chunk.spanStart ≤ atom.spanStart
  stop : ∀ atom ∈ group, atom.spanEnd ≤ chunk.spanEnd
  text : ChunkBuilder.slice source chunk.spanStart.toNat chunk.spanEnd.toNat = some chunk.sourceText

/-- No atom ends after the last one. -/
def LastEndsLast (group : List Symbol) : Prop :=
    ∀ last ∈ group.getLast?, ∀ atom ∈ group, atom.spanEnd ≤ last.spanEnd

theorem start_le_stop_of_within {source : String} {atom : Symbol} (within : Within source atom) :
    atom.spanStart.toNat ≤ atom.spanEnd.toNat := by
  rcases Option.isSome_iff_exists.1 within with ⟨text, sliced⟩
  rcases ChunkBuilder.slice_eq_some_iff.1 sliced with ⟨before, after, -, starts, stops⟩
  rw [Weights.weigh_append] at stops
  omega

section OneGroup

variable {source : String} {group : List Symbol} {chunk : Symbol}

theorem SourceOrdered.head_le {atoms : List Symbol} {first atom : Symbol}
    (ordered : SourceOrdered (first :: atoms)) (atom_mem : atom ∈ first :: atoms) :
    first.spanStart ≤ atom.spanStart := by
  rcases List.mem_cons.1 atom_mem with rfl | atom_mem_rest
  · exact UInt32.le_refl _
  · exact (List.pairwise_cons.1 ordered).1 atom atom_mem_rest

theorem ChunkOf.span (made : ChunkOf source group chunk) (ordered : SourceOrdered group)
    (within : ∀ atom ∈ group, Within source atom) :
    ∃ first rest last, group = first :: rest ∧ group.getLast? = some last ∧
      chunk.spanStart = first.spanStart ∧ chunk.spanEnd = last.spanEnd ∧
      ChunkBuilder.slice source chunk.spanStart.toNat chunk.spanEnd.toNat
        = some chunk.sourceText := by
  rcases made with ⟨primary, siblings, rfl, rfl⟩
  have last_of : (primary :: siblings).getLast? = some ((siblings.getLast?).getD primary) :=
    List.getLast?_cons
  generalize last_is : (siblings.getLast?).getD primary = last at last_of
  have last_mem : last ∈ primary :: siblings := List.mem_of_getLast? last_of
  have starts : primary.spanStart.toNat ≤ last.spanStart.toNat :=
    UInt32.le_iff_toNat_le.1 (ordered.head_le last_mem)
  have stops := start_le_stop_of_within (within last last_mem)
  have sliced := ChunkBuilder.slice_isSome_of_slices (within primary (by simp))
    (within last last_mem) (starts.trans stops)
  rcases Option.isSome_iff_exists.1 sliced with ⟨text, sliced⟩
  refine ⟨primary, siblings, last, rfl, last_of, ?_, ?_, ?_⟩
  · simp [ChunkBuilder.finish]
  · simp [ChunkBuilder.finish, last_is]
  · simp [ChunkBuilder.finish, last_is, sliced]

theorem ChunkOf.spans_iff (made : ChunkOf source group chunk) (ordered : SourceOrdered group)
    (within : ∀ atom ∈ group, Within source atom) :
    Spans source group chunk ↔ LastEndsLast group := by
  rcases made.span ordered within with
    ⟨first, rest, last, rfl, last_of, span_start, span_end, sliced⟩
  constructor
  · intro spans last' last_of' atom atom_mem
    cases last_of.symm.trans last_of'
    rw [← span_end]
    exact spans.stop atom atom_mem
  · intro ends_last
    refine ⟨fun atom atom_mem => ?_, fun atom atom_mem => ?_, sliced⟩
    · rw [span_start]
      exact ordered.head_le atom_mem
    · rw [span_end]
      exact ends_last last last_of atom atom_mem

end OneGroup

section Groups

variable {maxTokens : Nat} {source : String} {atoms : List Symbol}

theorem mem_of_mem_groups {group : List Symbol} {atom : Symbol}
    (group_mem : group ∈ groups atomTokens maxTokens atoms) (atom_mem : atom ∈ group) :
    atom ∈ atoms := by
  rw [← (groups_greedy atoms : Greedy atomTokens maxTokens atoms _).flatten]
  exact List.mem_flatten_of_mem group_mem atom_mem

theorem SourceOrdered.of_mem_groups (ordered : SourceOrdered atoms) {group : List Symbol}
    (group_mem : group ∈ groups atomTokens maxTokens atoms) : SourceOrdered group := by
  rw [← (groups_greedy atoms : Greedy atomTokens maxTokens atoms _).flatten] at ordered
  exact (List.pairwise_flatten.1 ordered).1 group group_mem

/-- Every chunk covers its atoms exactly when no group has an atom that ends after its last one. -/
theorem chunkSymbols_spans_iff (ordered : SourceOrdered atoms)
    (within : ∀ atom ∈ atoms, Within source atom) :
    List.Forall₂ (Spans source) (groups atomTokens maxTokens atoms)
        (chunkSymbols maxTokens source none atoms) ↔
      ∀ group ∈ groups atomTokens maxTokens atoms, LastEndsLast group := by
  apply forall₂_iff_of_forall₂ (chunkSymbols_groups atoms)
  intro group group_mem chunk made
  apply made.spans_iff (ordered.of_mem_groups group_mem)
  exact fun atom atom_mem => within atom (mem_of_mem_groups group_mem atom_mem)

/-- An atom of a source, from its byte range. -/
def sourceAtom (source : String) (kind : SymbolKind) (name : String) (spanStart spanEnd : UInt32) :
    Symbol where
  filePath := "a.py"
  language := "python"
  kind := kind
  name := name
  qualifiedName := none
  siblingNames := []
  spanStart := spanStart
  spanEnd := spanEnd
  blobSha := ""
  sourceText := (ChunkBuilder.slice source spanStart.toNat spanEnd.toNat).getD ""

/-- A class that goes on behind its method. -/
def pythonSource : String :=
    "class A:\n    def f(self): pass\n    x = 1\n"

/-- The whole class. -/
def pythonClass : Symbol :=
    sourceAtom pythonSource .classKind "A" 0 40

/-- Its only method. -/
def pythonMethod : Symbol :=
    sourceAtom pythonSource .method "f" 13 30

/-- Three functions of one size. -/
def functionsSource : String :=
    "def f(): pass\ndef g(): pass\ndef h(): pass\n"

/-- The three functions. -/
def functions : List Symbol :=
    [sourceAtom functionsSource .function "f" 0 13, sourceAtom functionsSource .function "g" 14 27,
      sourceAtom functionsSource .function "h" 28 41]

/-- The first two of three functions share a chunk. -/
theorem chunkSymbols_spans_functions :
    (groups atomTokens 8 functions).map List.length = [2, 1] ∧
      List.Forall₂ (Spans functionsSource) (groups atomTokens 8 functions)
        (chunkSymbols 8 functionsSource none functions) := by
  have ordered : SourceOrdered functions := by
    unfold SourceOrdered
    decide +kernel
  have within : ∀ atom ∈ functions, Within functionsSource atom := by
    unfold Within
    decide +kernel
  refine ⟨by decide +kernel, (chunkSymbols_spans_iff ordered within).2 ?_⟩
  unfold LastEndsLast
  decide +kernel

/-- The class goes on after its last method. -/
theorem not_spans_nested :
    SourceOrdered [pythonClass, pythonMethod] ∧
      (∀ atom ∈ [pythonClass, pythonMethod], Within pythonSource atom) ∧
      ¬ List.Forall₂ (Spans pythonSource)
          (groups atomTokens chunkMaxTokens [pythonClass, pythonMethod])
          (chunkSymbols chunkMaxTokens pythonSource none [pythonClass, pythonMethod]) := by
  refine ⟨?_, ?_, ?_⟩
  · simp [SourceOrdered, pythonClass, pythonMethod, sourceAtom]
  · unfold Within
    decide +kernel
  · have merged : groups atomTokens chunkMaxTokens [pythonClass, pythonMethod]
        = [[pythonClass, pythonMethod]] := by decide +kernel
    have shrunk : (chunkSymbols chunkMaxTokens pythonSource none [pythonClass, pythonMethod]).map
        Symbol.spanEnd = [30] := by decide +kernel
    rw [merged]
    intro spans
    rcases List.forall₂_cons_left_iff.1 spans with ⟨chunk, rest, covers, -, whole⟩
    rw [whole, List.map_cons] at shrunk
    have stop := covers.stop pythonClass (List.mem_cons_self)
    rw [(List.cons.inj shrunk).1] at stop
    exact absurd stop (by decide)

/-! ## What a chunk's text counts for -/

/-- The characters between an atom and the next; fewer than none when they overlap. -/
def gap (source : String) (atom next : Symbol) : Int :=
    ChunkBuilder.charsBefore source next.spanStart.toNat
      - ChunkBuilder.charsBefore source atom.spanEnd.toNat

/-- The characters of the atoms and of the gaps between them. -/
def extent (source : String) (group : List Symbol) : Int :=
    (group.map fun atom => (atom.sourceText.length : Int)).sum
      + (List.zipWith (gap source) group group.tail).sum

/-- The text of the symbol is what the source has in its byte range. -/
def Sliced (source : String) (atom : Symbol) : Prop :=
    ChunkBuilder.slice source atom.spanStart.toNat atom.spanEnd.toNat = some atom.sourceText

theorem charsBefore_eq_extent {source : String} {first last : Symbol} {rest : List Symbol}
    (last_of : (first :: rest).getLast? = some last)
    (sliced : ∀ atom ∈ first :: rest, Sliced source atom) :
    (ChunkBuilder.charsBefore source last.spanEnd.toNat : Int)
      = ChunkBuilder.charsBefore source first.spanStart.toNat + extent source (first :: rest) := by
  have of_first := ChunkBuilder.charsBefore_stop_of_slice (sliced first List.mem_cons_self)
  induction rest generalizing first with
  | nil =>
      cases last_of
      simp [extent, of_first]
  | cons next rest ih =>
      rw [List.forall_mem_cons] at sliced
      rw [List.getLast?_cons_cons] at last_of
      rw [ih last_of sliced.2 (ChunkBuilder.charsBefore_stop_of_slice
        (sliced.2 next List.mem_cons_self))]
      simp only [extent, gap, List.map_cons, List.sum_cons, List.tail_cons, List.zipWith_cons_cons]
      omega

theorem ChunkOf.estimate_le_iff {source : String} {group : List Symbol} {chunk : Symbol}
    {maxTokens : Nat} (made : ChunkOf source group chunk) (ordered : SourceOrdered group)
    (sliced : ∀ atom ∈ group, Sliced source atom) :
    estimateTokens chunk.sourceText ≤ maxTokens ↔ extent source group ≤ 4 * maxTokens + 3 := by
  have within : ∀ atom ∈ group, Within source atom :=
    fun atom atom_mem => Option.isSome_iff_exists.2 ⟨_, sliced atom atom_mem⟩
  rcases made.span ordered within with
    ⟨first, rest, last, rfl, last_of, span_start, span_end, chunk_sliced⟩
  have chars := ChunkBuilder.charsBefore_stop_of_slice chunk_sliced
  have overlap := charsBefore_eq_extent last_of sliced
  rw [span_start, span_end] at chars
  rw [estimateTokens, charsPerToken]
  omega

theorem ChunkOf.siblingNames_ne_nil_iff {source : String} {group : List Symbol} {chunk : Symbol}
    (made : ChunkOf source group chunk) : chunk.siblingNames ≠ [] ↔ 1 < group.length := by
  have names := congrArg List.length made.names
  simp only [List.length_cons, List.length_map] at names
  rw [← names, ← List.length_pos_iff]
  omega

/-- Merged chunks fit the budget exactly when atoms and gaps of every merged group do. -/
theorem chunkSymbols_within_budget_iff (ordered : SourceOrdered atoms)
    (sliced : ∀ atom ∈ atoms, Sliced source atom) :
    (∀ chunk ∈ chunkSymbols maxTokens source none atoms, chunk.siblingNames ≠ [] →
        estimateTokens chunk.sourceText ≤ maxTokens) ↔
      ∀ group ∈ groups atomTokens maxTokens atoms, 1 < group.length →
        extent source group ≤ 4 * maxTokens + 3 := by
  apply forall_mem_iff_of_forall₂ (chunkSymbols_groups atoms)
  intro group group_mem chunk made
  rw [made.siblingNames_ne_nil_iff, made.estimate_le_iff (ordered.of_mem_groups group_mem)]
  exact fun atom atom_mem => sliced atom (mem_of_mem_groups group_mem atom_mem)

/-- Two functions on neighbouring lines. -/
def twoFunctions : String :=
    "def f(): 1\ndef g(): 2\n"

/-- Two functions that stand one below the other share a chunk that fits. -/
theorem chunkSymbols_within_budget_adjacent :
    (chunkSymbols 5 twoFunctions none
        [sourceAtom twoFunctions .function "f" 0 10,
          sourceAtom twoFunctions .function "g" 11 21]).length = 1 ∧
      ∀ chunk ∈ chunkSymbols 5 twoFunctions none
          [sourceAtom twoFunctions .function "f" 0 10, sourceAtom twoFunctions .function "g" 11 21],
        chunk.siblingNames ≠ [] → estimateTokens chunk.sourceText ≤ 5 := by
  refine ⟨by decide +kernel, ?_⟩
  apply (chunkSymbols_within_budget_iff _ _).2
  · have merged : groups atomTokens 5
          [sourceAtom twoFunctions .function "f" 0 10, sourceAtom twoFunctions .function "g" 11 21]
        = [[sourceAtom twoFunctions .function "f" 0 10,
            sourceAtom twoFunctions .function "g" 11 21]] := by decide +kernel
    rw [merged, List.forall_mem_singleton]
    decide +kernel
  · simp [SourceOrdered, sourceAtom]
  · unfold Sliced
    decide +kernel

/-- Two functions with a comment between them. -/
def commentedFunctions : String :=
    "def f(): 1\n# a remark on the function below\ndef g(): 2\n"

/-- The text between the functions goes into the chunk, but does not count. -/
theorem not_within_budget_comment :
    SourceOrdered [sourceAtom commentedFunctions .function "f" 0 10,
        sourceAtom commentedFunctions .function "g" 44 54] ∧
      (∀ atom ∈ [sourceAtom commentedFunctions .function "f" 0 10,
        sourceAtom commentedFunctions .function "g" 44 54], Sliced commentedFunctions atom) ∧
      ¬ ∀ chunk ∈ chunkSymbols 4 commentedFunctions none
            [sourceAtom commentedFunctions .function "f" 0 10,
              sourceAtom commentedFunctions .function "g" 44 54],
          chunk.siblingNames ≠ [] → estimateTokens chunk.sourceText ≤ 4 := by
  refine ⟨?_, ?_, ?_⟩
  · simp [SourceOrdered, sourceAtom]
  · unfold Sliced
    decide +kernel
  · decide +kernel

end Groups

end Ohara
