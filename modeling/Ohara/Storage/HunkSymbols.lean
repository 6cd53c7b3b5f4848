import Mathlib.Data.String.Basic
import Ohara.Library.Fallible
import Ohara.Storage.LaneQueries
import Ohara.Storage.Refinement

/-!
# Reading attributions back

`hunk_symbol::get_for_hunk` and its batch variant. The rows of several hunks come in one list, which
is taken apart again by the hunk of each row; rows that tie come in the database's order in both.
-/

namespace Ohara

open Selection

/-- The kind of a stored text. -/
def AttributionKind.fromStr (s : String) : Option AttributionKind :=
    if s = "exact_span" then some .exactSpan
    else if s = "hunk_header" then some .hunkHeader
    else if s = "file_fallback" then some .fileFallback
    else none

/-- The symbol kind of a stored text. -/
def strToSymbolKind (s : String) : Option SymbolKind :=
    if s = "function" then some .function
    else if s = "method" then some .method
    else if s = "class" then some .classKind
    else if s = "const" then some .const
    else none

/-- A row as both statements decode it. -/
def HunkSymbolRow.symbol (row : HunkSymbolRow) : HunkSymbol where
  kind := (strToSymbolKind row.symbolKind).getD .function
  name := row.symbolName
  qualifiedName := row.qualifiedName
  attribution := (AttributionKind.fromStr row.attributionKind).getD .hunkHeader

namespace HunkSymbol

/-- The `ORDER BY` of `get_for_hunk`. -/
def readRank (row : HunkSymbolRow) : ℕ ×ₗ String :=
    toLex (confidence row.attributionKind, row.symbolName)

/-- The attributions of one hunk, the best ones first. -/
def getForHunk (sorter : Sorter) (db : Database) (hunkId : Int) : List HunkSymbol :=
    (sorter.orderBy readRank
      (db.hunkSymbol.filter fun row => decide ((row.hunkId : Int) = hunkId))).map
      HunkSymbolRow.symbol

/-- What a statement can bind. -/
def maxVariableNumber : Nat := 32766

/-- `acc.entry(hunk_id).or_default().push(sym)`. -/
def pushEntry (acc : Int → Option (List HunkSymbol)) (row : HunkSymbolRow) :
    Int → Option (List HunkSymbol) :=
    fun id => if id = row.hunkId then some ((acc id).getD [] ++ [row.symbol]) else acc id

/-- The rows of the batch statement, hunk by hunk. -/
def batchRows (sorter : Sorter) (db : Database) (hunkIds : List Int) : List HunkSymbolRow :=
    sorter.orderBy (fun row => (toLex (row.hunkId, readRank row) : ℕ ×ₗ ℕ ×ₗ String))
      (db.hunkSymbol.filter fun row => decide ((row.hunkId : Int) ∈ hunkIds))

/-- A map from the hunks to their symbols; none when there are more ids than a statement can bind. -/
def getForHunks (sorter : Sorter) (db : Database) (hunkIds : List Int) :
    Option (Int → Option (List HunkSymbol)) :=
    if hunkIds.isEmpty then some fun _ => none
    else if hunkIds.length ≤ maxVariableNumber then
      some ((batchRows sorter db hunkIds).foldl pushEntry
        fun id => if id ∈ hunkIds then some [] else none)
    else none

/-- Calls of `put_for_hunk`, each a transaction. -/
def putAll (puts : List (Nat × List HunkSymbol)) (db : Database) : Database :=
    puts.foldl (fun db put => (transaction (Hunk.putForHunk put.1 put.2) db).2) db

/-- The same symbols in the same order, but for symbols with equal attribution and name. -/
def SameUpToTies (symbols others : List HunkSymbol) : Prop :=
    symbols.Perm others ∧
      symbols.map (fun symbol => (symbol.attribution, symbol.name))
        = others.map fun symbol => (symbol.attribution, symbol.name)

/-! ## The rows of one hunk -/

theorem foldl_pushEntry (rows : List HunkSymbolRow) (acc : Int → Option (List HunkSymbol))
    (id : Int) (known : (acc id).isSome) :
    rows.foldl pushEntry acc id = some ((acc id).getD [] ++
      (rows.filter fun row => decide ((row.hunkId : Int) = id)).map HunkSymbolRow.symbol) := by
  induction rows generalizing acc with
  | nil =>
      rcases Option.isSome_iff_exists.1 known with ⟨symbols, found⟩
      simp [found]
  | cons row rest ih =>
      rw [List.foldl_cons]
      by_cases same : id = row.hunkId
      · rw [ih _ (by simp [pushEntry, same])]
        simp [pushEntry, same]
      · rw [ih _ (by simpa [pushEntry, same] using known)]
        simp [pushEntry, same, Ne.symm same]

theorem foldl_pushEntry_none (rows : List HunkSymbolRow) (acc : Int → Option (List HunkSymbol))
    (id : Int) (unknown : acc id = none) (others : ∀ row ∈ rows, (row.hunkId : Int) ≠ id) :
    rows.foldl pushEntry acc id = none := by
  induction rows generalizing acc with
  | nil => exact unknown
  | cons row rest ih =>
      rw [List.forall_mem_cons] at others
      apply ih _ _ others.2
      simpa [pushEntry, others.1.symm] using unknown

/-! ## What is written and read -/

@[simp]
theorem symbol_row (hunkId : Nat) (symbol : HunkSymbol) : (symbol.row hunkId).symbol = symbol := by
  rcases symbol with ⟨kind, name, qualifiedName, attribution⟩
  cases kind <;> cases attribution <;> rfl

/-- The attribution that a row's confidence stands for. -/
def ofConfidence : Nat → AttributionKind
  | 0 => .exactSpan
  | 1 => .hunkHeader
  | _ => .fileFallback

theorem ofConfidence_asStr (attribution : AttributionKind) :
    ofConfidence (confidence attribution.asStr) = attribution := by
  cases attribution <;> rfl

/-- Every row was written for a symbol, of a stored hunk. -/
structure Sound (db : Database) : Prop where
  written : ∀ row ∈ db.hunkSymbol, ∃ hunkId symbol, row = HunkSymbol.row hunkId symbol
  foreignKeys : db.ForeignKeys

theorem Sound.putForHunk {db db' : Database} {hunkId : Nat} {symbols : List HunkSymbol}
    (sound : Sound db) (put : Hunk.putForHunk hunkId symbols db = .ok db') : Sound db' := by
  induction symbols generalizing db with
  | nil =>
      cases put
      exact sound
  | cons symbol rest ih =>
      rw [Hunk.putForHunk, List.foldlM_cons] at put
      rcases Fallible.bind_eq_ok.1 put with ⟨next, executed, put_rest⟩
      refine @ih next ?_ put_rest
      unfold execute at executed
      split at executed
      · next foreignKeys =>
          cases executed
          refine ⟨?_, foreignKeys⟩
          intro row row_mem
          rcases Rows.mem_insertOrReplace.1 row_mem with ⟨row_mem_old, -⟩ | rfl
          · exact sound.written row row_mem_old
          · exact ⟨hunkId, symbol, rfl⟩
      · cases executed

theorem Sound.putAll (puts : List (Nat × List HunkSymbol)) {db : Database} (sound : Sound db) :
    Sound (putAll puts db) := by
  induction puts generalizing db with
  | nil => exact sound
  | cons put rest ih =>
      have next_sound : Sound (transaction (Hunk.putForHunk put.1 put.2) db).2 := by
        unfold transaction
        split
        · next done => exact sound.putForHunk done
        · exact sound
      exact ih next_sound

/-! ## The batch -/

section Batch

variable {sorter : Sorter} {db : Database} {hunkIds : List Int} {id : Int}

/-- The rows of one hunk, as the batch statement orders them. -/
def rowsOf (sorter : Sorter) (db : Database) (hunkIds : List Int) (id : Int) :
    List HunkSymbolRow :=
    (batchRows sorter db hunkIds).filter fun row => decide ((row.hunkId : Int) = id)

theorem rowsOf_perm (requested : id ∈ hunkIds) :
    (rowsOf sorter db hunkIds id).Perm
      (sorter.orderBy readRank
        (db.hunkSymbol.filter fun row => decide ((row.hunkId : Int) = id))) := by
  refine ((sorter.perm _ _).filter _).trans (List.Perm.trans ?_ (sorter.perm readRank _).symm)
  rw [List.filter_filter]
  apply List.Perm.of_eq
  apply List.filter_congr
  intro row _
  by_cases same : (row.hunkId : Int) = id
  · simp [same, requested]
  · simp [same]

theorem rowsOf_sorted :
    (rowsOf sorter db hunkIds id).Pairwise fun a b => readRank a ≤ readRank b := by
  have sorted := (sorter.sorted (fun row => (toLex (row.hunkId, readRank row) : ℕ ×ₗ ℕ ×ₗ String))
    (db.hunkSymbol.filter fun row => decide ((row.hunkId : Int) ∈ hunkIds)))
  refine (sorted.filter _).imp_of_mem ?_
  intro a b a_mem b_mem ordered
  have of_a : (a.hunkId : Int) = id := by simpa using (List.mem_filter.1 a_mem).2
  have of_b : (b.hunkId : Int) = id := by simpa using (List.mem_filter.1 b_mem).2
  have same : a.hunkId = b.hunkId := by omega
  simpa [Prod.Lex.toLex_le_toLex, same] using ordered

theorem rowsOf_sameUpToTies (sound : Sound db) (requested : id ∈ hunkIds) :
    SameUpToTies ((rowsOf sorter db hunkIds id).map HunkSymbolRow.symbol)
      (getForHunk sorter db id) := by
  have perm : (rowsOf sorter db hunkIds id).Perm _ := rowsOf_perm requested
  have ranks := map_key_eq_of_perm perm rowsOf_sorted (sorter.sorted readRank _)
  have decoded : ∀ row ∈ db.hunkSymbol, (row.symbol.attribution, row.symbol.name)
      = (ofConfidence (ofLex (readRank row)).1, (ofLex (readRank row)).2) := by
    intro row row_mem
    rcases sound.written row row_mem with ⟨hunkId, symbol, rfl⟩
    rw [symbol_row]
    simp [readRank, HunkSymbol.row, ofConfidence_asStr]
  refine ⟨perm.map HunkSymbolRow.symbol, ?_⟩
  have stored : ∀ row ∈ sorter.orderBy readRank
      (db.hunkSymbol.filter fun row => decide ((row.hunkId : Int) = id)), row ∈ db.hunkSymbol :=
    fun row row_mem => (List.mem_filter.1 ((sorter.perm readRank _).subset row_mem)).1
  have through := congrArg (List.map fun rank : ℕ ×ₗ String =>
    (ofConfidence (ofLex rank).1, (ofLex rank).2)) ranks
  rw [List.map_map, List.map_map] at through
  rw [getForHunk, List.map_map, List.map_map]
  calc _
    _ = _ := List.map_congr_left fun row row_mem => decoded row (stored row (perm.subset row_mem))
    _ = _ := through
    _ = _ := (List.map_congr_left fun row row_mem => decoded row (stored row row_mem)).symm

theorem getForHunks_of_within (sorter : Sorter) (db : Database)
    (within : hunkIds.length ≤ maxVariableNumber) :
    ∃ found, getForHunks sorter db hunkIds = some found ∧ ∀ id,
      found id = if id ∈ hunkIds then some ((rowsOf sorter db hunkIds id).map HunkSymbolRow.symbol)
        else none := by
  unfold getForHunks
  split
  · next empty =>
      cases List.isEmpty_iff.1 empty
      exact ⟨_, rfl, by simp⟩
  · refine ⟨_, rfl, fun id => ?_⟩
    split
    · next requested =>
        rw [foldl_pushEntry _ _ _ (by simp [requested])]
        simp [requested, rowsOf]
    · next unknown =>
        apply foldl_pushEntry_none _ _ _ (by simp [unknown])
        rintro row row_mem rfl
        exact unknown (by simpa using (List.mem_filter.1 ((sorter.perm _ _).subset row_mem)).2)

end Batch

/-! ## Reading back -/

/-- What identifies a symbol among those of a hunk. -/
def kindAndName (symbol : HunkSymbol) : SymbolKind × String :=
    (symbol.kind, symbol.name)

theorem strToSymbolKind_toStr (kind : SymbolKind) : strToSymbolKind kind.toStr = some kind := by
  cases kind <;> rfl

theorem rowKey_eq_iff (symbol other : HunkSymbol) :
    (symbol.kind.toStr, symbol.name) = (other.kind.toStr, other.name) ↔
      kindAndName symbol = kindAndName other := by
  have kinds : symbol.kind.toStr = other.kind.toStr ↔ symbol.kind = other.kind := by
    constructor
    · intro same
      have decoded := congrArg strToSymbolKind same
      rw [strToSymbolKind_toStr, strToSymbolKind_toStr] at decoded
      exact Option.some.inj decoded
    · exact congrArg SymbolKind.toStr
  simp [kindAndName, kinds]

theorem attach_eq (symbols : List HunkSymbol) (symbol : HunkSymbol) :
    IndexContents.attach symbols symbol = Rows.insertOrReplace kindAndName symbol symbols := by
  rw [IndexContents.attach, Rows.insertOrReplace, Rows.insertOrReplace, Rows.deleteKey,
    Rows.deleteKey]
  simp only [ne_eq, rowKey_eq_iff]

/-- The symbols a fresh hunk has after a call. -/
def lastOfEach (symbols : List HunkSymbol) : List HunkSymbol :=
    symbols.foldl IndexContents.attach []

theorem nodup_lastOfEach (symbols : List HunkSymbol) :
    ((lastOfEach symbols).map kindAndName).Nodup := by
  induction symbols using List.reverseRecOn with
  | nil => exact List.nodup_nil
  | append_singleton symbols symbol ih =>
      rw [lastOfEach, List.foldl_append, List.foldl_cons, List.foldl_nil, attach_eq]
      exact Rows.nodup_insertOrReplace ih symbol

theorem mem_lastOfEach {symbols : List HunkSymbol} {symbol : HunkSymbol} :
    symbol ∈ lastOfEach symbols ↔ Rows.IsLast kindAndName symbol symbols := by
  have attach_is : IndexContents.attach
      = fun rows new => Rows.insertOrReplace kindAndName new rows := by
    funext rows new
    exact attach_eq rows new
  rw [lastOfEach, attach_is, Rows.mem_foldl_insertOrReplace]
  simp

/-- A hunk without rows is read back as what was put there, the last of each kind and name. -/
theorem getForHunk_of_putForHunk (sorter : Sorter) {db : Database} {hunkId : Nat}
    (symbols : List HunkSymbol) (foreignKeys : db.ForeignKeys)
    (known : hunkId ∈ db.hunk.map HunkRow.id)
    (fresh : ∀ row ∈ db.hunkSymbol, row.hunkId ≠ hunkId) :
    ∃ db', Hunk.putForHunk hunkId symbols db = .ok db' ∧
      ((getForHunk sorter db' hunkId).map kindAndName).Nodup ∧
      ∀ symbol, symbol ∈ getForHunk sorter db' hunkId ↔ Rows.IsLast kindAndName symbol symbols := by
  have put := Hunk.putForHunk_eq symbols [] db.hunkSymbol foreignKeys known fresh (by simp)
  refine ⟨_, put, ?_⟩
  have others : db.hunkSymbol.filter (fun row => decide ((row.hunkId : Int) = hunkId)) = [] := by
    apply List.filter_eq_nil_iff.2
    intro row row_mem
    simpa using fresh row row_mem
  have read : (getForHunk sorter { db with
      hunkSymbol := db.hunkSymbol ++ (symbols.foldl IndexContents.attach []).map
        (HunkSymbol.row hunkId) } hunkId).Perm (lastOfEach symbols) := by
    refine ((sorter.perm _ _).map _).trans (List.Perm.of_eq ?_)
    have own : ((lastOfEach symbols).map (HunkSymbol.row hunkId)).filter
        (fun row => decide ((row.hunkId : Int) = hunkId))
        = (lastOfEach symbols).map (HunkSymbol.row hunkId) := by
      apply List.filter_eq_self.2
      rw [List.forall_mem_map]
      intro symbol _
      simp [HunkSymbol.row]
    rw [lastOfEach] at own
    rw [List.filter_append, others, List.nil_append, own, List.map_map, lastOfEach]
    simp [Function.comp_def]
  exact ⟨(read.map kindAndName).nodup_iff.2 (nodup_lastOfEach symbols),
    fun symbol => read.mem_iff.trans mem_lastOfEach⟩

/-- The batched read agrees with the reads hunk by hunk, and a hunk's attributions are the last of
each kind and name that were put. -/
theorem getForHunks_eq_getForHunk (sorter : Sorter) (start : Database)
    (empty : start.hunkSymbol = []) (foreignKeys : start.ForeignKeys)
    (puts : List (Nat × List HunkSymbol)) :
    (∀ hunkIds : List Int, hunkIds.length ≤ maxVariableNumber →
      ∃ found, getForHunks sorter (putAll puts start) hunkIds = some found ∧
        (∀ id, (found id).isSome ↔ id ∈ hunkIds) ∧
        ∀ id symbols, found id = some symbols →
          SameUpToTies symbols (getForHunk sorter (putAll puts start) id)) ∧
    ∀ hunkId symbols, hunkId ∈ (putAll puts start).hunk.map HunkRow.id →
      (∀ row ∈ (putAll puts start).hunkSymbol, row.hunkId ≠ hunkId) →
      ∃ db, Hunk.putForHunk hunkId symbols (putAll puts start) = .ok db ∧
        ((getForHunk sorter db hunkId).map kindAndName).Nodup ∧
        ∀ symbol, symbol ∈ getForHunk sorter db hunkId ↔
          Rows.IsLast kindAndName symbol symbols := by
  have sound : Sound (putAll puts start) :=
    Sound.putAll puts ⟨by simp [empty], foreignKeys⟩
  constructor
  · intro hunkIds within
    rcases getForHunks_of_within sorter (putAll puts start) within with ⟨found, batch, found_is⟩
    refine ⟨found, batch, fun id => ?_, fun id symbols found_id => ?_⟩
    · rw [found_is]
      split
      · next requested => simp [requested]
      · next unknown => simp [unknown]
    · rw [found_is] at found_id
      split at found_id
      · next requested =>
          cases found_id
          exact rowsOf_sameUpToTies sound requested
      · cases found_id
  · intro hunkId symbols known fresh
    exact getForHunk_of_putForHunk sorter symbols sound.foreignKeys known fresh

/-- An index with one hunk that has no symbols yet. -/
def oneHunk : Database :=
    { Database.empty with
      commitRecord := [⟨"c", none, false, 0, none, "m", ""⟩]
      filePath := [⟨1, "f.rs", some "rust"⟩]
      hunk := [⟨1, "c", 1, "added", "+f", "+f"⟩] }

theorem getForHunks_eq_getForHunk_oneHunk :
    ∃ found, getForHunks .stable (putAll [(1, [⟨.function, "f", none, .exactSpan⟩])] oneHunk) [1, 2]
        = some found ∧ (found 2).isSome ∧
      ∀ symbols, found 1 = some symbols → SameUpToTies symbols
        (getForHunk .stable (putAll [(1, [⟨.function, "f", none, .exactSpan⟩])] oneHunk) 1) := by
  have both := getForHunks_eq_getForHunk .stable oneHunk rfl (by decide)
    [(1, [⟨.function, "f", none, .exactSpan⟩])]
  rcases both.1 [1, 2] (by decide) with ⟨found, batch, keys, values⟩
  exact ⟨found, batch, (keys 2).2 (by decide), fun symbols => values 1 symbols⟩

end HunkSymbol

end Ohara
