import Mathlib.Data.List.DropRight

/-!
# Words

The maximal runs of letters in a text, the text that spells words one separator apart, and a scan
that writes letters through and one separator for each gap between them.
-/

namespace Words

universe u

variable {σ : Type u}

/-- The maximal runs of letters. -/
def words (letter : σ → Bool) (text : List σ) : List (List σ) :=
    (text.splitOnP fun x => !letter x).filter fun run => !run.isEmpty

/-- The words with one separator between neighbours. -/
def joined (sep : σ) (ws : List (List σ)) : List σ :=
    [sep].intercalate ws

/-- What the words of a text are. -/
structure Proper (letter : σ → Bool) (ws : List (List σ)) : Prop where
  nonempty : ∀ w ∈ ws, w ≠ []
  letters : ∀ w ∈ ws, ∀ x ∈ w, letter x = true

theorem joined_cons (sep : σ) (w : List σ) (ws : List (List σ)) :
    joined sep (w :: ws) = if ws = [] then w else w ++ sep :: joined sep ws := by
  cases ws with
  | nil => simp [joined]
  | cons w' ws => simp [joined, List.intercalate]

theorem joined_append_singleton (sep : σ) (ws : List (List σ)) (w : List σ) :
    joined sep (ws ++ [w]) = ws.flatMap (fun v => v ++ [sep]) ++ w := by
  induction ws with
  | nil => simp [joined]
  | cons v ws ih =>
      have more : ws ++ [w] ≠ [] := by simp
      rw [List.cons_append, joined_cons, if_neg more, ih]
      simp

theorem mem_joined {sep x : σ} {ws : List (List σ)} (x_mem : x ∈ joined sep ws) :
    x = sep ∨ ∃ w ∈ ws, x ∈ w := by
  induction ws with
  | nil => simp [joined] at x_mem
  | cons w ws ih =>
      rw [joined_cons] at x_mem
      split at x_mem
      · exact Or.inr ⟨w, List.mem_cons_self, x_mem⟩
      · rw [List.mem_append, List.mem_cons] at x_mem
        rcases x_mem with first | rfl | later
        · exact Or.inr ⟨w, List.mem_cons_self, first⟩
        · exact Or.inl rfl
        · rcases ih later with separator | ⟨v, v_mem, x_word⟩
          · exact Or.inl separator
          · exact Or.inr ⟨v, List.mem_cons_of_mem w v_mem, x_word⟩

theorem letters_of_splitOnPPrepend {letter : σ → Bool} (text acc : List σ)
    (acc_letters : ∀ x ∈ acc, letter x = true) :
    ∀ w ∈ List.splitOnPPrepend (fun x => !letter x) text acc, ∀ x ∈ w, letter x = true := by
  induction text generalizing acc with
  | nil => simpa using acc_letters
  | cons y rest ih =>
      cases is_letter : letter y with
      | true =>
          rw [List.splitOnPPrepend_cons_neg (by simp [is_letter])]
          exact ih _ (by simpa [is_letter] using acc_letters)
      | false =>
          have later := ih [] (by simp)
          rw [List.splitOnPPrepend_cons_pos (by simp [is_letter])]
          simpa using ⟨acc_letters, later⟩

theorem proper_words (letter : σ → Bool) (text : List σ) : Proper letter (words letter text) where
  nonempty := by simp [words]
  letters w w_mem := letters_of_splitOnPPrepend text [] (by simp) w (List.mem_filter.1 w_mem).1

/-- Words one separator apart are read back as they were. -/
theorem words_joined {letter : σ → Bool} {sep : σ} (not_letter : letter sep = false)
    {ws : List (List σ)} (proper : Proper letter ws) : words letter (joined sep ws) = ws := by
  induction ws with
  | nil => rfl
  | cons w ws ih =>
      have rest := ih ⟨fun v v_mem => proper.nonempty v (List.mem_cons_of_mem w v_mem),
        fun v v_mem => proper.letters v (List.mem_cons_of_mem w v_mem)⟩
      have w_nonempty := proper.nonempty w List.mem_cons_self
      have w_letters : ∀ x ∈ w, (!letter x) = false := by
        simpa using proper.letters w List.mem_cons_self
      rw [joined_cons]
      split
      · next last => simp [words, List.splitOnP_eq_singleton w_letters, w_nonempty, last]
      · rw [words, List.splitOnP_append_cons_of_forall_mem w_letters sep (by simp [not_letter]),
          List.filter_cons_of_pos (by simpa using w_nonempty), ← words, rest]

/-- A word in front of a separator is the first one. -/
theorem words_cons {letter : σ → Bool} {sep : σ} (not_letter : letter sep = false) {w : List σ}
    (nonempty : w ≠ []) (letters : ∀ x ∈ w, letter x = true) (text : List σ) :
    words letter (w ++ sep :: text) = w :: words letter text := by
  rw [words, List.splitOnP_append_cons_of_forall_mem (by simpa using letters) sep
    (by simp [not_letter]), List.filter_cons_of_pos (by simp [nonempty])]
  rfl

theorem joined_eq_nil_iff {letter : σ → Bool} {sep : σ} {ws : List (List σ)}
    (proper : Proper letter ws) : joined sep ws = [] ↔ ws = [] := by
  cases ws with
  | nil => simp [joined]
  | cons w ws =>
      have w_nonempty := proper.nonempty w List.mem_cons_self
      rw [joined_cons]
      split <;> simp [w_nonempty]

/-! ## Scanning -/

/-- Letters are written, and one separator where letters stop. -/
def scanStep (letter : σ → Bool) (sep : σ) (state : List σ × Bool) (x : σ) : List σ × Bool :=
    if letter x then (state.1 ++ [x], false)
    else if state.2 then state
    else (state.1 ++ [sep], true)

theorem rdropWhile_append (blank : σ → Bool) (xs ys : List σ) :
    (xs ++ ys).rdropWhile blank =
      if ys.rdropWhile blank = [] then xs.rdropWhile blank else xs ++ ys.rdropWhile blank := by
  simp only [List.rdropWhile, List.reverse_append, List.dropWhile_append, List.isEmpty_iff,
    List.reverse_eq_nil_iff]
  split <;> simp

theorem rdropWhile_letters {letter blank : σ → Bool}
    (apart : ∀ x, letter x = true → blank x = false) {xs : List σ}
    (letters : ∀ x ∈ xs, letter x = true) : xs.rdropWhile blank = xs := by
  rw [List.rdropWhile_eq_self_iff]
  intro nonempty
  simp [apart _ (letters _ (List.getLast_mem nonempty))]

/-- What a scan adds to its output spells the words still to come, the one it is in the middle of
among them. -/
theorem scan_spells {letter blank : σ → Bool} {sep : σ}
    (apart : ∀ x, letter x = true → blank x = false) (sep_blank : blank sep = true)
    (text acc : List σ) (acc_letters : ∀ x ∈ acc, letter x = true) (out : List σ) :
    ∃ tail, (text.foldl (scanStep letter sep) (out, acc.isEmpty)).1 = out ++ tail ∧
      (acc.reverse ++ tail).rdropWhile blank =
        joined sep ((List.splitOnPPrepend (fun x => !letter x) text acc).filter
          fun run => !run.isEmpty) := by
  induction text generalizing acc out with
  | nil =>
      refine ⟨[], by simp, ?_⟩
      have kept : acc.reverse.rdropWhile blank = acc.reverse :=
        rdropWhile_letters apart (by simpa using acc_letters)
      rw [List.append_nil, kept, List.splitOnPPrepend_nil]
      cases acc with
      | nil => rfl
      | cons y acc => simp [joined]
  | cons x rest ih =>
      rw [List.foldl_cons, scanStep]
      cases is_letter : letter x with
      | true =>
          rcases ih (x :: acc) (by simpa [is_letter] using acc_letters) (out ++ [x])
            with ⟨tail, written, spelled⟩
          refine ⟨x :: tail, by simpa using written, ?_⟩
          rw [List.splitOnPPrepend_cons_neg (by simp [is_letter]), ← spelled]
          simp
      | false =>
          rw [List.splitOnPPrepend_cons_pos (by simp [is_letter])]
          cases acc with
          | nil =>
              rcases ih [] (by simp) out with ⟨tail, written, spelled⟩
              exact ⟨tail, by simpa using written, by simpa using spelled⟩
          | cons y acc =>
              rcases ih [] (by simp) (out ++ [sep]) with ⟨tail, written, spelled⟩
              refine ⟨sep :: tail, by simpa using written, ?_⟩
              have later := proper_words letter rest
              have rest_spelled : tail.rdropWhile blank = joined sep (words letter rest) := spelled
              have gap : (sep :: tail).rdropWhile blank =
                  if words letter rest = [] then []
                  else sep :: joined sep (words letter rest) := by
                rw [← List.singleton_append, rdropWhile_append, rest_spelled,
                  List.rdropWhile_singleton, if_pos sep_blank]
                simp only [joined_eq_nil_iff later, List.singleton_append]
              have word_kept : (y :: acc).reverse.rdropWhile blank = (y :: acc).reverse :=
                rdropWhile_letters apart fun x x_mem => acc_letters x (List.mem_reverse.1 x_mem)
              have first : List.filter (fun run => !run.isEmpty)
                  ((y :: acc).reverse :: List.splitOnP (fun x => !letter x) rest) =
                  (y :: acc).reverse :: words letter rest := by
                rw [words, List.filter_cons_of_pos (by simp)]
              rw [rdropWhile_append, gap, word_kept, first, joined_cons]
              by_cases last : words letter rest = [] <;> simp [last]

/-- A scan does not start with a separator. -/
theorem scan_head (letter : σ → Bool) (sep : σ) (text : List σ) {state : List σ × Bool}
    (fresh : state.1 = [] → state.2 = true) (head : ∀ x ∈ state.1.head?, letter x = true) :
    ∀ x ∈ (text.foldl (scanStep letter sep) state).1.head?, letter x = true := by
  induction text generalizing state with
  | nil => exact head
  | cons x rest ih =>
      rcases state with ⟨out, spaced⟩
      rw [List.foldl_cons]
      apply ih
      · cases is_letter : letter x <;> cases spaced <;> simp [scanStep, is_letter]
      · cases out with
        | nil =>
            have start : spaced = true := fresh rfl
            cases is_letter : letter x <;> simp [scanStep, is_letter, start]
        | cons y out =>
            have first : letter y = true := by simpa using head
            simp only [scanStep]
            split
            · simpa using first
            · split <;> simpa using first

/-- A whole scan, trimmed, spells the words of the text. -/
theorem trim_scan (letter : σ → Bool) {blank : σ → Bool} {sep : σ}
    (apart : ∀ x, letter x = true → blank x = false) (sep_blank : blank sep = true)
    (text : List σ) :
    (((text.foldl (scanStep letter sep) ([], true)).1.dropWhile blank).rdropWhile blank) =
      joined sep (words letter text) := by
  have head : ∀ x ∈ (text.foldl (scanStep letter sep) ([], true)).1.head?, letter x = true :=
    scan_head letter sep text (fun _ => rfl) (by simp)
  rcases scan_spells apart sep_blank text [] (by simp) [] with ⟨tail, written, spelled⟩
  rw [List.isEmpty_nil, List.nil_append] at written
  rw [written] at head ⊢
  have kept : tail.dropWhile blank = tail := by
    cases tail with
    | nil => rfl
    | cons x tail => simp [apart x (head x rfl)]
  rw [kept]
  exact spelled

end Words
