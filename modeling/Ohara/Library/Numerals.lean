import Mathlib.Algebra.Ring.Nat
import Mathlib.Data.List.Lex
import Mathlib.Data.Set.Function
import Mathlib.Order.Interval.Set.Defs

/-!
# Numerals of a fixed width

Numbers written with the same number of digits, the highest digit first, compare as their texts
do. A text that goes on after the numeral is decided by the numeral unless the numerals agree.
-/

namespace Numerals

universe u v

/-- The `width` lowest digits of a number, the highest of them first. -/
def digits (b : Nat) : Nat → Nat → List Nat
  | 0, _ => []
  | width + 1, n => n / b ^ width % b :: digits b width n

@[simp]
theorem length_digits (b width n : Nat) : (digits b width n).length = width := by
  induction width with
  | zero => rfl
  | succ width ih => rw [digits, List.length_cons, ih]

theorem digits_add (b width extra n : Nat) :
    digits b (width + extra) n = digits b width (n / b ^ extra) ++ digits b extra n := by
  induction width with
  | zero => simp [digits]
  | succ width ih =>
      rw [Nat.succ_add, digits, digits, ih, Nat.div_div_eq_div_mul, ← Nat.pow_add,
        Nat.add_comm extra width]
      rfl

theorem digits_lt {b : Nat} (base : 0 < b) (width n : Nat) : ∀ d ∈ digits b width n, d < b := by
  induction width with
  | zero => simp [digits]
  | succ width ih =>
      rw [digits, List.forall_mem_cons]
      exact ⟨Nat.mod_lt _ base, ih⟩

theorem add_mul_lt_add_mul_iff {B low low' high high' : Nat} (low_lt : low < B)
    (low_lt' : low' < B) :
    low + B * high < low' + B * high' ↔ high < high' ∨ high = high' ∧ low < low' := by
  rcases Nat.lt_trichotomy high high' with less | same | more
  · have gap := Nat.mul_le_mul_left B (Nat.succ_le_of_lt less)
    rw [Nat.mul_succ] at gap
    omega
  · subst same
    omega
  · have gap := Nat.mul_le_mul_left B (Nat.succ_le_of_lt more)
    rw [Nat.mul_succ] at gap
    omega

/-- Comparing the highest digit first is comparing what the digits stand for. -/
theorem digits_lt_digits_iff {b : Nat} (base : 0 < b) (width m n : Nat) :
    digits b width m < digits b width n ↔ m % b ^ width < n % b ^ width := by
  induction width with
  | zero => simp [digits, Nat.mod_one]
  | succ width ih =>
      have bound : 0 < b ^ width := Nat.pow_pos base
      rw [digits, digits, List.cons_lt_cons_iff, ih, Nat.pow_succ, Nat.mod_mul, Nat.mod_mul,
        add_mul_lt_add_mul_iff (Nat.mod_lt m bound) (Nat.mod_lt n bound)]

/-- Where comparing and comparing values agree, so do equality and equality of values. -/
theorem eq_iff_of_lt_iff {α : Type u} {β : Type v} [LinearOrder α] [LinearOrder β] {x y : α}
    {m n : β} (below : x < y ↔ m < n) (above : y < x ↔ n < m) : x = y ↔ m = n := by
  rw [eq_iff_le_not_lt, eq_iff_le_not_lt, ← not_lt, ← not_lt, below, above]

section Texts

variable {α : Type u} [LinearOrder α]

theorem map_lt_map_iff {letter : Nat → α} {b : Nat} (letters : StrictMonoOn letter (Set.Iio b))
    {xs ys : List Nat} (xs_digits : ∀ d ∈ xs, d < b) (ys_digits : ∀ d ∈ ys, d < b) :
    xs.map letter < ys.map letter ↔ xs < ys := by
  induction xs generalizing ys with
  | nil => cases ys <;> simp
  | cons x xs ih =>
      cases ys with
      | nil => simp
      | cons y ys =>
          rw [List.forall_mem_cons] at xs_digits ys_digits
          rw [List.map_cons, List.map_cons, List.cons_lt_cons_iff, List.cons_lt_cons_iff,
            ih xs_digits.2 ys_digits.2, letters.lt_iff_lt xs_digits.1 ys_digits.1,
            letters.injOn.eq_iff xs_digits.1 ys_digits.1]

/-- Texts of one length in front decide, unless they agree. -/
theorem append_lt_append_iff {xs ys : List α} (same_length : xs.length = ys.length)
    (xs' ys' : List α) : xs ++ xs' < ys ++ ys' ↔ xs < ys ∨ xs = ys ∧ xs' < ys' := by
  induction xs generalizing ys with
  | nil =>
      cases ys with
      | nil => simp
      | cons y ys => cases same_length
  | cons x xs ih =>
      cases ys with
      | nil => cases same_length
      | cons y ys =>
          rw [List.length_cons, List.length_cons, Nat.add_right_cancel_iff] at same_length
          simp only [List.cons_append, List.cons_lt_cons_iff, ih same_length, List.cons.injEq]
          tauto

end Texts

/-! ## A numeral with an alphabet -/

section Numeral

variable {α : Type u} [LinearOrder α] {letter : Nat → α} {b : Nat}

/-- The digits of a number in an alphabet. -/
def numeral (letter : Nat → α) (b width n : Nat) : List α :=
    (digits b width n).map letter

omit [LinearOrder α] in
@[simp]
theorem length_numeral (width n : Nat) : (numeral letter b width n).length = width := by
  simp [numeral]

omit [LinearOrder α] in
theorem map_range_eq_numeral (width n : Nat) :
    ((List.range width).map fun place => letter (n / b ^ (width - 1 - place) % b)) =
      numeral letter b width n := by
  induction width with
  | zero => rfl
  | succ width ih =>
      rw [numeral, digits, List.map_cons, ← numeral, ← ih, List.range_succ_eq_map, List.map_cons,
        List.map_map]
      congr 1
      apply List.map_congr_left
      intro place _
      simp only [Function.comp_apply, Nat.add_sub_cancel]
      congr 4
      omega

variable (letters : StrictMonoOn letter (Set.Iio b)) (base : 0 < b)

include letters base

theorem numeral_lt_numeral_iff (width m n : Nat) :
    numeral letter b width m < numeral letter b width n ↔ m % b ^ width < n % b ^ width := by
  rw [numeral, numeral, map_lt_map_iff letters (digits_lt base width m) (digits_lt base width n),
    digits_lt_digits_iff base]

theorem numeral_eq_numeral_iff (width m n : Nat) :
    numeral letter b width m = numeral letter b width n ↔ m % b ^ width = n % b ^ width :=
  eq_iff_of_lt_iff (numeral_lt_numeral_iff letters base width m n)
    (numeral_lt_numeral_iff letters base width n m)

/-- A text that starts with a numeral is decided by its number, and then by the rest. -/
theorem numeral_append_lt_iff {width m n : Nat} (m_short : m < b ^ width) (n_short : n < b ^ width)
    (xs ys : List α) :
    numeral letter b width m ++ xs < numeral letter b width n ++ ys ↔
      m < n ∨ m = n ∧ xs < ys := by
  rw [append_lt_append_iff (by simp), numeral_lt_numeral_iff letters base,
    numeral_eq_numeral_iff letters base, Nat.mod_eq_of_lt m_short, Nat.mod_eq_of_lt n_short]

omit letters base in
omit [LinearOrder α] in
theorem numeral_add (width extra n : Nat) :
    numeral letter b (width + extra) n =
      numeral letter b width (n / b ^ extra) ++ numeral letter b extra n := by
  simp [numeral, digits_add]

omit letters in
theorem sign_lt_numeral {extra : Nat} (longer : 0 < extra) (n : Nat) {sign : α}
    (signs : ∀ d < b, sign < letter d) (xs ys : List α) :
    sign :: xs < numeral letter b extra n ++ ys := by
  cases extra with
  | zero => omega
  | succ extra =>
      rw [numeral, digits, List.map_cons, List.cons_append, List.cons_lt_cons_iff]
      exact Or.inl (signs _ (Nat.mod_lt _ base))

/-- Against a longer numeral the text is decided by as many digits, and then by the sign after
them, which is below every digit. -/
theorem shorter_numeral_lt_iff {width extra m n : Nat} (longer : 0 < extra) (m_short : m < b ^ width)
    (n_short : n < b ^ (width + extra)) {sign : α} (signs : ∀ d < b, sign < letter d)
    (xs ys : List α) :
    numeral letter b width m ++ sign :: xs < numeral letter b (width + extra) n ++ ys ↔
      m * b ^ extra ≤ n := by
  have head_short : n / b ^ extra < b ^ width := by
    apply Nat.div_lt_of_lt_mul
    rwa [← Nat.pow_add, Nat.add_comm]
  have next := sign_lt_numeral base longer n signs xs ys
  rw [numeral_add, List.append_assoc, numeral_append_lt_iff letters base m_short head_short,
    ← Nat.le_div_iff_mul_le (Nat.pow_pos base)]
  simp only [next, and_true]
  omega

theorem longer_numeral_lt_iff {width extra m n : Nat} (longer : 0 < extra) (m_short : m < b ^ width)
    (n_short : n < b ^ (width + extra)) {sign : α} (signs : ∀ d < b, sign < letter d)
    (xs ys : List α) :
    numeral letter b (width + extra) n ++ ys < numeral letter b width m ++ sign :: xs ↔
      n < m * b ^ extra := by
  have head_short : n / b ^ extra < b ^ width := by
    apply Nat.div_lt_of_lt_mul
    rwa [← Nat.pow_add, Nat.add_comm]
  have next := (sign_lt_numeral base longer n signs xs ys).not_gt
  rw [numeral_add, List.append_assoc, numeral_append_lt_iff letters base head_short m_short,
    ← Nat.div_lt_iff_lt_mul (Nat.pow_pos base)]
  simp only [next, and_false, or_false]

end Numeral

end Numerals
