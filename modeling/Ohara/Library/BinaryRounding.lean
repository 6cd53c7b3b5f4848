import Mathlib.Data.Int.Log
import Mathlib.Data.Rat.Floor
import Mathlib.Tactic.FieldSimp
import Mathlib.Tactic.Linarith
import Mathlib.Tactic.NormNum
import Mathlib.Tactic.Positivity
import Mathlib.Tactic.Ring

/-!
# Rounding to a number of bits

Numbers from zero in the normal range of a binary format, as rationals: every operation is exact and
then rounded to the nearest number of the format, ties to even. A number has one significant bit
before the fraction: 23 bits in the 32-bit format, 52 in the 64-bit format.
-/

namespace BinaryRounding

/-- The nearest integer; of two, the even one. -/
def roundEven (x : ℚ) : ℤ :=
    if x - ⌊x⌋ < 1 / 2 then ⌊x⌋
    else if 1 / 2 < x - ⌊x⌋ then ⌊x⌋ + 1
    else ⌊x⌋ + ⌊x⌋ % 2

/-- The weight of the last bit. -/
def ulp (fraction : ℕ) (x : ℚ) : ℚ :=
    2 ^ (Int.log 2 x - fraction)

/-- The nearest number of the format; of two, the one with an even significand. -/
def nearest (fraction : ℕ) (x : ℚ) : ℚ :=
    roundEven (x / ulp fraction x) * ulp fraction x

/-! ## Integers -/

theorem roundEven_bounds (x : ℚ) : ⌊x⌋ ≤ roundEven x ∧ roundEven x ≤ ⌊x⌋ + 1 := by
  unfold roundEven
  split
  · omega
  · split
    · omega
    · omega

@[simp]
theorem roundEven_intCast (n : ℤ) : roundEven n = n := by
  simp [roundEven]

theorem le_roundEven {n : ℤ} {x : ℚ} (le : n ≤ x) : n ≤ roundEven x :=
  (Int.le_floor.2 le).trans (roundEven_bounds x).1

theorem roundEven_le {n : ℤ} {x : ℚ} (le : x ≤ n) : roundEven x ≤ n := by
  rcases le.eq_or_lt with rfl | lt
  · simp
  · exact (roundEven_bounds x).2.trans (Int.floor_lt.2 lt)

theorem roundEven_le_add_half (x : ℚ) : (roundEven x : ℚ) ≤ x + 1 / 2 := by
  have below := Int.floor_le x
  unfold roundEven
  split
  · linarith
  · split
    · push_cast
      linarith
    · next not_below not_above =>
        have odd : ((⌊x⌋ % 2 : ℤ) : ℚ) ≤ 1 := by exact_mod_cast (by omega : ⌊x⌋ % 2 ≤ 1)
        push_cast at odd ⊢
        linarith

/-- An even number is reached from half below on. -/
theorem even_le_roundEven_iff {n : ℤ} (even : n % 2 = 0) (x : ℚ) :
    n ≤ roundEven x ↔ (n : ℚ) - 1 / 2 ≤ x := by
  constructor
  · intro le
    have le_cast : (n : ℚ) ≤ roundEven x := by exact_mod_cast le
    have near := roundEven_le_add_half x
    linarith
  · intro half
    by_cases above : (n : ℚ) ≤ x
    · exact le_roundEven above
    · have floor_eq : ⌊x⌋ = n - 1 := by
        rw [Int.floor_eq_iff]
        push_cast
        constructor
        · linarith
        · linarith
      unfold roundEven
      rw [floor_eq]
      push_cast
      rw [if_neg (by linarith)]
      split
      · omega
      · omega

/-! ## Numbers -/

theorem two_zpow_pos (e : ℤ) : (0 : ℚ) < 2 ^ e :=
  zpow_pos (by norm_num) e

theorem two_zpow_le {e f : ℤ} (le : e ≤ f) : (2 : ℚ) ^ e ≤ 2 ^ f :=
  zpow_le_zpow_right₀ (by norm_num) le

theorem two_zpow_add (e f : ℤ) : (2 : ℚ) ^ (e + f) = 2 ^ e * 2 ^ f :=
  zpow_add₀ (by norm_num) e f

variable {fraction : ℕ}

theorem ulp_pos (x : ℚ) : 0 < ulp fraction x :=
  two_zpow_pos _

@[simp]
theorem nearest_zero : nearest fraction 0 = 0 := by
  have none : roundEven (0 / ulp fraction 0) = 0 := by
    rw [zero_div]
    exact roundEven_intCast 0
  rw [nearest, none]
  simp

/-- A multiple of the last bit stays. -/
theorem nearest_of_multiple {x : ℚ} {n : ℤ} (multiple : x = n * ulp fraction x) :
    nearest fraction x = x := by
  have quotient : x / ulp fraction x = n := by
    rw [div_eq_iff (ulp_pos x).ne']
    exact multiple
  rw [nearest, quotient, roundEven_intCast]
  exact multiple.symm

theorem log_of_bounds {x : ℚ} {e : ℤ} (le : 2 ^ e ≤ x) (lt : x < 2 ^ (e + 1)) :
    Int.log 2 x = e := by
  have positive : 0 < x := lt_of_lt_of_le (two_zpow_pos e) le
  apply le_antisymm
  · rw [← Int.lt_add_one_iff]
    exact (Int.lt_zpow_iff_log_lt (by decide) positive).1 (by exact_mod_cast lt)
  · exact (Int.zpow_le_iff_le_log (by decide) positive).1 (by exact_mod_cast le)

/-- The significand is between two powers of two. -/
theorem significand_bounds {x : ℚ} (positive : 0 < x) :
    (2 : ℚ) ^ fraction ≤ x / ulp fraction x ∧ x / ulp fraction x < 2 ^ (fraction + 1) := by
  have below : (2 : ℚ) ^ Int.log 2 x ≤ x := by
    exact_mod_cast Int.zpow_log_le_self (b := 2) (by decide) positive
  have above : x < (2 : ℚ) ^ (Int.log 2 x + 1) := by
    exact_mod_cast Int.lt_zpow_succ_log_self (b := 2) (by decide) x
  have low : (2 : ℚ) ^ fraction * ulp fraction x = 2 ^ Int.log 2 x := by
    rw [ulp, ← zpow_natCast, ← two_zpow_add]
    congr 1
    ring
  have high : (2 : ℚ) ^ (fraction + 1) * ulp fraction x = 2 ^ (Int.log 2 x + 1) := by
    rw [ulp, ← zpow_natCast, ← two_zpow_add]
    congr 1
    push_cast
    ring
  rw [le_div_iff₀ (ulp_pos x), div_lt_iff₀ (ulp_pos x), low, high]
  exact ⟨below, above⟩

theorem nearest_natCast {n : Nat} (small : n ≤ 2 ^ (fraction + 1)) : nearest fraction n = n := by
  by_cases zero : n = 0
  · simp [zero]
  have log_eq : Int.log 2 (n : ℚ) = Nat.log 2 n := Int.log_natCast 2 n
  by_cases bits : Nat.log 2 n ≤ fraction
  · apply nearest_of_multiple (n := n * 2 ^ (fraction - Nat.log 2 n))
    rw [ulp, log_eq]
    have exponent : (Nat.log 2 n : ℤ) - fraction = -((fraction - Nat.log 2 n : ℕ) : ℤ) := by omega
    rw [exponent, zpow_neg, zpow_natCast]
    push_cast
    field_simp
  · have reached : 2 ^ (fraction + 1) ≤ n := by
      apply Nat.pow_le_of_le_log zero
      omega
    have largest : n = 2 ^ (fraction + 1) := le_antisymm small reached
    apply nearest_of_multiple (n := 2 ^ fraction)
    rw [ulp, log_eq, largest, Nat.log_pow (by decide)]
    have last_bit : ((fraction + 1 : ℕ) : ℤ) - fraction = 1 := by omega
    rw [last_bit, zpow_one]
    push_cast
    ring

/-- Numbers are rounded within their powers of two. -/
theorem nearest_bounds {x : ℚ} (positive : 0 < x) :
    (2 : ℚ) ^ fraction * ulp fraction x ≤ nearest fraction x ∧
      nearest fraction x ≤ 2 ^ (fraction + 1) * ulp fraction x := by
  have significand : (2 : ℚ) ^ fraction ≤ x / ulp fraction x ∧
      x / ulp fraction x < 2 ^ (fraction + 1) := significand_bounds positive
  have low : (2 ^ fraction : ℤ) ≤ roundEven (x / ulp fraction x) :=
    le_roundEven (by exact_mod_cast significand.1)
  have high : roundEven (x / ulp fraction x) ≤ 2 ^ (fraction + 1) :=
    roundEven_le (by exact_mod_cast significand.2.le)
  constructor
  · apply mul_le_mul_of_nonneg_right _ (ulp_pos x).le
    exact_mod_cast low
  · apply mul_le_mul_of_nonneg_right _ (ulp_pos x).le
    exact_mod_cast high

theorem nearest_pos {x : ℚ} (positive : 0 < x) : 0 < nearest fraction x :=
  lt_of_lt_of_le (mul_pos (pow_pos (by norm_num) _) (ulp_pos x)) (nearest_bounds positive).1

theorem nearest_nonneg {x : ℚ} (nonneg : 0 ≤ x) : 0 ≤ nearest fraction x := by
  rcases nonneg.eq_or_lt with rfl | positive
  · simp
  · exact (nearest_pos positive).le

theorem nearest_eq_zero_iff {x : ℚ} (nonneg : 0 ≤ x) : nearest fraction x = 0 ↔ x = 0 := by
  constructor
  · intro zero
    by_contra nonzero
    exact (nearest_pos (lt_of_le_of_ne nonneg (Ne.symm nonzero))).ne' zero
  · rintro rfl
    simp

/-- The numbers that are rounded to at least one with an even significand. -/
theorem even_le_nearest_iff {significand e : ℤ} (even : significand % 2 = 0)
    (normal : 2 ^ fraction < significand) (bits : significand ≤ 2 ^ (fraction + 1)) {x : ℚ}
    (nonneg : 0 ≤ x) :
    (significand : ℚ) * 2 ^ (e - fraction) ≤ nearest fraction x ↔
      ((significand : ℚ) - 1 / 2) * 2 ^ (e - fraction) ≤ x := by
  have unit_pos := two_zpow_pos (e - fraction)
  have power_pos : (0 : ℚ) < 2 ^ fraction := pow_pos (by norm_num) _
  have normal_cast : (2 : ℚ) ^ fraction + 1 ≤ significand := by exact_mod_cast normal
  have bits_cast : (significand : ℚ) ≤ 2 * 2 ^ fraction := by
    rw [← pow_succ']
    exact_mod_cast bits
  rcases nonneg.eq_or_lt with rfl | positive
  · rw [nearest_zero]
    constructor
    · intro le
      nlinarith
    · intro le
      nlinarith
  have rounded : (2 : ℚ) ^ fraction * ulp fraction x ≤ nearest fraction x ∧
      nearest fraction x ≤ 2 ^ (fraction + 1) * ulp fraction x := nearest_bounds positive
  have exact_bounds : (2 : ℚ) ^ fraction ≤ x / ulp fraction x ∧
      x / ulp fraction x < 2 ^ (fraction + 1) := significand_bounds positive
  rw [le_div_iff₀ (ulp_pos x), div_lt_iff₀ (ulp_pos x)] at exact_bounds
  rw [pow_succ'] at rounded exact_bounds
  rcases lt_trichotomy (Int.log 2 x) e with smaller | same | larger
  · -- a smaller power of two: both are below its end
    have double : 2 * ulp fraction x ≤ (2 : ℚ) ^ (e - fraction) := by
      have exponents : 1 + (Int.log 2 x - fraction) ≤ e - fraction := by omega
      have le := two_zpow_le exponents
      rwa [two_zpow_add, zpow_one] at le
    have below := mul_le_mul_of_nonneg_left double power_pos.le
    have above := mul_le_mul_of_nonneg_right normal_cast unit_pos.le
    constructor
    · intro le
      nlinarith
    · intro le
      nlinarith
  · have unit : ulp fraction x = 2 ^ (e - fraction) := by rw [ulp, same]
    rw [nearest, ← unit, mul_le_mul_iff_left₀ (ulp_pos x), ← le_div_iff₀ (ulp_pos x),
      ← even_le_roundEven_iff even, Int.cast_le]
  · -- a larger one: both are above its start
    have half : 2 * (2 : ℚ) ^ (e - fraction) ≤ ulp fraction x := by
      have exponents : 1 + (e - fraction) ≤ Int.log 2 x - fraction := by omega
      have le := two_zpow_le exponents
      rwa [two_zpow_add, zpow_one] at le
    have above := mul_le_mul_of_nonneg_left half power_pos.le
    have below := mul_le_mul_of_nonneg_right bits_cast unit_pos.le
    constructor
    · intro _
      nlinarith
    · intro _
      nlinarith

end BinaryRounding
