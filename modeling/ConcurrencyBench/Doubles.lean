import Mathlib.Algebra.Order.Floor.Ring
import Mathlib.Algebra.Ring.Parity
import Mathlib.Data.Int.Log
import Mathlib.Data.Nat.Sqrt
import Mathlib.Data.Rat.Floor
import Mathlib.Tactic.FieldSimp
import Mathlib.Tactic.Linarith
import Mathlib.Tactic.NormNum
import Mathlib.Tactic.Positivity
import Mathlib.Tactic.Ring

/-!
# Numbers rounded to doubles

A double keeps 53 binary places of a number, and none beyond the 1074th after the point. The
last place kept depends on the size of the number alone, so a number is rounded to the nearest
multiple of a power of two, and of two that are equally near to the even one.

Rounding respects the order and leaves whole numbers of 53 bits as they are. It errs by a half of
the last place, so by a relative amount that does not depend on the number. The numbers too large
for a double are left to those who round: here the places go up without end.
-/

namespace Doubles

/-! ## The nearest whole number -/

/-- The nearest integer, and of two the even one. -/
def nearest (x : ℚ) : ℤ :=
  let below := ⌊x⌋
  let rest := x - below
  if rest < 1 / 2 ∨ rest = 1 / 2 ∧ Even below then below else below + 1

/-- The nearest integer is the one below or the one above. -/
theorem nearest_cases (x : ℚ) : nearest x = ⌊x⌋ ∨ nearest x = ⌊x⌋ + 1 := by
  simp only [nearest]
  split
  · exact .inl rfl
  · exact .inr rfl

/-- No integer is nearer than a half. -/
theorem nearest_near (x : ℚ) : |(nearest x : ℚ) - x| ≤ 1 / 2 := by
  have below := Int.floor_le x
  have above := Int.lt_floor_add_one x
  simp only [nearest]
  rw [abs_le]
  split
  · rename_i down
    have half : x - ⌊x⌋ ≤ 1 / 2 := by
      rcases down with less | ⟨tie, -⟩
      · exact less.le
      · exact tie.le
    constructor <;> linarith
  · rename_i up
    have half : 1 / 2 ≤ x - ⌊x⌋ := not_lt.mp fun less => up (.inl less)
    push_cast
    constructor <;> linarith

/-- An integer is its own nearest. -/
@[simp]
theorem nearest_intCast (k : ℤ) : nearest k = k := by
  simp [nearest]

/-- Larger numbers have larger nearest integers. -/
theorem nearest_mono {x y : ℚ} (le : x ≤ y) : nearest x ≤ nearest y := by
  have floors : ⌊x⌋ ≤ ⌊y⌋ := Int.floor_le_floor le
  rcases floors.lt_or_eq with less | same
  · rcases nearest_cases x with first | first <;> rcases nearest_cases y with second | second <;>
      omega
  · simp only [nearest, same]
    split
    · split <;> omega
    · rename_i up
      rw [if_neg]
      rintro (less | ⟨tie, even⟩)
      · exact up (.inl (by linarith))
      · rcases le.lt_or_eq with below | rfl
        · exact up (.inl (by linarith))
        · exact up (.inr ⟨tie, even⟩)

/-! ## Doubles -/

/-- The exponent of the last place a double keeps of a number. -/
def lastPlace (x : ℚ) : ℤ := if x = 0 then -1074 else max (Int.log 2 |x| - 52) (-1074)

/-- The nearest double, and of two the even one. -/
def toDouble (x : ℚ) : ℚ := nearest (x / 2 ^ lastPlace x) * 2 ^ lastPlace x

section Places

variable {x y : ℚ}

/-- A place is positive. -/
theorem place_pos (p : ℤ) : (0 : ℚ) < 2 ^ p := zpow_pos (by norm_num) p

/-- Fewer than 54 places are kept. -/
theorem abs_lt_place (x : ℚ) : |x| < 2 ^ (lastPlace x + 53) := by
  by_cases zero : x = 0
  · rw [zero, abs_zero]
    exact place_pos _
  have bound : |x| < ((2 : ℕ) : ℚ) ^ (Int.log 2 |x| + 1) :=
    Int.lt_zpow_succ_log_self (by norm_num) |x|
  refine bound.trans_le ?_
  push_cast
  refine zpow_le_zpow_right₀ (by norm_num) ?_
  rw [lastPlace, if_neg zero]
  omega

/-- At least 53 are, unless the last is the last of all. -/
theorem place_le_abs (large : -1074 < lastPlace x) : 2 ^ (lastPlace x + 52) ≤ |x| := by
  have nonzero : x ≠ 0 := by
    rintro rfl
    simp [lastPlace] at large
  have bound : ((2 : ℕ) : ℚ) ^ Int.log 2 |x| ≤ |x| :=
    Int.zpow_log_le_self (by norm_num) (abs_pos.mpr nonzero)
  have exponent : lastPlace x + 52 = Int.log 2 |x| := by
    rw [lastPlace, if_neg nonzero] at large ⊢
    omega
  rw [exponent]
  exact_mod_cast bound

/-- No place is beyond the last of all. -/
theorem le_lastPlace (x : ℚ) : -1074 ≤ lastPlace x := by
  rw [lastPlace]
  split
  · exact le_rfl
  · exact le_max_right _ _

/-- The last place is small beside the number, or the last of all. -/
theorem place_le (x : ℚ) : (2 : ℚ) ^ lastPlace x ≤ |x| / 2 ^ 52 + 2 ^ (-1074 : ℤ) := by
  have nonneg : 0 ≤ |x| / 2 ^ 52 := by positivity
  rcases (le_lastPlace x).lt_or_eq with large | small
  · have bound := place_le_abs large
    rw [zpow_add₀ (by norm_num)] at bound
    have scaled : (2 : ℚ) ^ lastPlace x ≤ |x| / 2 ^ 52 := by
      rw [le_div_iff₀ (by positivity)]
      exact_mod_cast bound
    linarith [place_pos (-1074)]
  · rw [← small]
    linarith

/-- Multiples of the last place bound the double from below as they bound the number. -/
theorem le_toDouble {k : ℤ} (le : k * 2 ^ lastPlace x ≤ x) : k * 2 ^ lastPlace x ≤ toDouble x := by
  have place := place_pos (lastPlace x)
  have scaled : (k : ℚ) ≤ x / 2 ^ lastPlace x := (le_div_iff₀ place).mpr le
  have kept := nearest_mono scaled
  rw [nearest_intCast] at kept
  exact mul_le_mul_of_nonneg_right (by exact_mod_cast kept) place.le

/-- And so they do from above. -/
theorem toDouble_le {k : ℤ} (le : x ≤ k * 2 ^ lastPlace x) : toDouble x ≤ k * 2 ^ lastPlace x := by
  have place := place_pos (lastPlace x)
  have scaled : x / 2 ^ lastPlace x ≤ k := (div_le_iff₀ place).mpr le
  have kept := nearest_mono scaled
  rw [nearest_intCast] at kept
  exact mul_le_mul_of_nonneg_right (by exact_mod_cast kept) place.le

/-- A multiple of the last place is a double. -/
theorem toDouble_of_multiple {k : ℤ} (multiple : x = k * 2 ^ lastPlace x) : toDouble x = x :=
  le_antisymm ((toDouble_le multiple.le).trans multiple.ge)
    (multiple.le.trans (le_toDouble multiple.ge))

/-- A double is off by half of the last place at most. -/
theorem toDouble_near (x : ℚ) : |toDouble x - x| ≤ |x| / 2 ^ 53 + 2 ^ (-1075 : ℤ) := by
  have place := place_pos (lastPlace x)
  have scaled : toDouble x - x =
      (nearest (x / 2 ^ lastPlace x) - x / 2 ^ lastPlace x) * 2 ^ lastPlace x := by
    rw [toDouble, sub_mul, div_mul_cancel₀ _ place.ne']
  have near := nearest_near (x / 2 ^ lastPlace x)
  calc |toDouble x - x|
      = |nearest (x / 2 ^ lastPlace x) - x / 2 ^ lastPlace x| * 2 ^ lastPlace x := by
        rw [scaled, abs_mul, abs_of_pos place]
    _ ≤ 1 / 2 * (|x| / 2 ^ 52 + 2 ^ (-1074 : ℤ)) :=
        mul_le_mul near (place_le x) place.le (by norm_num)
    _ = |x| / 2 ^ 53 + 2 ^ (-1075 : ℤ) := by
        rw [show (-1074 : ℤ) = -1075 + 1 by norm_num, zpow_add_one₀ (by norm_num)]
        ring

end Places

/-- A power of two that is no finer than the last place is a multiple of it. -/
theorem power_eq_multiple {p q : ℤ} (le : p ≤ q) :
    (2 : ℚ) ^ q = ((2 ^ (q - p).toNat : ℤ) : ℚ) * 2 ^ p := by
  push_cast
  rw [← zpow_natCast, Int.toNat_of_nonneg (by omega), ← zpow_add₀ (by norm_num)]
  congr 1
  omega

/-- Where fewer places are kept, the number has passed a power of two, which is a double. -/
theorem exists_power {x y : ℚ} (coarser : lastPlace x < lastPlace y) :
    ∃ q : ℤ, lastPlace x ≤ q ∧ lastPlace y ≤ q ∧ |x| < 2 ^ q ∧ 2 ^ q ≤ |y| := by
  have large : -1074 < lastPlace y := (le_lastPlace x).trans_lt coarser
  refine ⟨lastPlace y + 52, by omega, by omega, ?_, place_le_abs large⟩
  exact (abs_lt_place x).trans_le (zpow_le_zpow_right₀ (by norm_num) (by omega))

/-- Rounding respects the order. -/
theorem toDouble_mono {x y : ℚ} (le : x ≤ y) : toDouble x ≤ toDouble y := by
  rcases lt_trichotomy (lastPlace x) (lastPlace y) with finer | same | coarser
  · -- A power of two stands between them.
    obtain ⟨q, fromX, fromY, above, below⟩ := exists_power finer
    have negative : -x ≤ |x| := neg_le_abs x
    have positive : 0 ≤ y := by
      by_contra minus
      have size : |y| = -y := abs_of_neg (not_le.mp minus)
      linarith
    have first : toDouble x ≤ 2 ^ q := by
      rw [power_eq_multiple fromX]
      apply toDouble_le
      rw [← power_eq_multiple fromX]
      exact (le_abs_self x).trans above.le
    have second : 2 ^ q ≤ toDouble y := by
      rw [power_eq_multiple fromY]
      apply le_toDouble
      rw [← power_eq_multiple fromY]
      rwa [abs_of_nonneg positive] at below
    exact first.trans second
  · have place := place_pos (lastPlace y)
    have scaled : x / 2 ^ lastPlace y ≤ y / 2 ^ lastPlace y := div_le_div_of_nonneg_right le place.le
    rw [toDouble, toDouble, same]
    exact mul_le_mul_of_nonneg_right (by exact_mod_cast nearest_mono scaled) place.le
  · -- The negative of one does.
    obtain ⟨q, fromY, fromX, above, below⟩ := exists_power coarser
    have size : y ≤ |y| := le_abs_self y
    have negative : x < 0 := by
      by_contra plus
      have also : |x| = x := abs_of_nonneg (not_lt.mp plus)
      linarith
    have first : toDouble x ≤ -2 ^ q := by
      rw [power_eq_multiple fromX, ← neg_mul, ← Int.cast_neg]
      apply toDouble_le
      rw [Int.cast_neg, neg_mul, ← power_eq_multiple fromX]
      rw [abs_of_neg negative] at below
      linarith
    have second : -2 ^ q ≤ toDouble y := by
      rw [power_eq_multiple fromY, ← neg_mul, ← Int.cast_neg]
      apply le_toDouble
      rw [Int.cast_neg, neg_mul, ← power_eq_multiple fromY]
      linarith [neg_abs_le y]
    exact first.trans second

/-- Zero is a double. -/
@[simp]
theorem toDouble_zero : toDouble 0 = 0 := by
  simp [toDouble, nearest]

/-- Whole numbers of 53 bits are doubles. -/
theorem toDouble_natCast {k : ℕ} (small : k ≤ 2 ^ 53) : toDouble k = k := by
  by_cases zero : (k : ℚ) = 0
  · rw [zero]
    exact toDouble_zero
  have place : lastPlace k = max ((Nat.log 2 k : ℤ) - 52) (-1074) := by
    rw [lastPlace, if_neg zero, abs_of_nonneg (Nat.cast_nonneg k), Int.log_natCast]
  rcases small.lt_or_eq with fewer | rfl
  · -- The last place is that of a unit at most.
    have bits : Nat.log 2 k < 53 := Nat.log_lt_of_lt_pow' (by norm_num) fewer
    have unit : (1 : ℚ) = ((2 ^ (0 - lastPlace k).toNat : ℤ) : ℚ) * 2 ^ lastPlace k := by
      rw [← power_eq_multiple (by omega), zpow_zero]
    apply toDouble_of_multiple (k := k * 2 ^ (0 - lastPlace k).toNat)
    rw [Int.cast_mul, mul_assoc, ← unit, mul_one, Int.cast_natCast]
  · rw [Nat.log_pow (by norm_num)] at place
    apply toDouble_of_multiple (k := 2 ^ (53 - lastPlace ((2 ^ 53 : ℕ) : ℚ)).toNat)
    rw [← power_eq_multiple (by omega)]
    norm_num

/-- The integer that is nearest to the square root of a number. -/
def nearestSqrt (x : ℚ) : ℕ :=
  let below := Nat.sqrt ⌊x⌋₊
  -- half a step above the root below
  let middle := (below : ℚ) + 1 / 2
  if x < middle ^ 2 ∨ x = middle ^ 2 ∧ Even below then below else below + 1

/-- The double that is nearest to the square root of a number, zero if there is none. -/
def sqrtDouble (x : ℚ) : ℚ :=
  if x ≤ 0 then 0 else
    let place := max (Int.log 2 x / 2 - 52) (-1074)
    nearestSqrt (x / 4 ^ place) * 2 ^ place

end Doubles
