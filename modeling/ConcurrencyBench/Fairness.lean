import ConcurrencyBench.Dispersion
import ConcurrencyBench.Doubles
import Mathlib.Algebra.BigOperators.Ring.Finset
import Mathlib.Algebra.Order.Ring.Rat

/-!
# The fairness coefficient

The coefficient of variation of the per-thread counts is computed twice, by
`variance_tracker::coefficient_of_variation` and at the end of `run_contention_window`, by
loops of their own. Both return the square root of the variance divided by the mean, and
guard the division in different ways.

The numbers here are exact rationals, and what is returned is the square of the
coefficient. A division by zero has no result. Where all counts are equal, an arithmetic
that rounds every result returns the same zero as long as it can count what has been done.
The doubles of the code are such an arithmetic, and counts beyond its whole numbers have a
coefficient that is not zero.
-/

namespace ConcurrencyBench.Fairness

open Dispersion

/-- `a / b` -/
def divide (a b : ℚ) : Option ℚ := if b = 0 then none else some (a / b)

/-- `for (auto count : counts) mean += static_cast<double>(count);` -/
def sumCounts (counts : List ℕ) : ℚ := counts.foldl (fun (mean : ℚ) (count : ℕ) => mean + count) 0

/-- The loop that adds up the squared deviations from the mean. -/
def sumDeviations (mean : ℚ) (counts : List ℕ) : ℚ :=
  counts.foldl (fun (variance : ℚ) (count : ℕ) => variance + (count - mean) * (count - mean)) 0

/-- `variance_tracker::coefficient_of_variation`, squared -/
def coefficientOfVariation (counts : List ℕ) : Option ℚ :=
  -- if (counts.empty()) return 0.0;
  if counts.isEmpty then some 0 else do
    let mean ← divide (sumCounts counts) counts.length
    -- if (mean == 0.0) return 0.0;
    if mean = 0 then return 0
    let variance ← divide (sumDeviations mean counts) counts.length
    -- return std::sqrt(variance) / mean;
    divide variance (mean ^ 2)

/-- `fairness_cv` of `run_contention_window`, squared. There is one count for each of its
`num_threads` threads. -/
def fairnessCv (counts : List ℕ) : Option ℚ :=
  match divide (sumCounts counts) counts.length with
  -- without threads the mean is 0.0 / 0.0, which is not above zero
  | none => some 0
  | some mean =>
    -- if (mean > 0.0)
    if 0 < mean then do
      let variance ← divide (sumDeviations mean counts) counts.length
      -- result.fairness_cv = std::sqrt(variance) / mean;
      divide variance (mean ^ 2)
    else
      -- double fairness_cv = 0.0;
      some 0

/-- A loop that adds up computes a sum. -/
theorem foldl_eq_sum (value : ℕ → ℚ) (start : ℚ) (counts : List ℕ) :
    counts.foldl (fun total count => total + value count) start =
      start + (counts.map value).sum := by
  induction counts generalizing start with
  | nil => simp
  | cons count rest inductionHypothesis =>
    rw [List.foldl_cons, inductionHypothesis, List.map_cons, List.sum_cons, add_assoc]

/-- The counts as rational numbers. -/
def exact (counts : List ℕ) : List ℚ := counts.map Nat.cast

/-- The loop adds the counts up. -/
theorem sumCounts_eq (counts : List ℕ) : sumCounts counts = (exact counts).sum := by
  rw [sumCounts, foldl_eq_sum, zero_add]
  rfl

/-- The loop adds the squared deviations up. -/
theorem sumDeviations_eq (m : ℚ) (counts : List ℕ) :
    sumDeviations m counts = spread m (exact counts) := by
  rw [sumDeviations, foldl_eq_sum fun count => ((count : ℚ) - m) * ((count : ℚ) - m)]
  simp [spread, exact, Function.comp_def, sq]

/-- There are as many numbers as counts. -/
theorem exact_length (counts : List ℕ) : (exact counts).length = counts.length := by simp [exact]

/-- Counts are not negative. -/
theorem exact_nonneg (counts : List ℕ) : ∀ x ∈ exact counts, 0 ≤ x := by
  intro x member
  obtain ⟨count, _, rfl⟩ := List.mem_map.mp member
  exact Nat.cast_nonneg count

/-- The sum of the counts as numbers. -/
theorem exact_sum (counts : List ℕ) : (exact counts).sum = counts.sum := by
  rw [exact, Nat.cast_list_sum]

/-- The counts that are zero are the zeros. -/
theorem exact_count_zero (counts : List ℕ) : (exact counts).count 0 = counts.count 0 := by
  induction counts with
  | nil => rfl
  | cons count rest inductionHypothesis =>
    simp only [exact, List.map_cons, List.count_cons] at inductionHypothesis ⊢
    rw [inductionHypothesis]
    simp

/-- The counts that are not zero are the parts. -/
theorem parts_exact (counts : List ℕ) :
    parts (exact counts) = exact (counts.filter (· ≠ 0)) := by
  simp [parts, exact, List.filter_map, Function.comp_def]

/-- All numbers are equal exactly if all counts are. -/
theorem exact_equal_iff (counts : List ℕ) :
    (∀ x ∈ exact counts, ∀ y ∈ exact counts, x = y) ↔ ∀ x ∈ counts, ∀ y ∈ counts, x = y := by
  simp [exact]

/-- The threads that have worked are those that have not done nothing. -/
theorem parts_exact_length (counts : List ℕ) :
    ((parts (exact counts)).length : ℚ) = counts.length - counts.count 0 := by
  have counted := count_add_parts (exact counts)
  rw [exact_count_zero, exact_length] at counted
  rw [eq_sub_iff_add_eq, add_comm]
  exact_mod_cast counted

section Work

variable {counts : List ℕ} (worked : 0 < counts.sum)

include worked

/-- The sum of some count is positive. -/
theorem exact_sum_pos : 0 < (exact counts).sum := by
  rw [exact_sum]
  exact_mod_cast worked

/-- The mean of some count is positive. -/
theorem mean_pos : 0 < mean (exact counts) := by
  have positive := exact_sum_pos worked
  exact div_pos positive (length_pos positive.ne')

/-- Where some thread has worked, both loops compute the dispersion of the counts. -/
theorem both_dispersion : coefficientOfVariation counts = some (dispersion (exact counts)) ∧
    fairnessCv counts = some (dispersion (exact counts)) := by
  have positive := mean_pos worked
  have length : ((counts.length : ℕ) : ℚ) ≠ 0 := by
    have some := length_pos (exact_sum_pos worked).ne'
    rw [exact_length] at some
    exact some.ne'
  have nonempty : counts.isEmpty = false := by
    cases counts with
    | nil => simp at worked
    | cons => rfl
  have averaged : divide (sumCounts counts) counts.length = some (mean (exact counts)) := by
    rw [divide, if_neg length, sumCounts_eq, mean, exact_length]
  have scaled : divide (sumDeviations (mean (exact counts)) counts / counts.length)
      (mean (exact counts) ^ 2) = some (dispersion (exact counts)) := by
    rw [divide, if_neg (pow_ne_zero 2 positive.ne'), sumDeviations_eq, dispersion, exact_length]
  have deviated : divide (sumDeviations (mean (exact counts)) counts) counts.length =
      some (sumDeviations (mean (exact counts)) counts / counts.length) := by
    rw [divide, if_neg length]
  constructor
  · simp [coefficientOfVariation, nonempty, averaged, positive.ne', deviated, scaled]
  · simp [fairnessCv, averaged, positive, deviated, scaled]

end Work

/-- Without any work both loops return zero. -/
theorem both_zero {counts : List ℕ} (nonempty : counts ≠ [])
    (nothing : ∀ count ∈ counts, count = 0) :
    coefficientOfVariation counts = some 0 ∧ fairnessCv counts = some 0 := by
  have sum : sumCounts counts = 0 := by
    rw [sumCounts_eq, exact_sum, List.sum_eq_zero nothing, Nat.cast_zero]
  have length : (counts.length : ℚ) ≠ 0 := by simpa using nonempty
  simp [coefficientOfVariation, fairnessCv, divide, sum, length]

/-- Threads that have all done the same have coefficient zero, also if there are none of them
or they have done nothing. -/
theorem coefficientOfVariation_of_equal {counts : List ℕ}
    (same : ∀ x ∈ counts, ∀ y ∈ counts, x = y) : coefficientOfVariation counts = some 0 := by
  by_cases nonempty : counts = []
  · rw [nonempty]
    rfl
  by_cases worked : 0 < counts.sum
  · have positive := (exact_sum_pos worked).ne'
    rw [(both_dispersion worked).1,
      (dispersion_eq_zero_iff positive).mpr ((exact_equal_iff counts).mpr same)]
  · have nothing : ∀ count ∈ counts, count = 0 :=
      List.sum_eq_zero_iff.mp (Nat.eq_zero_of_not_pos worked)
    exact (both_zero nonempty nothing).1

/-- An arithmetic that rounds the result of each operation. Whole numbers of at most 53 bits,
and the square root of zero, are exact. -/
structure Rounding where
  round : ℚ → ℚ
  sqrt : ℚ → ℚ
  exact : ∀ k : ℕ, k ≤ 2 ^ 53 → round k = k
  sqrt_zero : sqrt 0 = 0

namespace Rounding

/-- `variance_tracker::coefficient_of_variation` in such an arithmetic -/
def coefficientOfVariation (fl : Rounding) (counts : List ℕ) : ℚ :=
  -- if (counts.empty()) return 0.0;
  if counts.isEmpty then 0 else
    let size := fl.round counts.length
    let sum := counts.foldl (fun (mean : ℚ) (count : ℕ) => fl.round (mean + fl.round count)) 0
    let mean := fl.round (sum / size)
    -- if (mean == 0.0) return 0.0;
    if mean = 0 then 0 else
      let squares := counts.foldl (fun (variance : ℚ) (count : ℕ) =>
        let deviation := fl.round (fl.round count - mean)
        fl.round (variance + fl.round (deviation * deviation))) 0
      -- return std::sqrt(variance) / mean;
      fl.round (fl.sqrt (fl.round (squares / size)) / mean)

/-- The arithmetic of the code's doubles. -/
def binary64 : Rounding where
  round := Doubles.toDouble
  sqrt := Doubles.sqrtDouble
  exact _ small := Doubles.toDouble_natCast small
  sqrt_zero := if_pos le_rfl

/-- Zero is exact. -/
theorem round_zero (fl : Rounding) : fl.round 0 = 0 := by
  have zero := fl.exact 0 (Nat.zero_le _)
  rwa [Nat.cast_zero] at zero

/-- Adding up equal counts rounds nothing as long as their sum is one of the exact numbers. -/
theorem foldl_replicate (fl : Rounding) {quota start size : ℕ}
    (small : start + size * quota ≤ 2 ^ 53) :
    (List.replicate size quota).foldl (fun (mean : ℚ) (count : ℕ) =>
      fl.round (mean + fl.round count)) start = (start + size * quota : ℕ) := by
  induction size generalizing start with
  | zero => simp
  | succ size inductionHypothesis =>
    rw [Nat.succ_mul] at small
    have count := fl.exact quota (by omega)
    have next := fl.exact (start + quota) (by omega)
    rw [List.replicate_succ, List.foldl_cons, count, ← Nat.cast_add, next,
      inductionHypothesis (by omega), Nat.succ_mul]
    congr 1
    omega

/-- Equal counts deviate by nothing. -/
theorem foldl_deviations (fl : Rounding) {quota : ℕ} (small : quota ≤ 2 ^ 53) (size : ℕ) :
    (List.replicate size quota).foldl (fun (variance : ℚ) (count : ℕ) =>
      let deviation := fl.round (fl.round count - quota)
      fl.round (variance + fl.round (deviation * deviation))) 0 = 0 := by
  induction size with
  | zero => rfl
  | succ size inductionHypothesis =>
    rw [List.replicate_succ, List.foldl_cons]
    simp only [fl.exact quota small, sub_self, round_zero, mul_zero, add_zero]
      at inductionHypothesis ⊢
    exact inductionHypothesis

/-- Threads that have all done the same have coefficient zero in this arithmetic as well, as
long as it can count what they have done together. -/
theorem coefficientOfVariation_of_equal (fl : Rounding) {size quota : ℕ}
    (small : size * quota ≤ 2 ^ 53) :
    fl.coefficientOfVariation (List.replicate size quota) = 0 := by
  have sum := fl.foldl_replicate (show 0 + size * quota ≤ 2 ^ 53 by omega)
  rw [Nat.cast_zero, zero_add] at sum
  unfold coefficientOfVariation
  split
  · rfl
  next some =>
    have threads : 0 < size := by
      simpa [Nat.pos_iff_ne_zero] using some
    simp only [sum, List.length_replicate]
    cases quota with
    | zero => simp [round_zero]
    | succ quota =>
      have sizes : size ≤ 2 ^ 53 := (Nat.le_mul_of_pos_right size quota.succ_pos).trans small
      have each : quota + 1 ≤ 2 ^ 53 := (Nat.le_mul_of_pos_left _ threads).trans small
      have mean : fl.round (((size * (quota + 1) : ℕ) : ℚ) / fl.round size) = (quota + 1 : ℕ) := by
        have nonzero : (size : ℚ) ≠ 0 := by exact_mod_cast threads.ne'
        rw [fl.exact size sizes, Nat.cast_mul, mul_div_cancel_left₀ _ nonzero, fl.exact _ each]
      have deviations := fl.foldl_deviations each size
      simp only [mean, deviations, zero_div, round_zero, fl.sqrt_zero, ite_self]

/-- What is published of equal counts, in this arithmetic: zero where nothing was run. -/
def published (fl : Rounding) (size quota total : ℕ) : ℚ :=
  if total = 0 then 0 else fl.coefficientOfVariation (List.replicate size quota)

/-- It is zero as long as the arithmetic can count what has been done. -/
theorem published_zero (fl : Rounding) {size quota : ℕ} (small : size * quota ≤ 2 ^ 53)
    (total : ℕ) : fl.published size quota total = 0 := by
  rw [published]
  split
  · rfl
  · exact fl.coefficientOfVariation_of_equal small

end Rounding

/-- The fairness coefficient measures starvation. Let `n` threads, `z` of which have done
nothing, have some work behind them. Both loops compute one value, between `z / (n - z)` and
`n - 1`. It is zero exactly if all threads have done the same, the lower bound exactly if
all that have worked have, and the upper bound exactly if one has done all the work.
Without any work both return zero. No division is by zero. -/
theorem fairness_measures_starvation (counts : List ℕ) (nonempty : counts ≠ []) :
    (0 < counts.sum → ∃ cv : ℚ,
      coefficientOfVariation counts = some cv ∧ fairnessCv counts = some cv ∧
      (counts.count 0 : ℚ) / (counts.length - counts.count 0) ≤ cv ∧ cv ≤ counts.length - 1 ∧
      (cv = 0 ↔ ∀ x ∈ counts, ∀ y ∈ counts, x = y) ∧
      (cv = counts.count 0 / (counts.length - counts.count 0) ↔
        ∀ x ∈ counts, ∀ y ∈ counts, x ≠ 0 → y ≠ 0 → x = y) ∧
      (cv = counts.length - 1 ↔ counts.countP (· ≠ 0) = 1)) ∧
    ((∀ count ∈ counts, count = 0) →
      coefficientOfVariation counts = some 0 ∧ fairnessCv counts = some 0) := by
  constructor
  · intro worked
    have positive := (exact_sum_pos worked).ne'
    obtain ⟨tracked, windowed⟩ := both_dispersion worked
    refine ⟨dispersion (exact counts), tracked, windowed, ?_, ?_, ?_, ?_, ?_⟩
    · rw [← parts_exact_length, ← exact_count_zero]
      exact zeros_le_dispersion positive
    · rw [← exact_length]
      exact dispersion_le positive (exact_nonneg counts)
    · rw [dispersion_eq_zero_iff positive, exact_equal_iff]
    · rw [← parts_exact_length, ← exact_count_zero, zeros_eq_dispersion_iff positive, parts_exact,
        exact_equal_iff]
      simp only [List.mem_filter, decide_eq_true_eq, and_imp]
      exact ⟨fun same x inX y inY someX someY => same x inX someX y inY someY,
        fun same x inX someX y inY someY => same x inX y inY someX someY⟩
    · rw [← exact_length, dispersion_eq_iff positive (exact_nonneg counts), parts_exact, exact_length,
        List.countP_eq_length_filter]
  · exact both_zero nonempty

/-- Of three threads one has done nothing and the others the same. -/
theorem fairness_measures_starvation_three : ∃ cv : ℚ,
    coefficientOfVariation [0, 5, 5] = some cv ∧ fairnessCv [0, 5, 5] = some cv ∧ cv = 1 / 2 := by
  obtain ⟨cv, tracked, windowed, _, _, _, lower, _⟩ :=
    (fairness_measures_starvation [0, 5, 5] (by simp)).1 (by decide)
  refine ⟨cv, tracked, windowed, ?_⟩
  rw [lower.mpr (by decide)]
  norm_num [List.count_cons]

end ConcurrencyBench.Fairness
