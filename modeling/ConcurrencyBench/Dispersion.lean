import Mathlib.Algebra.Order.Field.Basic
import Mathlib.Algebra.Order.BigOperators.Group.List
import Mathlib.Tactic.FieldSimp
import Mathlib.Tactic.Linarith
import Mathlib.Tactic.Positivity
import Mathlib.Tactic.Ring

/-!
# Dispersion of a list of numbers

How unevenly a total is divided into parts. The spread about a number is the sum of the
squared deviations from it; about the mean it is the sum of the squares less the square of
the sum divided by the length. The dispersion is the mean squared deviation in units of the
squared mean, and so the square of what statistics calls the coefficient of variation.

The dispersion is least when all parts are equal. Parts that are zero can only be made up
for by the others, so it is at least their number over that of the others. It is greatest
when one part is all. Numbers are elements of any ordered field.
-/

namespace Dispersion

universe u
variable {K : Type u} [Field K]

/-- The sum of the squares. -/
def squares (xs : List K) : K := (xs.map (· ^ 2)).sum

/-- The sum of the squared deviations from a number. -/
def spread (m : K) (xs : List K) : K := (xs.map fun x => (x - m) ^ 2).sum

/-- The mean of some numbers. -/
def mean (xs : List K) : K := xs.sum / xs.length

/-- The mean squared deviation from the mean, in units of the squared mean. -/
def dispersion (xs : List K) : K := spread (mean xs) xs / xs.length / mean xs ^ 2

/-- The parts that are not zero. -/
def parts [DecidableEq K] (xs : List K) : List K := xs.filter (· ≠ 0)

/-- The squared deviations from a number, by squares and sum. -/
theorem spread_eq (m : K) (xs : List K) :
    spread m xs = squares xs - 2 * m * xs.sum + xs.length * m ^ 2 := by
  induction xs with
  | nil => simp [spread, squares]
  | cons x rest inductionHypothesis =>
    simp only [spread, squares, List.map_cons, List.sum_cons, List.length_cons,
      Nat.cast_add, Nat.cast_one] at inductionHypothesis ⊢
    rw [inductionHypothesis]
    ring

section Parts

variable [DecidableEq K]

/-- The zeros add nothing to the sum. -/
theorem sum_parts (xs : List K) : (parts xs).sum = xs.sum := by
  induction xs with
  | nil => rfl
  | cons x rest inductionHypothesis =>
    by_cases zero : x = 0 <;> simp_all [parts]

/-- The zeros add nothing to the squares. -/
theorem squares_parts (xs : List K) : squares (parts xs) = squares xs := by
  induction xs with
  | nil => rfl
  | cons x rest inductionHypothesis =>
    by_cases zero : x = 0 <;> simp_all [parts, squares]

/-- Each element is zero or one of the parts. -/
theorem count_add_parts (xs : List K) : xs.count 0 + (parts xs).length = xs.length := by
  induction xs with
  | nil => rfl
  | cons x rest inductionHypothesis =>
    by_cases zero : x = 0
    · subst zero
      simp [parts] at inductionHypothesis ⊢
      omega
    · simp [parts, zero] at inductionHypothesis ⊢
      omega

end Parts

variable [LinearOrder K] [IsStrictOrderedRing K]

/-- Squared deviations are not negative. -/
theorem spread_nonneg (m : K) (xs : List K) : 0 ≤ spread m xs := by
  apply List.sum_nonneg
  intro square member
  obtain ⟨x, _, rfl⟩ := List.mem_map.mp member
  exact sq_nonneg _

/-- Only a list of one number does not deviate from it. -/
theorem spread_eq_zero_iff (m : K) (xs : List K) : spread m xs = 0 ↔ ∀ x ∈ xs, x = m := by
  induction xs with
  | nil => simp [spread]
  | cons x rest inductionHypothesis =>
    have here : 0 ≤ (x - m) ^ 2 := sq_nonneg _
    have later : 0 ≤ spread m rest := spread_nonneg m rest
    have split : spread m (x :: rest) = (x - m) ^ 2 + spread m rest := by simp [spread]
    rw [split, add_eq_zero_iff_of_nonneg here later, inductionHypothesis, List.forall_mem_cons,
      sq_eq_zero_iff, sub_eq_zero]

/-- Numbers with a sum are some. -/
theorem length_pos {xs : List K} (positive : xs.sum ≠ 0) : (0 : K) < xs.length := by
  cases xs with
  | nil => simp at positive
  | cons x rest => simp only [List.length_cons]; positivity

/-- About the mean, the squares are the spread and the square of the sum. -/
theorem length_mul_squares {xs : List K} (positive : xs.sum ≠ 0) :
    xs.length * squares xs = xs.sum ^ 2 + xs.length * spread (mean xs) xs := by
  have length := (length_pos positive).ne'
  rw [spread_eq, mean]
  field_simp
  ring

/-- The square of the sum is the length times the squares only if all elements are equal. -/
theorem sq_sum_eq_iff {xs : List K} (positive : xs.sum ≠ 0) :
    xs.sum ^ 2 = xs.length * squares xs ↔ ∀ x ∈ xs, ∀ y ∈ xs, x = y := by
  have length := (length_pos positive).ne'
  rw [length_mul_squares positive, left_eq_add, mul_eq_zero_iff_left length, spread_eq_zero_iff]
  constructor
  · intro same x inX y inY
    rw [same x inX, same y inY]
  · intro same x member
    have each : xs = List.replicate xs.length x :=
      List.eq_replicate_of_mem fun y other => same y other x member
    have sum : xs.sum = xs.length * x := by
      conv_lhs => rw [each]
      simp
    rw [mean, sum, mul_div_cancel_left₀ _ length]

/-- The squares of numbers that are not negative are at most the square of their sum. -/
theorem squares_le {xs : List K} (nonneg : ∀ x ∈ xs, 0 ≤ x) : squares xs ≤ xs.sum ^ 2 := by
  induction xs with
  | nil => simp [squares]
  | cons x rest inductionHypothesis =>
    obtain ⟨here, later⟩ := List.forall_mem_cons.mp nonneg
    have cross : 0 ≤ x * rest.sum := mul_nonneg here (List.sum_nonneg later)
    have tail : squares rest ≤ rest.sum ^ 2 := inductionHypothesis later
    simp only [squares, List.map_cons, List.sum_cons] at tail ⊢
    linarith [add_sq x rest.sum]

/-- For positive numbers they are that only if there is one at most. -/
theorem squares_eq_iff {xs : List K} (positive : ∀ x ∈ xs, 0 < x) :
    squares xs = xs.sum ^ 2 ↔ xs.length ≤ 1 := by
  match xs with
  | [] => simp [squares]
  | [x] => simp [squares]
  | x :: y :: rest =>
    simp only [List.forall_mem_cons] at positive
    obtain ⟨first, second, later⟩ := positive
    have nonneg : ∀ z ∈ y :: rest, 0 ≤ z := by
      simp only [List.forall_mem_cons]
      exact ⟨second.le, fun z member => (later z member).le⟩
    have others : 0 < (y :: rest).sum := by
      rw [List.sum_cons]
      exact add_pos_of_pos_of_nonneg second (List.sum_nonneg fun z member => (later z member).le)
    have tail : squares (y :: rest) ≤ (y :: rest).sum ^ 2 := squares_le nonneg
    have cross : 0 < x * (y :: rest).sum := mul_pos first others
    constructor
    · intro equal
      simp only [squares, List.map_cons, List.sum_cons] at equal tail cross
      linarith [add_sq x (y + rest.sum)]
    · intro short
      simp at short

/-! ## Bounds -/

/-- The dispersion is what the squares exceed the least they can be by. -/
theorem dispersion_add_one {xs : List K} (positive : xs.sum ≠ 0) :
    dispersion xs + 1 = xs.length * (squares xs / xs.sum ^ 2) := by
  have length := (length_pos positive).ne'
  have law := length_mul_squares positive
  have quotient : xs.length * (squares xs / xs.sum ^ 2) =
      (xs.sum ^ 2 + xs.length * spread (mean xs) xs) / xs.sum ^ 2 := by
    rw [← law, mul_div_assoc]
  rw [quotient, dispersion, mean]
  field_simp
  ring

/-- There is no dispersion exactly if all numbers are equal. -/
theorem dispersion_eq_zero_iff {xs : List K} (positive : xs.sum ≠ 0) :
    dispersion xs = 0 ↔ ∀ x ∈ xs, ∀ y ∈ xs, x = y := by
  have square : xs.sum ^ 2 ≠ 0 := pow_ne_zero 2 positive
  rw [← sq_sum_eq_iff positive, ← add_left_inj (1 : K), dispersion_add_one positive, zero_add,
    ← mul_div_assoc, div_eq_one_iff_eq square, eq_comm]

/-- Numbers that are not negative disperse less than there are of them. -/
theorem dispersion_le {xs : List K} (positive : xs.sum ≠ 0) (nonneg : ∀ x ∈ xs, 0 ≤ x) :
    dispersion xs ≤ xs.length - 1 := by
  have square : 0 < xs.sum ^ 2 := by positivity
  have share : squares xs / xs.sum ^ 2 ≤ 1 := (div_le_one square).mpr (squares_le nonneg)
  have bound := mul_le_mul_of_nonneg_left share (length_pos positive).le
  have law := dispersion_add_one positive
  linarith

section Zeros

variable [DecidableEq K]

/-- The greatest dispersion is that of a list with one part. -/
theorem dispersion_eq_iff {xs : List K} (positive : xs.sum ≠ 0) (nonneg : ∀ x ∈ xs, 0 ≤ x) :
    dispersion xs = xs.length - 1 ↔ (parts xs).length = 1 := by
  have length := (length_pos positive).ne'
  have square : xs.sum ^ 2 ≠ 0 := pow_ne_zero 2 positive
  have each : ∀ x ∈ parts xs, 0 < x := by
    intro x member
    obtain ⟨listed, nonzero⟩ := List.mem_filter.mp member
    exact lt_of_le_of_ne (nonneg x listed) (Ne.symm (of_decide_eq_true nonzero))
  have some : (parts xs).length ≠ 0 := by
    intro none
    rw [List.length_eq_zero_iff] at none
    rw [← sum_parts, none] at positive
    exact positive List.sum_nil
  calc dispersion xs = xs.length - 1
      ↔ xs.length * (squares xs / xs.sum ^ 2) = xs.length := by
        rw [← dispersion_add_one positive, eq_sub_iff_add_eq]
    _ ↔ squares xs = xs.sum ^ 2 := by rw [mul_eq_left₀ length, div_eq_one_iff_eq square]
    _ ↔ squares (parts xs) = (parts xs).sum ^ 2 := by rw [squares_parts, sum_parts]
    _ ↔ (parts xs).length ≤ 1 := squares_eq_iff each
    _ ↔ (parts xs).length = 1 := by omega

/-- Without its zeros a list has the same sum and squares, and fewer elements. -/
theorem dispersion_parts {xs : List K} (positive : xs.sum ≠ 0) :
    dispersion xs = xs.count 0 / (parts xs).length +
      xs.length / (parts xs).length * dispersion (parts xs) := by
  have partsPositive : (parts xs).sum ≠ 0 := by rwa [sum_parts]
  have length := (length_pos partsPositive).ne'
  have counted : (xs.length : K) = xs.count 0 + (parts xs).length := by
    rw [← Nat.cast_add, count_add_parts]
  have whole := dispersion_add_one positive
  have part := dispersion_add_one partsPositive
  rw [squares_parts, sum_parts] at part
  have zeros : (xs.count 0 : K) / (parts xs).length = xs.length / (parts xs).length - 1 := by
    rw [counted]
    field_simp
    ring
  rw [zeros, eq_sub_of_add_eq whole, eq_sub_of_add_eq part]
  field_simp
  ring

/-- A list is at least as dispersed as its zeros make it. -/
theorem zeros_le_dispersion {xs : List K} (positive : xs.sum ≠ 0) :
    (xs.count 0 : K) / (parts xs).length ≤ dispersion xs := by
  have rest : 0 ≤ (xs.length : K) / (parts xs).length * dispersion (parts xs) := by
    have deviation := spread_nonneg (mean (parts xs)) (parts xs)
    unfold dispersion
    positivity
  have law := dispersion_parts positive
  linarith

/-- The zeros are the whole dispersion exactly if the other numbers are equal. -/
theorem zeros_eq_dispersion_iff {xs : List K} (positive : xs.sum ≠ 0) :
    dispersion xs = xs.count 0 / (parts xs).length ↔
      ∀ x ∈ parts xs, ∀ y ∈ parts xs, x = y := by
  have partsPositive : (parts xs).sum ≠ 0 := by rwa [sum_parts]
  have ratio : (xs.length : K) / (parts xs).length ≠ 0 :=
    div_ne_zero (length_pos positive).ne' (length_pos partsPositive).ne'
  rw [dispersion_parts positive, add_eq_left, mul_eq_zero_iff_left ratio,
    dispersion_eq_zero_iff partsPositive]

end Zeros

end Dispersion
