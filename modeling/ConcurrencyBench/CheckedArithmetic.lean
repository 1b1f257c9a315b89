import Mathlib.Algebra.BigOperators.Group.List.Basic
import Mathlib.Algebra.Order.BigOperators.Ring.Finset
import Mathlib.Algebra.Order.Ring.Int
import Mathlib.Data.Fintype.BigOperators

/-!
# Arithmetic that may leave its range

Signed integers of a fixed width have a range, and a sum or a product outside of it has no
value. A computation that comes to such an operation has no value either, whatever it does
afterwards. So a loop that only counts further keeps its value up to the first operation
that leaves the range, and a sum that has a value is the exact sum.
-/

namespace CheckedArithmetic

universe u v
variable {w : ℕ}

/-- The values of a signed integer of `w` bits. -/
def InRange (w : ℕ) (x : ℤ) : Prop := -2 ^ (w - 1) ≤ x ∧ x < 2 ^ (w - 1)

instance (w : ℕ) (x : ℤ) : Decidable (InRange w x) := inferInstanceAs (Decidable (_ ∧ _))

/-- A result, where it is in range. -/
def check (w : ℕ) (x : ℤ) : Option ℤ := if InRange w x then some x else none

/-- A sum, if it is in range. -/
def add (w : ℕ) (a b : ℤ) : Option ℤ := check w (a + b)

/-- A product, if it is in range. -/
def mul (w : ℕ) (a b : ℤ) : Option ℤ := check w (a * b)

/-- Add a list to a start value, one summand after the other. -/
def sum (w : ℕ) (start : ℤ) (summands : List ℤ) : Option ℤ := summands.foldlM (add w) start

/-- A value is checked to be itself and in range. -/
theorem check_eq_some_iff (x y : ℤ) : check w x = some y ↔ InRange w x ∧ x = y := by
  simp [check]

/-- A checked sum is the sum, in range. -/
theorem add_eq_some_iff (a b c : ℤ) : add w a b = some c ↔ InRange w (a + b) ∧ a + b = c :=
  check_eq_some_iff (a + b) c

/-- A checked product is the product, in range. -/
theorem mul_eq_some_iff (a b c : ℤ) : mul w a b = some c ↔ InRange w (a * b) ∧ a * b = c :=
  check_eq_some_iff (a * b) c

/-- A sum that has a value is exact and in range. -/
theorem sum_eq_some {start total : ℤ} {summands : List ℤ} (within : InRange w start)
    (summed : sum w start summands = some total) :
    total = start + summands.sum ∧ InRange w total := by
  induction summands generalizing start with
  | nil =>
    obtain rfl := Option.some.inj summed
    exact ⟨by simp, within⟩
  | cons summand rest inductionHypothesis =>
    obtain ⟨next, added, after⟩ := Option.bind_eq_some_iff.mp summed
    obtain ⟨inRange, rfl⟩ := (add_eq_some_iff start summand next).mp added
    obtain ⟨precise, final⟩ := inductionHypothesis inRange after
    refine ⟨?_, final⟩
    rw [precise, List.sum_cons, add_assoc]

/-- A total that is too large for a number of accumulators leaves one of them without a
value, however it is divided among them. -/
theorem exists_sum_eq_none {κ : Type u} [Fintype κ] [Nonempty κ] (shares : κ → List ℤ)
    (large : Fintype.card κ * 2 ^ (w - 1) ≤ ∑ k, (shares k).sum) :
    ∃ k, sum w 0 (shares k) = none := by
  by_contra all
  have zero : InRange w 0 := by
    have positive : (0 : ℤ) < 2 ^ (w - 1) := pow_pos two_pos _
    exact ⟨by omega, positive⟩
  have small : ∀ k, (shares k).sum < 2 ^ (w - 1) := by
    intro k
    obtain ⟨total, summed⟩ := Option.ne_none_iff_exists'.mp (not_exists.mp all k)
    obtain ⟨precise, inRange⟩ := sum_eq_some zero summed
    rw [zero_add] at precise
    exact precise ▸ inRange.2
  have bound : ∑ k, (shares k).sum < ∑ _ : κ, (2 : ℤ) ^ (w - 1) :=
    Finset.sum_lt_sum_of_nonempty Finset.univ_nonempty fun k _ => small k
  rw [Finset.sum_const, Finset.card_univ, nsmul_eq_mul] at bound
  exact absurd large (not_le.mpr bound)

section Loop

variable {σ : Type v} {body : σ → ℕ → Option σ} {start : σ}

/-- A loop that counts up from zero, with a body that may have no value. -/
def countUp (body : σ → ℕ → Option σ) (start : σ) (n : ℕ) : Option σ :=
  (List.range n).foldlM body start

/-- One more round of the loop. -/
theorem countUp_succ (n : ℕ) :
    countUp body start (n + 1) = (countUp body start n).bind (body · n) := by
  simp [countUp, List.range_succ, List.foldlM_append]

/-- A loop that has no value has none when it counts further. -/
theorem countUp_eq_none {m n : ℕ} (stuck : countUp body start m = none) (further : m ≤ n) :
    countUp body start n = none := by
  induction n, further using Nat.le_induction with
  | base => exact stuck
  | succ n _ inductionHypothesis => rw [countUp_succ, inductionHypothesis, Option.bind_none]

/-- A loop has a value up to the first count at which it has none. -/
theorem countUp_isSome_iff {k : ℕ} (reached : (countUp body start k).isSome)
    (stuck : countUp body start (k + 1) = none) (n : ℕ) :
    (countUp body start n).isSome ↔ n ≤ k := by
  constructor
  · intro value
    by_contra beyond
    simp [countUp_eq_none stuck (Nat.lt_of_not_le beyond)] at value
  · intro within
    by_contra none
    simp [countUp_eq_none (Option.not_isSome_iff_eq_none.mp none) within] at reached

/-- What the body keeps from some count on holds of every later value. -/
theorem countUp_keeps {property : σ → Prop} {m n : ℕ} (further : m ≤ n)
    (kept : ∀ state i next, m ≤ i → property state → body state i = some next → property next)
    (holds : ∀ state, countUp body start m = some state → property state) :
    ∀ state, countUp body start n = some state → property state := by
  induction n, further using Nat.le_induction with
  | base => exact holds
  | succ n further inductionHypothesis =>
    intro next reached
    rw [countUp_succ] at reached
    obtain ⟨state, before, taken⟩ := Option.bind_eq_some_iff.mp reached
    exact kept state n next further (inductionHypothesis state before) taken

end Loop

end CheckedArithmetic
