import ConcurrencyBench.Fairness
import Mathlib.Data.List.OfFn

/-!
# The variance tracker

`variance_tracker` has one count for each of a fixed number of threads. Recording an
operation adds one to the count of its thread, and does nothing for a thread that is not
one of them. Where each thread has recorded what its position says it has, a statement
keeps this if it records just when its position gains an operation.

The counts are natural numbers: a thread records one operation at a time, and no run is
long enough for a count to leave the range of its type.
-/

namespace ConcurrencyBench

universe u
variable {n : ℕ}

/-- `thread_counts` -/
structure VarianceTracker (n : ℕ) where
  threadCounts : Fin n → ℕ

namespace VarianceTracker

/-- The constructor: every count is zero. -/
def make (n : ℕ) : VarianceTracker n := ⟨fun _ => 0⟩

/-- `record_operation` -/
def recordOperation (tracker : VarianceTracker n) (threadId : ℕ) : VarianceTracker n :=
  -- if (thread_id < thread_counts.size())
  if inRange : threadId < n then
    let i : Fin n := ⟨threadId, inRange⟩
    ⟨Function.update tracker.threadCounts i (tracker.threadCounts i + 1)⟩
  else tracker

/-- `reset`: every count is zero again. -/
def reset (_ : VarianceTracker n) : VarianceTracker n := ⟨fun _ => 0⟩

/-- `coefficient_of_variation`, squared -/
def coefficientOfVariation (tracker : VarianceTracker n) : Option ℚ :=
  Fairness.coefficientOfVariation (List.ofFn tracker.threadCounts)

/-- `coefficient_of_variation` in an arithmetic that rounds -/
def roundedCoefficient (tracker : VarianceTracker n) (fl : Fairness.Rounding) : ℚ :=
  fl.coefficientOfVariation (List.ofFn tracker.threadCounts)

variable {tracker : VarianceTracker n} {i : Fin n}

/-- Recording an operation counts it for its thread. -/
@[simp]
theorem recordOperation_threadCounts (tracker : VarianceTracker n) (i : Fin n) :
    (tracker.recordOperation i).threadCounts =
      Function.update tracker.threadCounts i (tracker.threadCounts i + 1) := by
  rw [recordOperation, dif_pos i.isLt]

/-- Equal counts leave one coefficient, whatever they come from. -/
theorem roundedCoefficient_of_quota {quota : ℕ} (all : ∀ i, tracker.threadCounts i = quota)
    (fl : Fairness.Rounding) :
    tracker.roundedCoefficient fl = fl.coefficientOfVariation (List.replicate n quota) := by
  rw [roundedCoefficient, funext all, List.ofFn_const]

section Positions

variable {P : Type u} {recorded : P → ℕ} {threads : Fin n → P} {p : P}

/-- A statement that records an operation its thread's position gains. -/
theorem record_update (counted : ∀ j, tracker.threadCounts j = recorded (threads j))
    (gained : recorded p = recorded (threads i) + 1) :
    ∀ j, (tracker.recordOperation i).threadCounts j =
      recorded (Function.update threads i p j) := by
  intro j
  rw [recordOperation_threadCounts]
  by_cases mine : j = i
  · subst mine
    rw [Function.update_self, Function.update_self, gained, counted j]
  · rw [Function.update_of_ne mine, Function.update_of_ne mine, counted j]

/-- A statement that records nothing. -/
theorem silent_update (counted : ∀ j, tracker.threadCounts j = recorded (threads j))
    (same : recorded p = recorded (threads i)) :
    ∀ j, tracker.threadCounts j = recorded (Function.update threads i p j) := by
  rw [Function.forall_update_iff threads fun j position =>
    tracker.threadCounts j = recorded position]
  exact ⟨(counted i).trans same.symm, fun j _ => counted j⟩

end Positions

end VarianceTracker

end ConcurrencyBench
