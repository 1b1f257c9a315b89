import Mathlib.Data.Fintype.Basic
import Mathlib.Logic.Function.Basic

/-!
# Barriers as arrival counts

What a barrier for a fixed family of threads promises is said by the number of times
each thread has arrived at it: a thread may leave when every thread has arrived as
often as it has.

Each thread has left the barrier a number of times, and nobody has arrived less often
than any other has left.
-/

namespace Interleaving

universe u
variable {ι : Type u}

/-- Every thread has arrived as often as this one. -/
def MayLeave (arrivals : ι → ℕ) (i : ι) : Prop := ∀ j, arrivals i ≤ arrivals j

instance [Fintype ι] (arrivals : ι → ℕ) (i : ι) : Decidable (MayLeave arrivals i) :=
  inferInstanceAs (Decidable (∀ j, arrivals i ≤ arrivals j))

/-- No thread has left more often than any other has arrived. -/
def Level (left arrivals : ι → ℕ) : Prop := ∀ i j, left i ≤ arrivals j

variable [DecidableEq ι] {left arrivals : ι → ℕ} {i : ι}

/-- An arrival keeps the threads level. -/
theorem Level.arrive (level : Level left arrivals) {count : ℕ} (more : arrivals i ≤ count) :
    Level left (Function.update arrivals i count) := by
  intro j k
  by_cases same : k = i
  · subst same
    rw [Function.update_self]
    exact (level j k).trans more
  · rw [Function.update_of_ne same]
    exact level j k

/-- So does a thread that leaves when it may, and one that does not leave. -/
theorem Level.leave (level : Level left arrivals) {count : ℕ}
    (allowed : count ≤ left i ∨ MayLeave arrivals i ∧ count ≤ arrivals i) :
    Level (Function.update left i count) arrivals := by
  intro j k
  by_cases same : j = i
  · subst same
    rw [Function.update_self]
    rcases allowed with stays | ⟨may, leaves⟩
    · exact stays.trans (level j k)
    · exact leaves.trans (may k)
  · rw [Function.update_of_ne same]
    exact level j k

end Interleaving
