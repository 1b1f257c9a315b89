import Mathlib.Algebra.BigOperators.Group.Finset.Piecewise
import Mathlib.Data.Fintype.Basic

/-!
# Logs shared by several threads

A log lists entries under the names of the threads that made them. Picking reads
off one thread's values of one kind, in order; reading off the values of all
threads gives, up to order, the sum of what the threads contribute.
-/

namespace Interleaving

universe u v w
variable {ι : Type u} {E : Type v} {α : Type w}

/-- The values of one kind that one thread entered, in order. -/
def pick [DecidableEq ι] (kind : E → Option α) (i : ι) (log : List (ι × E)) : List α :=
  log.filterMap fun entry => if entry.1 = i then kind entry.2 else none

/-- The values of one kind in a whole log, in order. -/
def readAll (kind : E → Option α) (log : List (ι × E)) : List α :=
  log.filterMap fun entry => kind entry.2

/-- The values of one kind with the threads that entered them, in order. -/
def tagged (kind : E → Option α) (log : List (ι × E)) : List (ι × α) :=
  log.filterMap fun entry => (kind entry.2).map (entry.1, ·)

/-- Without the threads, the tagged values are those read. -/
theorem tagged_values (kind : E → Option α) (log : List (ι × E)) :
    (tagged kind log).map Prod.snd = readAll kind log := by
  simp only [tagged, readAll, List.map_filterMap, Option.map_map]
  congr 1
  funext entry
  cases kind entry.2 <;> rfl

/-- The values of a log with some more events. -/
theorem readAll_append (kind : E → Option α) (log : List (ι × E)) (i : ι) (events : List E) :
    readAll kind (log ++ events.map (i, ·)) = readAll kind log ++ events.filterMap kind := by
  simp [readAll, List.filterMap_map]

section Pick

variable [DecidableEq ι]

/-- A thread's own values, with some more of its events. -/
theorem pick_self (kind : E → Option α) (i : ι) (log : List (ι × E)) (events : List E) :
    pick kind i (log ++ events.map (i, ·)) = pick kind i log ++ events.filterMap kind := by
  simp [pick, List.filterMap_map]

/-- A thread's own values, with some more events of another. -/
theorem pick_other (kind : E → Option α) {i j : ι} (other : j ≠ i) (log : List (ι × E))
    (events : List E) : pick kind j (log ++ events.map (i, ·)) = pick kind j log := by
  simp [pick, List.filterMap_map, other.symm]

/-- The tagged values of one thread are the values picked for it. -/
theorem tagged_of (kind : E → Option α) (i : ι) (log : List (ι × E)) :
    ((tagged kind log).filter (·.1 = i)).map Prod.snd = pick kind i log := by
  simp only [tagged, pick, List.filter_filterMap, List.map_filterMap]
  congr 1
  funext entry
  by_cases same : entry.1 = i <;> cases kind entry.2 <;> simp [same]

/-- What each thread has made is what it has told, followed by what its position
still holds back. One thread's move keeps this when it does so for its own events. -/
theorem settled_update {P : Type*} {made told : E → Option α} {pending : P → List α}
    {threads : ι → P} {log : List (ι × E)} {i : ι} {p : P} {events : List E}
    (settled : ∀ j, pick made j log = pick told j log ++ pending (threads j))
    (moved : pending (threads i) ++ events.filterMap made = events.filterMap told ++ pending p) :
    ∀ j, pick made j (log ++ events.map (i, ·)) =
      pick told j (log ++ events.map (i, ·)) ++ pending (Function.update threads i p j) := by
  rw [Function.forall_update_iff threads fun j position =>
    pick made j (log ++ events.map (i, ·)) = pick told j (log ++ events.map (i, ·)) ++
      pending position]
  constructor
  · rw [pick_self, pick_self, settled i, List.append_assoc, List.append_assoc, moved]
  · intro j other
    rw [pick_other made other, pick_other told other, settled j]

/-- A thread none of whose entries has the kind contributes nothing. -/
theorem pick_eq_nil (kind : E → Option α) (i : ι) (log : List (ι × E))
    (none : ∀ event, (i, event) ∈ log → kind event = none) : pick kind i log = [] := by
  rw [pick, List.filterMap_eq_nil_iff]
  rintro ⟨j, event⟩ member
  by_cases same : j = i
  · subst same
    simpa using none event member
  · simp [same]

/-- The whole log's values are the threads' contributions put together. -/
theorem readAll_eq_sum [Fintype ι] (kind : E → Option α) (log : List (ι × E)) :
    (readAll kind log : Multiset α) = ∑ i, (pick kind i log : Multiset α) := by
  induction log with
  | nil => simp [readAll, pick]
  | cons entry rest inductionHypothesis =>
    cases chosen : kind entry.2 with
    | none =>
      have same : ∀ i, pick kind i (entry :: rest) = pick kind i rest := by
        intro i
        simp [pick, chosen]
      simpa [readAll, chosen, same] using inductionHypothesis
    | some value =>
      have split : ∀ i, (pick kind i (entry :: rest) : Multiset α) =
          (if entry.1 = i then {value} else 0) + (pick kind i rest : Multiset α) := by
        intro i
        by_cases here : entry.1 = i <;> simp [pick, chosen, here]
      simp only [split, Finset.sum_add_distrib, Finset.sum_ite_eq, Finset.mem_univ, if_true]
      rw [← inductionHypothesis]
      simp [readAll, chosen]

end Pick

end Interleaving
