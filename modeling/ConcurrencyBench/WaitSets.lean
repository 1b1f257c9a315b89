import ConcurrencyBench.Threads

/-!
# Wait sets of condition variables

A condition variable is the finite set of threads asleep on it. A wait releases
its mutex and enters the set in one step; a notification or a spurious wake-up
only takes threads out, and a thread taken out goes on by locking the mutex
again. Notifying one takes out an arbitrary member, or nobody when the set is
empty; notifying all empties the set.

Every member of the set stands at its wait. So a count of threads that includes
those at the wait splits into the members and the others.
-/

namespace Interleaving

universe u v
variable {ι : Type u} {P : Type v}

/-- Every thread in the wait set stands at its wait. -/
def Parked (asleep : P → Bool) (sleepers : Finset ι) (threads : ι → P) : Prop :=
  ∀ i ∈ sleepers, asleep (threads i) = true

section Notify

variable [DecidableEq ι]

/-- Wake one thread of a choice: a member, or nobody when there is none. -/
def notifyOne (sleepers : Finset ι) : Option ι → Option (Finset ι)
  | none => if sleepers = ∅ then some ∅ else none
  | some i => if i ∈ sleepers then some (sleepers.erase i) else none

/-- Notifying one leaves some of the sleepers. -/
theorem notifyOne_subset {sleepers left : Finset ι} {woken : Option ι}
    (notified : notifyOne sleepers woken = some left) : left ⊆ sleepers := by
  cases woken with
  | none =>
    simp only [notifyOne, Option.ite_none_right_eq_some, Option.some.injEq] at notified
    rw [← notified.2]
    exact Finset.empty_subset sleepers
  | some i =>
    simp only [notifyOne, Option.ite_none_right_eq_some, Option.some.injEq] at notified
    rw [← notified.2]
    exact Finset.erase_subset i sleepers

/-- If somebody is still asleep, exactly one was woken. -/
theorem notifyOne_card {sleepers left : Finset ι} {woken : Option ι}
    (notified : notifyOne sleepers woken = some left) (some : left.Nonempty) :
    left.card + 1 = sleepers.card := by
  cases woken with
  | none =>
    simp only [notifyOne, Option.ite_none_right_eq_some, Option.some.injEq] at notified
    rw [← notified.2] at some
    exact absurd some Finset.not_nonempty_empty
  | some i =>
    simp only [notifyOne, Option.ite_none_right_eq_some, Option.some.injEq] at notified
    rw [← notified.2]
    exact Finset.card_erase_add_one notified.1

/-- Notifying one wakes one sleeper at most. -/
theorem notifyOne_card_le {sleepers left : Finset ι} {woken : Option ι}
    (notified : notifyOne sleepers woken = some left) : sleepers.card ≤ left.card + 1 := by
  rcases left.eq_empty_or_nonempty with empty | some
  · cases woken with
    | none =>
      simp only [notifyOne, Option.ite_none_right_eq_some] at notified
      simp [notified.1]
    | some i =>
      simp only [notifyOne, Option.ite_none_right_eq_some, Option.some.injEq] at notified
      rw [← notified.2, Finset.card_erase_add_one notified.1]
  · exact (notifyOne_card notified some).ge

/-- One of the choices can always be made. -/
theorem notifyOne_total (sleepers : Finset ι) :
    ∃ woken left, notifyOne sleepers woken = some left := by
  rcases sleepers.eq_empty_or_nonempty with empty | ⟨i, member⟩
  · exact ⟨none, ∅, by simp [notifyOne, empty]⟩
  · exact ⟨some i, sleepers.erase i, by simp [notifyOne, member]⟩

end Notify

section Parked

variable {asleep : P → Bool} {sleepers sleepers' : Finset ι} {threads : ι → P}

/-- One thread's move keeps the wait set in order when it adds at most that
thread, and has it at the wait if it is a member afterwards. -/
theorem Parked.move [DecidableEq ι] (parked : Parked asleep sleepers threads) {i : ι} {p : P}
    (others : ∀ j ∈ sleepers', j ≠ i → j ∈ sleepers)
    (here : i ∈ sleepers' → asleep p = true) :
    Parked asleep sleepers' (Function.update threads i p) := by
  intro j member
  by_cases same : j = i
  · subst same
    rw [Function.update_self]
    exact here member
  · rw [Function.update_of_ne same]
    exact parked j (others j member same)

variable [Fintype ι] [DecidableEq ι]

/-- A count that includes the threads at their waits is the wait set and the
counted threads outside it. -/
theorem Parked.card_add_awake (parked : Parked asleep sleepers threads) {counted : P → Bool}
    (covers : ∀ p, asleep p = true → counted p = true) :
    sleepers.card + (Finset.univ.filter fun i => counted (threads i) = true ∧ i ∉ sleepers).card =
      tally (fun _ p => (counted p).toNat) threads := by
  have members : (Finset.univ.filter fun i => counted (threads i) = true ∧ i ∈ sleepers) =
      sleepers := by
    ext i
    simp only [Finset.mem_filter, Finset.mem_univ, true_and]
    exact ⟨fun both => both.2, fun member => ⟨covers _ (parked i member), member⟩⟩
  have parts := Finset.card_filter_add_card_filter_not
    (s := Finset.univ.filter fun i => counted (threads i) = true) (fun i => i ∈ sleepers)
  rw [Finset.filter_filter, Finset.filter_filter, members] at parts
  exact parts.trans (tally_toNat counted threads).symm

/-- There are no more sleepers than threads that count as such. -/
theorem Parked.card_le (parked : Parked asleep sleepers threads) {counted : P → Bool}
    (covers : ∀ p, asleep p = true → counted p = true) :
    sleepers.card ≤ tally (fun _ p => (counted p).toNat) threads := by
  rw [← parked.card_add_awake covers]
  exact Nat.le_add_right _ _

omit [DecidableEq ι] in
/-- Where a thread at its wait weighs something, the wait set is part of the tally. -/
theorem Parked.mul_card_le (parked : Parked asleep sleepers threads) {weight : P → ℕ} {least : ℕ}
    (heavy : ∀ p, asleep p = true → least ≤ weight p) :
    least * sleepers.card ≤ tally (fun _ p => weight p) threads :=
  calc least * sleepers.card
      = sleepers.card • least := Nat.mul_comm _ _
    _ ≤ ∑ i ∈ sleepers, weight (threads i) :=
        Finset.card_nsmul_le_sum _ _ _ fun i member => heavy _ (parked i member)
    _ ≤ tally (fun _ p => weight p) threads := Finset.sum_le_sum_of_subset (Finset.subset_univ _)

end Parked

end Interleaving
