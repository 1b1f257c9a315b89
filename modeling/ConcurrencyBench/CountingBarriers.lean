import ConcurrencyBench.Barriers
import ConcurrencyBench.Threads

/-!
# Barriers that count

A barrier for a number of threads expects as many arrivals in each phase, counts those still
to come and, when none is, goes on to its next phase. It needs to know nothing about who has
arrived: no thread is ever more than one arrival ahead of the phases completed, and the
threads that are ahead are as many as the arrivals the phase has had.

So the barrier does what arrival counts promise. A thread with no more arrivals than there
are completed phases may leave, and if one that is ahead may leave then the phase is full.
-/

namespace Interleaving

universe u v
variable {ι : Type u} {P : Type v}

/-- The phase, and how many threads it expects and still waits for. -/
structure CountingBarrier where
  expected : ℕ
  pending : ℕ
  phase : ℕ
deriving DecidableEq

namespace CountingBarrier

/-- A new barrier. -/
def make (expected : ℕ) : CountingBarrier := ⟨expected, expected, 0⟩

/-- One thread less is waited for. -/
def arrive (b : CountingBarrier) : CountingBarrier := { b with pending := b.pending - 1 }

/-- All threads are waited for again. -/
def nextPhase (b : CountingBarrier) : CountingBarrier :=
  { b with pending := b.expected, phase := b.phase + 1 }

end CountingBarrier

/-- A position that has arrived once more than phases are completed. -/
def ahead (arrived : P → ℕ) (phase : ℕ) (p : P) : Bool := decide (arrived p = phase + 1)

/-- The barrier counts the arrivals of its threads. -/
structure Counted [Fintype ι] (arrived : P → ℕ) (b : CountingBarrier) (threads : ι → P) :
    Prop where
  expected : b.expected = Fintype.card ι
  level : ∀ i, arrived (threads i) = b.phase ∨ arrived (threads i) = b.phase + 1
  pending : b.pending + tally (fun _ p => (ahead arrived b.phase p).toNat) threads = Fintype.card ι

section Counted

variable [Fintype ι] {arrived : P → ℕ} {b : CountingBarrier} {threads : ι → P} {i : ι} {p : P}

/-- The new barrier counts threads none of which has arrived. -/
theorem counted_make (nobody : ∀ i, arrived (threads i) = 0) :
    Counted arrived (.make (Fintype.card ι)) threads where
  expected := rfl
  level i := Or.inl (nobody i)
  pending := by simp [CountingBarrier.make, tally, ahead, nobody]

/-- A thread moves without arriving. -/
theorem Counted.move [DecidableEq ι] (counted : Counted arrived b threads)
    (same : arrived p = arrived (threads i)) : Counted arrived b (Function.update threads i p) := by
  have exchanged := tally_update (fun _ p => (ahead arrived b.phase p).toNat) threads i p
  constructor
  · exact counted.expected
  · rw [Function.forall_update_iff threads fun _ p => arrived p = b.phase ∨ arrived p = b.phase + 1,
      same]
    exact ⟨counted.level i, fun j _ => counted.level j⟩
  · have before := counted.pending
    simp only [ahead, same] at exchanged before ⊢
    omega

/-- A thread that is not ahead has yet to arrive. -/
theorem Counted.pending_pos (counted : Counted arrived b threads)
    (current : arrived (threads i) = b.phase) : 0 < b.pending := by
  by_contra none
  have pending := counted.pending
  have full := all_of_card_le_tally (ahead arrived b.phase) threads (by omega) i
  simp [ahead, current] at full

/-- A thread arrives. -/
theorem Counted.arrive [DecidableEq ι] (counted : Counted arrived b threads)
    (current : arrived (threads i) = b.phase) (next : arrived p = b.phase + 1) :
    Counted arrived b.arrive (Function.update threads i p) := by
  have exchanged := tally_update (fun _ p => (ahead arrived b.phase p).toNat) threads i p
  have some := counted.pending_pos current
  constructor
  · exact counted.expected
  · rw [Function.forall_update_iff threads fun _ p =>
      arrived p = b.arrive.phase ∨ arrived p = b.arrive.phase + 1]
    exact ⟨Or.inr next, fun j _ => counted.level j⟩
  · have before := counted.pending
    have behind : ahead arrived b.phase (threads i) = false := by simp [ahead, current]
    have now : ahead arrived b.phase p = true := by simp [ahead, next]
    simp only [behind, now, Bool.toNat_false, Bool.toNat_true] at exchanged
    change b.pending - 1 + tally (fun _ p => (ahead arrived b.phase p).toNat) _ = _
    omega

/-- In a full phase every thread is ahead. -/
theorem Counted.full (counted : Counted arrived b threads) (none : b.pending = 0) (i : ι) :
    arrived (threads i) = b.phase + 1 := by
  have pending := counted.pending
  have full := all_of_card_le_tally (ahead arrived b.phase) threads (by omega) i
  simpa [ahead] using full

/-- A full phase is followed by one that nobody has arrived in. -/
theorem Counted.nextPhase (counted : Counted arrived b threads) (none : b.pending = 0) :
    Counted arrived b.nextPhase threads := by
  have full := counted.full none
  constructor
  · exact counted.expected
  · exact fun i => Or.inl (full i)
  · simp [CountingBarrier.nextPhase, tally, ahead, full, counted.expected]

/-- A thread whose arrivals are all of completed phases may leave. -/
theorem Counted.mayLeave (counted : Counted arrived b threads)
    (passed : arrived (threads i) ≤ b.phase) : MayLeave (fun j => arrived (threads j)) i := by
  intro j
  have there := counted.level j
  dsimp only
  omega

/-- If a thread may leave that is ahead, the phase is full. -/
theorem Counted.pending_eq_zero (counted : Counted arrived b threads)
    (allowed : MayLeave (fun j => arrived (threads j)) i)
    (inside : arrived (threads i) = b.phase + 1) : b.pending = 0 := by
  have every : ∀ j, ahead arrived b.phase (threads j) = true := by
    intro j
    have there := counted.level j
    have order : arrived (threads i) ≤ arrived (threads j) := allowed j
    simp only [ahead, decide_eq_true_eq]
    omega
  have pending := counted.pending
  rw [tally_toNat, Finset.filter_true_of_mem fun j _ => every j, Finset.card_univ] at pending
  omega

end Counted

end Interleaving
