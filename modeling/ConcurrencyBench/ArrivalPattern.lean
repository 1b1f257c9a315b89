import ConcurrencyBench.Barriers
import ConcurrencyBench.Iterations
import ConcurrencyBench.VarianceTracker

/-!
# Arrivals at a barrier with equal quotas

One iteration of `StdBarrier_ArrivalPattern` starts threads that work through the same
phases, each with work of its own length, so that they arrive at the barrier one after
the other. A thread that is let go records an operation with the tracker and goes on to
its next phase. The barrier is what its specification says, arrival counts, and the clock,
which counts nanoseconds, never goes back. Each reading of the clock, each arrival, each
return from the barrier and each record is one step. What the clock reads before and after
the barrier is not used.
-/

namespace ConcurrencyBench.ArrivalPattern

open Interleaving

variable {n : ℕ}

/-- What the threads share, with the clock. -/
structure Shared (n : ℕ) where
  now : ℤ
  syncPoint : Fin n → ℕ
  syncVariance : VarianceTracker n

/-- The next statement of a thread, with its phase. -/
inductive Pc
  | loop (phase : ℕ)
  | startWork (phase : ℕ) | work (phase : ℕ) (start : ℤ)
  | readBefore (phase : ℕ) | arrive (phase : ℕ) | wait (phase : ℕ) | readAfter (phase : ℕ)
  | record (phase : ℕ)
  | returned
deriving DecidableEq

/-- `std::chrono::microseconds(50 * work_multiplier)` -/
def workTime (threadId : ℕ) : ℤ :=
  -- auto work_multiplier = (thread_id % 3) + 1;
  50 * (threadId % 3 + 1) * 1000

/-- A thread of the benchmark with this many phases, one statement at a time. -/
def exec (numPhases : ℕ) (i : Fin n) (s : Shared n) : Pc → Option (Shared n × Pc)
  -- for (int phase = 0; phase < num_phases; ++phase)
  | .loop phase => some (s, if phase < numPhases then .startWork phase else .returned)
  -- simulate_work(work_time);
  | .startWork phase => some (s, .work phase s.now)
  | .work phase start =>
    some (s, if s.now - start < workTime i then .work phase start else .readBefore phase)
  -- auto before_barrier = std::chrono::high_resolution_clock::now();
  | .readBefore phase => some (s, .arrive phase)
  -- sync_point.arrive_and_wait();
  | .arrive phase =>
    some ({ s with syncPoint := Function.update s.syncPoint i (s.syncPoint i + 1) }, .wait phase)
  | .wait phase => if MayLeave s.syncPoint i then some (s, .readAfter phase) else none
  -- auto after_barrier = std::chrono::high_resolution_clock::now();
  | .readAfter phase => some (s, .record phase)
  -- sync_variance.record_operation(thread_id);
  | .record phase =>
    some ({ s with syncVariance := s.syncVariance.recordOperation i }, .loop (phase + 1))
  | .returned => none

/-- What is shared and where the threads are. -/
structure Config (n : ℕ) where
  shared : Shared n
  pcs : Fin n → Pc

/-- A fresh iteration, with the threads about to start. -/
def Config.init (start : ℤ) : Config n := ⟨⟨start, fun _ => 0, .make n⟩, fun _ => .loop 0⟩

/-- A schedule lets a thread go on, or lets time pass. -/
inductive Label (n : ℕ)
  | go (i : Fin n)
  | tick (d : ℕ)

/-- One step of an iteration. -/
def step (numPhases : ℕ) (c : Config n) : Label n → Option (Config n)
  | .go i => (exec numPhases i c.shared (c.pcs i)).map fun (shared, pc) =>
      ⟨shared, Function.update c.pcs i pc⟩
  | .tick d => some { c with shared := { c.shared with now := c.shared.now + d } }

/-- Every state some interleaving leads to. -/
def Reachable (numPhases : ℕ) (start : ℤ) (c : Config n) : Prop :=
  Reaches (step numPhases) (Config.init start) c

/-- `sync_fairness`, which an iteration sets once its threads have been joined, in an arithmetic
that rounds. -/
def result (fl : Fairness.Rounding) (c : Config n) : Option ℚ :=
  if ∀ i, c.pcs i = .returned then some (c.shared.syncVariance.roundedCoefficient fl) else none

/-- A value of `sync_fairness` that the benchmark publishes when the framework lets it iterate
this often. The clock is read for differences only, so each iteration may begin at one time. -/
def Publishes (fl : Fairness.Rounding) (n numPhases total : ℕ) (syncFairness : ℚ) : Prop :=
  ∃ start, Reaches (iterate (step numPhases) (Config.init start : Config n) (result fl) total)
    (.between 0 none) (.passed (some syncFairness))

/-! ## What a position has behind it -/

/-- The phases recorded. -/
def Pc.recorded (numPhases : ℕ) : Pc → ℕ
  | .loop phase | .startWork phase | .work phase _ | .readBefore phase | .arrive phase
  | .wait phase | .readAfter phase | .record phase => phase
  | .returned => numPhases

/-- The phases behind a thread are no more than there are. -/
def Pc.Valid (numPhases : ℕ) : Pc → Prop
  | .loop phase => phase ≤ numPhases
  | .startWork phase | .work phase _ | .readBefore phase | .arrive phase | .wait phase
  | .readAfter phase | .record phase => phase < numPhases
  | .returned => True

/-- Each thread has recorded the phases its position says. -/
structure Sound (numPhases : ℕ) (c : Config n) : Prop where
  valid : ∀ i, (c.pcs i).Valid numPhases
  recorded : ∀ i, c.shared.syncVariance.threadCounts i = (c.pcs i).recorded numPhases

/-- A statement records just when its position gains a phase. -/
theorem exec_effect {numPhases : ℕ} {i : Fin n} {s s' : Shared n} {pc pc' : Pc}
    (valid : pc.Valid numPhases) (moved : exec numPhases i s pc = some (s', pc')) :
    pc'.Valid numPhases ∧
    ((s'.syncVariance = s.syncVariance ∧ pc'.recorded numPhases = pc.recorded numPhases) ∨
      (s'.syncVariance = s.syncVariance.recordOperation i ∧
        pc'.recorded numPhases = pc.recorded numPhases + 1)) := by
  cases pc with
  | loop phase =>
    obtain ⟨rfl, rfl⟩ := Prod.mk.inj (Option.some.inj moved)
    by_cases more : phase < numPhases
    · rw [if_pos more]
      exact ⟨more, Or.inl ⟨rfl, rfl⟩⟩
    · have all : phase = numPhases := le_antisymm valid (not_lt.mp more)
      rw [if_neg more, all]
      exact ⟨trivial, Or.inl ⟨rfl, rfl⟩⟩
  | work phase start =>
    obtain ⟨rfl, rfl⟩ := Prod.mk.inj (Option.some.inj moved)
    split <;> exact ⟨valid, Or.inl ⟨rfl, rfl⟩⟩
  | wait phase =>
    simp only [exec, Option.ite_none_right_eq_some, Option.some.injEq, Prod.mk.injEq] at moved
    obtain ⟨_, rfl, rfl⟩ := moved
    exact ⟨valid, Or.inl ⟨rfl, rfl⟩⟩
  | record phase =>
    obtain ⟨rfl, rfl⟩ := Prod.mk.inj (Option.some.inj moved)
    exact ⟨Nat.succ_le_of_lt valid, Or.inr ⟨rfl, rfl⟩⟩
  | returned => simp [exec] at moved
  | _ =>
    obtain ⟨rfl, rfl⟩ := Prod.mk.inj (Option.some.inj moved)
    exact ⟨valid, Or.inl ⟨rfl, rfl⟩⟩

section Run

variable {numPhases : ℕ} {start : ℤ} {c : Config n}

/-- Every step keeps the phases and the counts sound. -/
theorem sound_preserved : Preserved (step numPhases) (Sound numPhases : Config n → Prop) := by
  intro c label c' sound taken
  cases label with
  | go i =>
    simp only [step, Option.map_eq_some_iff] at taken
    obtain ⟨⟨shared, pc⟩, moved, rfl⟩ := taken
    obtain ⟨valid, recorded⟩ := exec_effect (sound.valid i) moved
    constructor
    · rw [Function.forall_update_iff c.pcs fun _ pc => pc.Valid numPhases]
      exact ⟨valid, fun j _ => sound.valid j⟩
    · dsimp only
      rcases recorded with ⟨same, silent⟩ | ⟨same, gained⟩ <;> rw [same]
      · exact VarianceTracker.silent_update sound.recorded silent
      · exact VarianceTracker.record_update sound.recorded gained
  | tick d =>
    obtain rfl := Option.some.inj taken
    exact ⟨sound.valid, sound.recorded⟩

/-- In whatever order the threads have arrived, each has recorded all phases. -/
theorem returned_recorded (reached : Reachable numPhases start c)
    (returned : ∀ i, c.pcs i = .returned) (i : Fin n) :
    c.shared.syncVariance.threadCounts i = numPhases := by
  have sound := sound_preserved.reaches ⟨fun _ => Nat.zero_le _, fun _ => rfl⟩ reached
  rw [sound.recorded, returned]
  rfl

/-- The value published says nothing about the schedule. -/
theorem fairness_of_publishes {fl : Fairness.Rounding} {total : ℕ} {syncFairness : ℚ}
    (published : Publishes fl n numPhases total syncFairness) :
    syncFairness = fl.published n numPhases total := by
  obtain ⟨start, reached⟩ := published
  rcases returns_of_passed reached with ⟨_, none⟩ | ⟨iterates, _, same, c, ran, ended⟩
  · simp at none
  · obtain rfl := Option.some.inj same
    simp only [result, Option.ite_none_right_eq_some, Option.some.injEq] at ended
    obtain ⟨returned, rfl⟩ := ended
    rw [Fairness.Rounding.published, if_neg iterates.ne']
    exact VarianceTracker.roundedCoefficient_of_quota (returned_recorded ran returned) fl

end Run

end ConcurrencyBench.ArrivalPattern
