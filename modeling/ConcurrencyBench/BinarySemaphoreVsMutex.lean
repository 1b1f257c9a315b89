import ConcurrencyBench.Iterations
import ConcurrencyBench.Threads
import ConcurrencyBench.VarianceTracker

/-!
# A semaphore and a mutex with equal quotas

One iteration of `BinarySemaphore_vs_Mutex` starts threads that each pass a binary
semaphore a fixed number of times, joins them, and does the same with a mutex. A thread
adds one to a counter inside, and records the operation with a tracker: outside of the
semaphore, but still under the mutex. Each access to the semaphore, the mutex, a counter
or a tracker is one step. A thread that has not been started yet is one that has not
moved, and the order in which threads are joined makes no difference.

The benchmark publishes the counters and the coefficients of the two trackers as the last
iteration has left them.
-/

namespace ConcurrencyBench.BinarySemaphoreVsMutex

open Interleaving

variable {n : ℕ}

/-- What the threads share. -/
structure Shared (n : ℕ) where
  binarySem : ℕ
  binaryCounter : ℕ
  mtx : Option (Fin n)
  mutexCounter : ℕ
  binaryTracker : VarianceTracker n
  mutexTracker : VarianceTracker n

/-- The next statement of a thread, with its operations so far. -/
inductive Pc
  | loop (j : ℕ) | enter (j : ℕ) | count (j : ℕ) | leave (j : ℕ) | record (j : ℕ)
  | returned
deriving DecidableEq

/-- A thread of the first kind, one statement at a time. -/
def binaryWorker (quota : ℕ) (i : Fin n) (s : Shared n) : Pc → Option (Shared n × Pc)
  -- for (size_t j = 0; j < operations_per_thread; ++j)
  | .loop j => some (s, if j < quota then .enter j else .returned)
  -- binary_sem.acquire();
  | .enter j =>
    if 0 < s.binarySem then some ({ s with binarySem := s.binarySem - 1 }, .count j) else none
  -- binary_counter.fetch_add(1, std::memory_order_relaxed);
  | .count j => some ({ s with binaryCounter := s.binaryCounter + 1 }, .leave j)
  -- binary_sem.release();
  | .leave j => some ({ s with binarySem := s.binarySem + 1 }, .record j)
  -- binary_tracker.record_operation(static_cast<size_t>(thread_id));
  | .record j =>
    some ({ s with binaryTracker := s.binaryTracker.recordOperation i }, .loop (j + 1))
  | .returned => none

/-- A thread of the second kind, one statement at a time. -/
def mutexWorker (quota : ℕ) (i : Fin n) (s : Shared n) : Pc → Option (Shared n × Pc)
  -- for (size_t j = 0; j < operations_per_thread; ++j)
  | .loop j => some (s, if j < quota then .enter j else .returned)
  -- std::lock_guard<std::mutex> lock(mtx);
  | .enter j => if s.mtx = none then some ({ s with mtx := some i }, .count j) else none
  -- mutex_counter.fetch_add(1, std::memory_order_relaxed);
  | .count j => some ({ s with mutexCounter := s.mutexCounter + 1 }, .record j)
  -- mutex_tracker.record_operation(static_cast<size_t>(thread_id));
  | .record j =>
    some ({ s with mutexTracker := s.mutexTracker.recordOperation i }, .leave j)
  -- ~lock_guard
  | .leave j => some ({ s with mtx := none }, .loop (j + 1))
  | .returned => none

/-- The main thread joins the threads of one kind, then those of the other. -/
inductive MainAt
  | joinBinary | joinMutex | finished
deriving DecidableEq

/-- The main thread, what is shared and the workers. -/
structure Config (n : ℕ) where
  shared : Shared n
  main : MainAt
  workers : Fin n → Pc

/-- A fresh iteration, with the threads of the first kind about to start. -/
def Config.init : Config n where
  shared := ⟨1, 0, none, 0, .make n, .make n⟩
  main := .joinBinary
  workers _ := .loop 0

/-- The statement of a thread of the kind that has been started. -/
def worker (quota : ℕ) (main : MainAt) (i : Fin n) (s : Shared n) (pc : Pc) :
    Option (Shared n × Pc) :=
  match main with
  | .joinBinary => binaryWorker quota i s pc
  | .joinMutex => mutexWorker quota i s pc
  | .finished => none

/-- The main thread goes on, or a worker does. -/
inductive Label (n : ℕ)
  | main
  | worker (i : Fin n)

/-- One step of an iteration. -/
def step (quota : ℕ) (c : Config n) : Label n → Option (Config n)
  -- t.join();
  | .main =>
    if ∀ i, c.workers i = .returned then
      match c.main with
      | .joinBinary => some { c with main := .joinMutex, workers := fun _ => .loop 0 }
      | .joinMutex => some { c with main := .finished }
      | .finished => none
    else none
  | .worker i => (worker quota c.main i c.shared (c.workers i)).map fun (shared, pc) =>
      { c with shared, workers := Function.update c.workers i pc }

/-- Every state some interleaving leads to. -/
def Reachable (quota : ℕ) (c : Config n) : Prop := Reaches (step quota) Config.init c

/-- What the benchmark publishes. -/
structure Report where
  binarySemOps : ℚ
  mutexOps : ℚ
  binaryFairness : ℚ
  mutexFairness : ℚ

/-- What an iteration leaves in `last_binary` and its like, in an arithmetic that rounds. -/
def result (fl : Fairness.Rounding) (c : Config n) : Option Report :=
  match c.main with
  | .finished =>
    -- state.counters["binary_sem_ops"] = static_cast<double>(last_binary);
    some ⟨fl.round c.shared.binaryCounter, fl.round c.shared.mutexCounter,
      c.shared.binaryTracker.roundedCoefficient fl, c.shared.mutexTracker.roundedCoefficient fl⟩
  | _ => none

/-- A result is that of an iteration that has finished. -/
theorem result_eq_some_iff (fl : Fairness.Rounding) (c : Config n) (report : Report) :
    result fl c = some report ↔ c.main = .finished ∧
      ⟨fl.round c.shared.binaryCounter, fl.round c.shared.mutexCounter,
        c.shared.binaryTracker.roundedCoefficient fl,
        c.shared.mutexTracker.roundedCoefficient fl⟩ = report := by
  cases standing : c.main <;> simp [result, standing]

/-- A report of the benchmark, which the framework lets iterate this often. -/
def Publishes (fl : Fairness.Rounding) (n quota total : ℕ) (report : Report) : Prop :=
  ∃ last, Reaches (iterate (step quota) (Config.init : Config n) (result fl) total)
    (.between 0 none) (.passed last) ∧ report = last.getD ⟨0, 0, 0, 0⟩

/-! ## What a position has behind it -/

/-- The operations behind a thread are within its quota. -/
def Pc.Valid (quota : ℕ) : Pc → Prop
  | .loop j => j ≤ quota
  | .enter j | .count j | .leave j | .record j => j < quota
  | .returned => True

/-- The operations counted by `fetch_add`. -/
def Pc.counted (quota : ℕ) : Pc → ℕ
  | .loop j | .enter j | .count j => j
  | .leave j | .record j => j + 1
  | .returned => quota

/-- The operations recorded, where that is the last statement of the loop. -/
def Pc.recordedLast (quota : ℕ) : Pc → ℕ
  | .loop j | .enter j | .count j | .leave j | .record j => j
  | .returned => quota

/-- The operations recorded, where the mutex is left after that. -/
def Pc.recordedInside (quota : ℕ) : Pc → ℕ
  | .loop j | .enter j | .count j | .record j => j
  | .leave j => j + 1
  | .returned => quota

/-- The token of the semaphore is in this thread's hands. -/
def Pc.holds : Pc → Bool
  | .count _ | .leave _ => true
  | _ => false

/-- Under the mutex. -/
def Pc.locked : Pc → Bool
  | .count _ | .record _ | .leave _ => true
  | _ => false

/-- A counter and a tracker say what the positions of the threads do. -/
structure Tallied (quota : ℕ) (recorded : Pc → ℕ) (tracker : VarianceTracker n) (counter : ℕ)
    (workers : Fin n → Pc) : Prop where
  valid : ∀ i, (workers i).Valid quota
  recorded : ∀ i, tracker.threadCounts i = recorded (workers i)
  counted : counter = tally (fun _ => Pc.counted quota) workers

/-- What a statement does to the counter and the tracker. -/
structure Effect (quota : ℕ) (recorded : Pc → ℕ) (i : Fin n) (tracker : VarianceTracker n)
    (counter : ℕ) (pc : Pc) (tracker' : VarianceTracker n) (counter' : ℕ) (pc' : Pc) : Prop where
  valid : pc'.Valid quota
  recorded : (tracker' = tracker ∧ recorded pc' = recorded pc) ∨
    (tracker' = tracker.recordOperation i ∧ recorded pc' = recorded pc + 1)
  counted : counter' + pc.counted quota = counter + pc'.counted quota

section OneMove

variable {quota : ℕ} {i : Fin n} {s s' : Shared n} {pc pc' : Pc}

/-- A statement of the semaphore's workers counts, records and takes the semaphore as it says, and
touches nothing of the mutex's. -/
theorem binaryWorker_effect (valid : pc.Valid quota)
    (moved : binaryWorker quota i s pc = some (s', pc')) :
    Effect quota (Pc.recordedLast quota) i s.binaryTracker s.binaryCounter pc
      s'.binaryTracker s'.binaryCounter pc' ∧
    s'.binarySem + pc'.holds.toNat = s.binarySem + pc.holds.toNat ∧
    s'.mtx = s.mtx ∧ s'.mutexCounter = s.mutexCounter ∧ s'.mutexTracker = s.mutexTracker := by
  cases pc with
  | loop j =>
    obtain ⟨rfl, rfl⟩ := Prod.mk.inj (Option.some.inj moved)
    by_cases more : j < quota
    · rw [if_pos more]
      exact ⟨⟨more, Or.inl ⟨rfl, rfl⟩, rfl⟩, rfl, rfl, rfl, rfl⟩
    · have all : j = quota := le_antisymm valid (not_lt.mp more)
      rw [if_neg more, all]
      exact ⟨⟨trivial, Or.inl ⟨rfl, rfl⟩, rfl⟩, rfl, rfl, rfl, rfl⟩
  | enter j =>
    simp only [binaryWorker, Option.ite_none_right_eq_some, Option.some.injEq,
      Prod.mk.injEq] at moved
    obtain ⟨token, rfl, rfl⟩ := moved
    exact ⟨⟨valid, Or.inl ⟨rfl, rfl⟩, rfl⟩, Nat.sub_add_cancel token, rfl, rfl, rfl⟩
  | count j =>
    obtain ⟨rfl, rfl⟩ := Prod.mk.inj (Option.some.inj moved)
    exact ⟨⟨valid, Or.inl ⟨rfl, rfl⟩, Nat.add_right_comm _ 1 j⟩, rfl, rfl, rfl, rfl⟩
  | leave j =>
    obtain ⟨rfl, rfl⟩ := Prod.mk.inj (Option.some.inj moved)
    exact ⟨⟨valid, Or.inl ⟨rfl, rfl⟩, rfl⟩, rfl, rfl, rfl, rfl⟩
  | record j =>
    obtain ⟨rfl, rfl⟩ := Prod.mk.inj (Option.some.inj moved)
    exact ⟨⟨Nat.succ_le_of_lt valid, Or.inr ⟨rfl, rfl⟩, rfl⟩, rfl, rfl, rfl, rfl⟩
  | returned => simp [binaryWorker] at moved

/-- A statement of the mutex's workers counts, records and takes the mutex as it says, and touches
nothing of the semaphore's. -/
theorem mutexWorker_effect (valid : pc.Valid quota)
    (moved : mutexWorker quota i s pc = some (s', pc')) :
    Effect quota (Pc.recordedInside quota) i s.mutexTracker s.mutexCounter pc
      s'.mutexTracker s'.mutexCounter pc' ∧
    LockMove Pc.locked i s.mtx pc s'.mtx pc' ∧
    s'.binaryCounter = s.binaryCounter ∧ s'.binaryTracker = s.binaryTracker := by
  cases pc with
  | loop j =>
    obtain ⟨rfl, rfl⟩ := Prod.mk.inj (Option.some.inj moved)
    by_cases more : j < quota
    · rw [if_pos more]
      exact ⟨⟨more, Or.inl ⟨rfl, rfl⟩, rfl⟩, .kept _ _ _ rfl, rfl, rfl⟩
    · have all : j = quota := le_antisymm valid (not_lt.mp more)
      rw [if_neg more, all]
      exact ⟨⟨trivial, Or.inl ⟨rfl, rfl⟩, rfl⟩, .kept _ _ _ rfl, rfl, rfl⟩
  | enter j =>
    simp only [mutexWorker, Option.ite_none_right_eq_some, Option.some.injEq,
      Prod.mk.injEq] at moved
    obtain ⟨free, rfl, rfl⟩ := moved
    rw [free]
    exact ⟨⟨valid, Or.inl ⟨rfl, rfl⟩, rfl⟩, .acquired _ _ rfl, rfl, rfl⟩
  | count j =>
    obtain ⟨rfl, rfl⟩ := Prod.mk.inj (Option.some.inj moved)
    exact ⟨⟨valid, Or.inl ⟨rfl, rfl⟩, Nat.add_right_comm _ 1 j⟩, .kept _ _ _ rfl, rfl, rfl⟩
  | record j =>
    obtain ⟨rfl, rfl⟩ := Prod.mk.inj (Option.some.inj moved)
    exact ⟨⟨valid, Or.inr ⟨rfl, rfl⟩, rfl⟩, .kept _ _ _ rfl, rfl, rfl⟩
  | leave j =>
    obtain ⟨rfl, rfl⟩ := Prod.mk.inj (Option.some.inj moved)
    exact ⟨⟨Nat.succ_le_of_lt valid, Or.inl ⟨rfl, rfl⟩, rfl⟩, .released _ _ _ rfl rfl, rfl, rfl⟩
  | returned => simp [mutexWorker] at moved

end OneMove

section Run

variable {quota : ℕ} {i : Fin n} {c c' : Config n}

/-- The threads start with nothing behind them. -/
theorem tallied_start {recorded : Pc → ℕ} {tracker : VarianceTracker n} {counter : ℕ}
    (untouched : ∀ i, tracker.threadCounts i = 0) (zero : counter = 0)
    (nothing : recorded (.loop 0) = 0) :
    Tallied quota recorded tracker counter (fun _ : Fin n => .loop 0) where
  valid _ := Nat.zero_le _
  recorded i := (untouched i).trans nothing.symm
  counted := by simp [zero, tally, Pc.counted]

/-- A statement with its effect keeps the tally. -/
theorem Tallied.move {recorded : Pc → ℕ} {tracker tracker' : VarianceTracker n}
    {counter counter' : ℕ} {workers : Fin n → Pc} {pc' : Pc}
    (tallied : Tallied quota recorded tracker counter workers)
    (effect : Effect quota recorded i tracker counter (workers i) tracker' counter' pc') :
    Tallied quota recorded tracker' counter' (Function.update workers i pc') where
  valid := by
    rw [Function.forall_update_iff workers fun _ pc => pc.Valid quota]
    exact ⟨effect.valid, fun j _ => tallied.valid j⟩
  recorded := by
    rcases effect.recorded with ⟨rfl, same⟩ | ⟨rfl, gained⟩
    · exact VarianceTracker.silent_update tallied.recorded same
    · exact VarianceTracker.record_update tallied.recorded gained
  counted := by
    have exchanged := tally_update (fun _ => Pc.counted quota) workers i pc'
    have before := tallied.counted
    have change := effect.counted
    omega

/-- All threads have done their quota. -/
def Filled (quota : ℕ) (tracker : VarianceTracker n) (counter : ℕ) : Prop :=
  (∀ i, tracker.threadCounts i = quota) ∧ counter = n * quota

/-- When all workers have returned the quotas are filled. -/
theorem Tallied.filled {recorded : Pc → ℕ} {tracker : VarianceTracker n} {counter : ℕ}
    {workers : Fin n → Pc} (tallied : Tallied quota recorded tracker counter workers)
    (returned : ∀ i, workers i = .returned) (full : recorded .returned = quota) :
    Filled quota tracker counter := by
  constructor
  · intro i
    rw [tallied.recorded, returned, full]
  · rw [tallied.counted]
    simp [tally, returned, Pc.counted]

/-- What holds while the threads of each kind run. The semaphore and the mutex let one
thread in at a time, so the semaphore is never released beyond its maximum. -/
def Sound (quota : ℕ) (c : Config n) : Prop :=
  match c.main with
  | .joinBinary =>
    Tallied quota (Pc.recordedLast quota) c.shared.binaryTracker c.shared.binaryCounter c.workers ∧
    c.shared.binarySem + tally (fun _ pc => pc.holds.toNat) c.workers = 1 ∧
    c.shared.mtx = none ∧ c.shared.mutexCounter = 0 ∧ c.shared.mutexTracker = .make n
  | .joinMutex =>
    Filled quota c.shared.binaryTracker c.shared.binaryCounter ∧
    Tallied quota (Pc.recordedInside quota) c.shared.mutexTracker c.shared.mutexCounter c.workers ∧
    Owned Pc.locked c.shared.mtx c.workers
  | .finished =>
    Filled quota c.shared.binaryTracker c.shared.binaryCounter ∧
    Filled quota c.shared.mutexTracker c.shared.mutexCounter

/-- At the start nothing is counted. -/
theorem sound_init : Sound quota (Config.init : Config n) :=
  ⟨tallied_start (fun _ => rfl) rfl rfl, by simp [Config.init, tally, Pc.holds], rfl, rfl, rfl⟩

/-- Every statement of the main thread keeps the counts. -/
theorem sound_main (sound : Sound quota c) (taken : step quota c .main = some c') :
    Sound quota c' := by
  simp only [step, Option.ite_none_right_eq_some] at taken
  obtain ⟨returned, taken⟩ := taken
  unfold Sound at sound
  cases standing : c.main with
  | joinBinary =>
    simp only [standing, Option.some.injEq] at sound taken
    obtain ⟨tallied, _, free, zero, fresh⟩ := sound
    subst taken
    refine ⟨tallied.filled returned rfl, tallied_start ?_ zero rfl, fun i => ?_⟩
    · intro i
      rw [fresh]
      rfl
    · simp [free, Pc.locked]
  | joinMutex =>
    simp only [standing, Option.some.injEq] at sound taken
    obtain ⟨filled, tallied, _⟩ := sound
    subst taken
    exact ⟨filled, tallied.filled returned rfl⟩
  | finished => simp [standing] at taken

/-- Every statement of a worker keeps the counts. -/
theorem sound_worker (sound : Sound quota c) (taken : step quota c (.worker i) = some c') :
    Sound quota c' := by
  simp only [step, Option.map_eq_some_iff] at taken
  obtain ⟨⟨shared, pc⟩, moved, rfl⟩ := taken
  unfold Sound at sound ⊢
  cases standing : c.main with
  | joinBinary =>
    simp only [standing, worker] at sound moved ⊢
    obtain ⟨tallied, semaphore, free, zero, fresh⟩ := sound
    obtain ⟨effect, token, mtx, counter, tracker⟩ := binaryWorker_effect (tallied.valid i) moved
    have exchanged := tally_update (fun _ pc => pc.holds.toNat) c.workers i pc
    exact ⟨tallied.move effect, by omega, mtx.trans free, counter.trans zero, tracker.trans fresh⟩
  | joinMutex =>
    simp only [standing, worker] at sound moved ⊢
    obtain ⟨filled, tallied, owned⟩ := sound
    obtain ⟨effect, lock, counter, tracker⟩ := mutexWorker_effect (tallied.valid i) moved
    exact ⟨counter ▸ tracker ▸ filled, tallied.move effect, owned.move lock⟩
  | finished => simp [standing, worker] at moved

/-- The counts are right in every reachable state. -/
theorem reachable_sound (reached : Reachable quota c) : Sound quota c := by
  have kept : Preserved (step quota) (Sound quota : Config n → Prop) := by
    intro c label c' sound taken
    cases label with
    | main => exact sound_main sound taken
    | worker i => exact sound_worker sound taken
  exact kept.reaches sound_init reached

/-- However the threads have got at the semaphore and the mutex, each has recorded its quota
with both trackers. -/
theorem finished_filled (reached : Reachable quota c) (finished : c.main = .finished) :
    Filled quota c.shared.binaryTracker c.shared.binaryCounter ∧
      Filled quota c.shared.mutexTracker c.shared.mutexCounter := by
  have sound := reachable_sound reached
  simpa only [Sound, finished] using sound

/-- A report says nothing about the schedule. -/
theorem report_of_publishes {fl : Fairness.Rounding} {total : ℕ} {report : Report}
    (published : Publishes fl n quota total report) :
    report.binaryFairness = fl.published n quota total ∧
      report.mutexFairness = fl.published n quota total := by
  obtain ⟨last, reached, rfl⟩ := published
  rcases returns_of_passed reached with ⟨rfl, rfl⟩ | ⟨iterates, _, rfl, c, ran, ended⟩
  · exact ⟨rfl, rfl⟩
  · obtain ⟨finished, rfl⟩ := (result_eq_some_iff fl c _).mp ended
    obtain ⟨binary, mutex⟩ := finished_filled ran finished
    rw [Fairness.Rounding.published, if_neg iterates.ne']
    exact ⟨VarianceTracker.roundedCoefficient_of_quota binary.1 fl,
      VarianceTracker.roundedCoefficient_of_quota mutex.1 fl⟩

end Run

end ConcurrencyBench.BinarySemaphoreVsMutex
