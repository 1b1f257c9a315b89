import ConcurrencyBench.Runs
import ConcurrencyBench.Threads

/-!
# The items the paired benchmarks report

Google Benchmark divides the items a benchmark reports by the time of all iterations of
its loop. Six benchmarks come in pairs of one workload with two primitives. Each
iteration starts threads or tasks, as many as the argument says, lets each process its
items, and waits for all of them. An item is a phase a thread has brought to the
barrier, a task that has been run, or a read or write of the map. The barrier, the
pool and the locks only restrict the order, so here every order is a run.

The reader-writer benchmarks draw a percentage for each item and count what they have
done, reads and writes apart; they reset both counters in each iteration. The counters
are natural numbers, as no machine starts threads enough for their types' ranges. The
items processed are counted for the statements only.
-/

namespace ConcurrencyBench.Throughput

open Interleaving

/-- The benchmarks. -/
inductive Benchmark
  | stdBarrierWithWork | manualBarrierWithWork
  | threadPoolCPUBound | stdAsyncCPUBound
  | sharedMutexReadHeavy90_10 | exclusiveMutexReadHeavy90_10
deriving DecidableEq

/-- The items each thread or task processes in an iteration. -/
def Benchmark.quota : Benchmark → ℕ
  -- const int num_phases = 10;
  | .stdBarrierWithWork | .manualBarrierWithWork => 10
  | .threadPoolCPUBound | .stdAsyncCPUBound => 1
  -- const size_t operations_per_thread = 10000;
  | .sharedMutexReadHeavy90_10 | .exclusiveMutexReadHeavy90_10 => 10000

/-- The items are reads and writes, and counted. -/
def Benchmark.counts : Benchmark → Bool
  | .sharedMutexReadHeavy90_10 | .exclusiveMutexReadHeavy90_10 => true
  | _ => false

/-- What is passed to `SetItemsProcessed` after the loop. -/
def Benchmark.itemsProcessed (iterations argument totalReads totalWrites : ℕ) : Benchmark → ℕ
  -- static_cast<int64_t>(state.iterations()) * num_phases * num_threads
  | .stdBarrierWithWork => iterations * 10 * argument
  -- num_phases * num_threads
  | .manualBarrierWithWork => 10 * argument
  -- num_tasks
  | .threadPoolCPUBound | .stdAsyncCPUBound => argument
  -- total_reads.load() + total_writes.load()
  | .sharedMutexReadHeavy90_10 | .exclusiveMutexReadHeavy90_10 => totalReads + totalWrites

/-- What the threads of an iteration count. -/
structure Counters where
  totalReads : ℕ
  totalWrites : ℕ
  processed : ℕ

/-- The next statement of a thread or task, with the items it has behind it. -/
inductive WorkerAt
  | loop (j : ℕ) | draw (j : ℕ) | item (j : ℕ) (read : Bool) | count (j : ℕ) (read : Bool)
  | returned
deriving DecidableEq

/-- A thread or task of one iteration, one statement at a time, told the percentage it
may draw. -/
def work (b : Benchmark) (percent : Fin 100) (s : Counters) : WorkerAt → Option (Counters × WorkerAt)
  -- for (size_t j = 0; j < operations_per_thread; ++j)
  | .loop j => some (s,
    if j < b.quota then (if b.counts then .draw j else .item j false) else .returned)
  -- if (percent(gen) < read_percentage)
  | .draw j => some (s, .item j (percent.val < 90))
  | .item j read =>
    some ({ s with processed := s.processed + 1 }, if b.counts then .count j read else .loop (j + 1))
  -- total_reads.fetch_add(1, std::memory_order_relaxed);
  | .count j true => some ({ s with totalReads := s.totalReads + 1 }, .loop (j + 1))
  -- total_writes.fetch_add(1, std::memory_order_relaxed);
  | .count j false => some ({ s with totalWrites := s.totalWrites + 1 }, .loop (j + 1))
  | .returned => none

/-- Where the main thread is. -/
inductive MainAt
  | loop
  | join
  | reported (items : ℕ)
deriving DecidableEq

/-- A benchmark with this argument, after this many iterations of its loop. -/
structure Config (argument : ℕ) where
  iterations : ℕ
  main : MainAt
  workers : Fin argument → WorkerAt
  counters : Counters

variable {argument : ℕ}

/-- Before the first iteration. -/
def Config.init : Config argument := ⟨0, .loop, fun _ => .returned, ⟨0, 0, 0⟩⟩

/-- A schedule lets the main thread go on, or a thread or task, with the percentage it
draws if it draws one. -/
inductive Label (argument : ℕ)
  | main
  | work (i : Fin argument) (percent : Fin 100)

/-- One step of a benchmark that the framework lets iterate this often. -/
def step (b : Benchmark) (total : ℕ) (c : Config argument) : Label argument → Option (Config argument)
  | .main =>
    match c.main with
    -- for (auto _ : state)
    | .loop =>
      if c.iterations < total then
        some { c with
          main := .join
          workers := fun _ => .loop 0
          -- total_reads = 0; total_writes = 0;
          counters := { c.counters with totalReads := 0, totalWrites := 0 } }
      else
        some { c with
          -- state.SetItemsProcessed(...);
          main := .reported (b.itemsProcessed c.iterations argument c.counters.totalReads
            c.counters.totalWrites) }
    | .join =>
      if ∀ i, c.workers i = .returned then
        some { c with main := .loop, iterations := c.iterations + 1 }
      else none
    | .reported _ => none
  | .work i percent => (work b percent c.counters (c.workers i)).map fun (counters, worker) =>
      { c with workers := Function.update c.workers i worker, counters }

/-- Every state some interleaving leads to. -/
def Reachable (b : Benchmark) (total : ℕ) (c : Config argument) : Prop :=
  Reaches (step b total) Config.init c

/-- The items a thread or task has processed in this iteration. -/
def WorkerAt.done (quota : ℕ) : WorkerAt → ℕ
  | .loop j | .draw j | .item j _ => j
  | .count j _ => j + 1
  | .returned => quota

/-- The items of it that the counters say. -/
def WorkerAt.counted (quota : ℕ) : WorkerAt → ℕ
  | .loop j | .draw j | .item j _ | .count j _ => j
  | .returned => quota

/-- The operations behind a thread are within its quota. -/
def WorkerAt.Valid (quota : ℕ) : WorkerAt → Prop
  | .loop j => j ≤ quota
  | .draw j | .item j _ | .count j _ => j < quota
  | .returned => True

/-- A statement of a thread counts what it has done. -/
theorem work_effect {b : Benchmark} {percent : Fin 100} {s s' : Counters} {worker worker' : WorkerAt}
    (valid : worker.Valid b.quota) (moved : work b percent s worker = some (s', worker')) :
    worker'.Valid b.quota ∧
    s'.processed + worker.done b.quota = s.processed + worker'.done b.quota ∧
    (b.counts = true → s'.totalReads + s'.totalWrites + worker.counted b.quota =
      s.totalReads + s.totalWrites + worker'.counted b.quota) := by
  cases worker with
  | loop j =>
    have bound : j ≤ b.quota := valid
    rw [work] at moved
    split at moved
    · next inside =>
      split at moved <;> obtain ⟨rfl, rfl⟩ := Prod.mk.inj (Option.some.inj moved) <;>
        exact ⟨inside, rfl, fun _ => rfl⟩
    · obtain ⟨rfl, rfl⟩ := Prod.mk.inj (Option.some.inj moved)
      obtain rfl : j = b.quota := by omega
      exact ⟨trivial, rfl, fun _ => rfl⟩
  | draw j =>
    obtain ⟨rfl, rfl⟩ := Prod.mk.inj (Option.some.inj moved)
    exact ⟨valid, rfl, fun _ => rfl⟩
  | item j read =>
    rw [work] at moved
    split at moved <;> obtain ⟨rfl, rfl⟩ := Prod.mk.inj (Option.some.inj moved)
    · exact ⟨valid, Nat.succ_add_eq_add_succ _ _, fun _ => rfl⟩
    · next silent => exact ⟨valid, Nat.succ_add_eq_add_succ _ _, fun counts => absurd counts silent⟩
  | count j read =>
    cases read <;> obtain ⟨rfl, rfl⟩ := Prod.mk.inj (Option.some.inj moved) <;>
      refine ⟨valid, rfl, fun _ => ?_⟩ <;> simp only [WorkerAt.counted] <;> omega
  | returned => cases moved

/-- The items of the current iteration, by a count of each worker's. -/
def Config.current (c : Config argument) (weight : WorkerAt → ℕ) : ℕ :=
  if c.main = .join then tally (fun _ => weight) c.workers else 0

/-- Everything a benchmark keeps. -/
structure Sound (b : Benchmark) (total : ℕ) (c : Config argument) : Prop where
  valid : ∀ i, (c.workers i).Valid b.quota
  idle : c.main ≠ .join → ∀ i, c.workers i = .returned
  bound : c.iterations ≤ total ∧ (c.main = .join → c.iterations < total)
  processed : c.counters.processed =
    c.iterations * (b.quota * argument) + c.current (WorkerAt.done b.quota)
  counted : b.counts = true → c.counters.totalReads + c.counters.totalWrites =
    c.current (WorkerAt.counted b.quota) +
      if c.main = .join ∨ c.iterations = 0 then 0 else b.quota * argument
  reported : ∀ items, c.main = .reported items → c.iterations = total ∧
    items = b.itemsProcessed total argument c.counters.totalReads c.counters.totalWrites

/-- At the start nothing is counted. -/
theorem sound_init (b : Benchmark) (total : ℕ) : Sound b total (Config.init : Config argument) where
  valid _ := trivial
  idle _ _ := rfl
  bound := by simp [Config.init]
  processed := by simp [Config.init, Config.current]
  counted := by simp [Config.init, Config.current]
  reported := by simp [Config.init]

variable {b : Benchmark} {total : ℕ}

/-- When every worker has returned, each has done its quota. -/
theorem tally_returned {weight : WorkerAt → ℕ} {workers : Fin argument → WorkerAt}
    {place : WorkerAt} (same : ∀ i, workers i = place) :
    tally (fun _ => weight) workers = argument * weight place := by
  simp [tally, same]

/-- Every statement of the main thread keeps the counts. -/
theorem sound_main {c c' : Config argument} (sound : Sound b total c)
    (taken : step b total c .main = some c') : Sound b total c' := by
  cases standing : c.main with
  | loop =>
    have idle := sound.idle (by simp [standing])
    have processed := sound.processed
    have counted := sound.counted
    simp only [Config.current, standing, reduceCtorEq, if_false, false_or] at processed counted
    by_cases more : c.iterations < total
    · simp only [step, standing, more, if_true, Option.some.injEq] at taken
      subst taken
      refine ⟨fun _ => Nat.zero_le _, by simp, ⟨more.le, fun _ => more⟩, ?_, fun _ => ?_, by simp⟩
      · simp [Config.current, tally, WorkerAt.done, processed]
      · simp [Config.current, tally, WorkerAt.counted]
    · simp only [step, standing, more, if_false, Option.some.injEq] at taken
      subst taken
      have all : c.iterations = total := le_antisymm sound.bound.1 (not_lt.mp more)
      refine ⟨sound.valid, fun _ => idle, ⟨sound.bound.1, by simp⟩, ?_, fun counts => ?_, ?_⟩
      · simp [Config.current, processed]
      · simpa [Config.current] using counted counts
      · rintro items same
        exact ⟨all, by simpa [all] using same.symm⟩
  | join =>
    simp only [step, standing, Option.ite_none_right_eq_some, Option.some.injEq] at taken
    obtain ⟨returned, rfl⟩ := taken
    have processed := sound.processed
    have counted := sound.counted
    simp only [Config.current, standing, if_true, true_or, tally_returned returned] at processed counted
    refine ⟨sound.valid, fun _ => returned, ⟨sound.bound.2 standing, by simp⟩, ?_, fun counts => ?_,
      by simp⟩
    · simp only [Config.current, reduceCtorEq, if_false, processed, WorkerAt.done]
      rw [Nat.succ_mul, Nat.mul_comm argument, Nat.add_zero]
    · simp only [Config.current, reduceCtorEq, if_false, counted counts, WorkerAt.counted]
      simp [Nat.mul_comm]
  | reported items => simp [step, standing] at taken

/-- Every statement of a thread keeps the counts. -/
theorem sound_work {c : Config argument} {i : Fin argument} {percent : Fin 100}
    {counters : Counters} {worker : WorkerAt} (sound : Sound b total c)
    (moved : work b percent c.counters (c.workers i) = some (counters, worker)) :
    Sound b total { c with workers := Function.update c.workers i worker, counters } := by
  have joining : c.main = .join := by
    by_contra idle
    simp [sound.idle idle i, work] at moved
  obtain ⟨valid, processed, counted⟩ := work_effect (sound.valid i) moved
  have done := tally_update (fun _ => WorkerAt.done b.quota) c.workers i worker
  have told := tally_update (fun _ => WorkerAt.counted b.quota) c.workers i worker
  constructor
  case valid =>
    dsimp only
    rw [Function.forall_update_iff c.workers fun _ w => w.Valid b.quota]
    exact ⟨valid, fun j _ => sound.valid j⟩
  case idle => exact fun idle => absurd joining idle
  case bound => exact sound.bound
  case processed =>
    have before := sound.processed
    simp only [Config.current, joining, if_true] at before ⊢
    omega
  case counted =>
    intro counts
    have before := sound.counted counts
    have change := counted counts
    simp only [Config.current, joining, if_true, true_or] at before ⊢
    omega
  case reported => simp [joining]

/-- The counts are right in every reachable state. -/
theorem reachable_sound {c : Config argument} (reached : Reachable b total c) : Sound b total c := by
  have kept : Preserved (step b total) (Sound b total : Config argument → Prop) := by
    intro c label c' sound taken
    cases label with
    | main => exact sound_main sound taken
    | work i percent =>
      obtain ⟨⟨counters, worker⟩, moved, rfl⟩ := Option.map_eq_some_iff.mp taken
      exact sound_work sound moved
  exact kept.reaches (sound_init b total) reached

/-- A benchmark that has reported has processed its quotas in every iteration. -/
theorem processed_of_reported {c : Config argument} {items : ℕ} (reached : Reachable b total c)
    (reported : c.main = .reported items) :
    c.counters.processed = total * (b.quota * argument) := by
  have sound := reachable_sound reached
  obtain ⟨all, _⟩ := sound.reported items reported
  simpa [Config.current, reported, all] using sound.processed

/-- What it has reported is the items of all iterations for the benchmark that says so, and
the items of one iteration for the others. -/
theorem items_of_reported {c : Config argument} {items : ℕ} (some : 1 ≤ total)
    (reached : Reachable b total c) (reported : c.main = .reported items) :
    items = if b = .stdBarrierWithWork then total * (b.quota * argument) else b.quota * argument := by
  have sound := reachable_sound reached
  obtain ⟨all, same⟩ := sound.reported items reported
  have counted := sound.counted
  simp only [Config.current, reported, reduceCtorEq, if_false, false_or, all] at counted
  have positive : total ≠ 0 := by omega
  cases b <;> simp_all [Benchmark.itemsProcessed, Benchmark.quota, Benchmark.counts, Nat.mul_assoc]

/-- One iteration's items are all iterations' when there is one iteration, or no item. -/
theorem repeated_eq_iff (total items : ℕ) : items = total * items ↔ total = 1 ∨ items = 0 := by
  rcases Nat.eq_zero_or_pos items with rfl | positive
  · simp
  · constructor
    · intro same
      exact Or.inl (Nat.eq_of_mul_eq_mul_right positive (by omega))
    · rintro (rfl | none)
      · omega
      · omega

/-- There is nothing to do exactly if there are no threads. -/
theorem quota_mul_eq_zero_iff (b : Benchmark) (argument : ℕ) :
    b.quota * argument = 0 ↔ argument = 0 := by
  rw [Nat.mul_eq_zero, or_iff_right]
  cases b <;> decide

/-- A benchmark's reported items are the items processed exactly when it is
`StdBarrier_WithWork`, or its loop has run once, or its argument is 0; and the two barrier
benchmarks report the same for the same iterations and threads in the latter cases only.
This is so for every argument, every number of iterations from one on, every percentage
drawn and every interleaving. -/
theorem items_reported_iff (total argument : ℕ) (some : 1 ≤ total) :
    (∀ (b : Benchmark) (c : Config argument) (items : ℕ), Reachable b total c →
      c.main = .reported items →
      (items = c.counters.processed ↔ b = .stdBarrierWithWork ∨ total = 1 ∨ argument = 0)) ∧
    ∀ (std manual : Config argument) (itemsStd itemsManual : ℕ),
      Reachable .stdBarrierWithWork total std → std.main = .reported itemsStd →
      Reachable .manualBarrierWithWork total manual → manual.main = .reported itemsManual →
      (itemsStd = itemsManual ↔ total = 1 ∨ argument = 0) := by
  constructor
  · intro b c items reached reported
    rw [items_of_reported some reached reported, processed_of_reported reached reported]
    by_cases std : b = .stdBarrierWithWork
    · simp [std]
    · rw [if_neg std, repeated_eq_iff, quota_mul_eq_zero_iff]
      simp [std]
  · intro std manual itemsStd itemsManual reachedStd reportedStd reachedManual reportedManual
    rw [items_of_reported some reachedStd reportedStd,
      items_of_reported some reachedManual reportedManual, if_pos rfl, if_neg (by decide), eq_comm,
      show (Benchmark.manualBarrierWithWork).quota = (Benchmark.stdBarrierWithWork).quota from rfl,
      repeated_eq_iff, quota_mul_eq_zero_iff]

/-- Two iterations of two threads: the main thread starts them, one goes through its items
after the other, and the main thread joins them, twice. -/
def twice : List (Label 2) :=
  let round := .main :: List.replicate 21 (.work 0 0) ++ List.replicate 21 (.work 1 0) ++ [.main]
  round ++ round ++ [.main]

/-- Two threads of `ManualBarrier_WithWork` bring 40 phases to the barrier in two iterations,
and 20 are reported. -/
theorem manualBarrier_reports_half : ∃ c : Config 2, Reachable .manualBarrierWithWork 2 c ∧
    c.main = .reported 20 ∧ c.counters.processed = 40 := by
  have played : (run (step .manualBarrierWithWork 2) (Config.init : Config 2) twice).map
      (fun c => (c.main, c.counters.processed)) = some (.reported 20, 40) := by
    decide +kernel
  obtain ⟨c, reached, final⟩ := Option.map_eq_some_iff.mp played
  obtain ⟨reported, processed⟩ := Prod.mk.inj final
  exact ⟨c, ⟨twice, reached⟩, reported, processed⟩

/-- The same two iterations of `StdBarrier_WithWork` report all 40. -/
theorem items_reported_iff_two : ∃ c : Config 2, Reachable .stdBarrierWithWork 2 c ∧
    c.main = .reported 40 ∧ 40 = c.counters.processed := by
  have played : (run (step .stdBarrierWithWork 2) (Config.init : Config 2) twice).map Config.main =
      some (.reported 40) := by
    decide +kernel
  obtain ⟨c, reached, reported⟩ := Option.map_eq_some_iff.mp played
  exact ⟨c, ⟨twice, reached⟩, reported, ((items_reported_iff 2 2 (by decide)).1 .stdBarrierWithWork c
    40 ⟨twice, reached⟩ reported).mpr (Or.inl rfl)⟩

end ConcurrencyBench.Throughput
