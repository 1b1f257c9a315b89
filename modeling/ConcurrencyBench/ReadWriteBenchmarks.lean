import ConcurrencyBench.ReadWriteAtomic
import ConcurrencyBench.VarianceTracker

/-!
# The reader-writer benchmarks, step by step

The four benchmarks of `bench_rw_shared_mutex.cpp` are one with parameters: the copy they
use, the number of operations of a thread, the percentage of reads, the size of the map and
whether they keep trackers. The map and the keys are made before the loop, and every
iteration goes on with the map that the last has left. In an iteration the main thread sets
the counters to zero, starts the threads one after the other and joins them. A thread
draws for each operation whether it reads or writes, takes the key for its operation
and makes the call, whose statements are those of `ReadWriteData`.

The keys are any of the right number and range, and the draws are any. After the loop the
benchmark reports what the last iteration has left in the counters and trackers.
-/

namespace ConcurrencyBench.ReadWriteBenchmarks

open Interleaving ReadWriteData

variable {n : ℕ}

/-- What distinguishes the benchmarks. -/
structure Workload where
  copy : Copy
  operationsPerThread : ℕ
  readPercentage : ℕ
  initialSize : ℕ
  tracks : Bool

/-- `SharedMutex_ReadHeavy_90_10` -/
def sharedMutexReadHeavy9010 : Workload := ⟨.shared, 10000, 90, 1000, true⟩

/-- `SharedMutex_Balanced_70_30` -/
def sharedMutexBalanced7030 : Workload := ⟨.shared, 10000, 70, 1000, false⟩

/-- `ExclusiveMutex_ReadHeavy_90_10` -/
def exclusiveMutexReadHeavy9010 : Workload := ⟨.exclusive, 10000, 90, 1000, false⟩

/-- `SharedMutex_WriteHeavy_50_50` -/
def sharedMutexWriteHeavy5050 : Workload := ⟨.shared, 5000, 50, 500, false⟩

/-- What `generate_keys(count, max_key)` may return. -/
structure Generated (count maxKey : ℕ) (keys : List ℤ) : Prop where
  length : keys.length = count
  range : ∀ key ∈ keys, 0 ≤ key ∧ key < maxKey

/-- What the threads of an iteration share. -/
structure Shared (n : ℕ) where
  members : Members
  readerTracker : VarianceTracker n
  writerTracker : VarianceTracker n
  totalReads : ℕ
  totalWrites : ℕ

/-- The next statement of a thread, with the operations it has behind it. -/
inductive WorkerAt
  | unborn
  | loop (j : ℕ)
  | draw (j : ℕ)
  | key (j : ℕ) (read : Bool)
  | calling (j : ℕ) (read : Bool) (pc : ReadWriteData.Pc)
  | record (j : ℕ) (read : Bool)
  | count (j : ℕ) (read : Bool)
  | returned
deriving DecidableEq

/-- The call of an operation. -/
def Workload.call (W : Workload) (j : ℕ) (read : Bool) (key : ℤ) : Call :=
  match read with
  -- data.shared_read(key), data.exclusive_read(key)
  | true => Use.call W.copy (.read key)
  -- data.shared_write(key, static_cast<int>(j)), data.exclusive_write(key, static_cast<int>(j))
  | false => Use.call W.copy (.write key j)

/-- Where a thread is after a statement of its call. -/
def Workload.after (W : Workload) (j : ℕ) (read : Bool) (pc : ReadWriteData.Pc) : WorkerAt :=
  if pc = .outside then (if W.tracks then .record j read else .count j read)
  else .calling j read pc

/-- A thread, one statement at a time, told the percentage it may draw. -/
def work (W : Workload) (keys : List ℤ) (percent : Fin 100) (i : Fin n) (s : Shared n) :
    WorkerAt → Option (Shared n × WorkerAt)
  | .unborn | .returned => none
  -- for (size_t j = 0; j < operations_per_thread; ++j)
  | .loop j => some (s, if j < W.operationsPerThread then .draw j else .returned)
  -- if (percent(gen) < read_percentage)
  | .draw j => some (s, .key j (percent.val < W.readPercentage))
  -- int key = keys[j % keys.size()];
  | .key j read => keys[j % keys.length]?.map fun key =>
      (s, .calling j read (.lock (W.call j read key)))
  | .calling j read pc => (exec s.members pc).map fun (members, pc') =>
      ({ s with members }, W.after j read pc')
  -- reader_tracker.record_operation(thread_id);
  | .record j true => some ({ s with readerTracker := s.readerTracker.recordOperation i },
      .count j true)
  -- writer_tracker.record_operation(thread_id);
  | .record j false => some ({ s with writerTracker := s.writerTracker.recordOperation i },
      .count j false)
  -- total_reads.fetch_add(1, std::memory_order_relaxed);
  | .count j true => some ({ s with totalReads := s.totalReads + 1 }, .loop (j + 1))
  -- total_writes.fetch_add(1, std::memory_order_relaxed);
  | .count j false => some ({ s with totalWrites := s.totalWrites + 1 }, .loop (j + 1))

/-- What the benchmark reports, the coefficients squared, and only with trackers. -/
structure Report where
  totalReads : ℕ
  totalWrites : ℕ
  readPercentage : Option ℚ
  readerFairness : Option ℚ
  writerFairness : Option ℚ
  itemsProcessed : ℕ

/-- The report of what the counters and trackers say. -/
def Workload.report (W : Workload) (s : Shared n) : Report where
  totalReads := s.totalReads
  totalWrites := s.totalWrites
  -- (100.0 * total_reads.load()) / (total_reads.load() + total_writes.load())
  readPercentage := Fairness.divide (100 * s.totalReads) (s.totalReads + s.totalWrites)
  readerFairness := if W.tracks then s.readerTracker.coefficientOfVariation else none
  writerFairness := if W.tracks then s.writerTracker.coefficientOfVariation else none
  itemsProcessed := s.totalReads + s.totalWrites

/-- Where the main thread is. -/
inductive MainAt
  | loop
  | start (k : ℕ)
  | join (k : ℕ)
  | reported (report : Report)

/-- The main thread, what is shared and the workers. -/
structure Config (n : ℕ) where
  iterations : ℕ
  main : MainAt
  workers : Fin n → WorkerAt
  shared : Shared n

/-- Before the first iteration. -/
def Config.init (W : Workload) : Config n :=
  ⟨0, .loop, fun _ => .unborn, ⟨.make W.initialSize, .make n, .make n, 0, 0⟩⟩

/-- The main thread of a benchmark that the framework lets iterate this often. -/
def benchmark (W : Workload) (total : ℕ) (c : Config n) : Option (Config n) :=
  match c.main with
  -- for (auto _ : state)
  | .loop =>
    if c.iterations < total then
      some { c with
        main := .start 0
        workers := fun _ => .unborn
        shared := { c.shared with
          -- reader_tracker.reset(); writer_tracker.reset(); total_reads = 0; total_writes = 0;
          readerTracker := c.shared.readerTracker.reset
          writerTracker := c.shared.writerTracker.reset
          totalReads := 0
          totalWrites := 0 } }
    else some { c with main := .reported (W.report c.shared) }
  -- threads.emplace_back([&, thread_id = i] {...});
  | .start k =>
    if inRange : k < n then
      some { c with
        main := .start (k + 1)
        workers := Function.update c.workers ⟨k, inRange⟩ (.loop 0) }
    else some { c with main := .join 0 }
  -- for (auto& t : threads) t.join();
  | .join k =>
    if inRange : k < n then
      if c.workers ⟨k, inRange⟩ = .returned then some { c with main := .join (k + 1) } else none
    else some { c with main := .loop, iterations := c.iterations + 1 }
  | .reported _ => none

/-- A schedule lets the main thread go on, or a thread, with the percentage it draws if it
draws one. -/
inductive Label (n : ℕ)
  | main
  | work (i : Fin n) (percent : Fin 100)

/-- One step of a benchmark. -/
def step (W : Workload) (keys : List ℤ) (total : ℕ) (c : Config n) : Label n → Option (Config n)
  | .main => benchmark W total c
  | .work i percent => (work W keys percent i c.shared (c.workers i)).map fun (shared, worker) =>
      { c with shared, workers := Function.update c.workers i worker }

/-- Every state some interleaving leads to. -/
def Reachable (W : Workload) (keys : List ℤ) (total : ℕ) (c : Config n) : Prop :=
  Reaches (step W keys total) (Config.init W) c

/-- What a thread holds of the mutex of a copy. -/
def WorkerAt.holds (copy : Copy) : WorkerAt → Option Hold
  | .calling _ _ pc => pc.holds copy
  | _ => none

/-- A value that a key may have: the first one, or the number of an operation that writes it. -/
def Written (W : Workload) (keys : List ℤ) (key value : ℤ) : Prop :=
  value = key * 2 ∨ ∃ j < W.operationsPerThread, keys[j % keys.length]? = some key ∧ value = j

/-- What the maps hold: the copy used has the keys it had, with values written, and the
other is as it was. -/
structure Stored (W : Workload) (keys : List ℤ) (data : Copy → Data) : Prop where
  keySet : (data W.copy).keys = (initialData W.initialSize).keys
  values : ∀ key value, (data W.copy).lookup key = some value → Written W keys key value
  other : ∀ copy, copy ≠ W.copy → data copy = initialData W.initialSize

/-- Where a call is, and what it returns. -/
inductive Lawful (W : Workload) (keys : List ℤ) (j : ℕ) (read : Bool) (key : ℤ) :
    ReadWriteData.Pc → Prop
  | lock : Lawful W keys j read key (.lock (W.call j read key))
  | first : Lawful W keys j read key (.first (W.call j read key))
  | second (reads : read = true) : Lawful W keys j read key (.second (W.call j read key) key)
  | assign (writes : read = false) : Lawful W keys j read key (.assign (W.call j read key) key j)
  | unlock (result : Option ℤ)
      (right : read = true → ∃ value, result = some value ∧ Written W keys key value) :
      Lawful W keys j read key (.unlock (W.call j read key) result)
  | answer (result : Option ℤ)
      (right : read = true → ∃ value, result = some value ∧ Written W keys key value) :
      Lawful W keys j read key (.answer (W.call j read key) result)

/-- Where a thread is. -/
def WorkerAt.Lawful (W : Workload) (keys : List ℤ) : WorkerAt → Prop
  | .loop j => j ≤ W.operationsPerThread
  | .draw j | .key j _ | .record j _ | .count j _ => j < W.operationsPerThread
  | .calling j read pc => j < W.operationsPerThread ∧
      ∃ key, keys[j % keys.length]? = some key ∧ ReadWriteBenchmarks.Lawful W keys j read key pc
  | .unborn | .returned => True

section Maps

variable {W : Workload} {keys : List ℤ} {data : Copy → Data} {key : ℤ}

/-- The initial map has the keys below its size, each with its double. -/
theorem lookup_initialData (size : ℕ) (key : ℤ) :
    (initialData size).lookup key = if 0 ≤ key ∧ key < size then some (key * 2) else none := by
  induction size with
  | zero =>
    have none : ¬ (0 ≤ key ∧ key < ((0 : ℕ) : ℤ)) := by omega
    rw [if_neg none]
    exact Finmap.lookup_empty key
  | succ size inductionHypothesis =>
    have last : initialData (size + 1) =
        (initialData size).insert (size : ℤ) ((size * 2 : ℕ) : ℤ) := by
      simp [initialData, List.range_succ]
    rw [last]
    by_cases mine : key = size
    · subst mine
      rw [Finmap.lookup_insert, if_pos (by omega)]
      simp
    · rw [Finmap.lookup_insert_of_ne _ mine, inductionHypothesis]
      congr 1
      exact propext (by omega)

/-- The initial keys are the numbers below the size. -/
theorem mem_initialData {size : ℕ} (lower : 0 ≤ key) (upper : key < size) :
    key ∈ initialData size := by
  rw [Finmap.mem_iff]
  exact ⟨key * 2, by rw [lookup_initialData, if_pos ⟨lower, upper⟩]⟩

/-- At first each key has its initial value. -/
theorem stored_init (W : Workload) (keys : List ℤ) :
    Stored W keys (Members.make W.initialSize).data where
  keySet := rfl
  values key value found := by
    simp only [Members.make, lookup_initialData, Option.ite_none_right_eq_some,
      Option.some.injEq] at found
    exact Or.inl found.2.symm
  other _ _ := rfl

/-- A key drawn is one of the map's. -/
theorem Stored.mem (stored : Stored W keys data)
    (generated : Generated W.operationsPerThread W.initialSize keys) {j : ℕ}
    (drawn : keys[j % keys.length]? = some key) : key ∈ data W.copy := by
  obtain ⟨lower, upper⟩ := generated.range key (List.mem_of_getElem? drawn)
  rw [← Finmap.mem_keys, stored.keySet, Finmap.mem_keys]
  exact mem_initialData lower upper

/-- Looking for an element that is there changes nothing. -/
theorem index_of_mem (found : key ∈ data W.copy) :
    Function.update data W.copy (index (data W.copy) key) = data := by
  rw [index, if_pos found, Function.update_eq_self]

/-- Assigning what an operation writes. -/
theorem Stored.assign (stored : Stored W keys data) {j : ℕ} (few : j < W.operationsPerThread)
    (drawn : keys[j % keys.length]? = some key) (found : key ∈ data W.copy) :
    Stored W keys (Function.update data W.copy ((data W.copy).insert key (j : ℤ))) := by
  constructor
  · rw [Function.update_self, ← stored.keySet]
    ext other
    rw [Finmap.mem_keys, Finmap.mem_keys, Finmap.mem_insert, or_iff_right_of_imp]
    rintro rfl
    exact found
  · intro other value
    rw [Function.update_self]
    by_cases mine : other = key
    · subst mine
      rw [Finmap.lookup_insert]
      rintro same
      exact Or.inr ⟨j, few, drawn, (Option.some.inj same).symm⟩
    · rw [Finmap.lookup_insert_of_ne _ mine]
      exact stored.values other value
  · intro copy elsewhere
    rw [Function.update_of_ne elsewhere]
    exact stored.other copy elsewhere

/-- All calls of a benchmark are on its copy. -/
theorem call_copy (W : Workload) (j : ℕ) (read : Bool) (key : ℤ) :
    (W.call j read key).copy = W.copy := by
  cases read <;> cases copy : W.copy <;> simp [Workload.call, copy, Use.call, Call.copy]

/-- A call reads its key or writes the number of the operation to it. -/
theorem call_operation (W : Workload) (j : ℕ) (read : Bool) (key : ℤ) :
    (W.call j read key).operation = if read then .read key else .write key j := by
  cases read <;> cases copy : W.copy <;> simp [Workload.call, copy, Use.call, Call.operation]

/-- A statement of a call keeps what the maps hold, and the call where it belongs. -/
theorem exec_lawful {j : ℕ} {read : Bool} {s s' : Members} {pc pc' : ReadWriteData.Pc}
    (generated : Generated W.operationsPerThread W.initialSize keys)
    (few : j < W.operationsPerThread) (drawn : keys[j % keys.length]? = some key)
    (lawful : Lawful W keys j read key pc) (stored : Stored W keys s.data)
    (moved : exec s pc = some (s', pc')) :
    Stored W keys s'.data ∧ (pc' = .outside ∨ Lawful W keys j read key pc') := by
  have found := stored.mem generated drawn
  cases lawful with
  | lock =>
    obtain ⟨mtx, _, same⟩ := Option.map_eq_some_iff.mp moved
    obtain ⟨rfl, rfl⟩ := Prod.mk.inj same
    exact ⟨stored, Or.inr .first⟩
  | first =>
    simp only [exec, call_operation, call_copy] at moved
    cases read with
    | true =>
      simp only [if_true, found, Option.some.injEq, Prod.mk.injEq] at moved
      obtain ⟨rfl, rfl⟩ := moved
      exact ⟨stored, Or.inr (.second rfl)⟩
    | false =>
      simp only [Bool.false_eq_true, if_false, index_of_mem found, Option.some.injEq,
        Prod.mk.injEq] at moved
      obtain ⟨rfl, rfl⟩ := moved
      exact ⟨stored, Or.inr (.assign rfl)⟩
  | second reads =>
    simp only [exec, call_copy] at moved
    obtain ⟨value, held, same⟩ := Option.map_eq_some_iff.mp moved
    obtain ⟨rfl, rfl⟩ := Prod.mk.inj same
    exact ⟨stored, Or.inr (.unlock _ fun _ => ⟨value, rfl, stored.values key value held⟩)⟩
  | assign writes =>
    simp only [exec, call_copy, Option.some.injEq, Prod.mk.injEq] at moved
    obtain ⟨rfl, rfl⟩ := moved
    refine ⟨stored.assign few drawn found, Or.inr (.unlock none fun reads => ?_)⟩
    simp [writes] at reads
  | unlock result right =>
    obtain ⟨rfl, rfl⟩ := Prod.mk.inj (Option.some.inj moved)
    exact ⟨stored, Or.inr (.answer result right)⟩
  | answer result right =>
    obtain ⟨rfl, rfl⟩ := Prod.mk.inj (Option.some.inj moved)
    exact ⟨stored, Or.inl rfl⟩

end Maps

/-- The operations of a thread that the totals count. -/
def WorkerAt.counted (operations : ℕ) : WorkerAt → ℕ
  | .unborn => 0
  | .loop j | .draw j | .key j _ | .calling j _ _ | .record j _ | .count j _ => j
  | .returned => operations

/-- The operations of a thread that the trackers have recorded. -/
def WorkerAt.recorded (operations : ℕ) : WorkerAt → ℕ
  | .unborn => 0
  | .loop j | .draw j | .key j _ | .calling j _ _ | .record j _ => j
  | .count j _ => j + 1
  | .returned => operations

/-- Recorded as a read, or as a write, and not counted yet. -/
def WorkerAt.uncounted (kind : Bool) : WorkerAt → ℕ
  | .count _ read => (read == kind).toNat
  | _ => 0

/-- What a statement of a thread does. -/
structure Effect (W : Workload) (keys : List ℤ) (i : Fin n) (s : Shared n) (w : WorkerAt)
    (s' : Shared n) (w' : WorkerAt) : Prop where
  holds : ∀ copy, HoldMove (WorkerAt.holds copy) (s.members.mtx copy) w (s'.members.mtx copy) w'
  stored : Stored W keys s'.members.data
  lawful : w'.Lawful W keys
  running : w ≠ .unborn ∧ w ≠ .returned ∧ w' ≠ .unborn
  total : s'.totalReads + s'.totalWrites + w.counted W.operationsPerThread =
    s.totalReads + s.totalWrites + w'.counted W.operationsPerThread
  recorded : W.tracks = true →
    s'.readerTracker.threadCounts i + s'.writerTracker.threadCounts i +
      w.recorded W.operationsPerThread =
    s.readerTracker.threadCounts i + s.writerTracker.threadCounts i +
      w'.recorded W.operationsPerThread
  others : ∀ k, k ≠ i → s'.readerTracker.threadCounts k = s.readerTracker.threadCounts k ∧
    s'.writerTracker.threadCounts k = s.writerTracker.threadCounts k
  reads : W.tracks = true →
    ∑ k, s'.readerTracker.threadCounts k + s.totalReads + w.uncounted true =
      ∑ k, s.readerTracker.threadCounts k + s'.totalReads + w'.uncounted true
  writes : W.tracks = true →
    ∑ k, s'.writerTracker.threadCounts k + s.totalWrites + w.uncounted false =
      ∑ k, s.writerTracker.threadCounts k + s'.totalWrites + w'.uncounted false

section OneMove

variable {W : Workload} {keys : List ℤ} {i : Fin n} {s s' : Shared n} {w w' : WorkerAt}

/-- One operation recorded is one in the sum of all counts. -/
theorem sum_recordOperation (tracker : VarianceTracker n) (i : Fin n) :
    ∑ k, (tracker.recordOperation i).threadCounts k = ∑ k, tracker.threadCounts k + 1 := by
  have exchanged := tally_update (fun _ k => k) tracker.threadCounts i (tracker.threadCounts i + 1)
  simp only [tally] at exchanged
  rw [VarianceTracker.recordOperation_threadCounts]
  omega

/-- A worker goes on with its books when its call has returned, and with the call until then. -/
theorem after_eq (W : Workload) (j : ℕ) (read : Bool) (pc : ReadWriteData.Pc) :
    (pc = .outside ∧ W.after j read pc = if W.tracks then .record j read else .count j read) ∨
      (pc ≠ .outside ∧ W.after j read pc = .calling j read pc) := by
  by_cases outside : pc = .outside
  · exact Or.inl ⟨outside, if_pos outside⟩
  · exact Or.inr ⟨outside, if_neg outside⟩

/-- Keeping books changes no lock. -/
theorem holds_after (W : Workload) (j : ℕ) (read : Bool) (pc : ReadWriteData.Pc) (copy : Copy) :
    (W.after j read pc).holds copy = pc.holds copy := by
  rcases after_eq W j read pc with ⟨outside, same⟩ | ⟨_, same⟩ <;> rw [same]
  · rw [outside]
    split <;> rfl
  · rfl

/-- A statement that is none of a call's. -/
theorem Effect.own (s : Shared n) (stored : Stored W keys s.members.data)
    (holdsNothing : ∀ copy, w.holds copy = none ∧ w'.holds copy = none)
    (lawful : w'.Lawful W keys) (running : w ≠ .unborn ∧ w ≠ .returned ∧ w' ≠ .unborn)
    (counted : w'.counted W.operationsPerThread = w.counted W.operationsPerThread)
    (recorded : w'.recorded W.operationsPerThread = w.recorded W.operationsPerThread)
    (uncounted : ∀ kind, w'.uncounted kind = 0 ∧ w.uncounted kind = 0) :
    Effect W keys i s w s w' where
  holds copy := .kept w' ((holdsNothing copy).2.trans (holdsNothing copy).1.symm)
  stored := stored
  lawful := lawful
  running := running
  total := by rw [counted]
  recorded _ := by rw [recorded]
  others _ _ := ⟨rfl, rfl⟩
  reads _ := by rw [(uncounted true).1, (uncounted true).2]
  writes _ := by rw [(uncounted false).1, (uncounted false).2]

/-- A statement of a call. -/
theorem calling_effect (generated : Generated W.operationsPerThread W.initialSize keys)
    {j : ℕ} {read : Bool} {pc pc' : ReadWriteData.Pc} {members : Members}
    (stored : Stored W keys s.members.data) (lawful : (WorkerAt.calling j read pc).Lawful W keys)
    (moved : exec s.members pc = some (members, pc')) :
    Effect W keys i s (.calling j read pc) { s with members } (W.after j read pc') := by
  obtain ⟨few, key, drawn, place⟩ := lawful
  obtain ⟨stored', place'⟩ := exec_lawful generated few drawn place stored moved
  have holds : ∀ copy, HoldMove (WorkerAt.holds copy) (s.members.mtx copy) (.calling j read pc)
      (members.mtx copy) (W.after j read pc') := fun copy =>
    ((exec_effect moved).holds copy).congr rfl (holds_after W j read pc' copy)
  rcases after_eq W j read pc' with ⟨outside, same⟩ | ⟨inside, same⟩ <;> rw [same] at holds ⊢
  · cases tracks : W.tracks with
    | true =>
      simp only [tracks, if_true] at holds ⊢
      exact ⟨holds, stored', few, by simp, rfl, fun _ => rfl, fun _ _ => ⟨rfl, rfl⟩, fun _ => rfl,
        fun _ => rfl⟩
    | false =>
      simp only [tracks, Bool.false_eq_true, if_false] at holds ⊢
      exact ⟨holds, stored', few, by simp, rfl, by simp [tracks], fun _ _ => ⟨rfl, rfl⟩,
        by simp [tracks], by simp [tracks]⟩
  · exact ⟨holds, stored', ⟨few, key, drawn, place'.resolve_left inside⟩, by simp, rfl,
      fun _ => rfl, fun _ _ => ⟨rfl, rfl⟩, fun _ => rfl, fun _ => rfl⟩

/-- The tracker of an operation's kind records it. -/
theorem record_effect {j : ℕ} {read : Bool} {percent : Fin 100}
    (stored : Stored W keys s.members.data) (few : j < W.operationsPerThread)
    (moved : work W keys percent i s (.record j read) = some (s', w')) :
    Effect W keys i s (.record j read) s' w' := by
  cases read <;> obtain ⟨rfl, rfl⟩ := Prod.mk.inj (Option.some.inj moved)
  · refine ⟨fun copy => .kept _ rfl, stored, few, by simp, rfl, fun _ => ?_, fun k other => ?_,
      fun _ => rfl, fun _ => ?_⟩
    · simp [WorkerAt.recorded]
      omega
    · simp [other]
    · simp only [sum_recordOperation, WorkerAt.uncounted, beq_self_eq_true, Bool.toNat_true]
      omega
  · refine ⟨fun copy => .kept _ rfl, stored, few, by simp, rfl, fun _ => ?_, fun k other => ?_,
      fun _ => ?_, fun _ => rfl⟩
    · simp [WorkerAt.recorded]
      omega
    · simp [other]
    · simp only [sum_recordOperation, WorkerAt.uncounted, beq_self_eq_true, Bool.toNat_true]
      omega

/-- The total of an operation's kind counts it. -/
theorem count_effect {j : ℕ} {read : Bool} {percent : Fin 100}
    (stored : Stored W keys s.members.data) (few : j < W.operationsPerThread)
    (moved : work W keys percent i s (.count j read) = some (s', w')) :
    Effect W keys i s (.count j read) s' w' := by
  cases read <;> obtain ⟨rfl, rfl⟩ := Prod.mk.inj (Option.some.inj moved)
  · refine ⟨fun copy => .kept _ rfl, stored, few, by simp, ?_, fun _ => ?_, fun _ _ => ⟨rfl, rfl⟩,
      fun _ => ?_, fun _ => ?_⟩ <;>
      simp only [WorkerAt.counted, WorkerAt.recorded, WorkerAt.uncounted, Bool.false_beq,
        Bool.not_true, Bool.not_false, Bool.toNat_false, Bool.toNat_true] <;> omega
  · refine ⟨fun copy => .kept _ rfl, stored, few, by simp, ?_, fun _ => ?_, fun _ _ => ⟨rfl, rfl⟩,
      fun _ => ?_, fun _ => ?_⟩ <;>
      simp only [WorkerAt.counted, WorkerAt.recorded, WorkerAt.uncounted, Bool.true_beq,
        Bool.toNat_false, Bool.toNat_true] <;> omega

/-- Every statement of a worker has its effect. -/
theorem work_effect (generated : Generated W.operationsPerThread W.initialSize keys)
    {percent : Fin 100} (stored : Stored W keys s.members.data) (lawful : w.Lawful W keys)
    (moved : work W keys percent i s w = some (s', w')) : Effect W keys i s w s' w' := by
  cases w with
  | unborn | returned => simp [work] at moved
  | loop j =>
    obtain ⟨rfl, rfl⟩ := Prod.mk.inj (Option.some.inj moved)
    by_cases more : j < W.operationsPerThread
    · rw [if_pos more]
      exact .own s stored (fun _ => ⟨rfl, rfl⟩) more (by simp) rfl rfl fun _ => ⟨rfl, rfl⟩
    · have all : j = W.operationsPerThread := le_antisymm lawful (not_lt.mp more)
      rw [if_neg more]
      exact .own s stored (fun _ => ⟨rfl, rfl⟩) trivial (by simp) all.symm all.symm
        fun _ => ⟨rfl, rfl⟩
  | draw j =>
    obtain ⟨rfl, rfl⟩ := Prod.mk.inj (Option.some.inj moved)
    exact .own s stored (fun _ => ⟨rfl, rfl⟩) lawful (by simp) rfl rfl fun _ => ⟨rfl, rfl⟩
  | key j read =>
    obtain ⟨key, drawn, same⟩ := Option.map_eq_some_iff.mp moved
    obtain ⟨rfl, rfl⟩ := Prod.mk.inj same
    exact .own s stored (fun _ => ⟨rfl, rfl⟩) ⟨lawful, key, drawn, .lock⟩ (by simp) rfl rfl
      fun _ => ⟨rfl, rfl⟩
  | calling j read pc =>
    obtain ⟨⟨members, pc'⟩, executed, same⟩ := Option.map_eq_some_iff.mp moved
    obtain ⟨rfl, rfl⟩ := Prod.mk.inj same
    exact calling_effect generated stored lawful executed
  | record j read => exact record_effect stored lawful moved
  | count j read => exact count_effect stored lawful moved

end OneMove

/-- What the threads, the maps, the totals and the trackers keep. -/
structure Sound (W : Workload) (keys : List ℤ) (s : Shared n) (workers : Fin n → WorkerAt) :
    Prop where
  governed : ∀ copy, Governed (WorkerAt.holds copy) (s.members.mtx copy) workers
  stored : Stored W keys s.members.data
  lawful : ∀ i, (workers i).Lawful W keys
  total : s.totalReads + s.totalWrites =
    tally (fun _ => WorkerAt.counted W.operationsPerThread) workers
  recorded : W.tracks = true → ∀ i,
    s.readerTracker.threadCounts i + s.writerTracker.threadCounts i =
      (workers i).recorded W.operationsPerThread
  reads : W.tracks = true → ∑ k, s.readerTracker.threadCounts k =
    s.totalReads + tally (fun _ => WorkerAt.uncounted true) workers
  writes : W.tracks = true → ∑ k, s.writerTracker.threadCounts k =
    s.totalWrites + tally (fun _ => WorkerAt.uncounted false) workers

/-- What the main thread knows of the threads, before, in and after an iteration. -/
def Knows (W : Workload) (total : ℕ) (c : Config n) : Prop :=
  match c.main with
  | .loop => c.iterations ≤ total ∧
      ((c.iterations = 0 ∧ ∀ i, c.workers i = .unborn) ∨ ∀ i, c.workers i = .returned)
  | .start k => c.iterations < total ∧ (∀ i : Fin n, k ≤ i.val → c.workers i = .unborn) ∧
      ∀ i : Fin n, i.val < k → c.workers i ≠ .unborn
  | .join k => c.iterations < total ∧ (∀ i : Fin n, i.val < k → c.workers i = .returned) ∧
      ∀ i, c.workers i ≠ .unborn
  | .reported report => report = W.report c.shared ∧
      ((total = 0 ∧ ∀ i, c.workers i = .unborn) ∨ ∀ i, c.workers i = .returned)

section Run

variable {W : Workload} {keys : List ℤ} {total : ℕ} {c c' : Config n} {i : Fin n}

/-- Threads that have not started, with all counts zero. -/
theorem sound_fresh {s : Shared n} (stored : Stored W keys s.members.data)
    (free : ∀ copy, s.members.mtx copy = .free) (readers : ∀ k, s.readerTracker.threadCounts k = 0)
    (writers : ∀ k, s.writerTracker.threadCounts k = 0) (none : s.totalReads = 0 ∧ s.totalWrites = 0) :
    Sound W keys s fun _ => .unborn where
  governed copy := by
    rw [free copy]
    exact governed_free fun _ => rfl
  stored := stored
  lawful _ := trivial
  total := by simp [none, tally, WorkerAt.counted]
  recorded _ i := by simp [readers, writers, WorkerAt.recorded]
  reads _ := by simp [readers, none, tally, WorkerAt.uncounted]
  writes _ := by simp [writers, none, tally, WorkerAt.uncounted]

/-- A statement of a worker keeps the iteration sound. -/
theorem Sound.work {s s' : Shared n} {workers : Fin n → WorkerAt} {w' : WorkerAt}
    (sound : Sound W keys s workers) (effect : Effect W keys i s (workers i) s' w') :
    Sound W keys s' (Function.update workers i w') := by
  have counted := tally_update (fun _ => WorkerAt.counted W.operationsPerThread) workers i w'
  have readsAhead := tally_update (fun _ => WorkerAt.uncounted true) workers i w'
  have writesAhead := tally_update (fun _ => WorkerAt.uncounted false) workers i w'
  constructor
  · exact fun copy => (sound.governed copy).move (effect.holds copy)
  · exact effect.stored
  · rw [Function.forall_update_iff workers fun _ w => w.Lawful W keys]
    exact ⟨effect.lawful, fun j _ => sound.lawful j⟩
  · have before := sound.total
    have change := effect.total
    omega
  · intro tracks
    rw [Function.forall_update_iff workers fun j w => s'.readerTracker.threadCounts j +
      s'.writerTracker.threadCounts j = w.recorded W.operationsPerThread]
    refine ⟨?_, fun j other => ?_⟩
    · have before := sound.recorded tracks i
      have change := effect.recorded tracks
      omega
    · rw [(effect.others j other).1, (effect.others j other).2]
      exact sound.recorded tracks j
  · intro tracks
    have before := sound.reads tracks
    have change := effect.reads tracks
    omega
  · intro tracks
    have before := sound.writes tracks
    have change := effect.writes tracks
    omega

/-- A thread is started. -/
theorem Sound.start {s : Shared n} {workers : Fin n → WorkerAt} (sound : Sound W keys s workers)
    (unborn : workers i = .unborn) : Sound W keys s (Function.update workers i (.loop 0)) := by
  have counted := tally_update (fun _ => WorkerAt.counted W.operationsPerThread) workers i (.loop 0)
  have readsAhead := tally_update (fun _ => WorkerAt.uncounted true) workers i (.loop 0)
  have writesAhead := tally_update (fun _ => WorkerAt.uncounted false) workers i (.loop 0)
  simp only [unborn, WorkerAt.counted, WorkerAt.uncounted, Nat.add_zero]
    at counted readsAhead writesAhead
  constructor
  · exact fun copy => (sound.governed copy).move (.kept _ (by rw [unborn]; rfl))
  · exact sound.stored
  · rw [Function.forall_update_iff workers fun _ w => w.Lawful W keys]
    exact ⟨Nat.zero_le _, fun j _ => sound.lawful j⟩
  · rw [counted]
    exact sound.total
  · intro tracks
    rw [Function.forall_update_iff workers fun j w => s.readerTracker.threadCounts j +
      s.writerTracker.threadCounts j = w.recorded W.operationsPerThread]
    have mine := sound.recorded tracks i
    rw [unborn] at mine
    exact ⟨mine, fun j _ => sound.recorded tracks j⟩
  · intro tracks
    rw [readsAhead]
    exact sound.reads tracks
  · intro tracks
    rw [writesAhead]
    exact sound.writes tracks

/-- Where no thread has a mutex, they are free. -/
theorem Sound.free {s : Shared n} {workers : Fin n → WorkerAt} (sound : Sound W keys s workers)
    (nobody : ∀ i copy, (workers i).holds copy = none) (copy : Copy) :
    s.members.mtx copy = .free :=
  (sound.governed copy).free_of_nobody fun i => nobody i copy

/-- No thread is in an iteration, before the first and between two. -/
theorem idle_holds {workers : Fin n → WorkerAt}
    (idle : (∀ i, workers i = .unborn) ∨ ∀ i, workers i = .returned) (i : Fin n) (copy : Copy) :
    (workers i).holds copy = none := by
  rcases idle with unborn | returned
  · rw [unborn i]; rfl
  · rw [returned i]; rfl

/-- The thread started is one that has been. -/
theorem born_succ {k : ℕ} {workers : Fin n → WorkerAt}
    (born : ∀ i : Fin n, i.val < k → workers i ≠ .unborn) (inRange : k < n) (i : Fin n)
    (behind : i.val < k + 1) : Function.update workers ⟨k, inRange⟩ (.loop 0) i ≠ .unborn := by
  by_cases last : i = ⟨k, inRange⟩
  · simp [last]
  · have earlier : i.val ≠ k := fun same => last (Fin.ext same)
    rw [Function.update_of_ne last]
    exact born i (by omega)

/-- What the main thread does keeps the iteration sound. -/
theorem benchmark_kept (sound : Sound W keys c.shared c.workers) (knows : Knows W total c)
    (taken : benchmark W total c = some c') :
    Sound W keys c'.shared c'.workers ∧ Knows W total c' := by
  cases standing : c.main with
  | loop =>
    simp only [Knows, standing] at knows
    obtain ⟨bound, idle⟩ := knows
    have quiet := idle_holds (idle.imp And.right id)
    simp only [benchmark, standing] at taken
    split at taken
    next more =>
      obtain rfl := Option.some.inj taken
      exact ⟨sound_fresh sound.stored (sound.free quiet) (fun _ => rfl) (fun _ => rfl) ⟨rfl, rfl⟩,
        more, fun _ _ => rfl, fun j behind => absurd behind (Nat.not_lt_zero _)⟩
    next done =>
      obtain rfl := Option.some.inj taken
      refine ⟨sound, rfl, ?_⟩
      rcases idle with ⟨first, unborn⟩ | returned
      · exact Or.inl ⟨by omega, unborn⟩
      · exact Or.inr returned
  | start k =>
    simp only [Knows, standing] at knows
    obtain ⟨more, unborn, born⟩ := knows
    simp only [benchmark, standing] at taken
    split at taken
    next inRange =>
      obtain rfl := Option.some.inj taken
      exact ⟨sound.start (unborn ⟨k, inRange⟩ le_rfl), more, unborn_succ unborn inRange _,
        born_succ born inRange⟩
    next outOfRange =>
      obtain rfl := Option.some.inj taken
      exact ⟨sound, more, fun j behind => absurd behind (Nat.not_lt_zero _),
        fun j => born j (j.isLt.trans_le (not_lt.mp outOfRange))⟩
  | join k =>
    simp only [Knows, standing] at knows
    obtain ⟨more, returned, born⟩ := knows
    simp only [benchmark, standing] at taken
    split at taken
    next inRange =>
      simp only [Option.ite_none_right_eq_some, Option.some.injEq] at taken
      obtain ⟨back, rfl⟩ := taken
      exact ⟨sound, more, joined_succ returned inRange back, born⟩
    next outOfRange =>
      obtain rfl := Option.some.inj taken
      exact ⟨sound, Nat.succ_le_of_lt more, Or.inr (joined_all returned outOfRange)⟩
  | reported report => simp [benchmark, standing] at taken

/-- What is known of threads that stand still is not lost when another moves. -/
theorem knows_work {shared : Shared n} {w' : WorkerAt} (knows : Knows W total c)
    (running : c.workers i ≠ .unborn ∧ c.workers i ≠ .returned ∧ w' ≠ .unborn) :
    Knows W total { c with shared, workers := Function.update c.workers i w' } := by
  cases standing : c.main with
  | loop =>
    simp only [Knows, standing] at knows
    rcases knows.2 with ⟨_, unborn⟩ | returned
    · exact absurd (unborn i) running.1
    · exact absurd (returned i) running.2.1
  | start k =>
    simp only [Knows, standing] at knows ⊢
    refine ⟨knows.1, known_update knows.2.1 running.1 w', ?_⟩
    rw [Function.forall_update_iff c.workers fun j w => j.val < k → w ≠ .unborn]
    exact ⟨fun _ => running.2.2, fun j _ => knows.2.2 j⟩
  | join k =>
    simp only [Knows, standing] at knows ⊢
    refine ⟨knows.1, known_update knows.2.1 running.2.1 w', ?_⟩
    rw [Function.forall_update_iff c.workers fun _ w => w ≠ .unborn]
    exact ⟨running.2.2, fun j _ => knows.2.2 j⟩
  | reported report =>
    simp only [Knows, standing] at knows
    rcases knows.2 with ⟨_, unborn⟩ | returned
    · exact absurd (unborn i) running.1
    · exact absurd (returned i) running.2.1

/-- Every step keeps the iteration sound. -/
theorem step_kept (generated : Generated W.operationsPerThread W.initialSize keys) :
    Preserved (step W keys total) fun c : Config n =>
      Sound W keys c.shared c.workers ∧ Knows W total c := by
  rintro c label c' ⟨sound, knows⟩ taken
  cases label with
  | main => exact benchmark_kept sound knows taken
  | work i percent =>
    obtain ⟨⟨shared, w'⟩, moved, rfl⟩ := Option.map_eq_some_iff.mp taken
    have effect := work_effect generated sound.stored (sound.lawful i) moved
    exact ⟨sound.work effect, knows_work knows effect.running⟩

/-- Every reachable state is sound. -/
theorem reachable_sound (generated : Generated W.operationsPerThread W.initialSize keys)
    (reached : Reachable W keys total c) :
    Sound W keys c.shared c.workers ∧ Knows W total c := by
  have start : Sound W keys (Config.init W : Config n).shared (Config.init W : Config n).workers :=
    sound_fresh (stored_init W keys) (fun _ => rfl) (fun _ => rfl) (fun _ => rfl) ⟨rfl, rfl⟩
  exact (step_kept generated).reaches ⟨start, Nat.zero_le _, Or.inl ⟨rfl, fun _ => rfl⟩⟩ reached

/-- No read of a benchmark misses, and none sees a value that nobody wrote. For every number
of threads, all keys of the range, all draws and every interleaving of any number of
iterations: a read about to return has the value that its key began with, or the number of an
operation that writes its key, and never -1; and the copy used has the keys it began with,
while the other copy is untouched. -/
theorem reads_return_written (W : Workload) (keys : List ℤ) (total : ℕ)
    (generated : Generated W.operationsPerThread W.initialSize keys) (c : Config n)
    (reached : Reachable W keys total c) :
    (∀ i j call result, c.workers i = .calling j true (.answer call result) →
      ∃ key value, keys[j % keys.length]? = some key ∧ call = W.call j true key ∧
        result = some value ∧ Written W keys key value ∧ value ≠ -1) ∧
    (c.shared.members.data W.copy).keys = (initialData W.initialSize).keys ∧
    ∀ copy, copy ≠ W.copy → c.shared.members.data copy = initialData W.initialSize := by
  obtain ⟨sound, _⟩ := reachable_sound generated reached
  refine ⟨fun i j call result standing => ?_, sound.stored.keySet, sound.stored.other⟩
  have lawful := sound.lawful i
  rw [standing] at lawful
  obtain ⟨_, key, drawn, place⟩ := lawful
  cases place with
  | answer _ right =>
    obtain ⟨value, rfl, written⟩ := right rfl
    refine ⟨key, value, drawn, rfl, rfl, written, ?_⟩
    have lower := (generated.range key (List.mem_of_getElem? drawn)).1
    rcases written with rfl | ⟨j, _, _, rfl⟩ <;> omega

/-- Two threads of one operation on a map of two keys. -/
def brief : Workload := ⟨.shared, 1, 50, 2, true⟩

/-- The key of the brief benchmark may be generated. -/
theorem generated_brief : Generated brief.operationsPerThread brief.initialSize [1] :=
  ⟨rfl, by simp [brief]⟩

/-- The first thread writes, then the second reads. -/
def turns (first second : Fin n) (read write : Fin 100) : List (Label n) :=
  List.replicate 4 .main ++ List.replicate 11 (.work first write) ++
    List.replicate 7 (.work second read)

/-- The second thread is about to return with what the first has written. -/
theorem reads_return_written_two : ∃ c : Config 2, Reachable brief [1] 1 c ∧
    c.workers 1 = .calling 0 true (.answer (.sharedRead 1) (some 0)) ∧
    ∃ key value, ([1] : List ℤ)[0 % 1]? = some key ∧ .sharedRead 1 = brief.call 0 true key ∧
      some 0 = some value ∧ Written brief [1] key value ∧ value ≠ -1 := by
  have played : (run (step brief [1] 1) (Config.init brief : Config 2) (turns 0 1 0 99)).map
      (fun c => c.workers 1) = some (.calling 0 true (.answer (.sharedRead 1) (some 0))) := by
    decide +kernel
  obtain ⟨c, reached, standing⟩ := Option.map_eq_some_iff.mp played
  have reachable : Reachable brief [1] 1 c := ⟨turns 0 1 0 99, reached⟩
  exact ⟨c, reachable, standing,
    (reads_return_written brief [1] 1 generated_brief c reachable).1 1 0 _ _ standing⟩

/-- What a benchmark reports adds up. For every number of threads, all keys, all draws and every
interleaving: the reads and writes reported are the operations of all threads in one iteration,
and the items processed are as many; with trackers, each thread's reads and writes recorded are
its operations, and all threads' are the totals. -/
theorem report_adds_up (W : Workload) (keys : List ℤ) (total : ℕ) (iterates : 0 < total)
    (generated : Generated W.operationsPerThread W.initialSize keys) (c : Config n)
    (reached : Reachable W keys total c) (report : Report) (reported : c.main = .reported report) :
    report.totalReads + report.totalWrites = n * W.operationsPerThread ∧
    report.itemsProcessed = n * W.operationsPerThread ∧
    (W.tracks = true →
      (∀ i, c.shared.readerTracker.threadCounts i + c.shared.writerTracker.threadCounts i =
        W.operationsPerThread) ∧
      ∑ i, c.shared.readerTracker.threadCounts i = report.totalReads ∧
      ∑ i, c.shared.writerTracker.threadCounts i = report.totalWrites ∧
      report.readerFairness = c.shared.readerTracker.coefficientOfVariation ∧
      report.writerFairness = c.shared.writerTracker.coefficientOfVariation) := by
  obtain ⟨sound, knows⟩ := reachable_sound generated reached
  simp only [Knows, reported] at knows
  obtain ⟨rfl, idle⟩ := knows
  have returned : ∀ i, c.workers i = .returned := by
    rcases idle with ⟨none, _⟩ | returned
    · omega
    · exact returned
  have whole : c.shared.totalReads + c.shared.totalWrites = n * W.operationsPerThread := by
    rw [sound.total]
    simp [tally, returned, WorkerAt.counted]
  refine ⟨whole, whole, fun tracks => ⟨fun i => ?_, ?_, ?_, ?_, ?_⟩⟩
  · rw [sound.recorded tracks i, returned i]
    rfl
  · rw [sound.reads tracks]
    simp [tally, returned, WorkerAt.uncounted, Workload.report]
  · rw [sound.writes tracks]
    simp [tally, returned, WorkerAt.uncounted, Workload.report]
  · simp [Workload.report, tracks]
  · simp [Workload.report, tracks]

/-- What the main thread has reported. -/
def MainAt.report : MainAt → Option Report
  | .reported report => some report
  | _ => none

/-- The report is there once the main thread has made it. -/
theorem report_eq_some_iff (main : MainAt) (report : Report) :
    main.report = some report ↔ main = .reported report := by
  cases main <;> simp [MainAt.report]

/-- Of the two operations one is a read. -/
theorem report_adds_up_two : ∃ (c : Config 2) (report : Report), Reachable brief [1] 1 c ∧
    c.main = .reported report ∧ report.totalReads = 1 ∧ report.totalWrites = 1 ∧
    report.itemsProcessed = 2 ∧ ∑ i, c.shared.readerTracker.threadCounts i = 1 := by
  let schedule : List (Label 2) :=
    turns 0 1 0 99 ++ List.replicate 4 (.work 1 0) ++ List.replicate 4 .main
  have played : (run (step brief [1] 1) (Config.init brief : Config 2) schedule).map
      (fun c => c.main.report.map Report.totalReads) = some (some 1) := by
    decide +kernel
  obtain ⟨c, reached, final⟩ := Option.map_eq_some_iff.mp played
  obtain ⟨report, shown, reads⟩ := Option.map_eq_some_iff.mp final
  have reported := (report_eq_some_iff c.main report).mp shown
  obtain ⟨whole, items, books⟩ := report_adds_up brief [1] 1 (by decide) generated_brief c
    ⟨schedule, reached⟩ report reported
  obtain ⟨_, readers, _⟩ := books rfl
  have two : 2 * brief.operationsPerThread = 2 := rfl
  exact ⟨c, report, ⟨schedule, reached⟩, reported, reads, by omega, items, readers.trans reads⟩

/-- The statements left to a thread that has been started. -/
def WorkerAt.left (operations : ℕ) : WorkerAt → ℕ
  | .unborn | .returned => 0
  | .loop j => 10 * (operations - j) + 1
  | .draw j => 10 * (operations - j - 1) + 10
  | .key j _ => 10 * (operations - j - 1) + 9
  | .calling j _ pc => 10 * (operations - j - 1) + 3 + pc.left
  | .record j _ => 10 * (operations - j - 1) + 3
  | .count j _ => 10 * (operations - j - 1) + 2

/-- The statements of an iteration with so many threads. -/
def cycle (n operations : ℕ) : ℕ := n * (10 * operations + 2) + n + 3

/-- The statements left to the main thread, with those of the threads it has still to start. -/
def MainAt.left (n operations total iterations : ℕ) : MainAt → ℕ
  | .loop => (total - iterations) * cycle n operations + 1
  | .start k => (total - iterations - 1) * cycle n operations + (n - k) * (10 * operations + 2) +
      n + 3
  | .join k => (total - iterations - 1) * cycle n operations + (n - k) + 2
  | .reported _ => 0

/-- The statements left to all threads in all iterations. -/
def left (W : Workload) (total : ℕ) (c : Config n) : ℕ :=
  c.main.left n W.operationsPerThread total c.iterations +
    tally (fun _ => WorkerAt.left W.operationsPerThread) c.workers

/-- Every statement of a worker leaves it fewer. -/
theorem work_left {s s' : Shared n} {w w' : WorkerAt} {percent : Fin 100}
    (lawful : w.Lawful W keys) (moved : work W keys percent i s w = some (s', w')) :
    w'.left W.operationsPerThread < w.left W.operationsPerThread := by
  cases w with
  | unborn | returned => simp [work] at moved
  | loop j =>
    obtain ⟨_, rfl⟩ := Prod.mk.inj (Option.some.inj moved)
    split
    next more => simp only [WorkerAt.left]; omega
    next => simp only [WorkerAt.left]; omega
  | draw j =>
    obtain ⟨_, rfl⟩ := Prod.mk.inj (Option.some.inj moved)
    simp only [WorkerAt.left]
    omega
  | key j read =>
    obtain ⟨key, _, same⟩ := Option.map_eq_some_iff.mp moved
    obtain ⟨_, rfl⟩ := Prod.mk.inj same
    simp only [WorkerAt.left, ReadWriteData.Pc.left]
    omega
  | calling j read pc =>
    obtain ⟨⟨members, pc'⟩, executed, same⟩ := Option.map_eq_some_iff.mp moved
    obtain ⟨_, rfl⟩ := Prod.mk.inj same
    have fewer := exec_left executed
    rcases after_eq W j read pc' with ⟨_, next⟩ | ⟨_, next⟩ <;> rw [next]
    · split <;> simp only [WorkerAt.left] <;> omega
    · simp only [WorkerAt.left]
      omega
  | record j read =>
    cases read <;> obtain ⟨_, rfl⟩ := Prod.mk.inj (Option.some.inj moved) <;>
      simp only [WorkerAt.left] <;> omega
  | count j read =>
    have few : j < W.operationsPerThread := lawful
    cases read <;> obtain ⟨_, rfl⟩ := Prod.mk.inj (Option.some.inj moved) <;>
      simp only [WorkerAt.left] <;> omega

/-- Every statement of the main thread leaves fewer. -/
theorem benchmark_left (knows : Knows W total c) (taken : benchmark W total c = some c') :
    left W total c' < left W total c := by
  cases standing : c.main with
  | loop =>
    simp only [benchmark, standing] at taken
    split at taken
    next more =>
      obtain rfl := Option.some.inj taken
      have again : (total - c.iterations) * cycle n W.operationsPerThread =
          (total - c.iterations - 1) * cycle n W.operationsPerThread +
            cycle n W.operationsPerThread := rounds_left more _
      have none : tally (fun _ => WorkerAt.left W.operationsPerThread)
          (fun _ : Fin n => .unborn) = 0 := by simp [tally, WorkerAt.left]
      have whole : cycle n W.operationsPerThread =
          n * (10 * W.operationsPerThread + 2) + n + 3 := rfl
      simp only [left, standing, MainAt.left, none, Nat.sub_zero]
      omega
    next =>
      obtain rfl := Option.some.inj taken
      simp only [left, standing, MainAt.left]
      omega
  | start k =>
    simp only [Knows, standing] at knows
    simp only [benchmark, standing] at taken
    split at taken
    next inRange =>
      obtain rfl := Option.some.inj taken
      have started := tally_update (fun _ => WorkerAt.left W.operationsPerThread) c.workers
        ⟨k, inRange⟩ (.loop 0)
      have next := rounds_left inRange (10 * W.operationsPerThread + 2)
      simp only [knows.2.1 ⟨k, inRange⟩ le_rfl, WorkerAt.left] at started
      simp only [left, standing, MainAt.left]
      omega
    next =>
      obtain rfl := Option.some.inj taken
      simp only [left, standing, MainAt.left]
      omega
  | join k =>
    simp only [Knows, standing] at knows
    simp only [benchmark, standing] at taken
    split at taken
    next inRange =>
      simp only [Option.ite_none_right_eq_some, Option.some.injEq] at taken
      obtain ⟨_, rfl⟩ := taken
      simp only [left, standing, MainAt.left]
      omega
    next =>
      obtain rfl := Option.some.inj taken
      simp only [left, standing, MainAt.left, ← Nat.sub_sub]
      omega
  | reported report => simp [benchmark, standing] at taken

/-- Every step leaves fewer statements. -/
theorem left_lowers : Lowers (step W keys total)
    (fun c : Config n => Sound W keys c.shared c.workers ∧ Knows W total c) (left W total) := by
  rintro c label c' ⟨sound, knows⟩ taken
  cases label with
  | main => exact benchmark_left knows taken
  | work i percent =>
    obtain ⟨⟨shared, w'⟩, moved, rfl⟩ := Option.map_eq_some_iff.mp taken
    have exchanged := tally_update (fun _ => WorkerAt.left W.operationsPerThread) c.workers i w'
    have fewer := work_left (sound.lawful i) moved
    simp only [left]
    omega

/-- A thread that cannot go on is at one of its ends, or waits for a mutex that somebody has. -/
theorem waits_of_stuck (generated : Generated W.operationsPerThread W.initialSize keys)
    (sound : Sound W keys c.shared c.workers)
    (blocked : work W keys 0 i c.shared (c.workers i) = none) :
    c.workers i = .unborn ∨ c.workers i = .returned ∨
      ∃ j read key, c.workers i = .calling j read (.lock (W.call j read key)) ∧
        c.shared.members.mtx W.copy ≠ .free := by
  have lawful := sound.lawful i
  cases standing : c.workers i with
  | unborn => exact Or.inl rfl
  | returned => exact Or.inr (Or.inl rfl)
  | loop j => simp [standing, work] at blocked
  | draw j => simp [standing, work] at blocked
  | record j read => cases read <;> simp [standing, work] at blocked
  | count j read => cases read <;> simp [standing, work] at blocked
  | key j read =>
    rw [standing] at lawful
    have few : j < W.operationsPerThread := lawful
    have some : 0 < keys.length := by rw [generated.length]; omega
    simp [standing, work, Nat.not_le.mpr (Nat.mod_lt j some)] at blocked
  | calling j read pc =>
    rw [standing] at lawful
    obtain ⟨_, key, drawn, place⟩ := lawful
    have found := sound.stored.mem generated drawn
    simp only [standing, work, Option.map_eq_none_iff] at blocked
    cases place with
    | lock =>
      refine Or.inr (Or.inr ⟨j, read, key, rfl, fun free => ?_⟩)
      obtain ⟨mtx, granted⟩ := SharedMutex.acquire_free (W.call j read key).hold
      simp [exec, call_copy, free, granted] at blocked
    | first => cases read <;> simp [exec, call_operation, call_copy] at blocked
    | second reads =>
      simp only [exec, call_copy, Option.map_eq_none_iff, Finmap.lookup_eq_none] at blocked
      exact absurd found blocked
    | assign | unlock | answer => simp [exec] at blocked

/-- When nothing can go on the benchmark has reported. -/
theorem reported_of_stuck (generated : Generated W.operationsPerThread W.initialSize keys)
    (sound : Sound W keys c.shared c.workers) (knows : Knows W total c)
    (stuck : Stuck (step W keys total) c) : ∃ report, c.main = .reported report := by
  have still : ∀ i, work W keys 0 i c.shared (c.workers i) = none := fun i =>
    Option.map_eq_none_iff.mp (stuck (.work i 0))
  have nobody : ∀ i copy, (c.workers i).holds copy = none := by
    intro i copy
    rcases waits_of_stuck generated sound (still i) with unborn | returned | ⟨j, read, key, waiting, _⟩
    · rw [unborn]; rfl
    · rw [returned]; rfl
    · rw [waiting]; rfl
  have halted := stuck .main
  cases standing : c.main with
  | loop =>
    simp only [step, benchmark, standing] at halted
    split at halted <;> simp at halted
  | start k =>
    simp only [step, benchmark, standing] at halted
    split at halted <;> simp at halted
  | join k =>
    simp only [Knows, standing] at knows
    simp only [step, benchmark, standing] at halted
    split at halted
    next inRange =>
      simp only [ite_eq_right_iff, reduceCtorEq, imp_false] at halted
      rcases waits_of_stuck generated sound (still ⟨k, inRange⟩) with unborn | returned | ⟨_, _, _, _, held⟩
      · exact absurd unborn (knows.2.2 _)
      · exact absurd returned halted
      · exact absurd (sound.free nobody W.copy) held
    next => simp at halted
  | reported report => exact ⟨report, rfl⟩

/-- A benchmark always gets to its report. For every number of threads, all keys and all draws,
whatever has happened so far: unless it has reported, some thread can go on; no interleaving
goes on without end; and from here the report can be reached. -/
theorem benchmark_reports (W : Workload) (keys : List ℤ) (total : ℕ)
    (generated : Generated W.operationsPerThread W.initialSize keys) (c : Config n)
    (reached : Reachable W keys total c) :
    ((∀ report, c.main ≠ .reported report) → ∃ label, step W keys total c label ≠ none) ∧
    (∃ bound, ∀ schedule last, run (step W keys total) c schedule = some last →
      schedule.length ≤ bound) ∧
    ∃ last report, Reaches (step W keys total) c last ∧ last.main = .reported report := by
  have known := reachable_sound generated reached
  refine ⟨fun unreported => ?_, ⟨left W total c, fun schedule last played => ?_⟩, ?_⟩
  · by_contra none
    have stuck : Stuck (step W keys total) c := fun label => by
      by_contra enabled
      exact none ⟨label, enabled⟩
    obtain ⟨report, reported⟩ := reported_of_stuck generated known.1 known.2 stuck
    exact unreported report reported
  · have spent := left_lowers.length_le (step_kept generated) known played
    omega
  · obtain ⟨last, onward, stuck⟩ := left_lowers.exists_stuck (step_kept generated) known
    have final := (step_kept generated).reaches known onward
    obtain ⟨report, reported⟩ := reported_of_stuck generated final.1 final.2 stuck
    exact ⟨last, report, onward, reported⟩

/-- Both threads have been started and one of them is writing. -/
theorem benchmark_reports_two : ∃ c : Config 2, Reachable brief [1] 1 c ∧
    c.workers 0 = .calling 0 false (.assign (.sharedWrite 1 0) 1 0) ∧
    (∃ label, step brief [1] 1 c label ≠ none) ∧
    ∃ last report, Reaches (step brief [1] 1) c last ∧ last.main = .reported report := by
  let part := (turns 0 1 0 99 : List (Label 2)).take 9
  have played : (run (step brief [1] 1) (Config.init brief : Config 2) part).map
      (fun c => (c.workers 0, c.main.report.isNone)) =
      some (.calling 0 false (.assign (.sharedWrite 1 0) 1 0), true) := by
    decide +kernel
  obtain ⟨c, reached, final⟩ := Option.map_eq_some_iff.mp played
  obtain ⟨standing, unreported⟩ := Prod.mk.inj final
  obtain ⟨goes, _, onward⟩ := benchmark_reports brief [1] 1 generated_brief c ⟨_, reached⟩
  refine ⟨c, ⟨_, reached⟩, standing, goes fun report reported => ?_, onward⟩
  simp [reported, MainAt.report] at unreported

end Run

end ConcurrencyBench.ReadWriteBenchmarks
