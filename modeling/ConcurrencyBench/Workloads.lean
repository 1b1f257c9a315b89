import ConcurrencyBench.CheckedArithmetic
import ConcurrencyBench.PCCondVarSession
import Mathlib.Data.Int.Bitwise

/-!
# The arithmetic of the benchmark workloads

The tasks of the thread pool, future and coroutine benchmarks add up squares in an `int`,
and two of them mix the sum up with an exclusive or every thousand steps. The benchmarks
then add the tasks' results up in an `int` of their own. A consumer of `PC_CondVar` adds up
the items it takes.

Every sum and product is one of 32 bits, and one that overflows has no value. The
accumulators of an iteration are listed: the result of each task, and the total. A task that
throws has no accumulator. The numbers of tasks are those between the bounds of the
benchmark's registration; which tasks of `StdAsync_ExceptionHandling` throw is drawn at
random.
-/

namespace ConcurrencyBench.Workloads

open CheckedArithmetic

/-- `result += i * i;` -/
def addSquare (result : ℤ) (i : ℕ) : Option ℤ := do add 32 result (← mul 32 i i)

/-- The body of the loop of `cpu_intensive_task` and of that of `cpu_work`. -/
def mixSquare (result : ℤ) (i : ℕ) : Option ℤ := do
  let result ← addSquare result i
  -- if (i % 1000 == 0) result = result ^ (i >> 4);
  return if i % 1000 = 0 then Int.xor result (i >>> 4 : ℕ) else result

/-- `cpu_intensive_task` of the thread pool benchmarks -/
def cpuIntensiveTask (n : ℤ) : Option ℤ := countUp mixSquare 0 n.toNat

/-- `cpu_work` of the future benchmarks -/
def cpuWork (iterations : ℤ) : Option ℤ := countUp mixSquare 0 iterations.toNat

/-- `risky_work`. It throws before it computes anything. -/
def riskyWork (value : ℤ) (shouldThrow : Bool) : Except String (Option ℤ) :=
  if shouldThrow && value.tmod 10 = 0 then .error "Simulated error"
  else .ok do cpuWork (← mul 32 value 100)

/-- `mixed_task`, without the wait that follows the work -/
def mixedTask (cpuWork : ℤ) : Option ℤ := cpuIntensiveTask cpuWork

/-- The two loops of a coroutine's work, with a suspension between them. -/
def halves (workSize : ℤ) : Option ℤ := do
  -- for (int i = 0; i < work_size / 2; ++i)
  let result ← (List.range (workSize.tdiv 2).toNat).foldlM addSquare 0
  -- for (int i = work_size / 2; i < work_size; ++i)
  (List.range' (workSize.tdiv 2).toNat (workSize - workSize.tdiv 2).toNat).foldlM addSquare result

/-- The work of `async_cpu_task` -/
def asyncCpuTask (workSize : ℤ) : Option ℤ := halves workSize

/-- The work of `async_mixed_task` -/
def asyncMixedTask (cpuWork : ℤ) : Option ℤ := halves cpuWork

/-- The benchmarks whose tasks compute. -/
inductive Benchmark
  | threadPoolCPUBound | stdAsyncCPUBound
  | threadPoolMixed | threadPoolScalability | threadPoolBurstWorkload
  | stdAsyncLaunchAsync | stdAsyncLaunchDeferred | manualPromiseFuture
  | stdAsyncExceptionHandling | stdAsyncChaining
  | coroutinesCPUBound | coroutinesHighTaskCount | coroutinesMixed
deriving DecidableEq

/-- The bounds of `->Range(…, …)`. -/
def Benchmark.range : Benchmark → ℕ × ℕ
  | .threadPoolCPUBound => (8, 512)
  | .stdAsyncCPUBound => (8, 512)
  | .threadPoolMixed => (16, 128)
  | .threadPoolScalability => (1, 1024)
  | .threadPoolBurstWorkload => (4, 64)
  | .stdAsyncLaunchAsync => (8, 256)
  | .stdAsyncLaunchDeferred => (8, 256)
  | .manualPromiseFuture => (8, 256)
  | .stdAsyncExceptionHandling => (16, 128)
  | .stdAsyncChaining => (4, 32)
  | .coroutinesCPUBound => (8, 128)
  | .coroutinesHighTaskCount => (64, 4096)
  | .coroutinesMixed => (16, 128)

/-- The number of tasks is one the benchmark is registered with. -/
def Benchmark.Registered (benchmark : Benchmark) (numTasks : ℕ) : Prop :=
  benchmark.range.1 ≤ numTasks ∧ numTasks ≤ benchmark.range.2

/-- `total_result += future.get();` for one future after the other -/
def total (results : List (Option ℤ)) : Option ℤ :=
  results.foldlM (fun totalResult result => do add 32 totalResult (← result)) 0

/-- The results of the tasks and their total. -/
def collected (results : List (Option ℤ)) : List (Option ℤ) := results ++ [total results]

/-- The steps of one chain of `StdAsync_Chaining`. -/
def chain : Option ℤ := do
  (List.range 4).foldlM (fun prevResult _ => do add 32 prevResult (← cpuWork 2000)) (← cpuWork 2000)

/-- The accumulators of one iteration of a benchmark. -/
def accumulators (numTasks : ℕ) (draws : ℕ → Bool) : Benchmark → List (Option ℤ)
  | .threadPoolCPUBound | .stdAsyncCPUBound =>
    collected <| (List.range numTasks).map fun i : ℕ => do cpuIntensiveTask (← add 32 10000 i)
  | .threadPoolMixed =>
    collected <| (List.range numTasks).map fun i : ℕ => do mixedTask (← add 32 5000 i)
  | .threadPoolScalability =>
    collected <| List.replicate numTasks (cpuIntensiveTask (Int.tdiv 1000000 numTasks))
  | .threadPoolBurstWorkload =>
    (List.replicate 5 <| collected <| List.replicate numTasks (cpuIntensiveTask 8000)).flatten
  | .stdAsyncLaunchAsync | .stdAsyncLaunchDeferred | .manualPromiseFuture =>
    collected <| (List.range numTasks).map fun i : ℕ => do cpuWork (← add 32 10000 i)
  | .stdAsyncExceptionHandling =>
    let tasks := (List.range numTasks).map fun i : ℕ => riskyWork (i + 1000) (draws i)
    collected <| tasks.filterMap Except.toOption
  | .stdAsyncChaining => collected <| List.replicate numTasks chain
  | .coroutinesCPUBound => List.replicate numTasks (asyncCpuTask 10000)
  | .coroutinesHighTaskCount => List.replicate numTasks (asyncCpuTask 1000)
  | .coroutinesMixed => List.replicate numTasks (asyncMixedTask 5000)

/-- No `int` operation of the iteration overflows. -/
def InRange (numTasks : ℕ) (draws : ℕ → Bool) (benchmark : Benchmark) : Prop :=
  ∀ value ∈ accumulators numTasks draws benchmark, value.isSome

/-- The items of the producers of `PC_CondVar`. -/
def items (producers : ℕ) : Fin producers → List ℤ :=
  fun _ => (List.range (1000000 / producers)).map Nat.cast

/-- `x += q.front();` for one item after the other -/
def consume (taken : List ℤ) : Option ℤ := sum 32 0 taken

section Calls

/-- The exclusive or takes no more away than its second argument. -/
theorem le_xor_add (a b : ℕ) : a ≤ (a ^^^ b) + b := by
  induction a using Nat.strong_induction_on generalizing b with
  | _ a inductionHypothesis =>
    by_cases zero : a = 0
    · simp [zero]
    · have higher := inductionHypothesis (a / 2) (by omega) (b / 2)
      rw [← Nat.xor_div_two] at higher
      have lowest := Nat.xor_mod_two_eq_one (a := a) (b := b)
      omega

/-- No step makes the result smaller. -/
theorem mixSquare_grows {result next : ℤ} {i : ℕ} (nonneg : 0 ≤ result)
    (taken : mixSquare result i = some next) : result ≤ next := by
  simp only [mixSquare, addSquare, Option.bind_eq_bind, Option.bind_eq_some_iff, mul_eq_some_iff,
    add_eq_some_iff, Option.pure_def, Option.some.injEq] at taken
  obtain ⟨_, ⟨_, ⟨-, rfl⟩, -, rfl⟩, rfl⟩ := taken
  split
  · obtain ⟨start, rfl⟩ := Int.eq_ofNat_of_zero_le nonneg
    have kept := le_xor_add (start + i * i) (i >>> 4)
    have small : i >>> 4 ≤ i * i := by
      rw [Nat.shiftRight_eq_div_pow]
      exact (Nat.div_le_self i _).trans (Nat.le_mul_self i)
    have same : Int.xor (start + i * i) ((i >>> 4 : ℕ) : ℤ) = ((start + i * i) ^^^ (i >>> 4) : ℕ) :=
      rfl
    rw [same]
    omega
  · exact le_add_of_nonneg_right (mul_self_nonneg _)

/-- The last partial sum of `cpu_intensive_task` that fits. -/
theorem mixSquare_reached : countUp mixSquare 0 1861 = some 2146682116 := by decide +kernel

/-- The last partial sum of the other loops that fits. -/
theorem addSquare_reached : countUp addSquare 0 1861 = some 2146682110 := by decide +kernel

/-- The 1862nd square takes both loops out of range. -/
theorem mixSquare_isSome_iff (n : ℕ) : (countUp mixSquare 0 n).isSome ↔ n ≤ 1861 := by
  apply countUp_isSome_iff
  · rw [mixSquare_reached]
    rfl
  · rw [countUp_succ, mixSquare_reached]
    decide

/-- The loop of `cpu_work` stays in range up to 1861. -/
theorem addSquare_isSome_iff (n : ℕ) : (countUp addSquare 0 n).isSome ↔ n ≤ 1861 := by
  apply countUp_isSome_iff
  · rw [addSquare_reached]
    rfl
  · rw [countUp_succ, addSquare_reached]
    decide

/-- `cpu_intensive_task` stays in range up to 1861. -/
theorem cpuIntensiveTask_isSome_iff (n : ℤ) : (cpuIntensiveTask n).isSome ↔ n ≤ 1861 := by
  rw [cpuIntensiveTask, mixSquare_isSome_iff]
  omega

/-- `cpu_work` stays in range up to 1861. -/
theorem cpuWork_isSome_iff (n : ℤ) : (cpuWork n).isSome ↔ n ≤ 1861 := by
  rw [cpuWork, mixSquare_isSome_iff]
  omega

/-- The suspension does not matter to the sum. -/
theorem halves_eq (workSize : ℤ) : halves workSize = countUp addSquare 0 workSize.toNat := by
  have split : List.range workSize.toNat = List.range (workSize.tdiv 2).toNat ++
      List.range' (workSize.tdiv 2).toNat (workSize - workSize.tdiv 2).toNat := by
    have parts : workSize.toNat =
        (workSize.tdiv 2).toNat + (workSize - workSize.tdiv 2).toNat := by
      rcases le_total 0 workSize with nonneg | negative
      · rw [Int.tdiv_eq_ediv_of_nonneg nonneg]
        omega
      · rw [← neg_neg workSize, Int.neg_tdiv, Int.tdiv_eq_ediv_of_nonneg (by omega)]
        omega
    rw [parts, List.range_eq_range', List.range_eq_range', ← List.range'_append_1, Nat.zero_add]
  rw [countUp, split, List.foldlM_append]
  rfl

/-- The coroutines' two halves stay in range up to 1861. -/
theorem halves_isSome_iff (workSize : ℤ) : (halves workSize).isSome ↔ workSize ≤ 1861 := by
  rw [halves_eq, addSquare_isSome_iff]
  omega

/-- Beyond 1861 `cpu_intensive_task` overflows. -/
theorem cpuIntensiveTask_eq_none {n : ℤ} (large : 1861 < n) : cpuIntensiveTask n = none := by
  rw [← Option.not_isSome_iff_eq_none, cpuIntensiveTask_isSome_iff]
  exact not_le.mpr large

/-- Beyond 1861 `cpu_work` overflows. -/
theorem cpuWork_eq_none {n : ℤ} (large : 1861 < n) : cpuWork n = none := by
  rw [← Option.not_isSome_iff_eq_none, cpuWork_isSome_iff]
  exact not_le.mpr large

/-- Beyond 1861 the two halves overflow. -/
theorem halves_eq_none {workSize : ℤ} (large : 1861 < workSize) : halves workSize = none := by
  rw [← Option.not_isSome_iff_eq_none, halves_isSome_iff]
  exact not_le.mpr large

/-- What a task of some size returns is at least what its first steps come to. -/
theorem cpuIntensiveTask_large {n value : ℤ} (enough : 300 ≤ n)
    (returned : cpuIntensiveTask n = some value) : 8955050 ≤ value := by
  have first : countUp mixSquare 0 300 = some 8955050 := by decide +kernel
  have further : 300 ≤ n.toNat := by omega
  have kept : ∀ result i next, 300 ≤ i → 8955050 ≤ result → mixSquare result i = some next →
      8955050 ≤ next := by
    intro result i next _ large taken
    exact large.trans (mixSquare_grows (by omega) taken)
  apply countUp_keeps further kept _ value returned
  intro result reached
  rw [first] at reached
  exact (Option.some.inj reached).le

end Calls

section Benchmarks

variable {numTasks : ℕ} {draws : ℕ → Bool}

/-- A result is one of the values of a collection. -/
theorem mem_collected {results : List (Option ℤ)} {value : Option ℤ} (member : value ∈ results) :
    value ∈ collected results :=
  List.mem_append_left _ member

/-- The total is one of the values of a collection. -/
theorem total_mem (results : List (Option ℤ)) : total results ∈ collected results :=
  List.mem_append_right _ (List.mem_singleton_self _)

/-- The total of results in range is their checked sum. -/
theorem total_values (values : List ℤ) : total (values.map some) = sum 32 0 values := by
  rw [total, List.foldlM_map]
  rfl

/-- With few tasks each of them overflows, with many of them their total. -/
theorem scalability_overflows (some : 1 ≤ numTasks) (most : numTasks ≤ 1024) :
    none ∈ accumulators numTasks draws .threadPoolScalability := by
  have size : Int.tdiv 1000000 numTasks = (1000000 / numTasks : ℕ) := by
    rw [Int.tdiv_eq_ediv_of_nonneg (by decide)]
    rfl
  simp only [accumulators, size]
  by_cases large : 1861 < 1000000 / numTasks
  · rw [cpuIntensiveTask_eq_none (by exact_mod_cast large)]
    exact mem_collected (List.mem_replicate.mpr ⟨by omega, rfl⟩)
  · have many : 537 < numTasks := by
      by_contra few
      have least : 1000000 / 537 ≤ 1000000 / numTasks := Nat.div_le_div_left (not_lt.mp few) some
      omega
    have enough : 1000000 / 1024 ≤ 1000000 / numTasks := Nat.div_le_div_left most some
    obtain ⟨value, returned⟩ := Option.isSome_iff_exists.mp
      ((cpuIntensiveTask_isSome_iff (1000000 / numTasks : ℕ)).mpr (by omega))
    have value_large := cpuIntensiveTask_large (by omega) returned
    have overflow : total (List.replicate numTasks (Option.some value)) = none := by
      rw [← List.map_replicate, total_values]
      by_contra fits
      obtain ⟨sum, summed⟩ := Option.ne_none_iff_exists'.mp fits
      obtain ⟨exactly, -, small⟩ := sum_eq_some (by decide) summed
      rw [zero_add, List.sum_replicate, nsmul_eq_mul] at exactly
      have product : (538 : ℤ) * 8955050 ≤ numTasks * value :=
        mul_le_mul (by exact_mod_cast many) value_large (by norm_num) (by omega)
      norm_num at small
      omega
    rw [returned, ← overflow]
    exact total_mem _

/-- One task that overflows is among the results. -/
theorem first_overflows {task : ℕ → Option ℤ} {k : ℕ} (inRange : k < numTasks)
    (overflow : task k = none) : none ∈ (List.range numTasks).map task :=
  List.mem_map.mpr ⟨k, List.mem_range.mpr inRange, overflow⟩

/-- A task of a size that is too large. -/
theorem sized_overflows {size : Option ℤ} {n : ℤ} {task : ℤ → Option ℤ} (sized : size = some n)
    (overflow : task n = none) : size.bind task = none := by
  rw [sized]
  exact overflow

/-- Equal tasks overflow alike. -/
theorem all_overflow {task : Option ℤ} (some : 0 < numTasks) (overflow : task = none) :
    none ∈ List.replicate numTasks task :=
  List.mem_replicate.mpr ⟨some.ne', overflow.symm⟩

/-- Every benchmark but one lets some accumulator overflow. -/
theorem overflows (benchmark : Benchmark) (registered : benchmark.Registered numTasks)
    (other : benchmark ≠ .coroutinesHighTaskCount) :
    none ∈ accumulators numTasks draws benchmark := by
  obtain ⟨least, most⟩ := registered
  have some : 0 < numTasks := Nat.lt_of_lt_of_le (by cases benchmark <;> decide) least
  cases benchmark with
  | threadPoolCPUBound | stdAsyncCPUBound =>
    have size : add 32 10000 (0 : ℕ) = Option.some 10000 := by decide
    exact mem_collected (first_overflows some
      (sized_overflows size (cpuIntensiveTask_eq_none (by decide))))
  | threadPoolMixed =>
    have size : add 32 5000 (0 : ℕ) = Option.some 5000 := by decide
    exact mem_collected (first_overflows some
      (sized_overflows size (cpuIntensiveTask_eq_none (by decide))))
  | threadPoolScalability => exact scalability_overflows least most
  | threadPoolBurstWorkload =>
    refine List.mem_flatten.mpr ⟨_, List.mem_replicate.mpr ⟨by decide, rfl⟩, ?_⟩
    exact mem_collected (all_overflow some (cpuIntensiveTask_eq_none (by decide)))
  | stdAsyncLaunchAsync | stdAsyncLaunchDeferred | manualPromiseFuture =>
    have size : add 32 10000 (0 : ℕ) = Option.some 10000 := by decide
    exact mem_collected (first_overflows some
      (sized_overflows size (cpuWork_eq_none (by decide))))
  | stdAsyncExceptionHandling =>
    have size : mul 32 ((1 : ℕ) + 1000) 100 = Option.some 100100 := by decide
    have runs : riskyWork ((1 : ℕ) + 1000) (draws 1) = .ok none := by
      rw [riskyWork, if_neg (by simp)]
      exact congrArg _ (sized_overflows size (cpuWork_eq_none (by decide)))
    refine mem_collected (List.mem_filterMap.mpr ⟨_, List.mem_map.mpr ⟨1, ?_, runs⟩, rfl⟩)
    exact List.mem_range.mpr (Nat.lt_of_lt_of_le (by decide) least)
  | stdAsyncChaining =>
    refine mem_collected (all_overflow some ?_)
    rw [chain, cpuWork_eq_none (by decide)]
    rfl
  | coroutinesCPUBound | coroutinesMixed => exact all_overflow some (halves_eq_none (by decide))
  | coroutinesHighTaskCount => exact absurd rfl other

/-- The one benchmark whose accumulators all stay in range has the smallest tasks. -/
theorem inRange_iff (benchmark : Benchmark) (registered : benchmark.Registered numTasks) :
    InRange numTasks draws benchmark ↔ benchmark = .coroutinesHighTaskCount := by
  constructor
  · intro inRange
    by_contra other
    have value := inRange none (overflows benchmark registered other)
    exact absurd value (by simp)
  · rintro rfl value member
    rw [List.eq_of_mem_replicate member]
    exact (halves_isSome_iff 1000).mpr (by decide)

end Benchmarks

section Consumers

open PCCondVar Interleaving

/-- The sum of the first numbers, doubled. -/
theorem sum_range (n : ℕ) : ((List.range n).map (Nat.cast : ℕ → ℤ)).sum * 2 = n * (n - 1) := by
  induction n with
  | zero => rfl
  | succ n inductionHypothesis =>
    rw [List.range_succ, List.map_append, List.sum_append, add_mul, inductionHypothesis]
    simp only [List.map_cons, List.map_nil, List.sum_cons, List.sum_nil]
    push_cast
    ring

/-- What the producers push adds up to too much for as many consumers. -/
theorem items_large {threads : ℕ} (registered : threads ∈ [1, 2, 4]) :
    (threads : ℤ) * 2 ^ 31 ≤ ∑ p, (items threads p).sum := by
  have each := sum_range (1000000 / threads)
  simp only [items, Finset.sum_const, Finset.card_univ, Fintype.card_fin, nsmul_eq_mul]
  generalize ((List.range (1000000 / threads)).map (Nat.cast : ℕ → ℤ)).sum = sum at each
  simp only [List.mem_cons, List.not_mem_nil, or_false] at registered
  rcases registered with rfl | rfl | rfl <;> norm_num at each ⊢ <;> omega

/-- However the items are divided among the consumers, one of their sums overflows. -/
theorem consumer_overflows {threads : ℕ} (registered : threads ∈ [1, 2, 4])
    (c : Config threads threads ℤ) (reached : Reachable (items threads) c)
    (exited : ∀ k, (c.pcs (.consumer k)).returned = true) :
    ∃ k, consume (pick Event.removed (.consumer k) c.log) = none := by
  have positive : 0 < threads := by
    by_contra none
    obtain rfl := Nat.eq_zero_of_not_pos none
    simp at registered
  have sound := reachable_sound reached
  obtain ⟨empty, done⟩ := sound.emptied ⟨0, positive⟩ (exited _)
  have shares := consumed_eq_produced sound (sound.pushed done) empty
  have totals := congrArg Multiset.sumAddMonoidHom shares
  simp only [map_sum, Multiset.coe_sumAddMonoidHom, Multiset.sum_coe] at totals
  have nonempty : Nonempty (Fin threads) := ⟨⟨0, positive⟩⟩
  apply exists_sum_eq_none
  rw [totals, Fintype.card_fin]
  exact items_large registered

section Completed

variable {T : Type}

/-- The shared variables and the positions of one producer, one consumer and the main thread. -/
structure Session (T : Type) where
  shared : Shared (Party 1 1) T
  producer : ProducerAt T
  consumer : ConsumerAt T
  main : MainAt

/-- The places of the two threads and of the main thread. -/
def Session.pcs (s : Session T) : Party 1 1 → Pc T
  | .producer _ => .producer s.producer
  | .consumer _ => .consumer s.consumer
  | .main => .main s.main

/-- Some schedule leads from one session to the other. -/
def Leads (s s' : Session T) : Prop :=
  ∀ log, ∃ log', Reaches step ⟨s.shared, s.pcs, log⟩ ⟨s'.shared, s'.pcs, log'⟩

/-- One way after another. -/
theorem Leads.trans {s s' s'' : Session T} (before : Leads s s') (after : Leads s' s'') :
    Leads s s'' := by
  intro log
  obtain ⟨log', first⟩ := before log
  obtain ⟨log'', second⟩ := after log'
  exact ⟨log'', first.trans second⟩

/-- A step of one thread changes its place only. -/
theorem update_pcs {s s' : Session T} (i : Party 1 1) (others : ∀ j ≠ i, s'.pcs j = s.pcs j) :
    Function.update s.pcs i (s'.pcs i) = s'.pcs := by
  funext j
  by_cases mine : j = i
  · rw [mine, Function.update_self]
  · rw [Function.update_of_ne mine, others j mine]

/-- One thread goes on. -/
theorem leads_go {s s' : Session T} (i : Party 1 1) (others : ∀ j ≠ i, s'.pcs j = s.pcs j)
    (moved : exec 1 1 (fun j => (s.pcs j).returned) i s.shared (s.pcs i) =
      some (s'.shared, s'.pcs i)) : Leads s s' := by
  intro log
  refine ⟨log ++ (observe (s.pcs i)).map (i, ·), [.go i], ?_⟩
  rw [run_cons_iff]
  refine ⟨_, ?_, rfl⟩
  rw [step, ← update_pcs i others]
  exact Option.map_eq_some_iff.mpr ⟨_, moved, rfl⟩

/-- The producer may take its step. -/
theorem leads_producer {shared : Shared (Party 1 1) T} {place : ProducerAt T} {s : Session T}
    (moved : prod (.producer 0) s.shared s.producer = some (shared, place)) :
    Leads s { s with shared, producer := place } := by
  apply leads_go (.producer 0)
  · rintro (p | k | _) other
    · exact absurd (congrArg _ (Subsingleton.elim p 0)) other
    · rfl
    · rfl
  · exact Option.map_eq_some_iff.mpr ⟨_, moved, rfl⟩

/-- The consumer may take its step. -/
theorem leads_consumer {shared : Shared (Party 1 1) T} {place : ConsumerAt T} {s : Session T}
    (moved : cons (.consumer 0) s.shared s.consumer = some (shared, place)) :
    Leads s { s with shared, consumer := place } := by
  apply leads_go (.consumer 0)
  · rintro (p | k | _) other
    · rfl
    · exact absurd (congrArg _ (Subsingleton.elim k 0)) other
    · rfl
  · exact Option.map_eq_some_iff.mpr ⟨_, moved, rfl⟩

/-- The main thread may take its step. -/
theorem leads_main {shared : Shared (Party 1 1) T} {place : MainAt} {s : Session T}
    (moved : finish 1 1 (fun j => (s.pcs j).returned) (.main : Party 1 1) s.shared s.main =
      some (shared, place)) : Leads s { s with shared, main := place } := by
  apply leads_go .main
  · rintro (p | k | _) other
    · rfl
    · rfl
    · exact absurd rfl other
  · exact Option.map_eq_some_iff.mpr ⟨_, moved, rfl⟩

/-- A notification finds nobody asleep. -/
theorem leads_notify {left : List T} {s : Session T} (notifying : s.producer = .notifyOne left)
    (awake : s.shared.sleepers = ∅) : Leads s { s with producer := .loop left } := by
  intro log
  refine ⟨log, [.notify (.producer 0) none], ?_⟩
  have others : ∀ j ≠ .producer 0, Session.pcs { s with producer := .loop left } j = s.pcs j := by
    rintro (p | k | _) other
    · exact absurd (congrArg _ (Subsingleton.elim p 0)) other
    · rfl
    · rfl
  have standing : s.pcs (.producer 0) = .producer (.notifyOne left) := by
    rw [Session.pcs, notifying]
  have shared : { s.shared with sleepers := ∅ } = s.shared := by rw [← awake]
  rw [run_cons_iff]
  refine ⟨_, ?_, rfl⟩
  simp only [step, standing, notifyOne, awake, if_true, Option.map_some, shared]
  rw [← update_pcs (.producer 0) others]
  rfl

/-- The producer pushes all of its items before anybody else does anything. -/
theorem leads_pushed (left queue : List T) (consumer : ConsumerAt T) (main : MainAt) :
    Leads ⟨⟨none, ∅, queue, false⟩, .loop left, consumer, main⟩
      ⟨⟨none, ∅, queue ++ left, false⟩, .returned, consumer, main⟩ := by
  induction left generalizing queue with
  | nil =>
    rw [List.append_nil]
    exact leads_producer rfl
  | cons item left inductionHypothesis =>
    refine (leads_producer rfl).trans ((leads_producer rfl).trans ((leads_producer rfl).trans
      ((leads_producer rfl).trans ((leads_notify rfl rfl).trans ?_))))
    have rest := inductionHypothesis (queue ++ [item])
    rwa [List.append_assoc] at rest

/-- The main thread sets the flag before the consumer does anything. -/
theorem leads_done (queue : List T) (consumer : ConsumerAt T) :
    Leads ⟨⟨none, ∅, queue, false⟩, .returned, consumer, .joinProducers 0⟩
      ⟨⟨none, ∅, queue, true⟩, .returned, consumer, .joinConsumers 0⟩ :=
  (leads_main rfl).trans ((leads_main rfl).trans ((leads_main rfl).trans ((leads_main rfl).trans
    ((leads_main rfl).trans (leads_main rfl)))))

/-- The consumer takes all of the items and leaves its loop. -/
theorem leads_taken (queue : List T) (producer : ProducerAt T) (main : MainAt) :
    Leads ⟨⟨none, ∅, queue, true⟩, producer, .lock, main⟩
      ⟨⟨none, ∅, [], true⟩, producer, .exited, main⟩ := by
  induction queue with
  | nil => exact (leads_consumer rfl).trans ((leads_consumer rfl).trans ((leads_consumer rfl).trans
      (leads_consumer rfl)))
  | cons item rest inductionHypothesis =>
    exact (leads_consumer rfl).trans ((leads_consumer rfl).trans ((leads_consumer rfl).trans
      ((leads_consumer rfl).trans ((leads_consumer rfl).trans
        ((leads_consumer rfl).trans inductionHypothesis)))))

/-- A session of one producer and one consumer can be completed, however many items there
are. -/
theorem exists_completed (items : Fin 1 → List T) : ∃ c : Config 1 1 T, Reachable items c ∧
    ∀ k, (c.pcs (.consumer k)).returned = true := by
  have first : Session.pcs ⟨⟨none, ∅, [], false⟩, .loop (items 0), .lock, .joinProducers 0⟩ =
      start items := by
    funext j
    cases j with
    | producer p => rw [Subsingleton.elim p 0]; rfl
    | _ => rfl
  have completed := (leads_pushed (items 0) [] .lock (.joinProducers 0)).trans
    ((leads_done _ _).trans (leads_taken _ _ _))
  obtain ⟨log, reached⟩ := completed []
  rw [first] at reached
  exact ⟨_, reached, fun _ => rfl⟩

end Completed

/-- Where the workloads overflow. A call of any of the four work functions stays in range
exactly if its argument is at most 1861. Of the benchmarks registered, with any of their
numbers of tasks and whichever tasks throw, exactly `Coroutines_HighTaskCount` stays in range.
In every run of `PC_CondVar` that comes to its end, with any of the numbers of threads
registered, the sum of some consumer overflows. -/
theorem workloads_in_range_iff (argument : ℤ) (benchmark : Benchmark) (numTasks : ℕ)
    (draws : ℕ → Bool) :
    ((cpuIntensiveTask argument).isSome ↔ argument ≤ 1861) ∧
    ((cpuWork argument).isSome ↔ argument ≤ 1861) ∧
    ((asyncCpuTask argument).isSome ↔ argument ≤ 1861) ∧
    ((asyncMixedTask argument).isSome ↔ argument ≤ 1861) ∧
    (benchmark.Registered numTasks →
      (InRange numTasks draws benchmark ↔ benchmark = .coroutinesHighTaskCount)) ∧
    (∀ threads ∈ [1, 2, 4], ∀ c : Config threads threads ℤ, Reachable (items threads) c →
      (∀ k, (c.pcs (.consumer k)).returned = true) →
      ∃ k, consume (pick Event.removed (.consumer k) c.log) = none) :=
  ⟨cpuIntensiveTask_isSome_iff argument, cpuWork_isSome_iff argument,
    halves_isSome_iff argument, halves_isSome_iff argument,
    fun registered => inRange_iff benchmark registered,
    fun _ registered c reached exited => consumer_overflows registered c reached exited⟩

/-- The smallest coroutine tasks stay in range, and one consumer takes too much. -/
theorem workloads_in_range_iff_one :
    InRange 64 (fun _ => false) .coroutinesHighTaskCount ∧
    ∃ c : Config 1 1 ℤ, Reachable (items 1) c ∧
      consume (pick Event.removed (.consumer 0) c.log) = none := by
  obtain ⟨_, _, _, _, coroutines, consumers⟩ :=
    workloads_in_range_iff 1000 .coroutinesHighTaskCount 64 fun _ => false
  obtain ⟨c, reached, exited⟩ := exists_completed (items 1)
  obtain ⟨k, overflow⟩ := consumers 1 (by decide) c reached exited
  rw [Subsingleton.elim k 0] at overflow
  refine ⟨?_, c, reached, overflow⟩
  exact (coroutines ⟨by decide, by decide⟩).mpr rfl

/-- Already the first task of `ThreadPool_CPUBound` overflows. -/
theorem first_task_overflows :
    Benchmark.threadPoolCPUBound.Registered 8 ∧ cpuIntensiveTask 10000 = none ∧
      ¬ InRange 8 (fun _ => false) .threadPoolCPUBound := by
  have registered : Benchmark.threadPoolCPUBound.Registered 8 := ⟨by decide, by decide⟩
  refine ⟨registered, cpuIntensiveTask_eq_none (by decide), ?_⟩
  rw [inRange_iff .threadPoolCPUBound registered]
  decide

end Consumers

end ConcurrencyBench.Workloads
