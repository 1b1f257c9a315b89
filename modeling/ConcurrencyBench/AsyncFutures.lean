import ConcurrencyBench.Futures
import ConcurrencyBench.PromiseFuture
import Mathlib.Algebra.BigOperators.Fin
import Mathlib.Algebra.BigOperators.Ring.Finset

/-!
# Tasks launched by `std::async`

The benchmarks of `bench_async_future.cpp` and `bench_thread_pool.cpp` that launch their
tasks by `std::async` are programs that get each future once. Here is one iteration of each,
without its clock. `cpu_work` is any function of integers, and whether the task of
`StdAsync_ExceptionHandling` is to throw is drawn. Integers are 32 bits wide. A sum that does
not fit is undefined in the source; here it is assumed to wrap around.

Whether tasks are launched at once, deferred, or fulfil promises in a team of workers, the
sum that the benchmark collects is the same. A chain of tasks adds up one step after the
other, in whatever order the chains are interleaved. The task that is to throw does so for
every tenth number only, so the number of exceptions stays within a tenth of the tasks,
whatever is drawn.
-/

namespace ConcurrencyBench.AsyncFutures

open Interleaving Interleaving.Futures PromiseFuture

variable {D V E A : Type} {numTasks numChains : ℕ}

/-- The product of two integers of the source. -/
def mul (a b : ℤ) : ℤ := Int.bmod (a * b) (2 ^ 32)

section Code

variable (cpuWork : ℤ → ℤ)

/-- Tasks that need no other, collected in the order of their launch. -/
def independent (launch : Launch) (timed : Bool) (numTasks : ℕ)
    (work : Fin numTasks → D → Except E V) : Plan numTasks D V E where
  launch
  timed
  needs _ := none
  work i draw _ := work i draw
  collect := List.finRange numTasks
  earlier := by simp
  apart := by simp
  once := List.nodup_finRange numTasks
  kept := by simp
  used := by simp
  direct _ _ := rfl

/-- `total_result += future.get();` -/
def collectTotal (totalResult : ℤ) (_ : Bool) : Except Empty ℤ → ℤ
  | .ok result => add totalResult result

/-- Tasks that call `cpu_work(work_size + i)`, under either policy. -/
def stdAsync (launch : Launch) (numTasks : ℕ) : Plan numTasks Unit ℤ Empty :=
  independent launch false numTasks fun i _ => .ok (cpuWork (add 10000 i.val))

/-- `StdAsync_LaunchAsync` -/
def stdAsyncLaunchAsync (numTasks : ℕ) : Plan numTasks Unit ℤ Empty :=
  stdAsync cpuWork .async numTasks

/-- `StdAsync_LaunchDeferred` -/
def stdAsyncLaunchDeferred (numTasks : ℕ) : Plan numTasks Unit ℤ Empty :=
  stdAsync cpuWork .deferred numTasks

/-- The work is `cpu_intensive_task` here. -/
def stdAsyncCPUBound (cpuIntensiveTask : ℤ → ℤ) (numTasks : ℕ) : Plan numTasks Unit ℤ Empty :=
  stdAsync cpuIntensiveTask .async numTasks

/-- `risky_work`, with the text of the exception it throws. -/
def riskyWork (value : ℤ) (shouldThrow : Bool) : Except String ℤ :=
  if shouldThrow ∧ value.tmod 10 = 0 then .error "Simulated error"
  else .ok (cpuWork (mul value 100))

/-- Tasks that draw whether they are to throw. -/
def stdAsyncExceptionHandling (numTasks : ℕ) : Plan numTasks Bool ℤ String :=
  independent .async false numTasks fun i shouldThrow =>
    riskyWork cpuWork (add i.val 1000) shouldThrow

/-- The sum of what the tasks have returned, and how many have thrown. -/
structure Handled where
  totalResult : ℤ
  exceptionCount : ℤ

/-- The `try` and `catch` of `StdAsync_ExceptionHandling`. -/
def handle (h : Handled) (_ : Bool) : Except String ℤ → Handled
  | .ok result => { h with totalResult := add h.totalResult result }
  | .error _ => { h with exceptionCount := add h.exceptionCount 1 }

/-- Tasks that sleep, waited for with a time limit. -/
def stdAsyncTimeout (numTasks : ℕ) : Plan numTasks Unit Unit Empty :=
  independent .async true numTasks fun _ _ => .ok ()

/-- How many tasks were done within the limit, and how many not. -/
structure Waited where
  completedCount : ℤ
  timeoutCount : ℤ

/-- What `StdAsync_Timeout` counts of a future. -/
def count (w : Waited) (ready : Bool) (_ : Except Empty Unit) : Waited :=
  if ready then { w with completedCount := add w.completedCount 1 }
  else { w with timeoutCount := add w.timeoutCount 1 }

/-- `chain_length` -/
def chainLength : ℕ := 5

/-- The last task of a chain. -/
def finalTask (chain : Fin numChains) : Fin (numChains * chainLength) :=
  ⟨chain.val * chainLength + 4, by have := chain.isLt; dsimp only [chainLength]; omega⟩

/-- The task a task of a chain begins by getting. -/
def previousTask (i : Fin (numChains * chainLength)) : Option (Fin (numChains * chainLength)) :=
  if i.val % chainLength = 0 then none else some ⟨i.val - 1, by have := i.isLt; omega⟩

/-- A task has the one before it as its predecessor, unless it is the first of its chain. -/
theorem previousTask_eq_some_iff (i j : Fin (numChains * chainLength)) :
    previousTask i = some j ↔ i.val % chainLength ≠ 0 ∧ j.val + 1 = i.val := by
  simp only [previousTask, Option.ite_none_left_eq_some, Option.some.injEq, Fin.ext_iff]
  dsimp only [chainLength]
  omega

/-- The futures collected are those of the last task of each chain. -/
theorem mem_final_iff (i : Fin (numChains * chainLength)) :
    i ∈ (List.finRange numChains).map finalTask ↔ i.val % chainLength = 4 := by
  have within := i.isLt
  dsimp only [chainLength] at within ⊢
  constructor
  · intro member
    obtain ⟨chain, _, rfl⟩ := List.mem_map.mp member
    dsimp only [finalTask, chainLength]
    omega
  · intro last
    refine List.mem_map.mpr ⟨⟨i.val / 5, by omega⟩, List.mem_finRange _, Fin.ext ?_⟩
    dsimp only [finalTask, chainLength]
    omega

/-- Chains of tasks, one chain after the other. Each task of a chain but the first gets the
result of the one before it and adds its own. -/
def stdAsyncChaining (numChains : ℕ) : Plan (numChains * chainLength) Unit ℤ Empty where
  launch := .async
  timed := false
  needs := previousTask
  work _ _
    | none => .ok (cpuWork 2000)
    | some prevResult => .ok (add prevResult (cpuWork 2000))
  collect := (List.finRange numChains).map finalTask
  earlier i j needs := by
    have before := ((previousTask_eq_some_iff i j).mp needs).2
    exact Fin.lt_def.mpr (Nat.lt_of_succ_le before.le)
  apart i k j first second := by
    have mine := ((previousTask_eq_some_iff i j).mp first).2
    have theirs := ((previousTask_eq_some_iff k j).mp second).2
    exact Fin.ext (mine.symm.trans theirs)
  once := by
    refine List.Nodup.map (fun first second same => Fin.ext ?_) (List.nodup_finRange numChains)
    simp only [finalTask, chainLength, Fin.mk.injEq] at same
    omega
  kept i j needs member := by
    obtain ⟨inside, before⟩ := (previousTask_eq_some_iff i j).mp needs
    have last := (mem_final_iff j).mp member
    dsimp only [chainLength] at inside last
    omega
  used j := by
    have within := j.isLt
    rw [mem_final_iff]
    refine or_iff_not_imp_left.mpr fun inside => ?_
    dsimp only [chainLength] at within inside
    refine ⟨⟨j.val + 1, by dsimp only [chainLength]; omega⟩, ?_⟩
    rw [previousTask_eq_some_iff]
    dsimp only [chainLength]
    omega
  direct deferred := by cases deferred

end Code

section Sums

/-- Adding up in `int` gives the wrapped sum. -/
theorem foldl_add {ι : Type} (f : ι → ℤ) (start : ℤ) (l : List ι) :
    l.foldl (fun sum i => add sum (f i)) (Int.bmod start (2 ^ 32)) =
      Int.bmod (start + (l.map f).sum) (2 ^ 32) := by
  induction l generalizing start with
  | nil => simp
  | cons i rest inductionHypothesis =>
    rw [List.foldl_cons, add, Int.bmod_add_bmod, inductionHypothesis, List.map_cons, List.sum_cons,
      Int.add_assoc]

/-- The integers of a team of tasks add up as their sum does. -/
theorem foldl_finRange {n : ℕ} (f : Fin n → ℤ) :
    (List.finRange n).foldl (fun sum i => add sum (f i)) 0 = Int.bmod (∑ i, f i) (2 ^ 32) := by
  have folded := foldl_add f 0 (List.finRange n)
  rw [Int.zero_bmod, Int.zero_add, ← Fin.sum_univ_def] at folded
  exact folded

/-- The promises of a team of workers add up in the same way. -/
theorem total_outcomes (cpuWork : ℤ → ℤ) (numTasks : ℕ) :
    total 0 (outcomes (fun n => (.ok (cpuWork n) : Except Empty ℤ)) 10000 numTasks) =
      .ok (Int.bmod (∑ i : Fin numTasks, cpuWork (add 10000 i.val)) (2 ^ 32)) := by
  have folds : ∀ (l : List (Fin numTasks)) (sum : ℤ),
      total sum (l.map fun k => expected (fun n => (.ok (cpuWork n) : Except Empty ℤ)) 10000 k.val) =
        .ok (l.foldl (fun sum i => add sum (cpuWork (add 10000 i.val))) sum) := by
    intro l
    induction l with
    | nil => intro sum; rfl
    | cons i rest inductionHypothesis => intro sum; exact inductionHypothesis _
  rw [outcomes, List.ofFn_eq_map, folds, foldl_finRange]

end Sums

section Policies

variable {cpuWork : ℤ → ℤ}

/-- A task yields what its work comes to. -/
theorem stdAsync_yields {launch : Launch} {i : Fin numTasks} {result : Except Empty ℤ}
    (yields : (stdAsync cpuWork launch numTasks).Yields i result) :
    result = .ok (cpuWork (add 10000 i.val)) := by
  cases yields with
  | direct => rfl
  | after _ _ _ _ needs => cases needs
  | through _ _ _ needs => cases needs

/-- The total is the wrapped sum of all tasks' work. -/
theorem stdAsync_total {launch : Launch} {c : Config numTasks ℤ Empty ℤ} {totalResult : ℤ}
    (sound : (stdAsync cpuWork launch numTasks).Sound collectTotal 0 c)
    (finished : c.main = .finished totalResult) :
    totalResult = Int.bmod (∑ i : Fin numTasks, cpuWork (add 10000 i.val)) (2 ^ 32) := by
  rw [(sound.collected finished).eq_foldl (fun _ _ => stdAsync_yields) (fun _ _ _ => rfl),
    ← foldl_finRange]
  rfl

/-- The policy does not show in the result. Under either policy, for any number of tasks and
every interleaving: no future is empty when it is got; a deferred task runs only while the
launcher is getting its future, so that no two of them run at once; the launcher can always
be brought to its end; and then every task has returned, every future has been got, and the
sum is the one that a team of workers collects from its promises. -/
theorem launch_policies_agree (cpuWork : ℤ → ℤ) (launch : Launch) (numTasks : ℕ)
    (c : Config numTasks ℤ Empty ℤ)
    (reached : (stdAsync cpuWork launch numTasks).Reachable collectTotal 0 c) :
    (c.main ≠ .undefined ∧ ∀ i, c.tasks i ≠ .undefined) ∧
    (launch = .deferred → ∀ i previous, c.tasks i = .working previous →
      ∃ ready rest totalResult, c.main = .get i ready rest totalResult) ∧
    (∃ last totalResult, Reaches ((stdAsync cpuWork launch numTasks).step collectTotal 0) c last ∧
      last.main = .finished totalResult) ∧
    ∀ totalResult, c.main = .finished totalResult →
      (∀ i, (c.tasks i).isDone = true ∧ c.valid i = false) ∧
      totalResult = Int.bmod (∑ i : Fin numTasks, cpuWork (add 10000 i.val)) (2 ^ 32) ∧
      .ok totalResult =
        total 0 (outcomes (fun n => (.ok (cpuWork n) : Except Empty ℤ)) 10000 numTasks) := by
  have sound := reachable_sound reached
  refine ⟨sound.defined, sound.lazy, sound.finishes, fun totalResult finished => ?_⟩
  have sum := stdAsync_total sound finished
  exact ⟨sound.all_got finished, sum, by rw [total_outcomes, ← sum]⟩

/-- Two deferred tasks run one after the other. -/
theorem launch_policies_agree_two : ∃ c : Config 2 ℤ Empty ℤ,
    (stdAsync (· * 2) .deferred 2).Reachable collectTotal 0 c ∧ c.main = .finished 40002 := by
  let plan := stdAsync (· * 2) .deferred 2
  let schedule : List (Label 2 Unit) := List.replicate 3 .main ++
    [.main, .main, .task 0 (), .main, .main, .main, .task 1 (), .main, .main]
  have played : (run (plan.step collectTotal 0) Config.init schedule).map (·.main.isFinished) =
      some true := by
    decide +kernel
  obtain ⟨c, ran, done⟩ := Option.map_eq_some_iff.mp played
  obtain ⟨_, _, _, final⟩ := launch_policies_agree (· * 2) .deferred 2 c ⟨schedule, ran⟩
  refine ⟨c, ⟨schedule, ran⟩, ?_⟩
  cases position : c.main with
  | finished totalResult =>
    rw [(final totalResult position).2.1]
    rfl
  | _ => simp [position, Launcher.isFinished] at done

end Policies

section Exceptions

variable {cpuWork : ℤ → ℤ}

/-- The numbers of the tasks that throw when told to. -/
def divisible (i : Fin numTasks) : Bool := (i.val + 1000) % 10 = 0

/-- Every tenth task may throw. -/
theorem card_divisible_le {threw : Finset (Fin numTasks)} (may : ∀ i ∈ threw, divisible i) :
    threw.card ≤ (numTasks + 9) / 10 := by
  have tens : threw.card ≤ (Finset.range ((numTasks + 9) / 10)).card := by
    apply Finset.card_le_card_of_injOn fun i => i.val / 10
    · intro i member
      have within := i.isLt
      have ten : (i.val + 1000) % 10 = 0 := by simpa [divisible] using may i member
      simp only [Finset.coe_range, Set.mem_Iio]
      omega
    · intro i first j second same
      have tenFirst : (i.val + 1000) % 10 = 0 := by simpa [divisible] using may i first
      have tenSecond : (j.val + 1000) % 10 = 0 := by simpa [divisible] using may j second
      dsimp only at same
      apply Fin.ext
      omega
  rwa [Finset.card_range] at tens

/-- A task throws if it is drawn to and its number is divisible by ten. -/
theorem riskyWork_eq {i : Fin numTasks} (inRange : numTasks + 1000 ≤ 2 ^ 31 - 1)
    (shouldThrow : Bool) :
    riskyWork cpuWork (add i.val 1000) shouldThrow =
      if shouldThrow ∧ divisible i then .error "Simulated error"
      else .ok (cpuWork (mul (i.val + 1000) 100)) := by
  have within := i.isLt
  have same : add i.val 1000 = i.val + 1000 := by
    rw [add, Int.bmod_eq_of_le] <;> omega
  have divides : ((i.val : ℤ) + 1000).tmod 10 = 0 ↔ divisible i = true := by
    rw [Int.tmod_eq_emod_of_nonneg (by omega)]
    simp only [divisible, decide_eq_true_eq]
    omega
  simp only [riskyWork, same, divides]

/-- Folding what a list of tasks has returned and thrown. -/
theorem foldl_handle (outcome : Fin numTasks → Except String ℤ) (l : List (Fin numTasks))
    (start count : ℤ) (lower : 0 ≤ count) (upper : count + l.length ≤ 2 ^ 31 - 1) :
    (l.map outcome).foldl (fun h result => handle h true result)
        ⟨Int.bmod start (2 ^ 32), count⟩ =
      ⟨Int.bmod (start + (l.map fun i => (outcome i).toOption.getD 0).sum) (2 ^ 32),
        count + (l.map fun i => if (outcome i).toOption.isNone then 1 else 0).sum⟩ := by
  induction l generalizing start count with
  | nil => simp
  | cons i rest inductionHypothesis =>
    rw [List.length_cons] at upper
    rw [List.map_cons, List.foldl_cons]
    cases result : outcome i with
    | ok value =>
      rw [handle, add, Int.bmod_add_bmod, inductionHypothesis _ _ lower (by omega)]
      simp [result, Except.toOption, Int.add_assoc]
    | error e =>
      have fits : add count 1 = count + 1 := by rw [add, Int.bmod_eq_of_le] <;> omega
      rw [handle, fits, inductionHypothesis _ _ (by omega) (by omega)]
      simp [result, Except.toOption, Int.add_assoc]

/-- At most every tenth task throws, whatever is drawn. For any number of tasks and every
interleaving: no future is empty when it is got, and an exception that comes out of one ends
nothing; the launcher can always be brought to its end; and then every task is done, every
future has been got, the exceptions counted are those of a set of tasks whose numbers are
divisible by ten, and the sum is that of the others. -/
theorem exceptions_counted (cpuWork : ℤ → ℤ) (numTasks : ℕ)
    (inRange : numTasks + 1000 ≤ 2 ^ 31 - 1) (c : Config numTasks ℤ String Handled)
    (reached : (stdAsyncExceptionHandling cpuWork numTasks).Reachable handle ⟨0, 0⟩ c) :
    (c.main ≠ .undefined ∧ ∀ i, c.tasks i ≠ .undefined) ∧
    (∃ last handled,
      Reaches ((stdAsyncExceptionHandling cpuWork numTasks).step handle ⟨0, 0⟩) c last ∧
      last.main = .finished handled) ∧
    ∀ handled, c.main = .finished handled →
      (∀ i, (c.tasks i).isDone = true ∧ c.valid i = false) ∧
      ∃ threw : Finset (Fin numTasks), (∀ i ∈ threw, (i.val + 1000) % 10 = 0) ∧
        handled.exceptionCount = threw.card ∧ threw.card ≤ (numTasks + 9) / 10 ∧
        handled.totalResult =
          Int.bmod (∑ i ∈ threwᶜ, cpuWork (mul (i.val + 1000) 100)) (2 ^ 32) := by
  have sound := reachable_sound reached
  refine ⟨sound.defined, sound.finishes, fun handled finished => ⟨sound.all_got finished, ?_⟩⟩
  obtain ⟨draws, results, same, rfl⟩ := (sound.collected finished).exists_draws fun _ => rfl
  let outcome : Fin numTasks → Except String ℤ := fun i =>
    riskyWork cpuWork (add i.val 1000) (draws i)
  have same : results.map Prod.snd = (List.finRange numTasks).map outcome := same
  have blind : results.foldl (fun h result => handle h result.1 result.2) ⟨0, 0⟩ =
      ((List.finRange numTasks).map outcome).foldl (fun h result => handle h true result)
        ⟨Int.bmod 0 (2 ^ 32), 0⟩ := by
    rw [Int.zero_bmod, ← same, List.foldl_map]
    rfl
  have length : (0 : ℤ) + (List.finRange numTasks).length ≤ 2 ^ 31 - 1 := by
    rw [List.length_finRange]
    omega
  rw [blind, foldl_handle outcome _ 0 0 le_rfl length, ← Fin.sum_univ_def, ← Fin.sum_univ_def]
  have known : ∀ i, outcome i = if draws i ∧ divisible i then .error "Simulated error"
      else .ok (cpuWork (mul (i.val + 1000) 100)) := fun i => riskyWork_eq inRange (draws i)
  let threw : Finset (Fin numTasks) := Finset.univ.filter fun i => draws i ∧ divisible i
  have may : ∀ i ∈ threw, divisible i = true := fun i member => (Finset.mem_filter.mp member).2.2
  refine ⟨threw, fun i member => ?_, ?_, card_divisible_le may, ?_⟩
  · simpa [divisible] using may i member
  · dsimp only
    rw [Int.zero_add, Finset.natCast_card_filter]
    refine Finset.sum_congr rfl fun i _ => ?_
    rw [known i]
    split <;> rfl
  · rw [Int.zero_add, Finset.compl_filter, Finset.sum_filter]
    refine congrArg (Int.bmod · _) (Finset.sum_congr rfl fun i _ => ?_)
    rw [known i]
    split <;> rfl

/-- Both tasks are to throw, and the first does. -/
theorem exceptions_counted_two : ∃ (c : Config 2 ℤ String Handled) (handled : Handled),
    (stdAsyncExceptionHandling (· + 1) 2).Reachable handle ⟨0, 0⟩ c ∧
    c.main = .finished handled ∧ handled.exceptionCount ≤ 1 := by
  let plan := stdAsyncExceptionHandling (· + 1) 2
  let schedule : List (Label 2 Bool) :=
    List.replicate 3 .main ++ [.task 1 true, .task 0 true] ++ List.replicate 5 .main
  have played : (run (plan.step handle ⟨0, 0⟩) Config.init schedule).map (·.main.isFinished) =
      some true := by
    decide +kernel
  obtain ⟨c, ran, done⟩ := Option.map_eq_some_iff.mp played
  obtain ⟨_, _, final⟩ :=
    exceptions_counted (· + 1) 2 (by decide) c ⟨schedule, ran⟩
  cases position : c.main with
  | finished handled =>
    obtain ⟨_, threw, _, counted, few, _⟩ := final handled position
    refine ⟨c, handled, ⟨schedule, ran⟩, position, ?_⟩
    rw [counted]
    exact_mod_cast few
  | _ => simp [position, Launcher.isFinished] at done

end Exceptions

section Timeouts

/-- Each future that is got is counted on one side. -/
theorem foldl_count (results : List (Bool × Except Empty Unit)) (w : Waited)
    (lower : 0 ≤ w.completedCount ∧ 0 ≤ w.timeoutCount)
    (upper : w.completedCount + w.timeoutCount + results.length ≤ 2 ^ 31 - 1) :
    let last := results.foldl (fun w result => count w result.1 result.2) w
    (0 ≤ last.completedCount ∧ 0 ≤ last.timeoutCount) ∧
      last.completedCount + last.timeoutCount =
        w.completedCount + w.timeoutCount + results.length := by
  induction results generalizing w with
  | nil => exact ⟨lower, by simp⟩
  | cons result rest inductionHypothesis =>
    obtain ⟨lowerCompleted, lowerTimeout⟩ := lower
    simp only [List.length_cons, Nat.cast_succ] at upper ⊢
    rw [List.foldl_cons]
    cases ready : result.1 with
    | true =>
      have fits : add w.completedCount 1 = w.completedCount + 1 := by
        rw [add, Int.bmod_eq_of_le] <;> omega
      have counted := inductionHypothesis (count w true result.2)
      simp only [count, if_true, fits] at counted ⊢
      obtain ⟨positive, sum⟩ := counted ⟨by omega, lowerTimeout⟩ (by omega)
      exact ⟨positive, by omega⟩
    | false =>
      have fits : add w.timeoutCount 1 = w.timeoutCount + 1 := by
        rw [add, Int.bmod_eq_of_le] <;> omega
      have counted := inductionHypothesis (count w false result.2)
      simp only [count, Bool.false_eq_true, if_false, fits] at counted ⊢
      obtain ⟨positive, sum⟩ := counted ⟨lowerCompleted, by omega⟩ (by omega)
      exact ⟨positive, by omega⟩

/-- A task that misses the time limit is waited for all the same. For any number of tasks,
every interleaving and any time limits that pass: no future is empty when it is got, the
launcher can always be brought to its end, and then every task is done, every future has been
got, and each task has been counted once, as completed or as timed out. -/
theorem timeouts_counted (numTasks : ℕ) (inRange : numTasks ≤ 2 ^ 31 - 1)
    (c : Config numTasks Unit Empty Waited)
    (reached : (stdAsyncTimeout numTasks).Reachable count ⟨0, 0⟩ c) :
    (c.main ≠ .undefined ∧ ∀ i, c.tasks i ≠ .undefined) ∧
    (∃ last waited, Reaches ((stdAsyncTimeout numTasks).step count ⟨0, 0⟩) c last ∧
      last.main = .finished waited) ∧
    ∀ waited, c.main = .finished waited →
      (∀ i, (c.tasks i).isDone = true ∧ c.valid i = false) ∧
      0 ≤ waited.completedCount ∧ 0 ≤ waited.timeoutCount ∧
      waited.completedCount + waited.timeoutCount = numTasks := by
  have sound := reachable_sound reached
  refine ⟨sound.defined, sound.finishes, fun waited finished => ⟨sound.all_got finished, ?_⟩⟩
  obtain ⟨draws, results, same, rfl⟩ := (sound.collected finished).exists_draws fun _ => rfl
  have length : results.length = numTasks := by
    have lengths := congrArg List.length same
    simpa [stdAsyncTimeout, independent] using lengths
  obtain ⟨⟨completed, timeouts⟩, sum⟩ :=
    foldl_count results ⟨0, 0⟩ ⟨le_rfl, le_rfl⟩ (by simp only [length]; omega)
  refine ⟨completed, timeouts, sum.trans ?_⟩
  simp [length]

/-- The first of two tasks is done in time, the second is not. -/
theorem timeouts_counted_two : ∃ (c : Config 2 Unit Empty Waited) (waited : Waited),
    (stdAsyncTimeout 2).Reachable count ⟨0, 0⟩ c ∧ c.main = .finished waited ∧
    waited.completedCount + waited.timeoutCount = 2 := by
  let schedule : List (Label 2 Unit) := List.replicate 3 .main ++
    [.task 0 (), .main, .main, .timeout, .task 1 (), .main, .main]
  have played : (run ((stdAsyncTimeout 2).step count ⟨0, 0⟩) Config.init schedule).map
      (·.main.isFinished) = some true := by
    decide +kernel
  obtain ⟨c, ran, done⟩ := Option.map_eq_some_iff.mp played
  obtain ⟨_, _, final⟩ := timeouts_counted 2 (by decide) c ⟨schedule, ran⟩
  cases position : c.main with
  | finished waited =>
    obtain ⟨_, _, _, sum⟩ := final waited position
    exact ⟨c, waited, ⟨schedule, ran⟩, position, sum⟩
  | _ => simp [position, Launcher.isFinished] at done

end Timeouts

section Chains

variable {cpuWork : ℤ → ℤ}

/-- What the task of a chain at a place returns, where each step returns the same. -/
def chainValue (work : ℤ) : ℕ → ℤ
  | 0 => work
  | place + 1 => add (chainValue work place) work

/-- The value of a chain is its number of steps times the work of one, wrapped. -/
theorem bmod_chainValue (work : ℤ) (place : ℕ) :
    Int.bmod (chainValue work place) (2 ^ 32) = Int.bmod ((place + 1) * work) (2 ^ 32) := by
  induction place with
  | zero => simp [chainValue]
  | succ place inductionHypothesis =>
    rw [chainValue, add, Int.bmod_bmod, Int.add_bmod, inductionHypothesis, ← Int.add_bmod]
    congr 1
    rw [Nat.cast_succ, Int.add_mul (place + 1), Int.one_mul]

/-- A task yields the value of its chain so far. -/
theorem stdAsyncChaining_yields {i : Fin (numChains * chainLength)} {result : Except Empty ℤ}
    (yields : (stdAsyncChaining cpuWork numChains).Yields i result) :
    result = .ok (chainValue (cpuWork 2000) (i.val % chainLength)) := by
  induction yields with
  | direct i _ alone =>
    have start : i.val % chainLength = 0 := by
      by_contra inside
      have needs : previousTask i = none := alone
      simp [previousTask, inside] at needs
    rw [start]
    rfl
  | after i j _ v needs _ inductionHypothesis =>
    obtain ⟨inside, before⟩ := (previousTask_eq_some_iff i j).mp needs
    have place : i.val % chainLength = j.val % chainLength + 1 := by
      dsimp only [chainLength] at inside ⊢
      omega
    obtain rfl := Except.ok.inj inductionHypothesis
    rw [place]
    rfl
  | through i j e => exact e.elim

/-- A chain adds up one step after the other. For any number of chains and every
interleaving: no future is empty when it is got; a task works only when the task before it in
its chain is done; the launcher can always be brought to its end; and then every task is done,
every future has been got, and the sum is what one step returns, as often as there are
tasks. -/
theorem chains_add_up (cpuWork : ℤ → ℤ) (numChains : ℕ)
    (c : Config (numChains * chainLength) ℤ Empty ℤ)
    (reached : (stdAsyncChaining cpuWork numChains).Reachable collectTotal 0 c) :
    (c.main ≠ .undefined ∧ ∀ i, c.tasks i ≠ .undefined) ∧
    (∀ i j, previousTask i = some j → (c.tasks i).wants = false → (c.tasks j).isDone = true) ∧
    (∃ last totalResult,
      Reaches ((stdAsyncChaining cpuWork numChains).step collectTotal 0) c last ∧
      last.main = .finished totalResult) ∧
    ∀ totalResult, c.main = .finished totalResult →
      (∀ i, (c.tasks i).isDone = true ∧ c.valid i = false) ∧
      totalResult = Int.bmod ((numChains * chainLength) * cpuWork 2000) (2 ^ 32) := by
  have sound := reachable_sound reached
  refine ⟨sound.defined, fun i j needs got => sound.before needs got, sound.finishes,
    fun totalResult finished => ⟨sound.all_got finished, ?_⟩⟩
  have last : ∀ chain : Fin numChains, (finalTask chain).val % chainLength = 4 := fun chain =>
    (mem_final_iff _).mp (List.mem_map_of_mem (List.mem_finRange chain))
  calc totalResult
      = ((List.finRange numChains).map finalTask).foldl
          (fun sum i => add sum (chainValue (cpuWork 2000) (i.val % chainLength))) 0 :=
        (sound.collected finished).eq_foldl (fun _ _ => stdAsyncChaining_yields)
          fun _ _ _ => rfl
    _ = Int.bmod (∑ _chain : Fin numChains, chainValue (cpuWork 2000) 4) (2 ^ 32) := by
        rw [List.foldl_map, ← foldl_finRange]
        simp only [last]
    _ = Int.bmod (numChains * (5 * cpuWork 2000)) (2 ^ 32) := by
        rw [Finset.sum_const, Finset.card_univ, Fintype.card_fin, nsmul_eq_mul,
          ← Int.mul_bmod_bmod, bmod_chainValue, Int.mul_bmod_bmod]
        rfl
    _ = Int.bmod ((numChains * chainLength) * cpuWork 2000) (2 ^ 32) := by
        rw [Int.mul_assoc]
        rfl

/-- Two chains, the second of which is done first. -/
theorem chains_add_up_two : ∃ c : Config (2 * chainLength) ℤ Empty ℤ,
    (stdAsyncChaining (· * 3) 2).Reachable collectTotal 0 c ∧ c.main = .finished 60000 := by
  let chain (tasks : List (Fin 10)) : List (Label 10 Unit) :=
    tasks.flatMap fun i => if i.val % 5 = 0 then [.task i ()] else [.task i (), .task i ()]
  let schedule : List (Label 10 Unit) := List.replicate 11 .main ++ chain [5, 6, 7, 8, 9] ++
    chain [0, 1, 2, 3, 4] ++ List.replicate 5 .main
  have played : (run ((stdAsyncChaining (· * 3) 2).step collectTotal 0) Config.init schedule).map
      (·.main.isFinished) = some true := by
    decide +kernel
  obtain ⟨c, ran, done⟩ := Option.map_eq_some_iff.mp played
  obtain ⟨_, _, _, final⟩ := chains_add_up (· * 3) 2 c ⟨schedule, ran⟩
  refine ⟨c, ⟨schedule, ran⟩, ?_⟩
  cases position : c.main with
  | finished totalResult =>
    rw [(final totalResult position).2]
    rfl
  | _ => simp [position, Launcher.isFinished] at done

end Chains

end ConcurrencyBench.AsyncFutures
