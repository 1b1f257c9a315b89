import Mathlib.Data.Int.CardIntervalMod

/-!
# Pinning the workers

Each worker of a contention window asks for a core of its own before it waits for the start.
The cores are numbered from zero, and the workers are dealt out one after the other from
core one on, so that core zero comes last in each round. The operating system may refuse a
core. Then the worker stays where it is, and nobody is told.

The number of hardware threads, whether the platform has affinity and which requests are
granted are parameters; zero hardware threads means that the number is not known. The
numbers are in the range of an `int`.
-/

namespace ConcurrencyBench.Affinity

/-- `get_num_logical_cores`, of `std::thread::hardware_concurrency()` -/
def getNumLogicalCores (hardwareConcurrency : ℕ) : ℕ :=
  if hardwareConcurrency = 0 then 1 else hardwareConcurrency

/-- `get_available_cores` -/
def getAvailableCores (hardwareConcurrency : ℕ) : List ℕ :=
  List.range (getNumLogicalCores hardwareConcurrency)

/-- The core that `maybe_pin` asks for, if it asks for one. -/
def requestedCore (isAffinitySupported : Bool) (hardwareConcurrency threadIndex : ℕ) : Option ℕ :=
  let cores := getAvailableCores hardwareConcurrency
  if !isAffinitySupported then none
  else if cores.isEmpty then none
  -- cores[static_cast<size_t>(thread_index + 1) % cores.size()]
  else cores[(threadIndex + 1) % cores.length]?

/-- `maybe_pin`: the core a worker is pinned to, if any. What `pin_thread_to_core` returns is
discarded. -/
def maybePin (pinThreadToCore : ℕ → Bool) (isAffinitySupported : Bool)
    (hardwareConcurrency threadIndex : ℕ) : Option ℕ :=
  (requestedCore isAffinitySupported hardwareConcurrency threadIndex).filter pinThreadToCore

/-- The number of workers that ask for a core. -/
def load (hardwareConcurrency threads core : ℕ) : ℕ :=
  Nat.count (fun threadIndex => requestedCore true hardwareConcurrency threadIndex = some core)
    threads

/-- The number of workers that are pinned to it. -/
def pinned (pinThreadToCore : ℕ → Bool) (hardwareConcurrency threads core : ℕ) : ℕ :=
  Nat.count (fun threadIndex =>
    maybePin pinThreadToCore true hardwareConcurrency threadIndex = some core) threads

section Dealing

/-- There is a core. -/
theorem getNumLogicalCores_pos (hardwareConcurrency : ℕ) :
    0 < getNumLogicalCores hardwareConcurrency := by
  unfold getNumLogicalCores
  split
  · exact Nat.one_pos
  next known => exact Nat.pos_of_ne_zero known

variable {hardwareConcurrency threads core : ℕ}

/-- The cores are numbered without gaps. -/
theorem mem_getAvailableCores : core ∈ getAvailableCores hardwareConcurrency ↔
    core < getNumLogicalCores hardwareConcurrency := List.mem_range

/-- The workers are dealt out from core one on. -/
theorem requestedCore_true (hardwareConcurrency threadIndex : ℕ) :
    requestedCore true hardwareConcurrency threadIndex =
      some ((threadIndex + 1) % getNumLogicalCores hardwareConcurrency) := by
  have some_core := getNumLogicalCores_pos hardwareConcurrency
  have nonempty : (List.range (getNumLogicalCores hardwareConcurrency)).isEmpty = false := by
    rw [List.isEmpty_eq_false_iff, Ne, List.range_eq_nil]
    exact some_core.ne'
  have inRange := Nat.mod_lt (threadIndex + 1) some_core
  simp only [requestedCore, getAvailableCores, nonempty, Bool.not_true, Bool.false_eq_true, if_false,
    List.length_range]
  exact List.getElem?_range inRange

/-- The worker before a core is `core - 1` of the first round, around the end. -/
theorem requested_iff {threadIndex : ℕ} (listed : core < getNumLogicalCores hardwareConcurrency) :
    requestedCore true hardwareConcurrency threadIndex = some core ↔
      threadIndex ≡ core + (getNumLogicalCores hardwareConcurrency - 1)
        [MOD getNumLogicalCores hardwareConcurrency] := by
  have around : core + getNumLogicalCores hardwareConcurrency =
      core + (getNumLogicalCores hardwareConcurrency - 1) + 1 := by omega
  have same : core + getNumLogicalCores hardwareConcurrency ≡ core
      [MOD getNumLogicalCores hardwareConcurrency] := Nat.add_mod_right core _
  rw [requestedCore_true, Option.some.injEq]
  constructor
  · intro asked
    have dealt : threadIndex + 1 ≡ core [MOD getNumLogicalCores hardwareConcurrency] :=
      asked.trans (Nat.mod_eq_of_lt listed).symm
    exact Nat.ModEq.add_right_cancel' 1 (around ▸ dealt.trans same.symm)
  · intro residue
    have dealt : threadIndex + 1 ≡ core [MOD getNumLogicalCores hardwareConcurrency] :=
      (residue.add_right 1).trans (around ▸ same)
    exact Eq.trans dealt (Nat.mod_eq_of_lt listed)

/-- A core gets a worker of each whole round, and of the round in progress one at most. -/
theorem load_eq (listed : core < getNumLogicalCores hardwareConcurrency) :
    load hardwareConcurrency threads core = threads / getNumLogicalCores hardwareConcurrency +
      if (core + (getNumLogicalCores hardwareConcurrency - 1)) %
        getNumLogicalCores hardwareConcurrency < threads % getNumLogicalCores hardwareConcurrency
      then 1 else 0 := by
  rw [← Nat.count_modEq_card threads (getNumLogicalCores_pos hardwareConcurrency)]
  simp only [load, requested_iff listed]

/-- Core zero gets none of the round in progress. -/
theorem load_zero : load hardwareConcurrency threads 0 =
    threads / getNumLogicalCores hardwareConcurrency := by
  have some_core := getNumLogicalCores_pos hardwareConcurrency
  have last : ¬ (0 + (getNumLogicalCores hardwareConcurrency - 1)) %
      getNumLogicalCores hardwareConcurrency < threads % getNumLogicalCores hardwareConcurrency := by
    rw [Nat.zero_add, Nat.mod_eq_of_lt (by omega)]
    have less := Nat.mod_lt threads some_core
    omega
  rw [load_eq some_core, if_neg last, Nat.add_zero]

/-- Those who ask for a core that is granted are pinned to it, and nobody to another. -/
theorem pinned_eq (pinThreadToCore : ℕ → Bool) (hardwareConcurrency threads core : ℕ) :
    pinned pinThreadToCore hardwareConcurrency threads core =
      if pinThreadToCore core then load hardwareConcurrency threads core else 0 := by
  have granted : ∀ threadIndex,
      maybePin pinThreadToCore true hardwareConcurrency threadIndex = some core ↔
        requestedCore true hardwareConcurrency threadIndex = some core ∧
          pinThreadToCore core = true := by
    intro threadIndex
    rw [maybePin, Option.filter_eq_some_iff]
  simp only [pinned, load, granted]
  cases pinThreadToCore core with
  | true => simp only [and_true, if_true]
  | false => simp only [Bool.false_eq_true, and_false, Nat.count_false, if_false]

end Dealing

/-- The workers ask for the cores evenly, and spare core zero as long as possible. For any
number of workers and hardware threads, where the platform has affinity: every worker asks for
an available core, and two workers for the same one exactly if they are a whole number of
rounds apart; each core is asked for by the rounded share of the workers or one more, and no
core by fewer than core zero, which nobody asks for exactly if there are fewer workers than
cores. Whatever is granted, a core gets those who have asked for it, or nobody if it is
refused. -/
theorem workers_shared_evenly (hardwareConcurrency threads : ℕ) :
    (∀ threadIndex, ∃ core ∈ getAvailableCores hardwareConcurrency,
      requestedCore true hardwareConcurrency threadIndex = some core) ∧
    (∀ first second, requestedCore true hardwareConcurrency first =
        requestedCore true hardwareConcurrency second ↔
      first ≡ second [MOD getNumLogicalCores hardwareConcurrency]) ∧
    (∀ core ∈ getAvailableCores hardwareConcurrency,
      threads / getNumLogicalCores hardwareConcurrency ≤ load hardwareConcurrency threads core ∧
      load hardwareConcurrency threads core ≤
        threads / getNumLogicalCores hardwareConcurrency + 1 ∧
      load hardwareConcurrency threads 0 ≤ load hardwareConcurrency threads core) ∧
    (load hardwareConcurrency threads 0 = 0 ↔
      threads < getNumLogicalCores hardwareConcurrency) ∧
    (∀ pinThreadToCore core, pinned pinThreadToCore hardwareConcurrency threads core =
      if pinThreadToCore core then load hardwareConcurrency threads core else 0) := by
  have some_core := getNumLogicalCores_pos hardwareConcurrency
  refine ⟨?_, ?_, ?_, ?_, fun pinThreadToCore core => pinned_eq pinThreadToCore _ _ core⟩
  · intro threadIndex
    exact ⟨_, mem_getAvailableCores.mpr (Nat.mod_lt _ some_core), requestedCore_true _ _⟩
  · intro first second
    rw [requestedCore_true, requestedCore_true, Option.some.injEq]
    exact ⟨fun same => Nat.ModEq.add_right_cancel' 1 same, fun same => same.add_right 1⟩
  · intro core listed
    rw [load_zero, load_eq (mem_getAvailableCores.mp listed)]
    split <;> omega
  · rw [load_zero, Nat.div_eq_zero_iff]
    omega

end ConcurrencyBench.Affinity
