import ConcurrencyBench.Runs
import ConcurrencyBench.WaitSets
import Mathlib.Data.BitVec

/-!
# The manual barrier, step by step

`ManualBarrier` counts arrivals under a mutex. The last arrival of a round resets
the count, moves the generation on and notifies all; the others wait until the
generation has passed the one they read on entry. The three numbers are `size_t`,
here bit vectors of any width. Each statement under the mutex, the lock, the sleep
of `cv_.wait` and the unlock on return is one step of the calling thread; the wait
evaluates its predicate under the mutex and then releases it and falls asleep in
one step. Spurious wake-ups are steps of their own.

Every thread makes a number of calls of its own. A thread has entered a call from
the moment it has locked the mutex there; before that it has left no trace. The
calls it has returned from are counted for the statements only.
-/

namespace ConcurrencyBench.ManualBarrier

open Interleaving

universe u
variable {ι : Type u} {w : ℕ}

/-- The members of one barrier. `mtx` is the thread holding the mutex and
`sleepers` the threads asleep on `cv_`. -/
structure Barrier (ι : Type u) (w : ℕ) where
  mtx : Option ι
  sleepers : Finset ι
  count : BitVec w
  waiting : BitVec w
  generation : BitVec w

/-- The constructor. -/
def Barrier.make (count : BitVec w) : Barrier ι w where
  mtx := none
  sleepers := ∅
  count := count
  waiting := 0#w
  generation := 0#w

/-- The next statement of an `arrive_and_wait` in progress, with `current_gen`
where it is still used. -/
inductive Pc (w : ℕ)
  | outside | lock | readGeneration | arrive (currentGen : BitVec w)
  | resetWaiting | bumpGeneration | notifyAll
  | test (currentGen : BitVec w) | sleep (currentGen : BitVec w) | asleep (currentGen : BitVec w)
  | unlock

/-- A thread's position, and the calls it has returned from. -/
structure Thread (w : ℕ) where
  pc : Pc w
  returned : ℕ

/-- Taking the mutex. -/
def Barrier.lock (b : Barrier ι w) (i : ι) : Option (Barrier ι w) :=
  match b.mtx with
  | none => some { b with mtx := some i }
  | some _ => none

/-- The mutex is taken if it is free. -/
@[simp]
theorem lock_eq_some_iff (b b' : Barrier ι w) (i : ι) :
    b.lock i = some b' ↔ b.mtx = none ∧ b' = { b with mtx := some i } := by
  unfold Barrier.lock
  cases held : b.mtx <;> simp [eq_comm]

/-- A thread that takes the mutex goes on behind it. -/
theorem lock_map_eq_some_iff {b b' : Barrier ι w} {i : ι} {pc pc' : Pc w} :
    (b.lock i).map (·, pc) = some (b', pc') ↔
      b.mtx = none ∧ { b with mtx := some i } = b' ∧ pc = pc' := by
  simp only [Option.map_eq_some_iff, lock_eq_some_iff, Prod.mk.injEq]
  constructor
  · rintro ⟨_, ⟨free, rfl⟩, rfl, rfl⟩
    exact ⟨free, rfl, rfl⟩
  · rintro ⟨free, rfl, rfl⟩
    exact ⟨_, ⟨free, rfl⟩, rfl, rfl⟩

variable [DecidableEq ι]

/-- `arrive_and_wait`, one statement at a time. -/
def arriveAndWait (i : ι) (b : Barrier ι w) : Pc w → Option (Barrier ι w × Pc w)
  | .outside => none
  -- std::unique_lock<std::mutex> lock(mtx_);
  | .lock => (b.lock i).map (·, .readGeneration)
  -- const auto current_gen = generation_;
  | .readGeneration => some (b, .arrive b.generation)
  -- if (++waiting_ == count_)
  | .arrive currentGen =>
    some ({ b with waiting := b.waiting + 1#w },
      if b.waiting + 1#w = b.count then .resetWaiting else .test currentGen)
  -- waiting_ = 0; ++generation_; cv_.notify_all();
  | .resetWaiting => some ({ b with waiting := 0#w }, .bumpGeneration)
  | .bumpGeneration => some ({ b with generation := b.generation + 1#w }, .notifyAll)
  | .notifyAll => some ({ b with sleepers := ∅ }, .unlock)
  -- cv_.wait(lock, [this, current_gen] { return generation_ > current_gen; });
  | .test currentGen =>
    some (b, if currentGen < b.generation then .unlock else .sleep currentGen)
  | .sleep currentGen =>
    some ({ b with mtx := none, sleepers := insert i b.sleepers }, .asleep currentGen)
  | .asleep currentGen =>
    if i ∈ b.sleepers then none else (b.lock i).map (·, .test currentGen)
  | .unlock => some ({ b with mtx := none }, .outside)

omit [DecidableEq ι] in
/-- The calls returned from after a step from a position. -/
def Pc.returns : Pc w → ℕ
  | .unlock => 1
  | _ => 0

/-- The barrier and where the threads are. -/
structure Config (ι : Type u) (w : ℕ) where
  barrier : Barrier ι w
  threads : ι → Thread w

/-- A schedule lets a thread begin its next call, lets it go on, or wakes it for
no reason. -/
inductive Label (ι : Type u)
  | call (i : ι)
  | go (i : ι)
  | spurious (i : ι)

/-- The new barrier, with nobody in it. -/
def Config.init (count : BitVec w) : Config ι w := ⟨Barrier.make count, fun _ => ⟨.outside, 0⟩⟩

/-- One step of the whole program, in which each thread makes the given number of calls. -/
def step (calls : ι → ℕ) (c : Config ι w) : Label ι → Option (Config ι w)
  | .call i =>
    match (c.threads i).pc with
    | .outside =>
      if (c.threads i).returned < calls i then
        some ⟨c.barrier, Function.update c.threads i ⟨.lock, (c.threads i).returned⟩⟩
      else none
    | _ => none
  | .go i => (arriveAndWait i c.barrier (c.threads i).pc).map fun (barrier, pc) =>
      ⟨barrier, Function.update c.threads i
        ⟨pc, (c.threads i).returned + (c.threads i).pc.returns⟩⟩
  | .spurious i =>
    if i ∈ c.barrier.sleepers then
      some { c with barrier := { c.barrier with sleepers := c.barrier.sleepers.erase i } }
    else none

/-- Every state some interleaving leads to. -/
def Reachable (calls : ι → ℕ) (count : BitVec w) (c : Config ι w) : Prop :=
  Reaches (step calls) (Config.init count) c

/-- What one thread does in one step. A spurious wake-up is its sleeper's. -/
inductive Move (quota : ℕ) (i : ι) (b : Barrier ι w) (t : Thread w) :
    Barrier ι w → Thread w → Prop
  | call (outside : t.pc = .outside) (more : t.returned < quota) :
      Move quota i b t b ⟨.lock, t.returned⟩
  | go (b' : Barrier ι w) (pc : Pc w) (moved : arriveAndWait i b t.pc = some (b', pc)) :
      Move quota i b t b' ⟨pc, t.returned + t.pc.returns⟩
  | spurious (sleeping : i ∈ b.sleepers) :
      Move quota i b t { b with sleepers := b.sleepers.erase i } t

/-- Every step is one thread's move; the other threads stay where they are. -/
theorem step_move {calls : ι → ℕ} {c c' : Config ι w} {label : Label ι}
    (taken : step calls c label = some c') :
    ∃ i barrier thread, Move (calls i) i c.barrier (c.threads i) barrier thread ∧
      c' = ⟨barrier, Function.update c.threads i thread⟩ := by
  cases label with
  | call i =>
    simp only [step] at taken
    split at taken
    · rename_i outside
      simp only [Option.ite_none_right_eq_some, Option.some.injEq] at taken
      exact ⟨i, _, _, .call outside taken.1, taken.2.symm⟩
    · simp at taken
  | go i =>
    simp only [step, Option.map_eq_some_iff] at taken
    obtain ⟨⟨barrier, pc⟩, moved, same⟩ := taken
    exact ⟨i, barrier, _, .go barrier pc moved, same.symm⟩
  | spurious i =>
    simp only [step, Option.ite_none_right_eq_some, Option.some.injEq] at taken
    refine ⟨i, _, _, .spurious taken.1, ?_⟩
    simp [← taken.2]

end ConcurrencyBench.ManualBarrier
