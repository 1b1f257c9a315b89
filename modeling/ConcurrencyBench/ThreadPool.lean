import ConcurrencyBench.Logs
import ConcurrencyBench.Runs
import ConcurrencyBench.WaitSets
import Mathlib.Tactic.DeriveFintype

/-!
# The thread pool, step by step

`thread_pool` is a FIFO of tasks under one mutex, a condition variable, a stop
flag outside the mutex, and worker threads. Every access to the flag, each lock
and unlock, each statement under the mutex, the sleep of `condition_.wait` and
each notification is one step of its thread, so an interleaving of these steps is
an interleaving of the C++ program. The wait evaluates its predicate under the
mutex, one operand a step, and then releases the mutex and falls asleep in one
step; woken, it locks the mutex and evaluates the predicate again. Spurious
wake-ups are steps of their own.

Tasks are values of any type. A running task may submit further tasks and ends at
some point; what it computes is not modelled, nor is its future. The owner is the
thread that destroys the pool, after as many submits of its own as it likes.
Clients may call `submit` at any moment, also while the pool is being destroyed.

The log records calls of `submit` and how they ended, each insertion and removal
of a task, and the start and end of each execution. No step of the code reads it.
-/

namespace ConcurrencyBench.ThreadPool

open Interleaving

universe u v
variable {ι : Type u} {n : ℕ} {S : Type u} {T : Type v}

/-- The threads: the pool's workers, the clients, and the owner. -/
inductive Party (n : ℕ) (S : Type u)
  | worker (w : Fin n)
  | client (s : S)
  | owner
deriving DecidableEq, Fintype

/-- The members of one pool. `queueMutex` is the thread holding the mutex and
`sleepers` the threads asleep on `condition_`. -/
structure Pool (ι : Type u) (T : Type v) where
  tasks : List T
  queueMutex : Option ι
  sleepers : Finset ι
  stop : Bool

/-- The workers the constructor starts for its argument. -/
def workerCount (numThreads : ℕ) : ℕ := if numThreads = 0 then 1 else numThreads

/-- There is a worker. -/
theorem workerCount_pos (numThreads : ℕ) : 0 < workerCount numThreads := by
  unfold workerCount
  split <;> omega

/-- The next statement of a worker. After the removal the position carries the task. -/
inductive WorkerAt (T : Type v)
  | lock | waitStop | waitEmpty | sleep | asleep
  | exitStop | exitEmpty | exitUnlock | exited
  | take | takeUnlock (task : T) | running (task : T)

/-- The next statement of a `submit` in progress. -/
inductive SubmitAt
  | lock | loadStop | unlockThrow | enqueue | unlock | notifyOne

/-- The next statement of the destructor, with the join loop's counter. -/
inductive DestructorAt
  | storeStop | notifyAll | join (k : ℕ) | done

/-- A thread is a worker in its loop, idle outside the pool, inside `submit`, or
inside the destructor. A `submit` carries the task whose body makes the call, if
one does. -/
inductive Pc (T : Type v)
  | worker (place : WorkerAt T)
  | idle
  | submit (place : SubmitAt) (task : T) (caller : Option T)
  | destructor (place : DestructorAt)

/-- Taking the mutex. -/
def Pool.lock (p : Pool ι T) (i : ι) : Option (Pool ι T) :=
  match p.queueMutex with
  | none => some { p with queueMutex := some i }
  | some _ => none

/-- The mutex is taken if it is free. -/
@[simp]
theorem lock_eq_some_iff (p p' : Pool ι T) (i : ι) :
    p.lock i = some p' ↔ p.queueMutex = none ∧ p' = { p with queueMutex := some i } := by
  unfold Pool.lock
  cases held : p.queueMutex <;> simp [eq_comm]

/-- A thread that takes the mutex goes on behind it. -/
theorem lock_map_eq_some_iff {p p' : Pool ι T} {i : ι} {pc pc' : Pc T} :
    (p.lock i).map (·, pc) = some (p', pc') ↔
      p.queueMutex = none ∧ { p with queueMutex := some i } = p' ∧ pc = pc' := by
  simp only [Option.map_eq_some_iff, lock_eq_some_iff, Prod.mk.injEq]
  constructor
  · rintro ⟨_, ⟨free, rfl⟩, rfl, rfl⟩
    exact ⟨free, rfl, rfl⟩
  · rintro ⟨free, rfl, rfl⟩
    exact ⟨_, ⟨free, rfl⟩, rfl, rfl⟩

/-- A thread that cannot take the mutex waits for another. -/
theorem held_of_lock_map_eq_none {p : Pool ι T} {i : ι} {pc : Pc T}
    (blocked : (p.lock i).map (·, pc) = none) : p.queueMutex ≠ none := by
  intro free
  rw [Option.map_eq_none_iff, Pool.lock, free] at blocked
  cases blocked

/-- Giving the mutex back. -/
def Pool.unlock (p : Pool ι T) : Pool ι T := { p with queueMutex := none }

/-- Where a thread goes on after a `submit`: in the body that made the call, or outside. -/
def resume : Option T → Pc T
  | none => .idle
  | some task => .worker (.running task)

/-- The body a thread may call `submit` from, if it may at all. -/
def Pc.mayCall : Pc T → Option (Option T)
  | .idle => some none
  | .worker (.running task) => some (some task)
  | _ => none

/-- A thread that may call is outside the pool or in a task's body. -/
theorem mayCall_cases {pc : Pc T} {caller : Option T} (ready : pc.mayCall = some caller) :
    (pc = .idle ∧ caller = none) ∨
      ∃ task, pc = .worker (.running task) ∧ caller = some task := by
  cases pc with
  | idle => exact .inl ⟨rfl, (Option.some.inj ready).symm⟩
  | worker place =>
    cases place with
    | running task => exact .inr ⟨task, rfl, (Option.some.inj ready).symm⟩
    | _ => contradiction
  | _ => contradiction

variable [DecidableEq ι]

/-- The worker loop, one statement at a time. `tasks_.front()` of an empty queue
is undefined and has no step. -/
def work (i : ι) (p : Pool ι T) : WorkerAt T → Option (Pool ι T × Pc T)
  -- std::unique_lock<std::mutex> lock(queue_mutex_);
  | .lock => (p.lock i).map (·, .worker .waitStop)
  -- condition_.wait(lock, [this] { return stop_.load() || !tasks_.empty(); });
  | .waitStop => some (p, if p.stop then .worker .exitStop else .worker .waitEmpty)
  | .waitEmpty => some (p, if p.tasks.isEmpty then .worker .sleep else .worker .exitStop)
  | .sleep =>
    some ({ p with queueMutex := none, sleepers := insert i p.sleepers }, .worker .asleep)
  | .asleep => if i ∈ p.sleepers then none else (p.lock i).map (·, .worker .waitStop)
  -- if (stop_.load() && tasks_.empty()) return;
  | .exitStop => some (p, if p.stop then .worker .exitEmpty else .worker .take)
  | .exitEmpty => some (p, if p.tasks.isEmpty then .worker .exitUnlock else .worker .take)
  | .exitUnlock => some (p.unlock, .worker .exited)
  | .exited => none
  -- task = std::move(tasks_.front()); tasks_.pop();
  | .take =>
    match p.tasks with
    | [] => none
    | task :: rest => some ({ p with tasks := rest }, .worker (.takeUnlock task))
  | .takeUnlock task => some (p.unlock, .worker (.running task))
  -- task();
  | .running _ => some (p, .worker .lock)

/-- A worker that takes a task takes the first. -/
theorem take_cases {i : ι} {p p' : Pool ι T} {pc' : Pc T}
    (moved : work i p .take = some (p', pc')) :
    ∃ task rest, p.tasks = task :: rest ∧ p' = { p with tasks := rest } ∧
      pc' = .worker (.takeUnlock task) := by
  rw [work] at moved
  split at moved
  · cases moved
  · next task rest queued =>
    obtain ⟨rfl, rfl⟩ := Prod.mk.inj (Option.some.inj moved)
    exact ⟨task, rest, queued, rfl, rfl⟩

omit [DecidableEq ι] in
/-- `submit`, one statement at a time, up to its notification. -/
def submit (i : ι) (p : Pool ι T) (task : T) (caller : Option T) :
    SubmitAt → Option (Pool ι T × Pc T)
  | .lock => (p.lock i).map (·, .submit .loadStop task caller)
  -- if (stop_.load()) throw std::runtime_error("submit on stopped thread_pool");
  | .loadStop => some (p,
    if p.stop then .submit .unlockThrow task caller else .submit .enqueue task caller)
  | .unlockThrow => some (p.unlock, resume caller)
  | .enqueue => some ({ p with tasks := p.tasks ++ [task] }, .submit .unlock task caller)
  | .unlock => some (p.unlock, .submit .notifyOne task caller)
  | .notifyOne => none

omit [DecidableEq ι] in
/-- The destructor: set the flag, notify all, join the workers in turn. -/
def destroy (n : ℕ) (exited : Fin n → Bool) (p : Pool ι T) :
    DestructorAt → Option (Pool ι T × Pc T)
  | .storeStop => some ({ p with stop := true }, .destructor .notifyAll)
  | .notifyAll => some ({ p with sleepers := ∅ }, .destructor (.join 0))
  | .join k =>
    if k < n then
      if ∀ w : Fin n, w.val = k → exited w = true then some (p, .destructor (.join (k + 1)))
      else none
    else some (p, .destructor .done)
  | .done => none

/-- The next step of a thread, other than a notification of one thread. -/
def exec (n : ℕ) (exited : Fin n → Bool) (i : ι) (p : Pool ι T) :
    Pc T → Option (Pool ι T × Pc T)
  | .worker place => work i p place
  | .idle => none
  | .submit place task caller => submit i p task caller place
  | .destructor place => destroy n exited p place

/-- What happens to the tasks. -/
inductive Event (T : Type v)
  | called (task : T)
  | enqueued (task : T)
  | ended (task : T) (accepted : Bool)
  | dequeued (task : T)
  | began (task : T)
  | finished (task : T)

/-- What a step between two positions adds to the log. -/
def observe : Pc T → Pc T → List (Event T)
  | .submit .enqueue task _, _ => [.enqueued task]
  | .submit .unlockThrow task _, _ => [.ended task false]
  | .worker .take, .worker (.takeUnlock task) => [.dequeued task]
  | .worker (.takeUnlock task), _ => [.began task]
  | .worker (.running task), _ => [.finished task]
  | _, _ => []

/-- The pool, every thread's position, and the log. -/
structure Config (n : ℕ) (S : Type u) (T : Type v) where
  pool : Pool (Party n S) T
  pcs : Party n S → Pc T
  log : List (Party n S × Event T)

/-- The worker thread has left its loop. -/
def Pc.hasExited : Pc T → Bool
  | .worker .exited => true
  | _ => false

/-- The worker has returned. -/
def Config.exited (c : Config n S T) (w : Fin n) : Bool := (c.pcs (.worker w)).hasExited

/-- A schedule begins a `submit` or the destructor, lets a thread go on, lets it
notify one thread of the schedule's choice, or wakes a thread for no reason. -/
inductive Label (n : ℕ) (S : Type u) (T : Type v)
  | submit (i : Party n S) (task : T)
  | destroy
  | go (i : Party n S)
  | notify (i : Party n S) (woken : Option (Party n S))
  | spurious (i : Party n S)

/-- The first position of a thread. -/
def start : Party n S → Pc T
  | .worker _ => .worker .lock
  | _ => .idle

/-- A new pool: no task, and every worker before its first lock. -/
def Config.init : Config n S T := ⟨⟨[], none, ∅, false⟩, start, []⟩

variable [DecidableEq S]

/-- One step of the whole program. -/
def step (c : Config n S T) : Label n S T → Option (Config n S T)
  | .submit i task => (c.pcs i).mayCall.map fun caller =>
      ⟨c.pool, Function.update c.pcs i (.submit .lock task caller),
        c.log ++ [Event.called task].map (i, ·)⟩
  | .destroy =>
    match c.pcs .owner with
    | .idle => some ⟨c.pool, Function.update c.pcs .owner (.destructor .storeStop), c.log⟩
    | _ => none
  | .go i => (exec n c.exited i c.pool (c.pcs i)).map fun (pool, pc) =>
      ⟨pool, Function.update c.pcs i pc, c.log ++ (observe (c.pcs i) pc).map (i, ·)⟩
  -- condition_.notify_one(); return future;
  | .notify i woken =>
    match c.pcs i with
    | .submit .notifyOne task caller => (notifyOne c.pool.sleepers woken).map fun sleepers =>
        ⟨{ c.pool with sleepers }, Function.update c.pcs i (resume caller),
          c.log ++ [Event.ended task true].map (i, ·)⟩
    | _ => none
  | .spurious i =>
    if i ∈ c.pool.sleepers then
      some { c with pool := { c.pool with sleepers := c.pool.sleepers.erase i } }
    else none

/-- Every state some interleaving leads to. -/
def Reachable (c : Config n S T) : Prop := Reaches step Config.init c

/-- What one thread does in one step. A spurious wake-up is its sleeper's. The
last argument is what the log gains. -/
inductive Move (n : ℕ) (exited : Fin n → Bool) (i : ι) (p : Pool ι T) (pc : Pc T) :
    Pool ι T → Pc T → List (Event T) → Prop
  | submit (task : T) (caller : Option T) (ready : pc.mayCall = some caller) :
      Move n exited i p pc p (.submit .lock task caller) [.called task]
  | destroy (idle : pc = .idle) : Move n exited i p pc p (.destructor .storeStop) []
  | exec (p' : Pool ι T) (pc' : Pc T) (moved : exec n exited i p pc = some (p', pc')) :
      Move n exited i p pc p' pc' (observe pc pc')
  | notify (task : T) (caller : Option T) (standing : pc = .submit .notifyOne task caller)
      (woken : Option ι) (sleepers : Finset ι)
      (notified : notifyOne p.sleepers woken = some sleepers) :
      Move n exited i p pc { p with sleepers } (resume caller) [.ended task true]
  | spurious (sleeping : i ∈ p.sleepers) :
      Move n exited i p pc { p with sleepers := p.sleepers.erase i } pc []

/-- Every step is one thread's move; the other threads stay where they are. -/
theorem step_move {c c' : Config n S T} {label : Label n S T} (taken : step c label = some c') :
    ∃ i pool pc events, Move n c.exited i c.pool (c.pcs i) pool pc events ∧
      c' = ⟨pool, Function.update c.pcs i pc, c.log ++ events.map (i, ·)⟩ := by
  cases label with
  | submit i task =>
    simp only [step, Option.map_eq_some_iff] at taken
    obtain ⟨caller, ready, same⟩ := taken
    exact ⟨i, _, _, _, .submit task caller ready, same.symm⟩
  | destroy =>
    cases idle : c.pcs .owner with
    | idle =>
      simp only [step, idle, Option.some.injEq] at taken
      exact ⟨.owner, _, _, _, .destroy idle, by simp [← taken]⟩
    | _ => simp [step, idle] at taken
  | go i =>
    simp only [step, Option.map_eq_some_iff] at taken
    obtain ⟨⟨pool, pc⟩, moved, same⟩ := taken
    exact ⟨i, pool, pc, _, .exec pool pc moved, same.symm⟩
  | notify i woken =>
    simp only [step] at taken
    split at taken
    · rename_i task caller standing
      simp only [Option.map_eq_some_iff] at taken
      obtain ⟨sleepers, notified, same⟩ := taken
      exact ⟨i, _, _, _, .notify task caller standing woken sleepers notified, same.symm⟩
    · simp at taken
  | spurious i =>
    simp only [step, Option.ite_none_right_eq_some, Option.some.injEq] at taken
    refine ⟨i, _, _, _, .spurious taken.1, ?_⟩
    simp [← taken.2]

end ConcurrencyBench.ThreadPool
