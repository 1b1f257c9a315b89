import ConcurrencyBench.Runs
import ConcurrencyBench.TimerService
import Mathlib.Data.Finset.Basic
import Mathlib.Data.Finset.Range

/-!
# The coroutine benchmarks, step by step

One iteration of a coroutine benchmark creates its tasks on the main thread,
starts each of them there, waits until all flags are set, and destroys the task
frames and then the timer service. A started task runs to its `co_await` and
either goes straight on or schedules itself, to be resumed by the timer thread;
the two threads meet in the frames, the flags and the members of the service.

A frame holds the promise, the body's locals and the awaiters of the expressions
in progress, so the awaiter that ends a body lives there too. The frame records
where the coroutine is suspended. Resuming one that is running or has ended is
undefined and has no step. Nothing assigns `continuation`, so it is the coroutine
that does nothing in every promise; returning it goes back to whoever resumed the
task. What the loops of the bodies compute is not modelled, only that each
iteration uses a local of the frame.

A frame's memory is allocated by one step and given back by another. Nothing else
in a step depends on whether the memory is there, so a step that uses a frame
that is gone is a step like any other, and it is a theorem or not that there is none.
-/

namespace ConcurrencyBench.Coroutines

open Interleaving TimerService

/-- The threads of one iteration. -/
inductive Party
  | main
  | timer
deriving DecidableEq

/-- The coroutines a task is made from, with their arguments after the service. -/
inductive Body
  | asyncCpuTask (workSize : ℤ)
  | asyncIoTask (duration : ℤ)
  | asyncMixedTask (cpuWork : ℤ) (ioDuration : ℤ)

/-- The iterations of `for (int i = 0; i < work / 2; ++i)`. -/
def Body.firstHalf : Body → ℕ
  | .asyncCpuTask workSize => (workSize.tdiv 2).toNat
  | .asyncIoTask _ => 0
  | .asyncMixedTask cpuWork _ => (cpuWork.tdiv 2).toNat

/-- The iterations of `for (int i = work / 2; i < work; ++i)`. -/
def Body.secondHalf : Body → ℕ
  | .asyncCpuTask workSize => (workSize - workSize.tdiv 2).toNat
  | .asyncIoTask _ => 0
  | .asyncMixedTask cpuWork _ => (cpuWork - cpuWork.tdiv 2).toNat

/-- The delay the awaiter schedules. -/
def Body.delay : Body → ℤ
  | .asyncCpuTask _ => 0
  | .asyncIoTask duration => duration
  | .asyncMixedTask _ ioDuration => ioDuration

/-- What `await_ready` answers: `false`, or `duration.count() <= 0`. -/
def Body.awaitReady : Body → Bool
  | .asyncCpuTask _ => false
  | .asyncIoTask duration => duration ≤ 0
  | .asyncMixedTask _ ioDuration => ioDuration ≤ 0

/-- One iteration: how many tasks there are, and the body of each. -/
structure Program where
  numTasks : ℕ
  body : ℕ → Body

/-- What has become of a frame. -/
inductive Status
  | absent
  | alive
  | destroyed
deriving DecidableEq

/-- Where a coroutine can be suspended. -/
inductive SuspendPoint
  | initial
  | await
  | final
deriving DecidableEq

/-- A task's frame. `doneFlag` is the promise's member and `awaiterFlag` the copy
in the awaiter of `final_suspend`; both point to a task's flag or nowhere. -/
structure Frame where
  status : Status
  suspended : Option SuspendPoint
  doneFlag : Option ℕ
  awaiterFlag : Option ℕ

/-- What both threads see. -/
structure Shared where
  now : ℤ
  timers : Timers Party ℕ
  frames : ℕ → Frame
  done : ℕ → Bool

/-- One frame is set. -/
def Shared.setFrame (s : Shared) (task : ℕ) (frame : Frame) : Shared :=
  { s with frames := Function.update s.frames task frame }

/-- The next statement of a coroutine on the thread that has resumed it. -/
inductive CoAt
  | resume
  | first (left : ℕ) | ready | suspend | awaitSuspend | schedule (place : ScheduleAt)
  | second (left : ℕ) | finalSuspend | finalSuspended
  | readDoneFlag | storeDone (flag : ℕ) | readContinuation

/-- A task's coroutine, one statement at a time. No next position means that the
call that resumed it returns. -/
def execute (i : Party) (body : Body) (task : ℕ) (s : Shared) :
    CoAt → Option (Shared × Option CoAt)
  -- h.resume(); entry.handle.resume();
  | .resume =>
    match (s.frames task).suspended with
    | some .initial =>
      some (s.setFrame task { s.frames task with suspended := none }, some (.first body.firstHalf))
    | some .await =>
      some (s.setFrame task { s.frames task with suspended := none }, some (.second body.secondHalf))
    | _ => none
  | .first 0 => some (s, some .ready)
  | .first (left + 1) => some (s, some (.first left))
  -- co_await YieldAwaiter{&timers}; co_await IoAwaiter{&timers, duration};
  | .ready => some (s, if body.awaitReady then some (.second body.secondHalf) else some .suspend)
  | .suspend =>
    some (s.setFrame task { s.frames task with suspended := some .await }, some .awaitSuspend)
  -- timers->schedule(duration, h);
  | .awaitSuspend => some (s, some (.schedule (.readClock body.delay)))
  | .schedule place => (schedule i s.now task s.timers place).map fun (timers, place) =>
      ({ s with timers }, place.map .schedule)
  | .second 0 => some (s, some .finalSuspend)
  | .second (left + 1) => some (s, some (.second left))
  -- return awaiter{continuation, done_flag};
  | .finalSuspend =>
    some (s.setFrame task { s.frames task with awaiterFlag := (s.frames task).doneFlag },
      some .finalSuspended)
  | .finalSuspended =>
    some (s.setFrame task { s.frames task with suspended := some .final }, some .readDoneFlag)
  -- if (done_flag) done_flag->store(true, std::memory_order_release);
  | .readDoneFlag => some (s,
    match (s.frames task).awaiterFlag with
    | some flag => some (.storeDone flag)
    | none => some .readContinuation)
  | .storeDone flag =>
    some ({ s with done := Function.update s.done flag true }, some .readContinuation)
  -- return continuation;
  | .readContinuation => some (s, none)

/-- The statement reads or writes the task's frame: the suspension point, a local,
the promise, or an awaiter. A `schedule` works on its own arguments. -/
def CoAt.touchesFrame : CoAt → Bool
  | .schedule _ => false
  | _ => true

/-- The next statement of the main thread. The frames that are still to be
destroyed may be destroyed in any order. -/
inductive MainAt
  | loop (i : ℕ)
  | clearFlag (i : ℕ) | allocate (i : ℕ) | construct (i : ℕ) | setFlag (i : ℕ) | checkDone (i : ℕ)
  | running (i : ℕ) (place : CoAt)
  | poll (i : ℕ)
  | destroyTasks (left : Finset ℕ)
  | destructor (place : DestructorAt)

/-- The next statement of the timer thread: in `run`, or in a coroutine it has resumed. -/
inductive TimerAt
  | worker (place : WorkerAt ℕ)
  | running (task : ℕ) (place : CoAt)

/-- Where the main thread goes on after a statement of a task's coroutine. -/
def MainAt.following (i : ℕ) : Option CoAt → MainAt
  | some place => .running i place
  | none => .loop (i + 1)

/-- Where the timer thread goes on after a statement of a task's coroutine. -/
def TimerAt.following (task : ℕ) : Option CoAt → TimerAt
  | some place => .running task place
  -- lock.lock();
  | none => .worker .lock

/-- The timer thread has returned. -/
def TimerAt.exited : TimerAt → Bool
  | .worker .exited => true
  | _ => false

/-- An iteration of a benchmark, one statement at a time, up to the frames' destruction. -/
def iteration (p : Program) (workerExited : Bool) (s : Shared) :
    MainAt → Option (Shared × MainAt)
  -- for (int i = 0; i < num_tasks; ++i)
  | .loop i => some (s, if i < p.numTasks then .clearFlag i else .poll 0)
  -- done[static_cast<size_t>(i)].store(false, std::memory_order_relaxed);
  | .clearFlag i => some ({ s with done := Function.update s.done i false }, .allocate i)
  -- tasks.emplace_back(async_cpu_task(timers, cpu_work_size));
  | .allocate i => some (s.setFrame i { s.frames i with status := .alive }, .construct i)
  | .construct i =>
    some (s.setFrame i ⟨(s.frames i).status, some .initial, none, none⟩, .setFlag i)
  -- tasks.back().set_done_flag(&done[static_cast<size_t>(i)]);
  | .setFlag i => some (s.setFrame i { s.frames i with doneFlag := some i }, .checkDone i)
  -- tasks.back().resume();
  | .checkDone i => some (s,
    if (s.frames i).suspended = some .final then .loop (i + 1) else .running i .resume)
  | .running i place => (execute .main (p.body i) i s place).map fun (s, place) =>
      (s, .following i place)
  -- wait_all(done);
  | .poll i => some (s,
    if i < p.numTasks then (if s.done i then .poll (i + 1) else .poll 0)
    else .destroyTasks (Finset.range p.numTasks))
  -- the end of the iteration's block: the tasks, then the service
  | .destroyTasks left => if left = ∅ then some (s, .destructor .lock) else none
  | .destructor place => (destroy .main workerExited s.timers place).map fun (timers, place) =>
      ({ s with timers }, .destructor place)

/-- The frame the main thread's next statement reads or writes. Allocating its
memory is not a use of the frame. -/
def MainAt.touches : MainAt → Option ℕ
  | .construct i | .setFlag i | .checkDone i => some i
  | .running i place => if place.touchesFrame then some i else none
  | _ => none

/-- The frame the timer thread's next statement reads or writes. -/
def TimerAt.touches : TimerAt → Option ℕ
  | .worker _ => none
  | .running task place => if place.touchesFrame then some task else none

/-- What is shared and where the two threads are. -/
structure Config where
  shared : Shared
  main : MainAt
  timer : TimerAt

/-- Before the first statement of the loop: an empty service, no frame, no flag set. -/
def Config.init : Config where
  shared := ⟨0, Timers.make, fun _ => ⟨.absent, none, none, none⟩, fun _ => false⟩
  main := .loop 0
  timer := .worker .lock

/-- A schedule lets a thread go on, chooses the entry on top of the heap or the
frame to destroy next, ends the worker's sleep, or lets time pass. -/
inductive Label
  | main
  | timer
  | top (entry : Entry ℕ)
  | destroy (task : ℕ)
  | wake
  | tick (d : ℕ)

/-- The next step of the timer thread, other than reading the top of the heap. -/
def timerStep (p : Program) (s : Shared) : TimerAt → Option (Shared × TimerAt)
  -- entry.handle.resume();
  | .worker (.resume task) => some (s, .running task .resume)
  | .worker place => (run .timer s.now s.timers place).map fun (timers, place) =>
      ({ s with timers }, .worker place)
  | .running task place => (execute .timer (p.body task) task s place).map fun (s, place) =>
      (s, .following task place)

/-- One step of the whole program. -/
def step (p : Program) (c : Config) : Label → Option Config
  | .main => (iteration p c.timer.exited c.shared c.main).map fun (shared, main) =>
      { c with shared, main }
  | .timer => (timerStep p c.shared c.timer).map fun (shared, timer) => { c with shared, timer }
  -- auto entry = heap_.top();
  | .top entry =>
    match c.timer with
    | .worker .top =>
      if c.shared.timers.IsTop entry then some { c with timer := .worker (.dueTest entry) }
      else none
    | _ => none
  -- if (h) h.destroy();
  | .destroy task =>
    match c.main with
    | .destroyTasks left =>
      if task ∈ left then
        some { c with
          shared := c.shared.setFrame task { c.shared.frames task with status := .destroyed }
          main := .destroyTasks (left.erase task) }
      else none
    | _ => none
  | .wake =>
    if c.shared.timers.asleep then
      some { c with shared := { c.shared with timers := { c.shared.timers with asleep := false } } }
    else none
  | .tick d => some { c with shared := { c.shared with now := c.shared.now + d } }

/-- The frame a step reads or writes, if it does. -/
def touches (c : Config) : Label → Option ℕ
  | .main => c.main.touches
  | .timer => c.timer.touches
  | .destroy task => some task
  | _ => none

/-- Every state some interleaving leads to. -/
def Reachable (p : Program) (c : Config) : Prop := Reaches (step p) Config.init c

section Cases

variable {p : Program} {c c' : Config} {s s' : Shared}

/-- The timer thread begins to resume a task, moves on in its loop, or moves on
in a coroutine. -/
theorem timerStep_cases {timer timer' : TimerAt}
    (moved : timerStep p s timer = some (s', timer')) :
    (∃ task, timer = .worker (.resume task) ∧ s' = s ∧ timer' = .running task .resume) ∨
    (∃ worker timers worker', timer = .worker worker ∧
      run .timer s.now s.timers worker = some (timers, worker') ∧
      s' = { s with timers } ∧ timer' = .worker worker') ∨
    ∃ task place next, timer = .running task place ∧
      execute .timer (p.body task) task s place = some (s', next) ∧
      timer' = .following task next := by
  cases timer with
  | running task place =>
    obtain ⟨⟨_, next⟩, executed, same⟩ := Option.map_eq_some_iff.mp moved
    obtain ⟨rfl, rfl⟩ := Prod.mk.inj same
    exact .inr (.inr ⟨task, place, next, rfl, executed, rfl⟩)
  | worker worker =>
    by_cases resuming : ∃ task, worker = .resume task
    · obtain ⟨task, rfl⟩ := resuming
      obtain ⟨rfl, rfl⟩ := Prod.mk.inj (Option.some.inj moved)
      exact .inl ⟨task, rfl, rfl, rfl⟩
    · have plain : timerStep p s (.worker worker) =
          (run .timer s.now s.timers worker).map fun (timers, place) =>
            ({ s with timers }, .worker place) := by
        cases worker <;> first | rfl | exact absurd ⟨_, rfl⟩ resuming
      rw [plain] at moved
      obtain ⟨⟨timers, worker'⟩, ran, same⟩ := Option.map_eq_some_iff.mp moved
      obtain ⟨rfl, rfl⟩ := Prod.mk.inj same
      exact .inr (.inl ⟨worker, timers, worker', rfl, ran, rfl, rfl⟩)

/-- The worker copies the top of the heap. -/
theorem top_cases {entry : Entry ℕ} (taken : step p c (.top entry) = some c') :
    c.timer = .worker .top ∧ c.shared.timers.IsTop entry ∧
      c' = { c with timer := .worker (.dueTest entry) } := by
  simp only [step] at taken
  split at taken
  · rename_i standing
    simp only [Option.ite_none_right_eq_some, Option.some.injEq] at taken
    exact ⟨standing, taken.1, taken.2.symm⟩
  · contradiction

/-- The main thread destroys one of the frames that are left. -/
theorem destroy_cases {task : ℕ} (taken : step p c (.destroy task) = some c') :
    ∃ left, c.main = .destroyTasks left ∧ task ∈ left ∧
      c' = { c with
        shared := c.shared.setFrame task { c.shared.frames task with status := .destroyed }
        main := .destroyTasks (left.erase task) } := by
  simp only [step] at taken
  split at taken
  · rename_i left standing
    simp only [Option.ite_none_right_eq_some, Option.some.injEq] at taken
    exact ⟨left, standing, taken.1, taken.2.symm⟩
  · contradiction

end Cases

end ConcurrencyBench.Coroutines
