import Mathlib.Algebra.Order.Ring.Int
import Mathlib.Data.List.Basic
import Mathlib.Order.Basic

/-!
# The timer service, statement by statement

`TimerService` keeps entries of a clock value and a coroutine handle under one
mutex, and one worker thread that takes the entry with the smallest clock value
once the clock has reached it and resumes its handle. Handles are values of any
type. Every lock and unlock, every statement under the mutex, every reading of the
clock and every notification is one step of the thread that executes it.

The clock counts nanoseconds and a delay microseconds, both in 64 bits. The delay is
converted before it is added. Where the product or the sum does not fit, the addition
overflows, which is undefined; here the numbers wrap, as they do on the usual machines.

The worker is the only thread that waits on `cv_`, so the wait set is the flag
that says whether the worker is asleep in it, and notifying one is notifying all.
A wait releases the mutex and falls asleep in one step. The end of the sleep,
whether by a notification, for no reason, or because the time of a timed wait has
come, only clears the flag; the worker goes on by locking the mutex again.

Among entries with equal clock values the order of the heap is not specified. So
the entries are a list without a meaning to its order, and `heap_.top()` is any
entry with the smallest clock value.

The account of a handle counts what the service still owes it: its entries in the
heap, and one more while the worker has taken an entry of it and not resumed it. A
`schedule` adds one when it pushes; no step of the worker changes the account.
-/

namespace ConcurrencyBench.TimerService

universe u v
variable {ι : Type u} {H : Type v}

/-- A clock value and the handle to resume then. -/
structure Entry (H : Type v) where
  when : ℤ
  handle : H
deriving DecidableEq

/-- The number fits in 64 bits. -/
def Representable (value : ℤ) : Prop := -2 ^ 63 ≤ value ∧ value < 2 ^ 63

instance (value : ℤ) : Decidable (Representable value) := inferInstanceAs (Decidable (_ ∧ _))

/-- A delay can be converted to nanoseconds and added to a clock value. -/
def Fits (now delay : ℤ) : Prop :=
  Representable (delay * 1000) ∧ Representable (now + delay * 1000)

instance (now delay : ℤ) : Decidable (Fits now delay) := inferInstanceAs (Decidable (_ ∧ _))

/-- `now + delay`, in nanoseconds -/
def deadline (now delay : ℤ) : ℤ := Int.bmod (now + Int.bmod (delay * 1000) (2 ^ 64)) (2 ^ 64)

/-- A number that fits is its own remainder. -/
theorem bmod_of_representable {value : ℤ} (fits : Representable value) :
    Int.bmod value (2 ^ 64) = value := by
  obtain ⟨least, greatest⟩ := fits
  exact Int.bmod_eq_of_le_mul_two (by omega) (by omega)

/-- Where nothing overflows, the deadline is the clock value plus the delay. -/
theorem deadline_of_fits {now delay : ℤ} (fits : Fits now delay) :
    deadline now delay = now + delay * 1000 := by
  rw [deadline, bmod_of_representable fits.1, bmod_of_representable fits.2]

/-- So whatever happens after the deadline happens after the delay. -/
theorem delayed_of_fits {now delay time : ℤ} (due : deadline now delay ≤ time)
    (fits : Fits now delay) : now + delay * 1000 ≤ time :=
  (deadline_of_fits fits).symm.trans_le due

/-- The members of one service. `mu` is the thread holding the mutex and `asleep`
says whether the worker is in the wait set of `cv_`. -/
structure Timers (ι : Type u) (H : Type v) where
  mu : Option ι
  heap : List (Entry H)
  asleep : Bool
  stop : Bool

/-- The constructor. -/
def Timers.make : Timers ι H := ⟨none, [], false, false⟩

/-- Taking the mutex. -/
def Timers.lock (s : Timers ι H) (i : ι) : Option (Timers ι H) :=
  match s.mu with
  | none => some { s with mu := some i }
  | some _ => none

/-- The mutex is taken if it is free. -/
@[simp]
theorem lock_eq_some_iff (s s' : Timers ι H) (i : ι) :
    s.lock i = some s' ↔ s.mu = none ∧ s' = { s with mu := some i } := by
  unfold Timers.lock
  cases held : s.mu <;> simp [eq_comm]

/-- A thread that takes the mutex goes on behind it. -/
theorem lock_map_eq_some_iff {P : Type*} {s s' : Timers ι H} {i : ι} {place place' : P} :
    (s.lock i).map (·, place) = some (s', place') ↔
      s.mu = none ∧ { s with mu := some i } = s' ∧ place = place' := by
  simp only [Option.map_eq_some_iff, lock_eq_some_iff, Prod.mk.injEq]
  constructor
  · rintro ⟨_, ⟨free, rfl⟩, rfl, rfl⟩
    exact ⟨free, rfl, rfl⟩
  · rintro ⟨free, rfl, rfl⟩
    exact ⟨_, ⟨free, rfl⟩, rfl, rfl⟩

/-- Giving the mutex back. -/
def Timers.unlock (s : Timers ι H) : Timers ι H := { s with mu := none }

/-- The entry may be the one on top of the heap. -/
def Timers.IsTop (s : Timers ι H) (entry : Entry H) : Prop :=
  entry ∈ s.heap ∧ ∀ other ∈ s.heap, entry.when ≤ other.when

instance [DecidableEq H] (s : Timers ι H) (entry : Entry H) : Decidable (s.IsTop entry) :=
  inferInstanceAs (Decidable (_ ∧ _))

/-- The next statement of a `schedule` in progress, with `when` once it is known. -/
inductive ScheduleAt
  | readClock (delay : ℤ) | lock (when : ℤ) | push (when : ℤ) | unlock | notifyOne
deriving DecidableEq

/-- `schedule`, one statement at a time. No next position means that it has returned. -/
def schedule (i : ι) (now : ℤ) (handle : H) (s : Timers ι H) :
    ScheduleAt → Option (Timers ι H × Option ScheduleAt)
  -- const auto when = std::chrono::steady_clock::now() + delay;
  | .readClock delay => some (s, some (.lock (deadline now delay)))
  -- std::lock_guard<std::mutex> lock(mu_);
  | .lock when => (s.lock i).map (·, some (.push when))
  -- heap_.push(Entry{when, h});
  | .push when => some ({ s with heap := ⟨when, handle⟩ :: s.heap }, some .unlock)
  | .unlock => some (s.unlock, some .notifyOne)
  -- cv_.notify_one();
  | .notifyOne => some ({ s with asleep := false }, none)

/-- The next statement of the worker, with the copy `entry` of the top of the heap
where it is still used. -/
inductive WorkerAt (H : Type v)
  | lock | exitTest | exitUnlock | exited
  | emptyTest | waitTest | sleep | asleep
  | top | dueTest (entry : Entry H) | sleepUntil (t : ℤ) | asleepUntil (t : ℤ)
  | pop (entry : Entry H) | unlock (handle : H) | resume (handle : H)
deriving DecidableEq

/-- `run`, one statement at a time. Reading the top of the heap and resuming a
handle are steps of the whole program. -/
def run [DecidableEq H] (i : ι) (now : ℤ) (s : Timers ι H) :
    WorkerAt H → Option (Timers ι H × WorkerAt H)
  -- std::unique_lock<std::mutex> lock(mu_); and lock.lock();
  | .lock => (s.lock i).map (·, .exitTest)
  -- if (stop_ && heap_.empty()) return;
  | .exitTest => some (s, if s.stop && s.heap.isEmpty then .exitUnlock else .emptyTest)
  | .exitUnlock => some (s.unlock, .exited)
  | .exited => none
  -- if (heap_.empty())
  | .emptyTest => some (s, if s.heap.isEmpty then .waitTest else .top)
  -- cv_.wait(lock, [&] { return stop_ || !heap_.empty(); }); continue;
  | .waitTest => some (s, if s.stop || !s.heap.isEmpty then .exitTest else .sleep)
  | .sleep => some ({ s with mu := none, asleep := true }, .asleep)
  | .asleep => if s.asleep then none else (s.lock i).map (·, .waitTest)
  | .top => none
  -- if (entry.when > std::chrono::steady_clock::now())
  | .dueTest entry => some (s, if now < entry.when then .sleepUntil entry.when else .pop entry)
  -- cv_.wait_until(lock, entry.when); continue;
  | .sleepUntil t => some ({ s with mu := none, asleep := true }, .asleepUntil t)
  | .asleepUntil _ => if s.asleep then none else (s.lock i).map (·, .exitTest)
  -- heap_.pop();
  | .pop entry => some ({ s with heap := s.heap.erase entry }, .unlock entry.handle)
  | .unlock handle => some (s.unlock, .resume handle)
  | .resume _ => none

/-- The next statement of the destructor. -/
inductive DestructorAt
  | lock | storeStop | unlock | notifyAll | join | done
deriving DecidableEq

/-- The destructor, one statement at a time, told whether the worker has left its loop. -/
def destroy (i : ι) (exited : Bool) (s : Timers ι H) :
    DestructorAt → Option (Timers ι H × DestructorAt)
  | .lock => (s.lock i).map (·, .storeStop)
  -- stop_ = true;
  | .storeStop => some ({ s with stop := true }, .unlock)
  | .unlock => some (s.unlock, .notifyAll)
  -- cv_.notify_all();
  | .notifyAll => some ({ s with asleep := false }, .join)
  -- worker_.join();
  | .join => if exited then some (s, .done) else none
  | .done => none

section Account

variable [DecidableEq H] {i : ι} {now : ℤ} {s s' : Timers ι H}

/-- The entries of a handle. -/
def Timers.entries (s : Timers ι H) (handle : H) : ℕ :=
  s.heap.countP fun entry => entry.handle = handle

/-- The push of a `schedule` is still to come. -/
def ScheduleAt.pending : ScheduleAt → Bool
  | .unlock | .notifyOne => false
  | _ => true

/-- The worker has taken an entry of the handle and not begun to resume it. -/
def WorkerAt.holds (handle : H) : WorkerAt H → Bool
  | .unlock taken | .resume taken => taken = handle
  | _ => false

/-- The copy of the top of the heap the worker works with is still in the heap. -/
def WorkerAt.Current (s : Timers ι H) : WorkerAt H → Prop
  | .dueTest entry | .pop entry => entry ∈ s.heap
  | _ => True

/-- A `schedule` owes its handle one resumption more from its push on. -/
theorem schedule_entries {scheduled : H} {place : ScheduleAt} {next : Option ScheduleAt}
    (moved : schedule i now scheduled s place = some (s', next)) (handle : H) :
    s'.entries handle + (decide (scheduled = handle) && next.any ScheduleAt.pending).toNat =
      s.entries handle + (decide (scheduled = handle) && place.pending).toNat := by
  cases place with
  | readClock | unlock | notifyOne =>
    obtain ⟨rfl, rfl⟩ := Prod.mk.inj (Option.some.inj moved)
    rfl
  | lock due =>
    obtain ⟨_, rfl, rfl⟩ := lock_map_eq_some_iff.mp moved
    rfl
  | push due =>
    obtain ⟨rfl, rfl⟩ := Prod.mk.inj (Option.some.inj moved)
    by_cases same : scheduled = handle <;>
      simp [Timers.entries, ScheduleAt.pending, same]

/-- Taking an entry out of the heap moves its handle to the worker's account. -/
theorem run_entries {place next : WorkerAt H} (current : place.Current s)
    (moved : run i now s place = some (s', next)) (handle : H) :
    s'.entries handle + (next.holds handle).toNat =
      s.entries handle + (place.holds handle).toNat := by
  cases place with
  | lock =>
    obtain ⟨_, rfl, rfl⟩ := lock_map_eq_some_iff.mp moved
    rfl
  | exitTest | emptyTest | waitTest | dueTest =>
    rw [run] at moved
    split at moved <;> obtain ⟨rfl, rfl⟩ := Prod.mk.inj (Option.some.inj moved) <;> rfl
  | exitUnlock | sleep | sleepUntil | unlock =>
    obtain ⟨rfl, rfl⟩ := Prod.mk.inj (Option.some.inj moved)
    rfl
  | asleep | asleepUntil =>
    obtain ⟨_, moved⟩ := Option.ite_none_left_eq_some.mp moved
    obtain ⟨_, rfl, rfl⟩ := lock_map_eq_some_iff.mp moved
    rfl
  | pop entry =>
    obtain ⟨rfl, rfl⟩ := Prod.mk.inj (Option.some.inj moved)
    have taken := (List.perm_cons_erase current).countP_eq fun entry => decide (entry.handle = handle)
    rw [List.countP_cons] at taken
    by_cases same : entry.handle = handle <;>
      simp [Timers.entries, WorkerAt.holds, same] at taken ⊢ <;> omega
  | exited | top | resume => cases moved

omit [DecidableEq H] in
/-- A `schedule` only adds entries, and the worker removes the copied one last. -/
theorem schedule_current {scheduled : H} {place : ScheduleAt} {next : Option ScheduleAt}
    {worker : WorkerAt H} (moved : schedule i now scheduled s place = some (s', next))
    (current : worker.Current s) : worker.Current s' := by
  have kept : ∀ entry ∈ s.heap, entry ∈ s'.heap := by
    cases place with
    | readClock | unlock | notifyOne =>
      obtain ⟨rfl, -⟩ := Prod.mk.inj (Option.some.inj moved)
      exact fun _ => id
    | lock due =>
      obtain ⟨_, rfl, -⟩ := lock_map_eq_some_iff.mp moved
      exact fun _ => id
    | push due =>
      obtain ⟨rfl, -⟩ := Prod.mk.inj (Option.some.inj moved)
      exact fun _ => List.mem_cons_of_mem _
  cases worker with
  | dueTest entry => exact kept entry current
  | pop entry => exact kept entry current
  | _ => trivial

/-- The worker's copy stays the top of the heap while it has the lock. -/
theorem run_current {place next : WorkerAt H} (current : place.Current s)
    (moved : run i now s place = some (s', next)) : next.Current s' := by
  cases place with
  | lock =>
    obtain ⟨_, -, rfl⟩ := lock_map_eq_some_iff.mp moved
    trivial
  | exitTest | emptyTest | waitTest =>
    rw [run] at moved
    split at moved <;> obtain ⟨-, rfl⟩ := Prod.mk.inj (Option.some.inj moved) <;> trivial
  | dueTest entry =>
    rw [run] at moved
    split at moved <;> obtain ⟨rfl, rfl⟩ := Prod.mk.inj (Option.some.inj moved)
    · trivial
    · exact current
  | exitUnlock | sleep | sleepUntil | pop | unlock =>
    obtain ⟨-, rfl⟩ := Prod.mk.inj (Option.some.inj moved)
    trivial
  | asleep | asleepUntil =>
    obtain ⟨_, moved⟩ := Option.ite_none_left_eq_some.mp moved
    obtain ⟨_, -, rfl⟩ := lock_map_eq_some_iff.mp moved
    trivial
  | exited | top | resume => cases moved

omit [DecidableEq H] in
/-- The destructor leaves the heap alone. -/
theorem destroy_heap {exited : Bool} {place next : DestructorAt}
    (moved : destroy i exited s place = some (s', next)) : s'.heap = s.heap := by
  cases place with
  | lock =>
    obtain ⟨_, rfl, -⟩ := lock_map_eq_some_iff.mp moved
    rfl
  | storeStop | unlock | notifyAll =>
    obtain ⟨rfl, -⟩ := Prod.mk.inj (Option.some.inj moved)
    rfl
  | join =>
    obtain ⟨_, moved⟩ := Option.ite_none_right_eq_some.mp moved
    obtain ⟨rfl, -⟩ := Prod.mk.inj (Option.some.inj moved)
    rfl
  | done => cases moved

/-- The entries of a handle depend on the heap only. -/
theorem entries_congr (same : s'.heap = s.heap) (handle : H) :
    s'.entries handle = s.entries handle := by
  rw [Timers.entries, same, Timers.entries]

omit [DecidableEq H] in
/-- Whether the worker's copy is the top depends on the heap only. -/
theorem WorkerAt.Current.congr {place : WorkerAt H} (current : place.Current s)
    (same : s'.heap = s.heap) : place.Current s' := by
  cases place with
  | dueTest entry => exact (congrArg (entry ∈ ·) same).mpr current
  | pop entry => exact (congrArg (entry ∈ ·) same).mpr current
  | _ => trivial

end Account

end ConcurrencyBench.TimerService
