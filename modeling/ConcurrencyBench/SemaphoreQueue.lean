import ConcurrencyBench.Runs
import ConcurrencyBench.Threads

/-!
# The semaphore queue, step by step

`SemaphoreQueue` coordinates a mutex-protected FIFO with two counting semaphores
and two atomic flags. Every access to a flag, a semaphore or the mutex is one
step of the calling thread, as is each statement under the mutex, so an
interleaving of these steps is an interleaving of the C++ program under
sequentially consistent atomics. `acquire` and locking have no step while the
semaphore is at zero or the mutex is held.

A position names the next statement of the call in progress. The positions of
one member function are one type, and the function is the table of its steps.
Semaphore counts and the capacity are natural numbers: the constructor's
semaphore precondition keeps the capacity, and so `max_size_ + 1`, inside
`size_t`. A release that would take a count past `counting_semaphore::max()`
breaks a precondition of the library, which is left out: counts have no bound
here.

The log records calls, returns, and each insertion into and removal from the
FIFO. No step of the code reads it.
-/

namespace ConcurrencyBench.SemaphoreQueue

open Interleaving

universe u v
variable {ι : Type u} {T : Type v}

/-- The members of one queue object. `mtx` is the thread holding the mutex. -/
structure Queue (ι : Type u) (T : Type v) where
  mtx : Option ι
  queue : List T
  emptySlots : ℕ
  filledSlots : ℕ
  maxSize : ℕ
  closed : Bool
  shutdown : Bool

/-- The constructor: all slots empty, no item, both flags clear. -/
def Queue.make (maxSize : ℕ) : Queue ι T where
  mtx := none
  queue := []
  emptySlots := maxSize
  filledSlots := 0
  maxSize := maxSize
  closed := false
  shutdown := false

/-- The next statement of a `push` in progress. -/
inductive PushAt
  | entryShutdown | entryClosed | acquire | wokenShutdown | wokenClosed | returnSlot
  | lock | lockedShutdown | lockedClosed | lockedReturnSlot | unlockRejected
  | enqueue | unlock | release
deriving DecidableEq

/-- The next statement of a `pop` in progress. After the removal the position
carries the item copied out. -/
inductive PopAt (T : Type v)
  | lock | empty | lockedShutdown | lockedClosed | unlockFinished | unlock
  | acquire | relock | front
  | release (item : T) | unlockTaken (item : T)
  | unlockEmpty | wokenShutdown | wokenClosed | returnToken
deriving DecidableEq

/-- The next statement of a `close` in progress, with the wake loop's counter. -/
inductive CloseAt
  | storeClosed | wakeConsumers (i : ℕ)
deriving DecidableEq

/-- The next statement of a `shutdown` in progress. -/
inductive ShutdownAt
  | storeShutdown | storeClosed | wakeConsumers (i : ℕ) | wakeProducers (i : ℕ)
deriving DecidableEq

/-- A call of a member function. -/
inductive Op (T : Type v)
  | push (item : T) | pop | close | shutdown

/-- What a call returned. A `pop` that returned true carries the item it handed out. -/
inductive Result (T : Type v)
  | pushed (item : T) (accepted : Bool) | popped (item : Option T) | closed | shutDown
deriving DecidableEq

/-- A thread is between calls, inside one, or back from its latest call. -/
inductive Pc (T : Type v)
  | idle
  | push (place : PushAt) (item : T)
  | pop (place : PopAt T)
  | close (place : CloseAt)
  | shutdown (place : ShutdownAt)
  | returned (result : Result T)
deriving DecidableEq

/-- Lock the mutex for a thread, when nobody holds it. -/
def Queue.lock (q : Queue ι T) (i : ι) : Option (Queue ι T) :=
  match q.mtx with
  | none => some { q with mtx := some i }
  | some _ => none

/-- The mutex is taken if it is free. -/
@[simp]
theorem lock_eq_some_iff (q q' : Queue ι T) (i : ι) :
    q.lock i = some q' ↔ q.mtx = none ∧ q' = { q with mtx := some i } := by
  unfold Queue.lock
  cases held : q.mtx <;> simp [eq_comm]

/-- A thread that takes the mutex goes on behind it. -/
theorem lock_map_eq_some_iff {q q' : Queue ι T} {i : ι} {pc pc' : Pc T} :
    (q.lock i).map (·, pc) = some (q', pc') ↔
      q.mtx = none ∧ { q with mtx := some i } = q' ∧ pc = pc' := by
  simp only [Option.map_eq_some_iff, lock_eq_some_iff, Prod.mk.injEq]
  constructor
  · rintro ⟨_, ⟨free, rfl⟩, rfl, rfl⟩
    exact ⟨free, rfl, rfl⟩
  · rintro ⟨free, rfl, rfl⟩
    exact ⟨_, ⟨free, rfl⟩, rfl, rfl⟩

/-- A thread that cannot take the mutex waits for another. -/
theorem held_of_lock_map_eq_none {q : Queue ι T} {i : ι} {pc : Pc T}
    (blocked : (q.lock i).map (·, pc) = none) : q.mtx ≠ none := by
  intro free
  rw [Option.map_eq_none_iff, Queue.lock, free] at blocked
  cases blocked

/-- Giving the mutex back. -/
def Queue.unlock (q : Queue ι T) : Queue ι T := { q with mtx := none }

/-- `push`, one statement at a time. -/
def push (i : ι) (q : Queue ι T) (item : T) : PushAt → Option (Queue ι T × Pc T)
  -- if (shutdown_.load() || closed_.load()) return false;
  | .entryShutdown =>
    some (q, if q.shutdown then .returned (.pushed item false) else .push .entryClosed item)
  | .entryClosed =>
    some (q, if q.closed then .returned (.pushed item false) else .push .acquire item)
  -- empty_slots_.acquire();
  | .acquire =>
    if 0 < q.emptySlots then
      some ({ q with emptySlots := q.emptySlots - 1 }, .push .wokenShutdown item)
    else none
  -- if (shutdown_.load() || closed_.load()) { empty_slots_.release(); return false; }
  | .wokenShutdown =>
    some (q, if q.shutdown then .push .returnSlot item else .push .wokenClosed item)
  | .wokenClosed => some (q, if q.closed then .push .returnSlot item else .push .lock item)
  | .returnSlot =>
    some ({ q with emptySlots := q.emptySlots + 1 }, .returned (.pushed item false))
  -- the locked block: the third flag check, then queue_.push(item)
  | .lock => (q.lock i).map (·, .push .lockedShutdown item)
  | .lockedShutdown =>
    some (q, if q.shutdown then .push .lockedReturnSlot item else .push .lockedClosed item)
  | .lockedClosed =>
    some (q, if q.closed then .push .lockedReturnSlot item else .push .enqueue item)
  | .lockedReturnSlot =>
    some ({ q with emptySlots := q.emptySlots + 1 }, .push .unlockRejected item)
  | .unlockRejected => some (q.unlock, .returned (.pushed item false))
  | .enqueue => some ({ q with queue := q.queue ++ [item] }, .push .unlock item)
  | .unlock => some (q.unlock, .push .release item)
  -- filled_slots_.release(); return true;
  | .release =>
    some ({ q with filledSlots := q.filledSlots + 1 }, .returned (.pushed item true))

/-- `pop`, one statement at a time. The last flag check falls through to the
head of `while (true)`. -/
def pop (i : ι) (q : Queue ι T) : PopAt T → Option (Queue ι T × Pc T)
  -- { lock; if (queue_.empty() && (shutdown_.load() || closed_.load())) return false; }
  | .lock => (q.lock i).map (·, .pop .empty)
  | .empty => some (q, if q.queue.isEmpty then .pop .lockedShutdown else .pop .unlock)
  | .lockedShutdown =>
    some (q, if q.shutdown then .pop .unlockFinished else .pop .lockedClosed)
  | .lockedClosed => some (q, if q.closed then .pop .unlockFinished else .pop .unlock)
  | .unlockFinished => some (q.unlock, .returned (.popped none))
  | .unlock => some (q.unlock, .pop .acquire)
  -- filled_slots_.acquire();
  | .acquire =>
    if 0 < q.filledSlots then
      some ({ q with filledSlots := q.filledSlots - 1 }, .pop .relock)
    else none
  -- { lock; if (!queue_.empty()) { item = front(); pop(); empty_slots_.release(); return true; } }
  | .relock => (q.lock i).map (·, .pop .front)
  | .front =>
    match q.queue with
    | [] => some (q, .pop .unlockEmpty)
    | item :: rest => some ({ q with queue := rest }, .pop (.release item))
  | .release item =>
    some ({ q with emptySlots := q.emptySlots + 1 }, .pop (.unlockTaken item))
  | .unlockTaken item => some (q.unlock, .returned (.popped (some item)))
  | .unlockEmpty => some (q.unlock, .pop .wokenShutdown)
  -- if (shutdown_.load() || closed_.load()) { filled_slots_.release(); return false; }
  | .wokenShutdown =>
    some (q, if q.shutdown then .pop .returnToken else .pop .wokenClosed)
  | .wokenClosed => some (q, if q.closed then .pop .returnToken else .pop .lock)
  | .returnToken =>
    some ({ q with filledSlots := q.filledSlots + 1 }, .returned (.popped none))

/-- The locked block of `pop` finds the queue empty or takes its first item. -/
theorem front_cases {i : ι} {q q' : Queue ι T} {pc' : Pc T}
    (moved : pop i q .front = some (q', pc')) :
    (q.queue = [] ∧ q' = q ∧ pc' = .pop .unlockEmpty) ∨
    ∃ item rest, q.queue = item :: rest ∧ q' = { q with queue := rest } ∧
      pc' = .pop (.release item) := by
  rw [pop] at moved
  split at moved
  · next nothing =>
    obtain ⟨rfl, rfl⟩ := Prod.mk.inj (Option.some.inj moved)
    exact .inl ⟨nothing, rfl, rfl⟩
  · next item rest queue =>
    obtain ⟨rfl, rfl⟩ := Prod.mk.inj (Option.some.inj moved)
    exact .inr ⟨item, rest, queue, rfl, rfl⟩

/-- `close`: set the flag, then release `max_size_ + 1` filled slots. -/
def close (q : Queue ι T) : CloseAt → Option (Queue ι T × Pc T)
  | .storeClosed => some ({ q with closed := true }, .close (.wakeConsumers 0))
  | .wakeConsumers i =>
    if i < q.maxSize + 1 then
      some ({ q with filledSlots := q.filledSlots + 1 }, .close (.wakeConsumers (i + 1)))
    else some (q, .returned .closed)

/-- `shutdown`: set both flags, then run both wake loops. -/
def shutdown (q : Queue ι T) : ShutdownAt → Option (Queue ι T × Pc T)
  | .storeShutdown => some ({ q with shutdown := true }, .shutdown .storeClosed)
  | .storeClosed => some ({ q with closed := true }, .shutdown (.wakeConsumers 0))
  | .wakeConsumers i =>
    if i < q.maxSize + 1 then
      some ({ q with filledSlots := q.filledSlots + 1 }, .shutdown (.wakeConsumers (i + 1)))
    else some (q, .shutdown (.wakeProducers 0))
  | .wakeProducers i =>
    if i < q.maxSize + 1 then
      some ({ q with emptySlots := q.emptySlots + 1 }, .shutdown (.wakeProducers (i + 1)))
    else some (q, .returned .shutDown)

/-- The next step of a thread at a position; none when it waits or has no call. -/
def exec (i : ι) (q : Queue ι T) : Pc T → Option (Queue ι T × Pc T)
  | .idle => none
  | .push place item => push i q item place
  | .pop place => pop i q place
  | .close place => close q place
  | .shutdown place => shutdown q place
  | .returned _ => none

/-- One statement of a thread that no other interrupts. -/
def statement (i : ι) (place : Queue ι T × Pc T) (_ : Unit) : Option (Queue ι T × Pc T) :=
  exec i place.1 place.2

/-- The first position of a call. -/
def Op.entry : Op T → Pc T
  | .push item => .push .entryShutdown item
  | .pop => .pop .lock
  | .close => .close .storeClosed
  | .shutdown => .shutdown .storeShutdown

/-- No call is in progress. -/
def Pc.atRest : Pc T → Bool
  | .idle | .returned _ => true
  | _ => false

/-- What a thread does that others can tell. -/
inductive Event (T : Type v)
  | called (op : Op T)
  | enqueued (item : T)
  | dequeued (item : T)
  | returned (result : Result T)

/-- What a step between two positions adds to the log. -/
def observe : Pc T → Pc T → List (Event T)
  | .push .enqueue item, _ => [.enqueued item]
  | .pop .front, .pop (.release item) => [.dequeued item]
  | _, .returned result => [.returned result]
  | _, _ => []

/-- The queue, every thread's position, and the log. -/
structure Config (ι : Type u) (T : Type v) where
  q : Queue ι T
  pcs : ι → Pc T
  log : List (ι × Event T)

/-- A schedule starts a call of a thread that has none, or lets a thread go on. -/
inductive Label (ι : Type u) (T : Type v)
  | call (i : ι) (op : Op T)
  | go (i : ι)

/-- The label continues a call already in progress. -/
def Label.continues : Label ι T → Bool
  | .call _ _ => false
  | .go _ => true

/-- A fresh queue of the given capacity, with no call in progress. -/
def Config.init (maxSize : ℕ) : Config ι T := ⟨Queue.make maxSize, fun _ => .idle, []⟩

variable [DecidableEq ι]

/-- One step of the whole program. -/
def step (c : Config ι T) : Label ι T → Option (Config ι T)
  | .call i op =>
    if (c.pcs i).atRest then
      some ⟨c.q, Function.update c.pcs i op.entry, c.log ++ [(i, .called op)]⟩
    else none
  | .go i => (exec i c.q (c.pcs i)).map fun (q, pc) =>
      ⟨q, Function.update c.pcs i pc, c.log ++ (observe (c.pcs i) pc).map (i, ·)⟩

/-- Every state some interleaving of some calls leads to. -/
def Reachable (maxSize : ℕ) (c : Config ι T) : Prop := Reaches step (Config.init maxSize) c

/-- What one thread does in one step: begin a call while it has none, or carry
out the statement it stands at. The last argument is what the log gains. -/
inductive Move (i : ι) (q : Queue ι T) (pc : Pc T) : Queue ι T → Pc T → List (Event T) → Prop
  | call (op : Op T) (rest : pc.atRest = true) : Move i q pc q op.entry [.called op]
  | exec (q' : Queue ι T) (pc' : Pc T) (moved : SemaphoreQueue.exec i q pc = some (q', pc')) :
      Move i q pc q' pc' (observe pc pc')

/-- Every step is one thread's move; the other threads stay where they are. -/
theorem step_move {c c' : Config ι T} {label : Label ι T} (taken : step c label = some c') :
    ∃ i q pc events, Move i c.q (c.pcs i) q pc events ∧
      c' = ⟨q, Function.update c.pcs i pc, c.log ++ events.map (i, ·)⟩ := by
  cases label with
  | call i op =>
    simp only [step, Option.ite_none_right_eq_some, Option.some.injEq] at taken
    exact ⟨i, c.q, op.entry, [.called op], .call op taken.1, taken.2.symm⟩
  | go i =>
    simp only [step, Option.map_eq_some_iff] at taken
    obtain ⟨⟨q, pc⟩, moved, same⟩ := taken
    exact ⟨i, q, pc, observe (c.pcs i) pc, .exec q pc moved, same.symm⟩

end ConcurrencyBench.SemaphoreQueue
