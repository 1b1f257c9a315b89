import ConcurrencyBench.Logs
import ConcurrencyBench.Runs
import ConcurrencyBench.WaitSets
import Mathlib.Tactic.DeriveFintype

/-!
# Producers and consumers with a condition variable, step by step

One iteration of `PC_CondVar` starts producers and consumers that share a queue, a
flag, a mutex and a condition variable. A producer pushes each of its items under
the mutex and notifies one after it has released it. A consumer waits for an item or
the flag, leaves its loop when it finds the queue empty and the flag set, and takes
an item otherwise. The main thread joins the producers, sets the flag under the
mutex, notifies all and joins the consumers.

Each lock and unlock, each statement or test under the mutex, the sleep of `cv.wait`
and each notification is one step of its thread. The wait evaluates its predicate
under the mutex, and then releases it and falls asleep in one step. Spurious wake-ups
are steps of their own. Items are values of any type, and every producer has a list
of its own. The first item of an empty queue is undefined and has no step.

The log records each item pushed and each item taken. No step of the code reads it.
-/

namespace ConcurrencyBench.PCCondVar

open Interleaving

universe u v
variable {ι : Type u} {P C : ℕ} {T : Type v}

/-- The threads of one iteration. -/
inductive Party (P C : ℕ)
  | producer (p : Fin P)
  | consumer (k : Fin C)
  | main
deriving DecidableEq, Fintype

/-- What the threads share. `m` is the thread holding the mutex and `sleepers` the
threads asleep on `cv`. -/
structure Shared (ι : Type u) (T : Type v) where
  m : Option ι
  sleepers : Finset ι
  q : List T
  done : Bool

/-- The next statement of a producer, with the items it has yet to push. -/
inductive ProducerAt (T : Type v)
  | loop (left : List T)
  | lock (item : T) (left : List T) | push (item : T) (left : List T)
  | unlock (left : List T) | notifyOne (left : List T)
  | returned

/-- The next statement of a consumer, with the item it has read where it is still in
the queue. -/
inductive ConsumerAt (T : Type v)
  | lock | waitTest | sleep | asleep
  | exitTest | exitUnlock | exited
  | front | pop (item : T) | unlock

/-- The next statement of the main thread, with the join loops' counters. -/
inductive MainAt
  | joinProducers (k : ℕ)
  | lock | storeDone | unlock | notifyAll
  | joinConsumers (k : ℕ)
  | finished

/-- Where a thread is, by what it runs. -/
inductive Pc (T : Type v)
  | producer (place : ProducerAt T)
  | consumer (place : ConsumerAt T)
  | main (place : MainAt)

/-- Taking the mutex. -/
def Shared.lock (s : Shared ι T) (i : ι) : Option (Shared ι T) :=
  match s.m with
  | none => some { s with m := some i }
  | some _ => none

/-- The mutex is taken if it is free. -/
@[simp]
theorem lock_eq_some_iff (s s' : Shared ι T) (i : ι) :
    s.lock i = some s' ↔ s.m = none ∧ s' = { s with m := some i } := by
  unfold Shared.lock
  cases held : s.m <;> simp [eq_comm]

/-- A thread that takes the mutex goes on behind it. -/
theorem lock_map_eq_some_iff {P : Type*} {s s' : Shared ι T} {i : ι} {place place' : P} :
    (s.lock i).map (·, place) = some (s', place') ↔
      s.m = none ∧ { s with m := some i } = s' ∧ place = place' := by
  simp only [Option.map_eq_some_iff, lock_eq_some_iff, Prod.mk.injEq]
  constructor
  · rintro ⟨_, ⟨free, rfl⟩, rfl, rfl⟩
    exact ⟨free, rfl, rfl⟩
  · rintro ⟨free, rfl, rfl⟩
    exact ⟨_, ⟨free, rfl⟩, rfl, rfl⟩

/-- Giving the mutex back. -/
def Shared.unlock (s : Shared ι T) : Shared ι T := { s with m := none }

/-- A thread that can be joined. -/
def Pc.returned : Pc T → Bool
  | .producer .returned | .consumer .exited => true
  | _ => false

/-- `prod`, one statement at a time, other than its notification. -/
def prod (i : ι) (s : Shared ι T) : ProducerAt T → Option (Shared ι T × ProducerAt T)
  -- for (int i = 0; i < per; ++i)
  | .loop [] => some (s, .returned)
  | .loop (item :: left) => some (s, .lock item left)
  -- std::lock_guard<std::mutex> lk(m);
  | .lock item left => (s.lock i).map (·, .push item left)
  -- q.push(i);
  | .push item left => some ({ s with q := s.q ++ [item] }, .unlock left)
  | .unlock left => some (s.unlock, .notifyOne left)
  | .notifyOne _ => none
  | .returned => none

variable [DecidableEq ι]

/-- `cons`, one statement at a time. -/
def cons (i : ι) (s : Shared ι T) : ConsumerAt T → Option (Shared ι T × ConsumerAt T)
  -- std::unique_lock<std::mutex> lk(m);
  | .lock => (s.lock i).map (·, .waitTest)
  -- cv.wait(lk, [&] { return !q.empty() || done; });
  | .waitTest => some (s, if !s.q.isEmpty || s.done then .exitTest else .sleep)
  | .sleep => some ({ s with m := none, sleepers := insert i s.sleepers }, .asleep)
  | .asleep => if i ∈ s.sleepers then none else (s.lock i).map (·, .waitTest)
  -- if (q.empty() && done) break;
  | .exitTest => some (s, if s.q.isEmpty && s.done then .exitUnlock else .front)
  | .exitUnlock => some (s.unlock, .exited)
  | .exited => none
  -- x += q.front();
  | .front =>
    match s.q with
    | [] => none
    | item :: _ => some (s, .pop item)
  -- q.pop();
  | .pop _ => some ({ s with q := s.q.tail }, .unlock)
  | .unlock => some (s.unlock, .lock)

omit [DecidableEq ι] in
/-- The main thread after it has started the others, one statement at a time. -/
def finish (P C : ℕ) (returned : Party P C → Bool) (i : ι) (s : Shared ι T) :
    MainAt → Option (Shared ι T × MainAt)
  -- for (auto& t : ps) t.join();
  | .joinProducers k =>
    if k < P then
      if ∀ p : Fin P, p.val = k → returned (.producer p) = true then some (s, .joinProducers (k + 1))
      else none
    else some (s, .lock)
  -- std::lock_guard<std::mutex> lk(m);
  | .lock => (s.lock i).map (·, .storeDone)
  -- done = true;
  | .storeDone => some ({ s with done := true }, .unlock)
  | .unlock => some (s.unlock, .notifyAll)
  -- cv.notify_all();
  | .notifyAll => some ({ s with sleepers := ∅ }, .joinConsumers 0)
  -- for (auto& t : cs) t.join();
  | .joinConsumers k =>
    if k < C then
      if ∀ c : Fin C, c.val = k → returned (.consumer c) = true then some (s, .joinConsumers (k + 1))
      else none
    else some (s, .finished)
  | .finished => none

/-- The next step of a thread, other than a notification of one thread. -/
def exec (P C : ℕ) (returned : Party P C → Bool) (i : ι) (s : Shared ι T) :
    Pc T → Option (Shared ι T × Pc T)
  | .producer place => (prod i s place).map fun (s, place) => (s, .producer place)
  | .consumer place => (cons i s place).map fun (s, place) => (s, .consumer place)
  | .main place => (finish P C returned i s place).map fun (s, place) => (s, .main place)

/-- What happens to the items. -/
inductive Event (T : Type v)
  | pushed (item : T)
  | popped (item : T)

/-- What a step from a position adds to the log. -/
def observe : Pc T → List (Event T)
  | .producer (.push item _) => [.pushed item]
  | .consumer (.pop item) => [.popped item]
  | _ => []

/-- What is shared, where the threads are and what has happened. -/
structure Config (P C : ℕ) (T : Type v) where
  shared : Shared (Party P C) T
  pcs : Party P C → Pc T
  log : List (Party P C × Event T)

/-- The first position of a thread. -/
def start (items : Fin P → List T) : Party P C → Pc T
  | .producer p => .producer (.loop (items p))
  | .consumer _ => .consumer .lock
  | .main => .main (.joinProducers 0)

/-- The producers have their items and nothing has happened. -/
def Config.init (items : Fin P → List T) : Config P C T :=
  ⟨⟨none, ∅, [], false⟩, start items, []⟩

/-- A schedule lets a thread go on, lets it notify one thread of the schedule's
choice, or wakes a thread for no reason. -/
inductive Label (P C : ℕ)
  | go (i : Party P C)
  | notify (i : Party P C) (woken : Option (Party P C))
  | spurious (i : Party P C)

/-- The thread has returned. -/
def Config.returned (c : Config P C T) (i : Party P C) : Bool := (c.pcs i).returned

/-- One step of the whole iteration. -/
def step (c : Config P C T) : Label P C → Option (Config P C T)
  | .go i => (exec P C c.returned i c.shared (c.pcs i)).map fun (shared, pc) =>
      ⟨shared, Function.update c.pcs i pc, c.log ++ (observe (c.pcs i)).map (i, ·)⟩
  -- cv.notify_one();
  | .notify i woken =>
    match c.pcs i with
    | .producer (.notifyOne left) => (notifyOne c.shared.sleepers woken).map fun sleepers =>
        { c with
          shared := { c.shared with sleepers }
          pcs := Function.update c.pcs i (.producer (.loop left)) }
    | _ => none
  | .spurious i =>
    if i ∈ c.shared.sleepers then
      some { c with shared := { c.shared with sleepers := c.shared.sleepers.erase i } }
    else none

/-- Every state some interleaving leads to. -/
def Reachable (items : Fin P → List T) (c : Config P C T) : Prop :=
  Reaches step (Config.init items) c

/-- What one thread does in one step. A spurious wake-up is its sleeper's. The last
argument is what the log gains. -/
inductive Move (P C : ℕ) (returned : Party P C → Bool) (i : ι) (s : Shared ι T) (pc : Pc T) :
    Shared ι T → Pc T → List (Event T) → Prop
  | exec (s' : Shared ι T) (pc' : Pc T) (moved : exec P C returned i s pc = some (s', pc')) :
      Move P C returned i s pc s' pc' (observe pc)
  | notify (left : List T) (standing : pc = .producer (.notifyOne left)) (woken : Option ι)
      (sleepers : Finset ι) (notified : notifyOne s.sleepers woken = some sleepers) :
      Move P C returned i s pc { s with sleepers } (.producer (.loop left)) []
  | spurious (sleeping : i ∈ s.sleepers) :
      Move P C returned i s pc { s with sleepers := s.sleepers.erase i } pc []

/-- Every step is one thread's move; the other threads stay where they are. -/
theorem step_move {c c' : Config P C T} {label : Label P C} (taken : step c label = some c') :
    ∃ i shared pc events, Move P C c.returned i c.shared (c.pcs i) shared pc events ∧
      c' = ⟨shared, Function.update c.pcs i pc, c.log ++ events.map (i, ·)⟩ := by
  cases label with
  | go i =>
    obtain ⟨⟨shared, pc⟩, moved, same⟩ := Option.map_eq_some_iff.mp taken
    exact ⟨i, shared, pc, _, .exec shared pc moved, same.symm⟩
  | notify i woken =>
    simp only [step] at taken
    split at taken
    · rename_i left standing
      obtain ⟨sleepers, notified, same⟩ := Option.map_eq_some_iff.mp taken
      exact ⟨i, _, _, _, .notify left standing woken sleepers notified, by simp [← same]⟩
    · simp at taken
  | spurious i =>
    simp only [step, Option.ite_none_right_eq_some, Option.some.injEq] at taken
    refine ⟨i, _, _, _, .spurious taken.1, ?_⟩
    simp [← taken.2]

end ConcurrencyBench.PCCondVar
