import ConcurrencyBench.Runs
import ConcurrencyBench.Threads
import ConcurrencyBench.TimerService
import Mathlib.Tactic.DeriveFintype

/-!
# Sessions with a timer service

One service is used by the main thread, which owns it and runs its destructor, by the
coroutines the worker resumes, and by any number of other threads. Each of them calls
`schedule` as often as it likes, with any handle and any delay. What a coroutine does
between these calls is not part of the session; it gives control back to the worker
when it likes. The clock never goes back.

The log records each call where it reads the clock and each resumption. The
resumption is recorded with the clock value of the entry the worker has copied, the
local `entry` of its loop, and with the handle resumed.

Every entry is scheduled by a call, waits in the heap, is in the worker's hands, and
has been resumed, in this order. The account adds these up for each entry.
-/

namespace ConcurrencyBench.TimerSession

open Interleaving TimerService

universe u v
variable {ι : Type u} {H : Type v}

/-- The threads of a session. -/
inductive Party (ι : Type u)
  | main
  | timer
  | other (j : ι)
deriving DecidableEq, Fintype

/-- The next statement of a thread. It is elsewhere while it executes code that is not
the service's: before the destructor, between calls, or in a resumed coroutine. -/
inductive Pc (H : Type v)
  | elsewhere
  | calling (handle : H) (place : ScheduleAt)
  | destructor (place : DestructorAt)
  | worker (entry : Option (Entry H)) (place : WorkerAt H)

variable [DecidableEq H]

/-- The next step of a thread, other than a call of `schedule` and reading the top of
the heap. From elsewhere the main thread goes on to the destructor, and the worker
comes back from a coroutine. -/
def exec (exited : Bool) (i : Party ι) (now : ℤ) (s : Timers (Party ι) H) :
    Pc H → Option (Timers (Party ι) H × Pc H)
  | .elsewhere =>
    match i with
    | .main => some (s, .destructor .lock)
    | .timer => some (s, .worker none .lock)
    | .other _ => none
  | .calling handle place => (schedule i now handle s place).map fun (s, next) =>
      (s, next.elim .elsewhere (.calling handle))
  | .destructor place => (destroy i exited s place).map fun (s, place) => (s, .destructor place)
  -- entry.handle.resume();
  | .worker _ (.resume _) => some (s, .elsewhere)
  | .worker entry place => (run i now s place).map fun (s, place) => (s, .worker entry place)

/-- What is recorded of a step: a call with the clock value read, in nanoseconds, and the
delay, in microseconds, or a resumption with the clock value there. -/
inductive Event (H : Type v)
  | scheduled (handle : H) (time delay : ℤ)
  | resumed (entry : Entry H) (time : ℤ)
deriving DecidableEq

omit [DecidableEq H] in
/-- What a step from a position adds to the log. -/
def observe (now : ℤ) : Pc H → List (Event H)
  | .calling handle (.readClock delay) => [.scheduled handle now delay]
  | .worker (some entry) (.resume handle) => [.resumed ⟨entry.when, handle⟩ now]
  | _ => []

/-- The service, where the threads are and what has happened. -/
structure Config (ι : Type u) (H : Type v) where
  now : ℤ
  timers : Timers (Party ι) H
  pcs : Party ι → Pc H
  log : List (Event H)

/-- The worker starts at its loop; the other threads are elsewhere. -/
def Config.init : Config ι H where
  now := 0
  timers := Timers.make
  pcs
    | .timer => .worker none .lock
    | _ => .elsewhere
  log := []

omit [DecidableEq H] in
/-- The worker has returned. -/
def Pc.exited : Pc H → Bool
  | .worker _ place => match place with
    | .exited => true
    | _ => false
  | _ => false

/-- A schedule lets a thread call `schedule` or go on, chooses the entry on top of the
heap, ends the worker's sleep, or lets time pass. -/
inductive Label (ι : Type u) (H : Type v)
  | call (i : Party ι) (handle : H) (delay : ℤ)
  | go (i : Party ι)
  | top (entry : Entry H)
  | wake
  | tick (d : ℕ)

variable [DecidableEq ι]

/-- One step of the session. -/
def step (c : Config ι H) : Label ι H → Option (Config ι H)
  | .call i handle delay =>
    match c.pcs i with
    | .elsewhere =>
      some { c with pcs := Function.update c.pcs i (.calling handle (.readClock delay)) }
    | _ => none
  | .go i => (exec (c.pcs .timer).exited i c.now c.timers (c.pcs i)).map fun (timers, pc) =>
      ⟨c.now, timers, Function.update c.pcs i pc, c.log ++ observe c.now (c.pcs i)⟩
  -- auto entry = heap_.top();
  | .top entry =>
    match c.pcs .timer with
    | .worker _ .top =>
      if c.timers.IsTop entry then
        some { c with pcs := Function.update c.pcs .timer (.worker (some entry) (.dueTest entry)) }
      else none
    | _ => none
  | .wake =>
    if c.timers.asleep then some { c with timers := { c.timers with asleep := false } } else none
  | .tick d => some { c with now := c.now + d }

/-- Every state some interleaving leads to. -/
def Reachable (c : Config ι H) : Prop := Reaches step Config.init c

omit [DecidableEq ι] in
/-- What one thread does in one step. The last argument is what the log gains. -/
inductive Move (exited : Bool) (i : Party ι) (now : ℤ) (s : Timers (Party ι) H) (pc : Pc H) :
    Timers (Party ι) H → Pc H → List (Event H) → Prop
  | call (outside : pc = .elsewhere) (handle : H) (delay : ℤ) :
      Move exited i now s pc s (.calling handle (.readClock delay)) []
  | exec (s' : Timers (Party ι) H) (pc' : Pc H) (moved : exec exited i now s pc = some (s', pc')) :
      Move exited i now s pc s' pc' (observe now pc)
  | top (worker : i = .timer) (before : Option (Entry H)) (standing : pc = .worker before .top)
      (entry : Entry H) (top : s.IsTop entry) :
      Move exited i now s pc s (.worker (some entry) (.dueTest entry)) []

/-- Every step is one thread's move, the end of the worker's sleep, or a step of the clock. -/
theorem step_cases {c c' : Config ι H} {label : Label ι H} (taken : step c label = some c') :
    (∃ i timers pc events,
      Move (c.pcs .timer).exited i c.now c.timers (c.pcs i) timers pc events ∧
      c' = ⟨c.now, timers, Function.update c.pcs i pc, c.log ++ events⟩) ∨
    ∃ now asleep, c.now ≤ now ∧ (asleep = true → c.timers.asleep = true) ∧
      c' = { c with now, timers := { c.timers with asleep } } := by
  cases label with
  | call i handle delay =>
    simp only [step] at taken
    split at taken
    · rename_i outside
      refine .inl ⟨i, _, _, _, .call outside handle delay, ?_⟩
      simp [← Option.some.inj taken]
    · contradiction
  | go i =>
    obtain ⟨⟨timers, pc⟩, moved, same⟩ := Option.map_eq_some_iff.mp taken
    exact .inl ⟨i, timers, pc, _, .exec timers pc moved, same.symm⟩
  | top entry =>
    simp only [step] at taken
    split at taken
    · rename_i before standing
      simp only [Option.ite_none_right_eq_some, Option.some.injEq] at taken
      refine .inl ⟨.timer, _, _, _, .top rfl before standing entry taken.1, ?_⟩
      simp [← taken.2]
    · contradiction
  | wake =>
    simp only [step, Option.ite_none_right_eq_some, Option.some.injEq] at taken
    exact .inr ⟨c.now, false, le_rfl, by simp, taken.2.symm⟩
  | tick d =>
    exact .inr ⟨c.now + d, c.timers.asleep, by simp, id, (Option.some.inj taken).symm⟩

omit [DecidableEq ι] in
/-- The worker resumes a handle or goes on in its loop, where nothing is recorded. -/
theorem exec_worker_cases {exited : Bool} {i : Party ι} {now : ℤ} {s s' : Timers (Party ι) H}
    {entry : Option (Entry H)} {place : WorkerAt H} {pc' : Pc H}
    (moved : exec exited i now s (.worker entry place) = some (s', pc')) :
    (∃ handle, place = .resume handle ∧ s' = s ∧ pc' = .elsewhere) ∨
    ∃ place', TimerService.run i now s place = some (s', place') ∧ pc' = .worker entry place' ∧
      observe now (.worker entry place) = [] := by
  by_cases resuming : ∃ handle, place = .resume handle
  · obtain ⟨handle, rfl⟩ := resuming
    obtain ⟨rfl, rfl⟩ := Prod.mk.inj (Option.some.inj moved)
    exact .inl ⟨handle, rfl, rfl, rfl⟩
  · have plain : exec exited i now s (.worker entry place) =
        (TimerService.run i now s place).map fun (s, place) => (s, .worker entry place) := by
      cases place <;> first | rfl | exact absurd ⟨_, rfl⟩ resuming
    rw [plain] at moved
    obtain ⟨⟨_, place'⟩, ran, same⟩ := Option.map_eq_some_iff.mp moved
    obtain ⟨rfl, rfl⟩ := Prod.mk.inj same
    refine .inr ⟨place', ran, rfl, ?_⟩
    cases place <;> first | (cases entry <;> rfl) | exact absurd ⟨_, rfl⟩ resuming

end ConcurrencyBench.TimerSession
