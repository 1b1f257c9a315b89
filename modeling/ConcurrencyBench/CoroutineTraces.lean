import ConcurrencyBench.CoroutineTasks

/-!
# What a task's coroutine has done

A trace records, for each task, the steps its coroutine has taken on either thread:
its first resumption, each iteration of its loops, the call that schedules it with the
clock value read, in nanoseconds, and the delay, in microseconds, its second resumption
with the clock value there, the end of its body, and the store to a flag. The other steps of the program leave the
traces as they are.

A script is a trace of a whole execution: the body from start to end, once, with the
resumption not before the deadline of the call, and the store last.
Where the coroutine stands determines how much of its script the trace holds, and a
statement takes it from one position to the next.
-/

namespace ConcurrencyBench.Coroutines

open Interleaving TimerService

/-- What a step of a task's coroutine is recorded as. -/
inductive Mark
  | begins
  | first
  | scheduled (time delay : ℤ)
  | resumed (time : ℤ)
  | second
  | ends
  | flagged (flag : ℕ)
deriving DecidableEq

/-- What the step of a coroutine from a position adds to its task's trace. -/
def CoAt.marks (suspended : Option SuspendPoint) (now : ℤ) : CoAt → List Mark
  | .resume =>
    match suspended with
    | some .initial => [.begins]
    | some .await => [.resumed now]
    | _ => []
  | .first (_ + 1) => [.first]
  | .schedule (.readClock delay) => [.scheduled now delay]
  | .second (_ + 1) => [.second]
  | .second 0 => [.ends]
  | .storeDone flag => [.flagged flag]
  | _ => []

/-- What a step of the program adds to a task's trace. -/
def marks (c : Config) (task : ℕ) : Label → List Mark
  | .main =>
    match c.main with
    | .running i place =>
      if i = task then place.marks (c.shared.frames i).suspended c.shared.now else []
    | _ => []
  | .timer =>
    match c.timer with
    | .running i place =>
      if i = task then place.marks (c.shared.frames i).suspended c.shared.now else []
    | _ => []
  | _ => []

/-- A state with the trace of each task. -/
structure Traced where
  config : Config
  trace : ℕ → List Mark

/-- At the start nothing has been traced. -/
def Traced.init : Traced := ⟨Config.init, fun _ => []⟩

/-- One step of the program, recorded. -/
def tracedStep (p : Program) (t : Traced) (label : Label) : Option Traced :=
  (step p t.config label).map fun c => ⟨c, fun task => t.trace task ++ marks t.config task label⟩

/-- The first half of a body. -/
def opening (body : Body) : List Mark := .begins :: List.replicate body.firstHalf .first

/-- The second half of a body. -/
def closing (body : Body) : List Mark := List.replicate body.secondHalf .second ++ [.ends]

/-- What happens between the halves: nothing where the awaiter is ready, and otherwise a
call and a resumption not before the deadline, which is the clock value read plus the delay
unless these overflow. -/
def Waited (body : Body) (wait : List Mark) : Prop :=
  if body.awaitReady then wait = []
  else ∃ time later, deadline time body.delay ≤ later ∧
    (Fits time body.delay → time + body.delay * 1000 ≤ later) ∧
    wait = [.scheduled time body.delay, .resumed later]

/-- The trace of a task whose body has been executed from start to end and whose flag has
been set after that. -/
def Script (body : Body) (task : ℕ) (trace : List Mark) : Prop :=
  ∃ wait, Waited body wait ∧ trace = opening body ++ wait ++ closing body ++ [.flagged task]

/-- The trace of a task whose body has been executed up to somewhere, once. -/
def Underway (body : Body) (trace : List Mark) : Prop :=
  ∃ wait, Waited body wait ∧ trace <+: opening body ++ wait ++ closing body

/-- The trace of a task that has been scheduled with the deadline and not resumed. -/
def Pending (body : Body) (due : ℤ) (trace : List Mark) : Prop :=
  body.awaitReady = false ∧ ∃ time, due = deadline time body.delay ∧
    trace = opening body ++ [.scheduled time body.delay]

/-- How far the trace is where the coroutine stands, as long as its thread has the task in hand. -/
def Progress (body : Body) (suspended : Option SuspendPoint) (now : ℤ) (trace : List Mark) :
    CoAt → Prop
  | .resume => (suspended = some .initial ∧ trace = []) ∨
    (suspended = some .await ∧ ∃ due ≤ now, Pending body due trace)
  | .first left => ∃ k, k + left = body.firstHalf ∧ trace = .begins :: List.replicate k .first
  | .ready => trace = opening body
  | .suspend => body.awaitReady = false ∧ trace = opening body
  | .awaitSuspend => suspended = some .await ∧ body.awaitReady = false ∧ trace = opening body
  | .schedule place => suspended = some .await ∧
    match place with
    | .readClock delay => body.awaitReady = false ∧ delay = body.delay ∧ trace = opening body
    | .lock due | .push due => Pending body due trace
    | _ => True
  | .second left => ∃ k wait, k + left = body.secondHalf ∧ Waited body wait ∧
    trace = opening body ++ wait ++ List.replicate k .second
  | .finalSuspend | .finalSuspended | .readDoneFlag | .storeDone _ =>
    ∃ wait, Waited body wait ∧ trace = opening body ++ wait ++ closing body
  | .readContinuation => True

/-- What a statement of a task's coroutine does to its trace and to what others see of it. -/
structure Advanced (body : Body) (task : ℕ) (s : Shared) (place : CoAt) (s' : Shared)
    (next : Option CoAt) (trace : List Mark) : Prop where
  next : ∀ following ∈ next, following.holds = true →
    Progress body (s'.frames task).suspended s'.now trace following
  heap : ∀ e ∈ s'.timers.heap, e ∈ s.timers.heap ∨ place.holds = true ∧ e.handle = task ∧
    (s'.frames task).suspended = some .await ∧ Pending body e.when trace
  done : ∀ i, s'.done i = true → s.done i = true ∨ place.holds = true ∧ i = task ∧
    Script body task trace
  now : s'.now = s.now

section Statements

variable {i : Party} {body : Body} {task : ℕ} {s s' : Shared} {trace : List Mark}

/-- A statement that pushes nothing and sets no flag. -/
theorem advanced_of {place : CoAt} {next : Option CoAt}
    (heap : s'.timers.heap = s.timers.heap) (done : s'.done = s.done) (now : s'.now = s.now)
    (progress : ∀ following ∈ next, following.holds = true →
      Progress body (s'.frames task).suspended s'.now trace following) :
    Advanced body task s place s' next trace where
  next := progress
  heap _ member := .inl (heap ▸ member)
  done _ set := .inl (done ▸ set)
  now := now

/-- A statement after which the thread still has the task in hand. -/
theorem advanced_to {place following : CoAt} (heap : s'.timers.heap = s.timers.heap)
    (done : s'.done = s.done) (now : s'.now = s.now)
    (progress : Progress body (s'.frames task).suspended s'.now trace following) :
    Advanced body task s place s' (some following) trace := by
  refine advanced_of heap done now fun other same _ => ?_
  obtain rfl := Option.some.inj same
  exact progress

/-- A call of `schedule` tells the clock value it has read and pushes the entry. -/
theorem schedule_advanced {place : ScheduleAt} {timers : Timers Party ℕ}
    {next : Option ScheduleAt}
    (progress : place.pending = true →
      Progress body (s.frames task).suspended s.now trace (.schedule place))
    (scheduled : schedule i s.now task s.timers place = some (timers, next)) :
    Advanced body task s (.schedule place) { s with timers } (next.map .schedule)
      (trace ++ (CoAt.schedule place).marks (s.frames task).suspended s.now) := by
  cases place with
  | readClock delay =>
    obtain ⟨suspended, notReady, rfl, rfl⟩ := progress rfl
    obtain ⟨rfl, rfl⟩ := Prod.mk.inj (Option.some.inj scheduled)
    exact advanced_to rfl rfl rfl ⟨suspended, notReady, s.now, rfl, rfl⟩
  | lock due =>
    obtain ⟨suspended, pending⟩ := progress rfl
    simp only [schedule, Option.map_eq_some_iff, lock_eq_some_iff, Prod.mk.injEq] at scheduled
    obtain ⟨_, ⟨_, rfl⟩, rfl, rfl⟩ := scheduled
    exact advanced_to rfl rfl rfl ⟨suspended, by simpa [CoAt.marks] using pending⟩
  | push due =>
    obtain ⟨suspended, pending⟩ := progress rfl
    obtain ⟨rfl, rfl⟩ := Prod.mk.inj (Option.some.inj scheduled)
    refine ⟨by simp [CoAt.holds, ScheduleAt.pending], fun e member => ?_, fun _ set => .inl set, rfl⟩
    rcases List.mem_cons.mp member with rfl | before
    · exact .inr ⟨rfl, rfl, suspended, by simpa [CoAt.marks] using pending⟩
    · exact .inl before
  | unlock =>
    obtain ⟨rfl, rfl⟩ := Prod.mk.inj (Option.some.inj scheduled)
    exact advanced_of rfl rfl rfl (by simp [CoAt.holds, ScheduleAt.pending])
  | notifyOne =>
    obtain ⟨rfl, rfl⟩ := Prod.mk.inj (Option.some.inj scheduled)
    exact advanced_of rfl rfl rfl (by simp)

/-- A resumption starts the body, or its second half after the deadline. -/
theorem resume_advanced {next : Option CoAt}
    (progress : Progress body (s.frames task).suspended s.now trace .resume)
    (moved : execute i body task s .resume = some (s', next)) :
    Advanced body task s .resume s' next
      (trace ++ CoAt.resume.marks (s.frames task).suspended s.now) := by
  rcases progress with ⟨suspended, rfl⟩ | ⟨suspended, due, later, notReady, time, rfl, rfl⟩
  · simp only [execute, suspended, Option.some.injEq, Prod.mk.injEq] at moved
    obtain ⟨rfl, rfl⟩ := moved
    exact advanced_to rfl rfl rfl ⟨0, Nat.zero_add _, by simp [CoAt.marks, suspended]⟩
  · simp only [execute, suspended, Option.some.injEq, Prod.mk.injEq] at moved
    obtain ⟨rfl, rfl⟩ := moved
    refine advanced_to rfl rfl rfl ⟨0, [.scheduled time body.delay, .resumed s.now],
      Nat.zero_add _, ?_, by simp [CoAt.marks, suspended]⟩
    simp only [Waited, notReady]
    exact ⟨time, s.now, later, delayed_of_fits later, rfl⟩

/-- A statement of a coroutine advances its trace. -/
theorem execute_advanced {place : CoAt} {next : Option CoAt}
    (wired : place.Wired (s.frames task) task)
    (progress : place.holds = true →
      Progress body (s.frames task).suspended s.now trace place)
    (moved : execute i body task s place = some (s', next)) :
    Advanced body task s place s' next
      (trace ++ place.marks (s.frames task).suspended s.now) := by
  cases place with
  | schedule place =>
    simp only [execute, Option.map_eq_some_iff, Prod.mk.injEq] at moved
    obtain ⟨⟨timers, place'⟩, scheduled, rfl, rfl⟩ := moved
    exact schedule_advanced progress scheduled
  | resume => exact resume_advanced (progress rfl) moved
  | first left =>
    obtain ⟨k, count, rfl⟩ := progress rfl
    cases left with
    | zero =>
      obtain ⟨rfl, rfl⟩ := Prod.mk.inj (Option.some.inj moved)
      exact advanced_to rfl rfl rfl (by simp [Progress, CoAt.marks, opening, ← count])
    | succ left =>
      obtain ⟨rfl, rfl⟩ := Prod.mk.inj (Option.some.inj moved)
      exact advanced_to rfl rfl rfl ⟨k + 1, by omega, by simp [CoAt.marks, List.replicate_succ']⟩
  | second left =>
    obtain ⟨k, wait, count, waited, rfl⟩ := progress rfl
    cases left with
    | zero =>
      obtain ⟨rfl, rfl⟩ := Prod.mk.inj (Option.some.inj moved)
      exact advanced_to rfl rfl rfl ⟨wait, waited, by simp [CoAt.marks, closing, ← count]⟩
    | succ left =>
      obtain ⟨rfl, rfl⟩ := Prod.mk.inj (Option.some.inj moved)
      exact advanced_to rfl rfl rfl
        ⟨k + 1, wait, by omega, waited, by simp [CoAt.marks, List.replicate_succ']⟩
  | ready =>
    have opened : trace = opening body := progress rfl
    obtain ⟨rfl, rfl⟩ := Prod.mk.inj (Option.some.inj moved)
    cases ready : body.awaitReady with
    | true =>
      exact advanced_to rfl rfl rfl
        ⟨0, [], Nat.zero_add _, by simp [Waited, ready], by simp [CoAt.marks, opened]⟩
    | false => exact advanced_to rfl rfl rfl ⟨ready, by simp [CoAt.marks, opened]⟩
  | suspend =>
    obtain ⟨notReady, opened⟩ := progress rfl
    obtain ⟨rfl, rfl⟩ := Prod.mk.inj (Option.some.inj moved)
    exact advanced_to rfl rfl rfl ⟨by simp, notReady, by simp [CoAt.marks, opened]⟩
  | awaitSuspend =>
    obtain ⟨suspended, notReady, opened⟩ := progress rfl
    obtain ⟨rfl, rfl⟩ := Prod.mk.inj (Option.some.inj moved)
    exact advanced_to rfl rfl rfl ⟨suspended, notReady, rfl, by simp [CoAt.marks, opened]⟩
  | finalSuspend | finalSuspended =>
    obtain ⟨wait, waited, ended⟩ := progress rfl
    obtain ⟨rfl, rfl⟩ := Prod.mk.inj (Option.some.inj moved)
    exact advanced_to rfl rfl rfl ⟨wait, waited, by simp [CoAt.marks, ended]⟩
  | readDoneFlag =>
    obtain ⟨wait, waited, ended⟩ := progress rfl
    simp only [execute, show (s.frames task).awaiterFlag = some task from wired, Option.some.injEq,
      Prod.mk.injEq] at moved
    obtain ⟨rfl, rfl⟩ := moved
    exact advanced_to rfl rfl rfl ⟨wait, waited, by simp [CoAt.marks, ended]⟩
  | storeDone flag =>
    obtain ⟨wait, waited, ended⟩ := progress rfl
    obtain ⟨rfl, rfl⟩ := Prod.mk.inj (Option.some.inj moved)
    obtain rfl : flag = task := wired
    refine ⟨by simp [CoAt.holds], fun _ member => .inl member, fun j set => ?_, rfl⟩
    by_cases mine : j = flag
    · exact .inr ⟨rfl, mine, wait, waited, by simp [CoAt.marks, ended]⟩
    · exact .inl (by simpa [mine] using set)
  | readContinuation =>
    obtain ⟨rfl, rfl⟩ := Prod.mk.inj (Option.some.inj moved)
    exact advanced_of rfl rfl rfl (by simp)

end Statements

section Prefixes

variable {body : Body} {trace : List Mark}

/-- What is part of the first half is part of an execution. -/
theorem underway_of_opening (begun : trace <+: opening body) : Underway body trace := by
  have wait : ∃ wait, Waited body wait := by
    cases ready : body.awaitReady with
    | true => exact ⟨[], by simp [Waited, ready]⟩
    | false =>
      refine ⟨[.scheduled 0 body.delay, .resumed (deadline 0 body.delay)], ?_⟩
      simp only [Waited, ready]
      exact ⟨0, _, le_rfl, delayed_of_fits le_rfl, rfl⟩
  obtain ⟨wait, waited⟩ := wait
  refine ⟨wait, waited, ?_⟩
  rw [List.append_assoc]
  exact begun.trans (List.prefix_append _ _)

/-- A scheduled task can still be resumed in time. -/
theorem Pending.underway {due : ℤ} (pending : Pending body due trace) : Underway body trace := by
  obtain ⟨notReady, time, rfl, rfl⟩ := pending
  have waited : Waited body
      [.scheduled time body.delay, .resumed (deadline time body.delay)] := by
    simp only [Waited, notReady]
    exact ⟨time, _, le_rfl, delayed_of_fits le_rfl, rfl⟩
  exact ⟨_, waited, by simp⟩

/-- A coroutine that a thread has in hand is underway. -/
theorem Progress.underway {suspended : Option SuspendPoint} {now : ℤ} {place : CoAt}
    (progress : Progress body suspended now trace place) (holding : place.holds = true) :
    Underway body trace := by
  cases place with
  | resume =>
    rcases progress with ⟨_, rfl⟩ | ⟨_, _, _, pending⟩
    · exact underway_of_opening List.nil_prefix
    · exact pending.underway
  | first left =>
    obtain ⟨k, count, rfl⟩ := progress
    exact underway_of_opening ⟨List.replicate left .first, by simp [opening, ← count]⟩
  | ready => exact underway_of_opening (by rw [progress])
  | suspend => exact underway_of_opening (by rw [progress.2])
  | awaitSuspend => exact underway_of_opening (by rw [progress.2.2])
  | schedule place =>
    cases place with
    | readClock delay => exact underway_of_opening (by rw [progress.2.2.2])
    | lock due => exact progress.2.underway
    | push due => exact progress.2.underway
    | _ => simp [CoAt.holds, ScheduleAt.pending] at holding
  | second left =>
    obtain ⟨k, wait, count, waited, rfl⟩ := progress
    refine ⟨wait, waited, List.replicate left .second ++ [.ends], ?_⟩
    rw [closing, ← count, List.replicate_add]
    simp only [List.append_assoc]
  | finalSuspend | finalSuspended | readDoneFlag | storeDone _ =>
    obtain ⟨wait, waited, rfl⟩ := progress
    exact ⟨wait, waited, List.prefix_refl _⟩
  | readContinuation => simp [CoAt.holds] at holding

end Prefixes

end ConcurrencyBench.Coroutines
