import ConcurrencyBench.Coroutines

/-!
# The tasks of the coroutine benchmarks

At every moment a task is in one place: the main thread has not started it or is
running it, an entry in the heap carries it, the timer thread has taken it out or
is running it, or its flag is set. The invariant is an equation between these
counts, with what each thread relies on where it stands. A coroutine does the same
to the account on either thread, so its statements are treated once and each
thread's step uses them.

The status of a frame is a function of the main thread's place, since only the
main thread makes and destroys frames.
-/

namespace ConcurrencyBench.Coroutines

open Interleaving TimerService

/-- Only the frame that is set changes. -/
@[simp]
theorem setFrame_frames (s : Shared) (task i : ℕ) (frame : Frame) :
    (s.setFrame task frame).frames i = if i = task then frame else s.frames i :=
  Function.update_apply s.frames task frame i

/-- Setting a frame leaves the timers. -/
@[simp]
theorem setFrame_timers (s : Shared) (task : ℕ) (frame : Frame) :
    (s.setFrame task frame).timers = s.timers := rfl

/-- Setting a frame leaves the flags. -/
@[simp]
theorem setFrame_done (s : Shared) (task : ℕ) (frame : Frame) :
    (s.setFrame task frame).done = s.done := rfl

/-- A thread at this place still has the task in hand: it has neither pushed the
task's entry nor set the task's flag. -/
def CoAt.holds : CoAt → Bool
  | .schedule place => place.pending
  | .readContinuation => false
  | _ => true

/-- A copy of the pointer to the task's flag points to the task's flag. -/
def CoAt.Wired (frame : Frame) (task : ℕ) : CoAt → Prop
  | .finalSuspended | .readDoneFlag => frame.awaiterFlag = some task
  | .storeDone flag => flag = task
  | _ => True

/-- Who has left a frame needs nothing of it. -/
theorem wired_of_not_holds {frame : Frame} {task : ℕ} {place : CoAt}
    (passed : place.holds = false) : place.Wired frame task := by
  cases place <;> simp [CoAt.holds, CoAt.Wired] at passed ⊢

/-- Setting a frame to one of the same status makes and destroys none. -/
theorem setFrame_status {s : Shared} {task : ℕ} {frame : Frame}
    (same : frame.status = (s.frames task).status) (i : ℕ) :
    ((s.setFrame task frame).frames i).status = (s.frames i).status := by
  rw [setFrame_frames]
  split
  · next here => rw [same, here]
  · rfl

/-- No statement of a coroutine makes or destroys a frame. -/
theorem execute_status {party : Party} {body : Body} {task : ℕ} {s s' : Shared} {place : CoAt}
    {next : Option CoAt} (moved : execute party body task s place = some (s', next)) (i : ℕ) :
    (s'.frames i).status = (s.frames i).status := by
  cases place with
  | schedule place =>
    obtain ⟨_, _, same⟩ := Option.map_eq_some_iff.mp moved
    rw [← (Prod.mk.inj same).1]
  | resume =>
    rw [execute] at moved
    split at moved
    · obtain ⟨rfl, -⟩ := Prod.mk.inj (Option.some.inj moved)
      refine setFrame_status ?_ i
      rfl
    · obtain ⟨rfl, -⟩ := Prod.mk.inj (Option.some.inj moved)
      refine setFrame_status ?_ i
      rfl
    · cases moved
  | suspend | finalSuspend | finalSuspended =>
    obtain ⟨rfl, -⟩ := Prod.mk.inj (Option.some.inj moved)
    refine setFrame_status ?_ i
    rfl
  | first left | second left =>
    cases left <;> rw [← (Prod.mk.inj (Option.some.inj moved)).1]
  | ready | awaitSuspend | readDoneFlag | storeDone | readContinuation =>
    rw [← (Prod.mk.inj (Option.some.inj moved)).1]

/-- What a statement of a task's coroutine does to the rest of the program. -/
structure Executed (task : ℕ) (s : Shared) (place : CoAt) (s' : Shared) (next : Option CoAt) :
    Prop where
  others : ∀ i, i ≠ task → s'.frames i = s.frames i
  silent : place.holds = false → s'.frames = s.frames
  doneFlag : (s'.frames task).doneFlag = (s.frames task).doneFlag
  wired : ∀ following ∈ next, following.Wired (s'.frames task) task
  done : ∀ i, s.done i = true → s'.done i = true
  entries : ∀ i, s'.timers.entries i + (decide (task = i) && next.any CoAt.holds).toNat +
      (s'.done i).toNat =
    s.timers.entries i + (decide (task = i) && place.holds).toNat + (s.done i).toNat
  current : ∀ worker : WorkerAt ℕ, worker.Current s.timers → worker.Current s'.timers

/-- A statement that leaves the shared state alone. -/
theorem executed_same {task : ℕ} {s : Shared} {place : CoAt} {next : Option CoAt}
    (same : next.any CoAt.holds = place.holds)
    (wired : ∀ following ∈ next, following.Wired (s.frames task) task) :
    Executed task s place s next where
  others _ _ := rfl
  silent _ := rfl
  doneFlag := rfl
  wired := wired
  done _ set := set
  entries _ := by rw [same]
  current _ kept := kept

/-- A statement that writes the task's frame while it has the task in hand. -/
theorem executed_setFrame {task : ℕ} {s : Shared} {place next : CoAt} {frame : Frame}
    (holding : place.holds = true) (after : next.holds = true)
    (doneFlag : frame.doneFlag = (s.frames task).doneFlag) (wired : next.Wired frame task) :
    Executed task s place (s.setFrame task frame) (some next) where
  others i other := by simp [other]
  silent passed := by simp [holding] at passed
  doneFlag := by simp [doneFlag]
  wired := by simpa using wired
  done _ set := set
  entries i := by simp [holding, after, Timers.entries]
  current _ kept := kept

/-- Calling the service changes nothing but the service. -/
theorem executed_schedule {i : Party} {task : ℕ} {s : Shared} {place : ScheduleAt}
    {timers : Timers Party ℕ} {next : Option ScheduleAt}
    (scheduled : schedule i s.now task s.timers place = some (timers, next)) :
    Executed task s (.schedule place) { s with timers } (next.map .schedule) where
  others _ _ := rfl
  silent _ := rfl
  doneFlag := rfl
  wired := by
    intro following member
    obtain ⟨_, _, rfl⟩ := Option.map_eq_some_iff.mp member
    trivial
  done _ set := set
  entries j := by
    have account := schedule_entries scheduled j
    have holds : (next.map CoAt.schedule).any CoAt.holds = next.any ScheduleAt.pending := by
      cases next <;> rfl
    rw [holds]
    simp only [CoAt.holds]
    omega
  current _ kept := schedule_current scheduled kept

/-- Setting the flag takes the task out of the thread's hands. -/
theorem executed_storeDone {task : ℕ} {s : Shared} (unset : s.done task = false) :
    Executed task s (.storeDone task) { s with done := Function.update s.done task true }
      (some .readContinuation) where
  others _ _ := rfl
  silent _ := rfl
  doneFlag := rfl
  wired := by simp [CoAt.Wired]
  done i set := by
    by_cases same : i = task <;> simp [same, set]
  entries i := by
    by_cases same : task = i
    · subst same
      simp [CoAt.holds, unset]
    · simp [same, Ne.symm same]
  current _ kept := kept

/-- A statement of a coroutine has its effect, where the frame is wired and the flag not set. -/
theorem execute_executed {i : Party} {body : Body} {task : ℕ} {s s' : Shared} {place : CoAt}
    {next : Option CoAt} (wired : place.Wired (s.frames task) task)
    (flagged : place.holds = true → (s.frames task).doneFlag = some task)
    (unset : place.holds = true → s.done task = false)
    (moved : execute i body task s place = some (s', next)) : Executed task s place s' next := by
  cases place with
  | schedule place =>
    simp only [execute, Option.map_eq_some_iff, Prod.mk.injEq] at moved
    obtain ⟨⟨timers, place'⟩, scheduled, rfl, rfl⟩ := moved
    exact executed_schedule scheduled
  | resume =>
    simp only [execute] at moved
    split at moved <;> simp only [Option.some.injEq, Prod.mk.injEq, reduceCtorEq] at moved <;>
      obtain ⟨rfl, rfl⟩ := moved <;> exact executed_setFrame rfl rfl rfl trivial
  | storeDone flag =>
    simp only [execute, Option.some.injEq, Prod.mk.injEq] at moved
    obtain ⟨rfl, rfl⟩ := moved
    rw [show flag = task from wired] at *
    exact executed_storeDone (unset rfl)
  | readDoneFlag =>
    simp only [execute, show (s.frames task).awaiterFlag = some task from wired, Option.some.injEq,
      Prod.mk.injEq] at moved
    obtain ⟨rfl, rfl⟩ := moved
    exact executed_same rfl (by simp [CoAt.Wired])
  | suspend =>
    simp only [execute, Option.some.injEq, Prod.mk.injEq] at moved
    obtain ⟨rfl, rfl⟩ := moved
    exact executed_setFrame rfl rfl rfl trivial
  | finalSuspend =>
    simp only [execute, Option.some.injEq, Prod.mk.injEq] at moved
    obtain ⟨rfl, rfl⟩ := moved
    exact executed_setFrame rfl rfl rfl (flagged rfl)
  | finalSuspended =>
    simp only [execute, Option.some.injEq, Prod.mk.injEq] at moved
    obtain ⟨rfl, rfl⟩ := moved
    exact executed_setFrame rfl rfl rfl wired
  | ready =>
    simp only [execute, Option.some.injEq, Prod.mk.injEq] at moved
    obtain ⟨rfl, rfl⟩ := moved
    cases body.awaitReady <;> exact executed_same rfl (by simp [CoAt.Wired])
  | first left =>
    cases left <;> simp only [execute, Option.some.injEq, Prod.mk.injEq] at moved <;>
      obtain ⟨rfl, rfl⟩ := moved <;> exact executed_same rfl (by simp [CoAt.Wired])
  | second left =>
    cases left <;> simp only [execute, Option.some.injEq, Prod.mk.injEq] at moved <;>
      obtain ⟨rfl, rfl⟩ := moved <;> exact executed_same rfl (by simp [CoAt.Wired])
  | awaitSuspend | readContinuation =>
    simp only [execute, Option.some.injEq, Prod.mk.injEq] at moved
    obtain ⟨rfl, rfl⟩ := moved
    exact executed_same rfl (by simp [CoAt.Wired])

/-- The main thread still has the task in hand: it has not created it, or is
running it and has neither handed it to the service nor set its flag. -/
def MainAt.holds (numTasks task : ℕ) : MainAt → Bool
  | .loop i | .clearFlag i | .allocate i | .construct i | .setFlag i | .checkDone i =>
    i ≤ task && task < numTasks
  | .running i place => (i < task && task < numTasks) || (i = task && place.holds)
  | _ => false

/-- The timer thread has the task in hand. -/
def TimerAt.holds (task : ℕ) : TimerAt → Bool
  | .worker place => place.holds task
  | .running current place => current = task && place.holds

/-- What becomes of a task's frame is the main thread's doing. -/
def MainAt.statusOf (task : ℕ) : MainAt → Status
  | .loop i | .clearFlag i | .allocate i => if task < i then .alive else .absent
  | .construct i | .setFlag i | .checkDone i | .running i _ => if task ≤ i then .alive else .absent
  | .poll _ => .alive
  | .destroyTasks left => if task ∈ left then .alive else .destroyed
  | .destructor _ => .destroyed

/-- The main thread has stored the pointer to the task's flag. -/
def MainAt.flagged (task : ℕ) : MainAt → Bool
  | .loop i | .clearFlag i | .allocate i | .construct i | .setFlag i => task < i
  | .checkDone i | .running i _ => task ≤ i
  | _ => true

/-- What the main thread relies on where it stands. -/
def MainAt.Ready (numTasks : ℕ) (s : Shared) : MainAt → Prop
  | .loop i => i ≤ numTasks
  | .clearFlag i | .allocate i | .construct i => i < numTasks
  | .setFlag i | .checkDone i => i < numTasks ∧ (s.frames i).suspended = some .initial
  | .running i place => i < numTasks ∧ place.Wired (s.frames i) i
  | .poll i => ∀ task < i, s.done task = true
  | .destroyTasks left =>
    (∀ task ∈ left, task < numTasks) ∧ ∀ task < numTasks, s.done task = true
  | .destructor _ => ∀ task < numTasks, s.done task = true

/-- What the timer thread relies on where it stands. -/
def TimerAt.Ready (s : Shared) : TimerAt → Prop
  | .worker place => place.Current s.timers
  | .running task place => place.Wired (s.frames task) task

/-- Each task is in one place: in the main thread's hands, in the heap, in the
timer thread's hands, or settled by its flag. -/
structure Settled (p : Program) (c : Config) : Prop where
  account : ∀ i, c.shared.timers.entries i + (c.timer.holds i).toNat +
    (c.main.holds p.numTasks i).toNat + (c.shared.done i).toNat = (decide (i < p.numTasks)).toNat
  status : ∀ i < p.numTasks, (c.shared.frames i).status = c.main.statusOf i
  flagged : ∀ i < p.numTasks, c.main.flagged i = true → (c.shared.frames i).doneFlag = some i
  main : c.main.Ready p.numTasks c.shared
  timer : c.timer.Ready c.shared

/-- At the start every frame is yet to be made. -/
theorem settled_init (p : Program) : Settled p Config.init where
  account i := by
    simp [Config.init, Timers.entries, Timers.make, TimerAt.holds, WorkerAt.holds, MainAt.holds]
  status i _ := by simp [Config.init, MainAt.statusOf]
  flagged i _ := by simp [Config.init, MainAt.flagged]
  main := Nat.zero_le p.numTasks
  timer := trivial

section Settled

variable {p : Program} {c : Config} {i task : ℕ} {place : CoAt} {s s' : Shared}
  {next : Option CoAt}

/-- A task the timer thread has in hand is started, not settled, and out of the
main thread's hands. -/
theorem Settled.of_timer_holds (settled : Settled p c) (held : c.timer.holds i = true) :
    i < p.numTasks ∧ c.main.holds p.numTasks i = false ∧ c.shared.done i = false := by
  have account := settled.account i
  simp only [held, Bool.toNat_true] at account
  by_cases inside : i < p.numTasks
  · cases main : c.main.holds p.numTasks i <;> cases done : c.shared.done i <;>
      simp [main, done, inside] at account ⊢
  · simp [inside] at account

/-- A task the main thread has in hand is not settled, and nobody else's. -/
theorem Settled.of_main_holds (settled : Settled p c)
    (held : c.main.holds p.numTasks i = true) :
    i < p.numTasks ∧ c.timer.holds i = false ∧ c.shared.done i = false := by
  have account := settled.account i
  simp only [held, Bool.toNat_true] at account
  by_cases inside : i < p.numTasks
  · cases timer : c.timer.holds i <;> cases done : c.shared.done i <;>
      simp [timer, done, inside] at account ⊢
  · simp [inside] at account

/-- A settled task is in nobody's hands and not in the heap. -/
theorem Settled.of_done (settled : Settled p c) (done : c.shared.done i = true) :
    c.shared.timers.entries i = 0 ∧ c.timer.holds i = false := by
  have account := settled.account i
  have bound : (decide (i < p.numTasks)).toNat ≤ 1 := Bool.toNat_le _
  simp only [done, Bool.toNat_true] at account
  cases timer : c.timer.holds i <;> simp [timer] at account ⊢ <;> omega

/-- A task that the main thread has let go of has been given its flag. -/
theorem flagged_of_not_holds {numTasks : ℕ} {main : MainAt} (inside : task < numTasks)
    (passed : main.holds numTasks task = false) : main.flagged task = true := by
  cases main <;> simp [MainAt.holds, MainAt.flagged] at passed ⊢ <;> omega

/-- A statement leaves the frames of the other tasks. -/
theorem Executed.frame_eq (executed : Executed task s place s' next)
    (apart : i = task → place.holds = false) : s'.frames i = s.frames i := by
  by_cases same : i = task
  · rw [executed.silent (apart same)]
  · exact executed.others i same

/-- A statement leaves the pointers to the flags. -/
theorem Executed.doneFlag_eq (executed : Executed task s place s' next) (i : ℕ) :
    (s'.frames i).doneFlag = (s.frames i).doneFlag := by
  by_cases same : i = task
  · rw [same]
    exact executed.doneFlag
  · rw [executed.others i same]

/-- A coroutine on one thread leaves what the main thread relies on. -/
theorem Executed.main_ready {numTasks : ℕ} {main : MainAt}
    (executed : Executed task s place s' next) (ready : main.Ready numTasks s)
    (apart : main.holds numTasks task = true → place.holds = false) :
    main.Ready numTasks s' := by
  cases main with
  | loop | clearFlag | allocate | construct => exact ready
  | setFlag i =>
    refine ⟨ready.1, ?_⟩
    rw [executed.frame_eq fun same => apart (by simp [MainAt.holds, ← same, ready.1])]
    exact ready.2
  | checkDone i =>
    refine ⟨ready.1, ?_⟩
    rw [executed.frame_eq fun same => apart (by simp [MainAt.holds, ← same, ready.1])]
    exact ready.2
  | running i other =>
    refine ⟨ready.1, ?_⟩
    cases passed : other.holds with
    | false => exact wired_of_not_holds passed
    | true =>
      rw [executed.frame_eq fun same => apart (by simp [MainAt.holds, ← same, passed])]
      exact ready.2
  | poll i => exact fun task before => executed.done task (ready task before)
  | destroyTasks left =>
    exact ⟨ready.1, fun task inside => executed.done task (ready.2 task inside)⟩
  | destructor place => exact fun task inside => executed.done task (ready task inside)

/-- A coroutine on the main thread leaves what the timer thread relies on. -/
theorem Executed.timer_ready {timer : TimerAt} (executed : Executed task s place s' next)
    (ready : timer.Ready s) (apart : timer.holds task = true → place.holds = false) :
    timer.Ready s' := by
  cases timer with
  | worker other => exact executed.current other ready
  | running i other =>
    cases passed : other.holds with
    | false => exact wired_of_not_holds passed
    | true =>
      show other.Wired (s'.frames i) i
      rw [executed.frame_eq fun same => apart (by simp [TimerAt.holds, same, passed])]
      exact ready

/-- The timer thread has no task in hand whose frame another statement replaces. -/
theorem TimerAt.Ready.setFrame {timer : TimerAt} {frame : Frame} (ready : timer.Ready s)
    (apart : timer.holds task = false) : timer.Ready (s.setFrame task frame) := by
  cases timer with
  | worker place => exact ready
  | running i place =>
    by_cases same : i = task
    · subst same
      exact wired_of_not_holds (by simpa [TimerAt.holds] using apart)
    · simpa [TimerAt.Ready, same] using ready

/-- A statement of a coroutine on the timer thread. -/
theorem Settled.timer_executed (settled : Settled p c) (standing : c.timer = .running task place)
    (moved : execute .timer (p.body task) task c.shared place = some (s', next)) :
    Executed task c.shared place s' next := by
  have held : place.holds = true → c.timer.holds task = true := fun held => by
    simp [standing, TimerAt.holds, held]
  refine execute_executed (by simpa [standing, TimerAt.Ready] using settled.timer)
    (fun holding => ?_) (fun holding => (settled.of_timer_holds (held holding)).2.2) moved
  obtain ⟨inside, passed, _⟩ := settled.of_timer_holds (held holding)
  exact settled.flagged task inside (flagged_of_not_holds inside passed)

/-- A step of the timer thread inside a coroutine. -/
theorem Settled.timer_running (settled : Settled p c) (standing : c.timer = .running task place)
    (moved : execute .timer (p.body task) task c.shared place = some (s', next)) :
    Settled p ⟨s', c.main, .following task next⟩ := by
  have executed := settled.timer_executed standing moved
  have apart : c.main.holds p.numTasks task = true → place.holds = false := fun mine => by
    have none := (settled.of_main_holds mine).2.1
    simpa [standing, TimerAt.holds] using none
  constructor
  · intro i
    have before := settled.account i
    have entries := executed.entries i
    cases next <;>
      simp [standing, TimerAt.following, TimerAt.holds, WorkerAt.holds] at before entries ⊢ <;> omega
  · intro i inside
    rw [execute_status moved i]
    exact settled.status i inside
  · intro i inside stored
    rw [executed.doneFlag_eq i]
    exact settled.flagged i inside stored
  · exact executed.main_ready settled.main apart
  · cases next with
    | none => trivial
    | some following => exact executed.wired following rfl

/-- A step of the timer thread between two coroutines. -/
theorem Settled.timer_worker {worker worker' : WorkerAt ℕ} {timers : Timers Party ℕ}
    (settled : Settled p c) (standing : c.timer = .worker worker)
    (moved : run .timer c.shared.now c.shared.timers worker = some (timers, worker')) :
    Settled p ⟨{ c.shared with timers }, c.main, .worker worker'⟩ := by
  have current : worker.Current c.shared.timers := by
    simpa [standing, TimerAt.Ready] using settled.timer
  refine ⟨fun i => ?_, settled.status, settled.flagged, ?_, run_current current moved⟩
  · have before := settled.account i
    have entries := run_entries current moved i
    simp only [standing, TimerAt.holds] at before ⊢
    omega
  · have ready := settled.main
    cases standing : c.main <;> simpa [standing, MainAt.Ready] using ready

/-- Every statement of the timer thread keeps the tasks settled. -/
theorem Settled.timerStep (settled : Settled p c) {timer : TimerAt}
    (moved : timerStep p c.shared c.timer = some (s', timer)) :
    Settled p ⟨s', c.main, timer⟩ := by
  rcases timerStep_cases moved with ⟨task, standing, rfl, rfl⟩ |
    ⟨worker, timers, worker', standing, ran, rfl, rfl⟩ |
    ⟨task, place, next, standing, executed, rfl⟩
  · refine ⟨fun i => ?_, settled.status, settled.flagged, settled.main, trivial⟩
    have before := settled.account i
    simpa [standing, TimerAt.holds, WorkerAt.holds, CoAt.holds] using before
  · exact settled.timer_worker standing ran
  · exact settled.timer_running standing executed

/-- What the main thread holds after a statement of a task it runs. -/
theorem holds_following (numTasks task i : ℕ) (next : Option CoAt) :
    (MainAt.following task next).holds numTasks i =
      ((task < i && i < numTasks) || (task = i && next.any CoAt.holds)) := by
  cases next with
  | none =>
    rw [MainAt.following, MainAt.holds, Option.any_none, Bool.and_false, Bool.or_false]
    rfl
  | some place => rfl

/-- A statement of a task it runs does not change what the main thread has made of the frames. -/
theorem statusOf_following (task i : ℕ) (next : Option CoAt) (place : CoAt) :
    (MainAt.following task next).statusOf i = (MainAt.running task place).statusOf i := by
  cases next with
  | none =>
    rw [MainAt.following, MainAt.statusOf, MainAt.statusOf]
    exact if_congr Nat.lt_succ_iff rfl rfl
  | some place => rfl

/-- A statement of a task it runs does not change which frames have their flags. -/
theorem flagged_following (task i : ℕ) (next : Option CoAt) (place : CoAt) :
    (MainAt.following task next).flagged i = (MainAt.running task place).flagged i := by
  cases next with
  | none => exact decide_eq_decide.mpr Nat.lt_succ_iff
  | some place => rfl

/-- A statement of a coroutine on the main thread. -/
theorem Settled.main_executed (settled : Settled p c) (standing : c.main = .running task place)
    (moved : execute .main (p.body task) task c.shared place = some (s', next)) :
    Executed task c.shared place s' next := by
  have ready : task < p.numTasks ∧ place.Wired (c.shared.frames task) task := by
    simpa [standing, MainAt.Ready] using settled.main
  have held : place.holds = true → c.main.holds p.numTasks task = true := fun held => by
    simp [standing, MainAt.holds, held]
  exact execute_executed ready.2
    (fun _ => settled.flagged task ready.1 (by simp [standing, MainAt.flagged]))
    (fun holding => (settled.of_main_holds (held holding)).2.2) moved

/-- A step of the main thread inside a coroutine. -/
theorem Settled.main_running (settled : Settled p c) (standing : c.main = .running task place)
    (moved : execute .main (p.body task) task c.shared place = some (s', next)) :
    Settled p ⟨s', .following task next, c.timer⟩ := by
  have ready : task < p.numTasks ∧ place.Wired (c.shared.frames task) task := by
    simpa [standing, MainAt.Ready] using settled.main
  have executed := settled.main_executed standing moved
  have apart : c.timer.holds task = true → place.holds = false := fun theirs => by
    have none := (settled.of_timer_holds theirs).2.1
    simpa [standing, MainAt.holds] using none
  constructor
  · intro i
    have before := settled.account i
    have entries := executed.entries i
    rw [holds_following]
    simp only [standing, MainAt.holds] at before
    by_cases same : task = i
    · subst same
      simp at before entries ⊢
      omega
    · simp [same] at before entries ⊢
      omega
  · intro i inside
    have before := settled.status i inside
    rw [standing] at before
    rw [statusOf_following, ← before]
    exact execute_status moved i
  · intro i inside stored
    rw [executed.doneFlag_eq i]
    refine settled.flagged i inside ?_
    rw [standing]
    rwa [flagged_following] at stored
  · cases next with
    | none => exact ready.1
    | some following => exact ⟨ready.1, executed.wired following rfl⟩
  · exact executed.timer_ready settled.timer apart

/-- A step of the main thread that only moves on. -/
theorem Settled.moves {main : MainAt} (settled : Settled p c)
    (holds : ∀ i, main.holds p.numTasks i = c.main.holds p.numTasks i)
    (status : ∀ i < p.numTasks, main.statusOf i = c.main.statusOf i)
    (flagged : ∀ i < p.numTasks, main.flagged i = true → c.main.flagged i = true)
    (ready : main.Ready p.numTasks c.shared) : Settled p { c with main } where
  account i := by
    rw [holds i]
    exact settled.account i
  status i inside := (settled.status i inside).trans (status i inside).symm
  flagged i inside stored := settled.flagged i inside (flagged i inside stored)
  main := ready
  timer := settled.timer

/-- A step of the main thread that replaces a frame the timer thread has no use for. -/
theorem Settled.writes {main : MainAt} {frame : Frame} (settled : Settled p c)
    (apart : c.timer.holds task = false)
    (holds : ∀ i, main.holds p.numTasks i = c.main.holds p.numTasks i)
    (status : ∀ i < p.numTasks,
      main.statusOf i = if i = task then frame.status else c.main.statusOf i)
    (flagged : ∀ i < p.numTasks, main.flagged i = true →
      if i = task then frame.doneFlag = some i else c.main.flagged i = true)
    (ready : main.Ready p.numTasks (c.shared.setFrame task frame)) :
    Settled p { c with shared := c.shared.setFrame task frame, main } where
  account i := by
    rw [holds i]
    exact settled.account i
  status i inside := by
    have before := settled.status i inside
    rw [status i inside]
    by_cases same : i = task <;> simp [same] at before ⊢
    exact before
  flagged i inside stored := by
    have stored := flagged i inside stored
    by_cases same : i = task
    · simpa [same] using stored
    · simpa [same] using settled.flagged i inside (by simpa [same] using stored)
  main := ready
  timer := settled.timer.setFrame apart

/-- A step of the clock, or one that leaves the service's heap alone. -/
theorem Settled.service (settled : Settled p c) (now : ℤ) (timers : Timers Party ℕ)
    (same : timers.heap = c.shared.timers.heap) :
    Settled p { c with shared := { c.shared with now, timers } } where
  account i := by
    rw [entries_congr same i]
    exact settled.account i
  status := settled.status
  flagged := settled.flagged
  main := by
    have ready := settled.main
    cases standing : c.main <;> simpa [standing, MainAt.Ready] using ready
  timer := by
    have ready := settled.timer
    cases standing : c.timer with
    | worker place =>
      rw [standing] at ready
      exact ready.congr same
    | running task place => simpa [standing, TimerAt.Ready] using ready

/-- The main thread creates no task that another has in hand. -/
theorem Settled.apart (settled : Settled p c) (inside : i < p.numTasks)
    (held : c.main.holds p.numTasks i = (i ≤ i && i < p.numTasks)) :
    c.timer.holds i = false := by
  refine (settled.of_main_holds ?_).2.1
  rw [held, Bool.and_eq_true, decide_eq_true_eq, decide_eq_true_eq]
  exact ⟨le_rfl, inside⟩

/-- A frame of the same status is as good as the one before. -/
theorem Settled.statusOf_eq (settled : Settled p c) (inside : task < p.numTasks) (j : ℕ) :
    c.main.statusOf j =
      if j = task then (c.shared.frames task).status else c.main.statusOf j := by
  split
  · next same => rw [settled.status task inside, same]
  · rfl

/-- The main thread allocates a frame. -/
theorem Settled.allocate (settled : Settled p c) (standing : c.main = .allocate i) :
    Settled p ⟨c.shared.setFrame i { c.shared.frames i with status := .alive }, .construct i,
      c.timer⟩ := by
  have ready := settled.main
  rw [standing] at ready
  refine settled.writes (settled.apart ready (by rw [standing]; rfl)) (fun j => ?_)
    (fun j _ => ?_) (fun j _ stored => ?_) ready
  · rw [standing]
    rfl
  · rw [standing]
    by_cases same : j = i
    · rw [if_pos same]
      exact if_pos same.le
    · rw [if_neg same]
      exact if_congr (by omega) rfl rfl
  · have before : j < i := of_decide_eq_true stored
    rw [if_neg before.ne, standing]
    exact stored

/-- The main thread constructs the promise. -/
theorem Settled.construct (settled : Settled p c) (standing : c.main = .construct i) :
    Settled p ⟨c.shared.setFrame i ⟨(c.shared.frames i).status, some .initial, none, none⟩,
      .setFlag i, c.timer⟩ := by
  have ready := settled.main
  rw [standing] at ready
  refine settled.writes (settled.apart ready (by rw [standing]; rfl)) (fun j => ?_)
    (fun j _ => ?_) (fun j _ stored => ?_) ⟨ready, ?_⟩
  · rw [standing]
    rfl
  · rw [← settled.statusOf_eq ready j, standing]
    rfl
  · have before : j < i := of_decide_eq_true stored
    rw [if_neg before.ne, standing]
    exact stored
  · rw [setFrame_frames, if_pos rfl]

/-- The main thread stores the pointer to the flag. -/
theorem Settled.setFlag (settled : Settled p c) (standing : c.main = .setFlag i) :
    Settled p ⟨c.shared.setFrame i { c.shared.frames i with doneFlag := some i }, .checkDone i,
      c.timer⟩ := by
  have ready := settled.main
  rw [standing] at ready
  refine settled.writes (settled.apart ready.1 (by rw [standing]; rfl)) (fun j => ?_)
    (fun j _ => ?_) (fun j _ stored => ?_) ⟨ready.1, ?_⟩
  · rw [standing]
    rfl
  · rw [← settled.statusOf_eq ready.1 j, standing]
    rfl
  · have upTo : j ≤ i := of_decide_eq_true stored
    split
    · next same => rw [same]
    · next other =>
      rw [standing]
      exact decide_eq_true (upTo.lt_of_ne other)
  · rw [setFrame_frames, if_pos rfl]
    exact ready.2

/-- A step of the main thread. -/
theorem Settled.iteration {main : MainAt} (settled : Settled p c)
    (moved : iteration p c.timer.exited c.shared c.main = some (s', main)) :
    Settled p ⟨s', main, c.timer⟩ := by
  have ready := settled.main
  cases standing : c.main with
  | running task place =>
    simp only [Coroutines.iteration, standing, Option.map_eq_some_iff, Prod.mk.injEq] at moved
    obtain ⟨⟨_, next⟩, executed, rfl, rfl⟩ := moved
    exact settled.main_running standing executed
  | allocate i =>
    rw [standing] at moved
    obtain ⟨rfl, rfl⟩ := Prod.mk.inj (Option.some.inj moved)
    exact settled.allocate standing
  | construct i =>
    rw [standing] at moved
    obtain ⟨rfl, rfl⟩ := Prod.mk.inj (Option.some.inj moved)
    exact settled.construct standing
  | setFlag i =>
    rw [standing] at moved
    obtain ⟨rfl, rfl⟩ := Prod.mk.inj (Option.some.inj moved)
    exact settled.setFlag standing
  | loop i =>
    rw [standing] at moved ready
    have bound : i ≤ p.numTasks := ready
    rw [Coroutines.iteration] at moved
    split at moved <;> obtain ⟨rfl, rfl⟩ := Prod.mk.inj (Option.some.inj moved)
    · next inside =>
      exact settled.moves (fun _ => by rw [standing]; rfl) (fun _ _ => by rw [standing]; rfl)
        (fun _ _ stored => by rw [standing]; exact stored) inside
    · next outside =>
      refine settled.moves (fun j => ?_) (fun j inside => ?_) (fun j inside _ => ?_) nofun
      · rw [standing]
        simp only [MainAt.holds, Bool.false_eq, Bool.and_eq_false_iff, decide_eq_false_iff_not]
        omega
      · rw [standing]
        exact (if_pos (by omega)).symm
      · rw [standing]
        exact decide_eq_true (by omega)
  | clearFlag i =>
    rw [standing] at moved ready
    obtain ⟨rfl, rfl⟩ := Prod.mk.inj (Option.some.inj moved)
    have inside : i < p.numTasks := ready
    have unset := (settled.of_main_holds (i := i) (by simp [standing, MainAt.holds, inside])).2.2
    have same : Function.update c.shared.done i false = c.shared.done := by
      rw [← unset, Function.update_eq_self]
    rw [same]
    exact settled.moves (fun _ => by rw [standing]; rfl) (fun _ _ => by rw [standing]; rfl)
      (fun _ _ stored => by rw [standing]; exact stored) inside
  | checkDone i =>
    rw [standing] at moved ready
    obtain ⟨rfl, rfl⟩ := Prod.mk.inj (Option.some.inj moved)
    obtain ⟨inside, fresh⟩ : i < p.numTasks ∧ (c.shared.frames i).suspended = some .initial := ready
    rw [if_neg (by simp [fresh])]
    refine settled.moves (fun j => ?_) (fun _ _ => by rw [standing]; rfl)
      (fun _ _ stored => by rw [standing]; exact stored) ⟨inside, trivial⟩
    rw [standing, Bool.eq_iff_iff]
    simp only [MainAt.holds, CoAt.holds, Bool.or_eq_true, Bool.and_eq_true, decide_eq_true_eq,
      and_true]
    omega
  | poll i =>
    rw [standing] at moved ready
    rw [Coroutines.iteration] at moved
    have before : ∀ task < i, c.shared.done task = true := ready
    split at moved
    · split at moved <;> obtain ⟨rfl, rfl⟩ := Prod.mk.inj (Option.some.inj moved)
      · next done =>
        refine settled.moves (fun _ => by rw [standing]; rfl) (fun _ _ => by rw [standing]; rfl)
          (fun _ _ _ => by rw [standing]; rfl) fun task upTo => ?_
        rcases Nat.lt_succ_iff_lt_or_eq.mp upTo with less | rfl
        · exact before task less
        · exact done
      · exact settled.moves (fun _ => by rw [standing]; rfl) (fun _ _ => by rw [standing]; rfl)
          (fun _ _ _ => by rw [standing]; rfl) nofun
    · next all =>
      obtain ⟨rfl, rfl⟩ := Prod.mk.inj (Option.some.inj moved)
      refine settled.moves (fun _ => by rw [standing]; rfl) (fun j inside => ?_)
        (fun _ _ _ => by rw [standing]; rfl)
        ⟨fun _ => Finset.mem_range.mp, fun task inside => before task (by omega)⟩
      rw [standing]
      exact if_pos (Finset.mem_range.mpr inside)
  | destroyTasks left =>
    simp only [Coroutines.iteration, standing, Option.ite_none_right_eq_some, Option.some.injEq,
      Prod.mk.injEq] at moved
    obtain ⟨empty, rfl, rfl⟩ := moved
    refine settled.moves (fun j => ?_) (fun j _ => ?_) (fun j _ stored => ?_) ?_
    all_goals simp_all [MainAt.holds, MainAt.statusOf, MainAt.flagged, MainAt.Ready]
  | destructor place =>
    simp only [Coroutines.iteration, standing, Option.map_eq_some_iff, Prod.mk.injEq] at moved
    obtain ⟨⟨timers, place'⟩, destroyed, rfl, rfl⟩ := moved
    have onward : Settled p { c with main := .destructor place' } := by
      refine settled.moves (fun j => ?_) (fun j _ => ?_) (fun j _ stored => ?_) ?_
      · simp [standing, MainAt.holds]
      · simp [standing, MainAt.statusOf]
      · simp [standing, MainAt.flagged]
      · simpa [standing, MainAt.Ready] using ready
    exact onward.service c.shared.now timers (destroy_heap destroyed)

/-- Every step keeps the tasks settled. -/
theorem settled_preserved : Preserved (step p) (Settled p) := by
  intro c label c' settled taken
  cases label with
  | main =>
    obtain ⟨⟨shared, main⟩, moved, rfl⟩ := Option.map_eq_some_iff.mp taken
    exact settled.iteration moved
  | timer =>
    obtain ⟨⟨shared, timer⟩, moved, rfl⟩ := Option.map_eq_some_iff.mp taken
    exact settled.timerStep moved
  | top entry =>
    obtain ⟨standing, top, rfl⟩ := top_cases taken
    refine ⟨fun i => ?_, settled.status, settled.flagged, settled.main, top.1⟩
    have before := settled.account i
    simpa [standing, TimerAt.holds, WorkerAt.holds] using before
  | destroy task =>
    obtain ⟨left, standing, member, rfl⟩ := destroy_cases taken
    have ready : (∀ task ∈ left, task < p.numTasks) ∧
        ∀ task < p.numTasks, c.shared.done task = true := by
      simpa [standing, MainAt.Ready] using settled.main
    have apart := (settled.of_done (ready.2 task (ready.1 task member))).2
    refine settled.writes apart (fun j => ?_) (fun j inside => ?_) (fun j inside _ => ?_) ?_
    · simp [standing, MainAt.holds]
    · by_cases same : j = task <;> simp [standing, MainAt.statusOf, same]
    · have stored := settled.flagged j inside (by simp [standing, MainAt.flagged])
      by_cases same : j = task
      · simpa [← same] using stored
      · simp [standing, MainAt.flagged, same]
    · exact ⟨fun j remaining => ready.1 j (Finset.mem_of_mem_erase remaining), ready.2⟩
  | wake =>
    simp only [step, Option.ite_none_right_eq_some, Option.some.injEq] at taken
    obtain ⟨_, rfl⟩ := taken
    exact settled.service c.shared.now { c.shared.timers with asleep := false } rfl
  | tick d =>
    simp only [step, Option.some.injEq] at taken
    subst taken
    exact settled.service (c.shared.now + d) c.shared.timers rfl

/-- The frame of a task that has left the main thread's hands is there until the
task is settled. -/
theorem Settled.alive (settled : Settled p c) (inside : i < p.numTasks)
    (passed : c.main.holds p.numTasks i = false) (unset : c.shared.done i = false) :
    (c.shared.frames i).status = .alive := by
  have ready := settled.main
  rw [settled.status i inside]
  have undone : ¬ ∀ task < p.numTasks, c.shared.done task = true := by
    intro done
    rw [done i inside] at unset
    cases unset
  cases standing : c.main with
  | loop j | clearFlag j | allocate j =>
    rw [standing, MainAt.holds, decide_eq_true inside, Bool.and_true] at passed
    exact if_pos (Nat.lt_of_not_le (of_decide_eq_false passed))
  | construct j | setFlag j | checkDone j =>
    rw [standing, MainAt.holds, decide_eq_true inside, Bool.and_true] at passed
    exact if_pos (Nat.le_of_not_le (of_decide_eq_false passed))
  | running j place =>
    rw [standing, MainAt.holds, decide_eq_true inside, Bool.and_true, Bool.or_eq_false_iff] at passed
    exact if_pos (Nat.le_of_not_lt (of_decide_eq_false passed.1))
  | poll j => rfl
  | destroyTasks left =>
    rw [standing] at ready
    exact absurd ready.2 undone
  | destructor place =>
    rw [standing] at ready
    exact absurd ready undone

/-- The frame the main thread uses next is there. -/
theorem Settled.main_touches (settled : Settled p c) (touching : c.main.touches = some i) :
    (c.shared.frames i).status = .alive := by
  have ready := settled.main
  cases standing : c.main with
  | construct j =>
    rw [standing] at touching ready
    obtain rfl := Option.some.inj touching
    rw [settled.status j ready, standing]
    exact if_pos le_rfl
  | setFlag j | checkDone j =>
    rw [standing] at touching ready
    obtain rfl := Option.some.inj touching
    rw [settled.status j ready.1, standing]
    exact if_pos le_rfl
  | running j place =>
    rw [standing] at touching ready
    obtain ⟨_, touching⟩ := Option.ite_none_right_eq_some.mp touching
    obtain rfl := Option.some.inj touching
    rw [settled.status j ready.1, standing]
    exact if_pos le_rfl
  | _ =>
    rw [standing] at touching
    cases touching

end Settled

end ConcurrencyBench.Coroutines
