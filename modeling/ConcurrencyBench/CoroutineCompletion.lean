import ConcurrencyBench.CoroutineTraces

/-!
# Every task is finished when the wait is over

A task's place and its trace go together. The trace is empty until the main thread
resumes the task. While a thread runs the task, it is as long as the coroutine's
position says; while the heap or the worker has the task, it ends with the call that
scheduled it, and the worker has found the deadline reached before it takes the task.
Once the flag is set, it is a script.

A flag is set for good, so when the main thread has seen all flags set, all traces
are scripts. Then the heap is empty and the timer thread has no task in hand. No thread
runs the coroutine of a task again, so this stays so, and the traces with it.
-/

namespace ConcurrencyBench.Coroutines

open Interleaving TimerService

/-- The main thread has not resumed the task. -/
def MainAt.fresh (task : ℕ) : MainAt → Bool
  | .loop i | .clearFlag i | .allocate i | .construct i | .setFlag i | .checkDone i => i ≤ task
  | .running i _ => i < task
  | _ => false

/-- `wait_all` has returned. -/
def MainAt.waited : MainAt → Bool
  | .destroyTasks _ | .destructor _ => true
  | _ => false

/-- A task's trace goes with the task's place. -/
structure Tied (p : Program) (i : ℕ) (s : Shared) (main : MainAt) (timer : TimerAt)
    (trace : List Mark) : Prop where
  fresh : main.fresh i = true → trace = []
  running : ∀ place, main = .running i place ∨ timer = .running i place → place.holds = true →
    Progress (p.body i) (s.frames i).suspended s.now trace place
  heap : ∀ e ∈ s.timers.heap, e.handle = i →
    (s.frames i).suspended = some .await ∧ Pending (p.body i) e.when trace
  taken : ∀ place, timer = .worker place → place.holds i = true →
    (s.frames i).suspended = some .await ∧ ∃ due ≤ s.now, Pending (p.body i) due trace
  done : s.done i = true → Script (p.body i) i trace

section Tied

variable {p : Program} {i : ℕ} {s s' : Shared} {main main' : MainAt} {timer timer' : TimerAt}
  {trace : List Mark}

/-- What has been done by now has been done later. -/
theorem Progress.mono {body : Body} {suspended : Option SuspendPoint} {now now' : ℤ}
    {place : CoAt} (progress : Progress body suspended now trace place) (later : now ≤ now') :
    Progress body suspended now' trace place := by
  cases place with
  | resume => exact progress.imp_right fun ⟨at_, due, past, pending⟩ =>
      ⟨at_, due, past.trans later, pending⟩
  | _ => exact progress

/-- A step that is not the task's own: it keeps the frame's suspension, adds no entry of
the task, does not set its flag, and gives it to nobody. -/
theorem Tied.elsewhere (tied : Tied p i s main timer trace)
    (suspended : (s'.frames i).suspended = (s.frames i).suspended) (later : s.now ≤ s'.now)
    (heap : ∀ e ∈ s'.timers.heap, e.handle = i → e ∈ s.timers.heap)
    (done : s'.done i = true → s.done i = true)
    (fresh : main'.fresh i = true → main.fresh i = true)
    (running : ∀ place, main' = .running i place ∨ timer' = .running i place →
      place.holds = true → main = .running i place ∨ timer = .running i place)
    (taken : ∀ place, timer' = .worker place → place.holds i = true →
      ∃ before, timer = .worker before ∧ before.holds i = true) :
    Tied p i s' main' timer' trace where
  fresh early := tied.fresh (fresh early)
  running place here holding := by
    rw [suspended]
    exact (tied.running place (running place here holding) holding).mono later
  heap e member same := by
    rw [suspended]
    exact tied.heap e (heap e member same) same
  taken place here holding := by
    obtain ⟨before, there, held⟩ := taken place here holding
    obtain ⟨waiting, due, past, pending⟩ := tied.taken before there held
    rw [suspended]
    exact ⟨waiting, due, past.trans later, pending⟩
  done set := tied.done (done set)

/-- A step of the main thread that leaves the frame's suspension, the heap and the flag,
and does not resume the task. -/
theorem Tied.passes (tied : Tied p i s main timer trace)
    (suspended : (s'.frames i).suspended = (s.frames i).suspended) (later : s.now ≤ s'.now)
    (heap : s'.timers.heap = s.timers.heap) (done : s'.done i = true → s.done i = true)
    (fresh : main'.fresh i = true → main.fresh i = true)
    (running : ∀ place, main' = .running i place → main = .running i place) :
    Tied p i s' main' timer trace :=
  tied.elsewhere suspended later (fun _ member _ => heap ▸ member) done fresh
    (fun place here _ => here.imp_left (running place)) fun place there holding =>
      ⟨place, there, holding⟩

/-- A task nobody has resumed, and that nobody runs but its first resumption. -/
theorem Tied.early (alone : ∀ e ∈ s.timers.heap, e.handle ≠ i) (apart : timer.holds i = false)
    (unset : s.done i = false) (nothing : trace = [])
    (running : ∀ place, main = .running i place →
      place = .resume ∧ (s.frames i).suspended = some .initial) :
    Tied p i s main timer trace where
  fresh _ := nothing
  running place here holding := by
    rcases here with here | there
    · obtain ⟨rfl, suspended⟩ := running place here
      exact .inl ⟨suspended, nothing⟩
    · simp [there, TimerAt.holds, holding] at apart
  heap e member same := absurd same (alone e member)
  taken place there holding := by simp [there, TimerAt.holds, holding] at apart
  done set := by simp [unset] at set

/-- A step of another task's coroutine, or of this one after it has given the task away. -/
theorem Tied.aside {task : ℕ} {place : CoAt} {next : Option CoAt} {extended : List Mark}
    (tied : Tied p i s main timer trace) (executed : Executed task s place s' next)
    (advanced : Advanced (p.body task) task s place s' next extended)
    (apart : i = task → place.holds = false)
    (fresh : main'.fresh i = true → main.fresh i = true)
    (running : ∀ place, main' = .running i place ∨ timer' = .running i place →
      place.holds = true → main = .running i place ∨ timer = .running i place)
    (taken : ∀ place, timer' = .worker place → place.holds i = true →
      ∃ before, timer = .worker before ∧ before.holds i = true) :
    Tied p i s' main' timer' trace := by
  refine tied.elsewhere (by rw [executed.frame_eq apart]) advanced.now.ge (fun e member same => ?_)
    (fun set => ?_) fresh running taken
  · rcases advanced.heap e member with before | ⟨holding, mine, _⟩
    · exact before
    · simp [apart (same.symm.trans mine)] at holding
  · rcases advanced.done i set with before | ⟨holding, mine, _⟩
    · exact before
    · simp [apart mine] at holding

/-- A step of the task's coroutine on the thread that has the task in hand. -/
theorem Tied.own {place : CoAt} {next : Option CoAt}
    (advanced : Advanced (p.body i) i s place s' next trace)
    (alone : ∀ e ∈ s.timers.heap, e.handle ≠ i) (unset : s.done i = false)
    (fresh : main'.fresh i = false)
    (running : ∀ place, main' = .running i place ∨ timer' = .running i place →
      place.holds = true → place ∈ next)
    (taken : ∀ place, timer' = .worker place → place.holds i = false) :
    Tied p i s' main' timer' trace where
  fresh early := by simp [fresh] at early
  running place here holding := advanced.next place (running place here holding) holding
  heap e member same := by
    rcases advanced.heap e member with before | ⟨_, _, waiting, pending⟩
    · exact absurd same (alone e before)
    · exact ⟨waiting, pending⟩
  taken place here holding := by simp [taken place here] at holding
  done set := by
    rcases advanced.done i set with before | ⟨_, _, script⟩
    · simp [unset] at before
    · exact script

end Tied

/-- Who has left a task leaves no mark of it. -/
theorem marks_of_not_holds {place : CoAt} (passed : place.holds = false)
    (suspended : Option SuspendPoint) (now : ℤ) : place.marks suspended now = [] := by
  cases place with
  | schedule place => cases place <;> simp [CoAt.holds, ScheduleAt.pending, CoAt.marks] at passed ⊢
  | _ => simp [CoAt.holds, CoAt.marks] at passed ⊢

/-- A coroutine that has given its task away does not get it back. -/
theorem not_holds_next {party : Party} {body : Body} {task : ℕ} {s s' : Shared} {place : CoAt}
    {next : Option CoAt} (passed : place.holds = false)
    (moved : execute party body task s place = some (s', next)) :
    ∀ following ∈ next, following.holds = false := by
  cases place with
  | schedule place =>
    simp only [execute, Option.map_eq_some_iff, Prod.mk.injEq] at moved
    obtain ⟨⟨timers, place'⟩, scheduled, rfl, rfl⟩ := moved
    cases place <;> simp [CoAt.holds, ScheduleAt.pending, schedule] at passed scheduled <;>
      simp [← scheduled.2, CoAt.holds, ScheduleAt.pending]
  | readContinuation =>
    obtain ⟨rfl, rfl⟩ := Prod.mk.inj (Option.some.inj moved)
    simp
  | _ => simp [CoAt.holds] at passed

section Steps

variable {p : Program} {c : Config} {s' : Shared} {trace : ℕ → List Mark}

/-- A task in somebody's hands, or settled, has no entry. -/
theorem Settled.no_entry {i : ℕ} (settled : Settled p c)
    (placed : c.main.holds p.numTasks i = true ∨ c.timer.holds i = true ∨
      c.shared.done i = true) : ∀ e ∈ c.shared.timers.heap, e.handle ≠ i := by
  have account := settled.account i
  have bound : (decide (i < p.numTasks)).toNat ≤ 1 := Bool.toNat_le _
  have none : c.shared.timers.entries i = 0 := by
    rcases placed with held | held | set <;> simp only [*, Bool.toNat_true] at account <;> omega
  simpa [Timers.entries, List.countP_eq_zero] using none

/-- A task yet to be made is the main thread's. -/
theorem holds_of_fresh {numTasks i : ℕ} {main : MainAt} (early : main.fresh i = true)
    (inside : i < numTasks) : main.holds numTasks i = true := by
  cases main <;> simp_all [MainAt.fresh, MainAt.holds]

/-- What a step of one task's coroutine adds to the traces is nothing for another task,
and nothing once the coroutine has given its task away. -/
theorem added_of_apart {task i : ℕ} {place : CoAt} {suspended : Option SuspendPoint} {now : ℤ}
    (apart : i = task → place.holds = false) :
    (if task = i then place.marks suspended now else []) = [] := by
  by_cases same : task = i
  · rw [if_pos same, marks_of_not_holds (apart same.symm)]
  · rw [if_neg same]

/-- A statement of a coroutine on the timer thread. -/
theorem tied_timer_running {task : ℕ} {place : CoAt} {next : Option CoAt} (settled : Settled p c)
    (tied : ∀ i < p.numTasks, Tied p i c.shared c.main c.timer (trace i))
    (standing : c.timer = .running task place)
    (moved : execute .timer (p.body task) task c.shared place = some (s', next)) (i : ℕ)
    (inside : i < p.numTasks) :
    Tied p i s' c.main (.following task next) (trace i ++
      if task = i then place.marks (c.shared.frames task).suspended c.shared.now else []) := by
  have held : place.holds = true → c.timer.holds task = true := fun holding => by
    simp [standing, TimerAt.holds, holding]
  have advanced : Advanced (p.body task) task c.shared place s' next
      (trace task ++ place.marks (c.shared.frames task).suspended c.shared.now) :=
    execute_advanced (by simpa [standing, TimerAt.Ready] using settled.timer)
    (fun holding => (tied task (settled.of_timer_holds (held holding)).1).running place
      (.inr standing) holding) moved
  by_cases own : i = task ∧ place.holds = true
  · obtain ⟨rfl, holding⟩ := own
    obtain ⟨_, passed, unset⟩ := settled.of_timer_holds (held holding)
    rw [if_pos rfl]
    refine Tied.own advanced (settled.no_entry (.inr (.inl (held holding)))) unset ?_ ?_ ?_
    · by_contra early
      simp [holds_of_fresh (by simpa using early) inside] at passed
    · rintro other (there | here) holding
      · simp [there, MainAt.holds, holding] at passed
      · cases next <;> simp_all [TimerAt.following]
    · intro worker here
      cases next <;> simp [TimerAt.following] at here
      simp [← here, WorkerAt.holds]
  · have apart : i = task → place.holds = false := by simpa using own
    rw [added_of_apart apart, List.append_nil]
    refine (tied i inside).aside (settled.timer_executed standing moved) advanced apart id ?_ ?_
    · rintro other (there | here) holding
      · exact .inl there
      · cases next with
        | none => simp [TimerAt.following] at here
        | some following =>
          obtain ⟨rfl, rfl⟩ : task = i ∧ following = other := by simpa [TimerAt.following] using here
          simp [not_holds_next (apart rfl) moved following rfl] at holding
    · intro worker here holding
      cases next <;> simp [TimerAt.following] at here
      simp [← here, WorkerAt.holds] at holding

/-- A statement of a coroutine on the main thread. -/
theorem tied_main_running {task : ℕ} {place : CoAt} {next : Option CoAt} (settled : Settled p c)
    (tied : ∀ i < p.numTasks, Tied p i c.shared c.main c.timer (trace i))
    (standing : c.main = .running task place)
    (moved : execute .main (p.body task) task c.shared place = some (s', next)) (i : ℕ)
    (inside : i < p.numTasks) :
    Tied p i s' (.following task next) c.timer (trace i ++
      if task = i then place.marks (c.shared.frames task).suspended c.shared.now else []) := by
  have held : place.holds = true → c.main.holds p.numTasks task = true := fun holding => by
    simp [standing, MainAt.holds, holding]
  have ready : task < p.numTasks ∧ place.Wired (c.shared.frames task) task := by
    simpa [standing, MainAt.Ready] using settled.main
  have advanced : Advanced (p.body task) task c.shared place s' next
      (trace task ++ place.marks (c.shared.frames task).suspended c.shared.now) :=
    execute_advanced ready.2 (fun holding => (tied task ready.1).running place (.inl standing) holding) moved
  by_cases own : i = task ∧ place.holds = true
  · obtain ⟨rfl, holding⟩ := own
    obtain ⟨_, passed, unset⟩ := settled.of_main_holds (held holding)
    rw [if_pos rfl]
    refine Tied.own advanced (settled.no_entry (.inl (held holding))) unset ?_ ?_ ?_
    · cases next <;> simp [MainAt.following, MainAt.fresh]
    · rintro other (here | there) holding
      · cases next <;> simp_all [MainAt.following]
      · simp [there, TimerAt.holds, holding] at passed
    · intro worker there
      simpa [there, TimerAt.holds] using passed
  · have apart : i = task → place.holds = false := by simpa using own
    rw [added_of_apart apart, List.append_nil]
    refine (tied i inside).aside (settled.main_executed standing moved) advanced apart ?_ ?_
      fun worker there holding => ⟨worker, there, holding⟩
    · intro early
      rw [standing]
      cases next <;> simp [MainAt.following, MainAt.fresh] at early ⊢ <;> omega
    · rintro other (here | there) holding
      · cases next with
        | none => simp [MainAt.following] at here
        | some following =>
          obtain ⟨rfl, rfl⟩ : task = i ∧ following = other := by simpa [MainAt.following] using here
          simp [not_holds_next (apart rfl) moved following rfl] at holding
      · exact .inr there

/-- What the worker's loop does to the heap and to the entry it takes. -/
theorem run_takes {now : ℤ} {s : Timers Party ℕ} {timers : Timers Party ℕ} {worker worker' : WorkerAt ℕ}
    (moved : TimerService.run Party.timer now s worker = some (timers, worker')) :
    (∀ e ∈ timers.heap, e ∈ s.heap) ∧
    (∀ i, worker'.holds i = true → worker.holds i = true ∨ ∃ e, worker = .pop e ∧ e.handle = i) ∧
    ∀ e, worker' = .pop e → e.when ≤ now := by
  cases worker with
  | lock =>
    obtain ⟨_, rfl, rfl⟩ := lock_map_eq_some_iff.mp moved
    exact ⟨fun _ => id, nofun, nofun⟩
  | exitTest | emptyTest | waitTest =>
    obtain ⟨rfl, next⟩ := Prod.mk.inj (Option.some.inj moved)
    obtain ⟨_, rfl⟩ | ⟨_, rfl⟩ := ite_eq_iff.mp next <;>
      exact ⟨fun _ => id, nofun, nofun⟩
  | exitUnlock | sleep | sleepUntil =>
    obtain ⟨rfl, rfl⟩ := Prod.mk.inj (Option.some.inj moved)
    exact ⟨fun _ => id, nofun, nofun⟩
  | asleep | asleepUntil =>
    obtain ⟨_, moved⟩ := Option.ite_none_left_eq_some.mp moved
    obtain ⟨_, rfl, rfl⟩ := lock_map_eq_some_iff.mp moved
    exact ⟨fun _ => id, nofun, nofun⟩
  | dueTest top =>
    obtain ⟨rfl, next⟩ := Prod.mk.inj (Option.some.inj moved)
    obtain ⟨_, rfl⟩ | ⟨due, rfl⟩ := ite_eq_iff.mp next
    · exact ⟨fun _ => id, nofun, nofun⟩
    · refine ⟨fun _ => id, nofun, fun e same => ?_⟩
      obtain rfl := WorkerAt.pop.inj same
      exact Int.not_lt.mp due
  | pop e =>
    obtain ⟨rfl, rfl⟩ := Prod.mk.inj (Option.some.inj moved)
    exact ⟨fun _ => List.mem_of_mem_erase, fun _ held => .inr ⟨e, rfl, of_decide_eq_true held⟩,
      nofun⟩
  | unlock task =>
    obtain ⟨rfl, rfl⟩ := Prod.mk.inj (Option.some.inj moved)
    exact ⟨fun _ => id, fun _ => .inl, nofun⟩
  | exited | top | resume => cases moved

/-- A statement of the timer's worker leaves each task where it stands. -/
theorem tied_timer_worker {worker worker' : WorkerAt ℕ} {timers : Timers Party ℕ}
    (settled : Settled p c) (due : ∀ e, c.timer = .worker (.pop e) → e.when ≤ c.shared.now)
    (tied : ∀ i < p.numTasks, Tied p i c.shared c.main c.timer (trace i))
    (standing : c.timer = .worker worker)
    (moved : TimerService.run .timer c.shared.now c.shared.timers worker = some (timers, worker'))
    (i : ℕ) (inside : i < p.numTasks) :
    Tied p i { c.shared with timers } c.main (.worker worker') (trace i) := by
  obtain ⟨fewer, takes, _⟩ := run_takes moved
  have before := tied i inside
  refine ⟨before.fresh, fun place here holding => ?_, fun e member => before.heap e (fewer e member),
    fun place here holding => ?_, before.done⟩
  · rcases here with there | here
    · exact before.running place (.inl there) holding
    · simp at here
  · obtain rfl : worker' = place := by simpa using here
    rcases takes i holding with held | ⟨e, rfl, rfl⟩
    · exact before.taken worker standing held
    · have current : e ∈ c.shared.timers.heap := by
        simpa [standing, TimerAt.Ready, WorkerAt.Current] using settled.timer
      obtain ⟨waiting, pending⟩ := before.heap e current rfl
      exact ⟨waiting, e.when, due e standing, pending⟩

/-- A step of the main thread outside of the coroutines. -/
theorem tied_iteration {main : MainAt} (settled : Settled p c)
    (tied : ∀ i < p.numTasks, Tied p i c.shared c.main c.timer (trace i))
    (outside : ∀ task place, c.main ≠ .running task place)
    (moved : iteration p c.timer.exited c.shared c.main = some (s', main))
    (i : ℕ) (inside : i < p.numTasks) :
    Tied p i s' main c.timer (trace i) := by
  have before := tied i inside
  cases standing : c.main with
  | running task place => exact absurd standing (outside task place)
  | loop j =>
    rw [standing, iteration] at moved
    rw [standing] at before
    split at moved <;> obtain ⟨rfl, rfl⟩ := Prod.mk.inj (Option.some.inj moved)
    · exact before.passes rfl le_rfl rfl id id (by simp)
    · exact before.passes rfl le_rfl rfl id (by simp [MainAt.fresh]) (by simp)
  | clearFlag j =>
    simp only [iteration, standing, Option.some.injEq, Prod.mk.injEq] at moved
    obtain ⟨rfl, rfl⟩ := moved
    rw [standing] at before
    refine before.passes rfl le_rfl rfl ?_ id (by simp)
    by_cases same : i = j <;> simp [same]
  | allocate j =>
    simp only [iteration, standing, Option.some.injEq, Prod.mk.injEq] at moved
    obtain ⟨rfl, rfl⟩ := moved
    rw [standing] at before
    refine before.passes ?_ le_rfl rfl id id (by simp)
    by_cases same : i = j <;> simp [same]
  | construct j =>
    simp only [iteration, standing, Option.some.injEq, Prod.mk.injEq] at moved
    obtain ⟨rfl, rfl⟩ := moved
    by_cases same : i = j
    · subst same
      have early : c.main.fresh i = true := by simp [standing, MainAt.fresh]
      have held := holds_of_fresh early inside
      obtain ⟨_, apart, unset⟩ := settled.of_main_holds held
      exact Tied.early (settled.no_entry (.inl held)) apart unset (before.fresh early) (by simp)
    · rw [standing] at before
      exact before.passes (by simp [same]) le_rfl rfl id id (by simp)
  | setFlag j =>
    simp only [iteration, standing, Option.some.injEq, Prod.mk.injEq] at moved
    obtain ⟨rfl, rfl⟩ := moved
    rw [standing] at before
    refine before.passes ?_ le_rfl rfl id id (by simp)
    by_cases same : i = j <;> simp [same]
  | checkDone j =>
    have started : (c.shared.frames j).suspended = some .initial := by
      have ready := settled.main
      rw [standing] at ready
      exact ready.2
    simp only [iteration, standing, started, Option.some.injEq, Prod.mk.injEq] at moved
    obtain ⟨rfl, rfl⟩ := moved
    by_cases same : i = j
    · subst same
      have early : c.main.fresh i = true := by simp [standing, MainAt.fresh]
      have held := holds_of_fresh early inside
      obtain ⟨_, apart, unset⟩ := settled.of_main_holds held
      refine Tied.early (settled.no_entry (.inl held)) apart unset (before.fresh early) ?_
      intro place here
      simp_all
    · rw [standing] at before
      refine before.passes rfl le_rfl rfl id ?_ ?_
      · simp [MainAt.fresh]
        omega
      · simp [Ne.symm same]
  | poll j =>
    obtain ⟨rfl, rfl⟩ := Prod.mk.inj (Option.some.inj (standing ▸ moved))
    rw [standing] at before
    split
    · split <;> exact before.passes rfl le_rfl rfl id (by simp [MainAt.fresh]) (by simp)
    · exact before.passes rfl le_rfl rfl id (by simp [MainAt.fresh]) (by simp)
  | destroyTasks left =>
    simp only [iteration, standing, Option.ite_none_right_eq_some, Option.some.injEq,
      Prod.mk.injEq] at moved
    obtain ⟨_, rfl, rfl⟩ := moved
    rw [standing] at before
    exact before.passes rfl le_rfl rfl id (by simp [MainAt.fresh]) (by simp)
  | destructor place =>
    simp only [iteration, standing, Option.map_eq_some_iff, Prod.mk.injEq] at moved
    obtain ⟨⟨timers, place'⟩, destroyed, rfl, rfl⟩ := moved
    rw [standing] at before
    exact before.passes rfl le_rfl (destroy_heap destroyed) id (by simp [MainAt.fresh]) (by simp)

end Steps

section Run

variable {p : Program} {t t' : Traced} {i : ℕ}

/-- Every task's trace goes with its place, and the worker removes only what is due. -/
structure Complete (p : Program) (t : Traced) : Prop where
  settled : Settled p t.config
  due : ∀ e, t.config.timer = .worker (.pop e) → e.when ≤ t.config.shared.now
  tied : ∀ i < p.numTasks, Tied p i t.config.shared t.config.main t.config.timer (t.trace i)

/-- At the start nothing has been done. -/
theorem complete_init (p : Program) : Complete p Traced.init where
  settled := settled_init p
  due e here := by simp [Traced.init, Config.init] at here
  tied i _ := by
    refine Tied.early ?_ ?_ rfl rfl ?_ <;>
      simp [Traced.init, Config.init, Timers.make, TimerAt.holds, WorkerAt.holds]

/-- A recorded step is a step. -/
theorem tracedStep_cases {label : Label} (taken : tracedStep p t label = some t') :
    ∃ c', step p t.config label = some c' ∧
      t' = ⟨c', fun task => t.trace task ++ marks t.config task label⟩ := by
  obtain ⟨c', stepped, rfl⟩ := Option.map_eq_some_iff.mp taken
  exact ⟨c', stepped, rfl⟩

/-- A statement of a coroutine takes no time. -/
theorem execute_now {party : Party} {body : Body} {task : ℕ} {s s' : Shared} {place : CoAt}
    {next : Option CoAt} (moved : execute party body task s place = some (s', next)) :
    s'.now = s.now := by
  cases place with
  | schedule place =>
    obtain ⟨_, _, same⟩ := Option.map_eq_some_iff.mp moved
    rw [← (Prod.mk.inj same).1]
  | resume =>
    rw [execute] at moved
    split at moved
    · rw [← (Prod.mk.inj (Option.some.inj moved)).1, Shared.setFrame]
    · rw [← (Prod.mk.inj (Option.some.inj moved)).1, Shared.setFrame]
    · cases moved
  | suspend | finalSuspend | finalSuspended =>
    rw [← (Prod.mk.inj (Option.some.inj moved)).1, Shared.setFrame]
  | first left | second left => cases left <;> rw [← (Prod.mk.inj (Option.some.inj moved)).1]
  | ready | awaitSuspend | readDoneFlag | storeDone | readContinuation =>
    rw [← (Prod.mk.inj (Option.some.inj moved)).1]

/-- No step of the main thread moves the clock. -/
theorem iteration_now {exited : Bool} {s s' : Shared} {main main' : MainAt}
    (moved : iteration p exited s main = some (s', main')) : s'.now = s.now := by
  cases main with
  | running task place =>
    obtain ⟨⟨_, next⟩, executed, same⟩ := Option.map_eq_some_iff.mp moved
    rw [← (Prod.mk.inj same).1]
    exact execute_now executed
  | destructor place =>
    obtain ⟨_, _, same⟩ := Option.map_eq_some_iff.mp moved
    rw [← (Prod.mk.inj same).1]
  | allocate | construct | setFlag =>
    rw [← (Prod.mk.inj (Option.some.inj moved)).1, Shared.setFrame]
  | loop | clearFlag | checkDone | poll => rw [← (Prod.mk.inj (Option.some.inj moved)).1]
  | destroyTasks left =>
    obtain ⟨_, moved⟩ := Option.ite_none_right_eq_some.mp moved
    rw [← (Prod.mk.inj (Option.some.inj moved)).1]

/-- Every statement of the main thread keeps the traces right. -/
theorem complete_main {s' : Shared} {main : MainAt} (complete : Complete p t)
    (moved : iteration p t.config.timer.exited t.config.shared t.config.main = some (s', main)) :
    ∀ i < p.numTasks, Tied p i s' main t.config.timer (t.trace i ++ marks t.config i .main) := by
  obtain ⟨settled, _, tied⟩ := complete
  cases standing : t.config.main with
  | running task place =>
    simp only [iteration, standing, Option.map_eq_some_iff, Prod.mk.injEq] at moved
    obtain ⟨⟨_, next⟩, executed, rfl, rfl⟩ := moved
    simpa [marks, standing] using tied_main_running settled tied standing executed
  | _ =>
    have outside : ∀ task place, t.config.main ≠ .running task place := by simp [standing]
    simpa [marks, standing] using tied_iteration settled tied outside moved

/-- Every statement of the timer thread keeps the traces right. -/
theorem complete_timer {s' : Shared} {timer : TimerAt} (complete : Complete p t)
    (moved : timerStep p t.config.shared t.config.timer = some (s', timer)) :
    (∀ e, timer = .worker (.pop e) → e.when ≤ s'.now) ∧
    ∀ i < p.numTasks, Tied p i s' t.config.main timer (t.trace i ++ marks t.config i .timer) := by
  obtain ⟨settled, due, tied⟩ := complete
  rcases timerStep_cases moved with ⟨task, standing, rfl, rfl⟩ |
    ⟨worker, timers, worker', standing, ran, rfl, rfl⟩ |
    ⟨task, place, next, standing, executed, rfl⟩
  · refine ⟨by simp, fun i inside => ?_⟩
    have before := tied i inside
    have silent : marks t.config i .timer = [] := by simp [marks, standing]
    rw [silent, List.append_nil]
    refine ⟨before.fresh, fun place here holding => ?_, before.heap, by simp, before.done⟩
    rcases here with there | here
    · exact before.running place (.inl there) holding
    · obtain ⟨rfl, rfl⟩ := TimerAt.running.inj here
      exact .inr (before.taken _ standing (by simp [WorkerAt.holds]))
  · obtain ⟨_, _, past⟩ := run_takes ran
    refine ⟨by simpa using past, ?_⟩
    simpa [marks, standing] using tied_timer_worker settled due tied standing ran
  · refine ⟨?_, by simpa [marks, standing] using tied_timer_running settled tied standing executed⟩
    cases next <;> simp [TimerAt.following]

/-- Every step keeps the traces right. -/
theorem complete_preserved : Preserved (tracedStep p) (Complete p) := by
  intro t label t' complete taken
  obtain ⟨c', stepped, rfl⟩ := tracedStep_cases taken
  have settled := settled_preserved t.config label c' complete.settled stepped
  cases label with
  | main =>
    obtain ⟨⟨shared, main⟩, moved, rfl⟩ := Option.map_eq_some_iff.mp stepped
    refine ⟨settled, ?_, complete_main complete moved⟩
    rw [iteration_now moved]
    exact complete.due
  | timer =>
    obtain ⟨⟨shared, timer⟩, moved, rfl⟩ := Option.map_eq_some_iff.mp stepped
    obtain ⟨due, tied⟩ := complete_timer complete moved
    exact ⟨settled, due, tied⟩
  | top entry =>
    obtain ⟨standing, top, rfl⟩ := top_cases stepped
    refine ⟨settled, by simp, fun i inside => ?_⟩
    have before := complete.tied i inside
    simp only [marks, List.append_nil]
    refine before.elsewhere rfl le_rfl (fun _ member _ => member) id id (fun place here _ => ?_) ?_
    · exact here.imp_right fun there => by simp at there
    · simp [WorkerAt.holds]
  | destroy task =>
    obtain ⟨left, standing, member, rfl⟩ := destroy_cases stepped
    refine ⟨settled, complete.due, fun i inside => ?_⟩
    have before := complete.tied i inside
    simp only [marks, List.append_nil]
    refine before.passes ?_ le_rfl rfl id (by simp [MainAt.fresh]) (by simp)
    by_cases same : i = task <;> simp [same]
  | wake =>
    simp only [step, Option.ite_none_right_eq_some, Option.some.injEq] at stepped
    obtain ⟨_, rfl⟩ := stepped
    refine ⟨settled, complete.due, fun i inside => ?_⟩
    simp only [marks, List.append_nil]
    exact (complete.tied i inside).passes rfl le_rfl rfl id id fun _ here => here
  | tick d =>
    obtain rfl := Option.some.inj stepped
    have later : t.config.shared.now ≤ t.config.shared.now + d := by omega
    refine ⟨settled, fun e here => (complete.due e here).trans later, fun i inside => ?_⟩
    simp only [marks, List.append_nil]
    exact (complete.tied i inside).passes rfl later rfl id id fun _ here => here

/-- The traces are right in every reachable state. -/
theorem reachable_complete (reached : Reaches (tracedStep p) Traced.init t) : Complete p t :=
  complete_preserved.reaches (complete_init p) reached

/-- A task whose flag is not set is underway, wherever it is. -/
theorem Complete.underway (complete : Complete p t) (inside : i < p.numTasks)
    (unset : t.config.shared.done i = false) : Underway (p.body i) (t.trace i) := by
  have tied := complete.tied i inside
  have account := complete.settled.account i
  simp only [unset, inside, decide_true, Bool.toNat_false, Bool.toNat_true] at account
  by_cases mine : t.config.main.holds p.numTasks i = true
  · by_cases early : t.config.main.fresh i = true
    · rw [tied.fresh early]
      exact underway_of_opening List.nil_prefix
    · cases standing : t.config.main with
      | running j place =>
        simp only [standing, MainAt.holds, MainAt.fresh] at mine early
        obtain ⟨rfl, holding⟩ : j = i ∧ place.holds = true := by simpa [early] using mine
        exact (tied.running place (.inl standing) holding).underway holding
      | _ => simp_all [MainAt.holds, MainAt.fresh]
  · by_cases theirs : t.config.timer.holds i = true
    · cases standing : t.config.timer with
      | worker place =>
        obtain ⟨_, _, _, pending⟩ := tied.taken place standing
          (by simpa [standing, TimerAt.holds] using theirs)
        exact pending.underway
      | running j place =>
        obtain ⟨rfl, holding⟩ : j = i ∧ place.holds = true := by
          simpa [standing, TimerAt.holds] using theirs
        exact (tied.running place (.inr standing) holding).underway holding
    · have entered : 0 < t.config.shared.timers.entries i := by
        simp_all
      obtain ⟨e, member, same⟩ := List.countP_pos_iff.mp entered
      exact (tied.heap e member (by simpa using same)).2.underway

/-- When `wait_all` has returned, every task's flag is set, nothing is in the heap, and the
timer thread has no task in hand. -/
theorem Complete.of_waited (complete : Complete p t) (waited : t.config.main.waited = true) :
    t.config.shared.timers.heap = [] ∧ ∀ i < p.numTasks, Script (p.body i) i (t.trace i) ∧
      t.config.timer.holds i = false := by
  have settled := complete.settled
  have done : ∀ i < p.numTasks, t.config.shared.done i = true := by
    have ready := settled.main
    cases standing : t.config.main <;> rw [standing] at ready waited <;>
      simp [MainAt.waited] at waited
    · exact ready.2
    · exact ready
  refine ⟨?_, fun i inside => ⟨(complete.tied i inside).done (done i inside),
    (settled.of_done (done i inside)).2⟩⟩
  refine List.eq_nil_iff_forall_not_mem.mpr fun e member => ?_
  by_cases inside : e.handle < p.numTasks
  · exact settled.no_entry (.inr (.inr (done _ inside))) e member rfl
  · have account := settled.account e.handle
    have entered : 0 < t.config.shared.timers.entries e.handle :=
      List.countP_pos_iff.mpr ⟨e, member, by simp⟩
    simp [inside] at account
    omega

/-- `wait_all` does not begin again. -/
theorem waited_preserved :
    Preserved (tracedStep p) fun t => t.config.main.waited = true := by
  intro t label t' waited taken
  obtain ⟨c', stepped, rfl⟩ := tracedStep_cases taken
  cases label with
  | main =>
    obtain ⟨⟨shared, main⟩, moved, rfl⟩ := Option.map_eq_some_iff.mp stepped
    cases standing : t.config.main with
    | destroyTasks left =>
      simp only [iteration, standing, Option.ite_none_right_eq_some, Option.some.injEq,
        Prod.mk.injEq] at moved
      rw [← moved.2.2]
      rfl
    | destructor place =>
      simp only [iteration, standing, Option.map_eq_some_iff, Prod.mk.injEq] at moved
      obtain ⟨_, _, _, rfl⟩ := moved
      rfl
    | _ => simp [standing, MainAt.waited] at waited
  | timer =>
    obtain ⟨_, _, rfl⟩ := Option.map_eq_some_iff.mp stepped
    exact waited
  | top entry =>
    obtain ⟨_, _, rfl⟩ := top_cases stepped
    exact waited
  | destroy task =>
    obtain ⟨_, _, _, rfl⟩ := destroy_cases stepped
    rfl
  | wake =>
    simp only [step, Option.ite_none_right_eq_some, Option.some.injEq] at stepped
    obtain ⟨_, rfl⟩ := stepped
    exact waited
  | tick d =>
    obtain rfl := Option.some.inj stepped
    exact waited

/-- Once the wait is over no coroutine has a task in hand, so the traces are final. -/
theorem trace_final {label : Label} (complete : Complete p t)
    (waited : t.config.main.waited = true) (taken : tracedStep p t label = some t')
    (inside : i < p.numTasks) : t'.trace i = t.trace i := by
  obtain ⟨c', stepped, rfl⟩ := tracedStep_cases taken
  have apart := ((complete.of_waited waited).2 i inside).2
  have silent : marks t.config i label = [] := by
    cases label with
    | main =>
      cases standing : t.config.main with
      | running => simp [standing, MainAt.waited] at waited
      | _ => simp [marks, standing]
    | timer =>
      cases standing : t.config.timer with
      | worker => simp [marks, standing]
      | running task place =>
        have passed : i = task → place.holds = false := fun same => by
          simpa [standing, TimerAt.holds, same] using apart
        simpa [marks, standing] using added_of_apart passed
    | _ => rfl
  simp [silent]

/-- Every task is really finished when `wait_all` returns, for any number of tasks, any
bodies and delays, and every interleaving of the main thread and the timer thread. While
a task's flag is not set, its body has been executed up to somewhere, and once the flag
is set, from start to end: each part once and in order, the second half, if the task was
scheduled, not before its deadline, which is the clock value read plus the delay unless these
overflow, and after the end one store, to the task's flag. When `wait_all` has returned, this is so for all tasks for good,
nothing is in the heap and the timer thread neither holds nor runs any task. -/
theorem tasks_finished_when_waited (p : Program) (t : Traced)
    (reached : Reaches (tracedStep p) Traced.init t) :
    (∀ i < p.numTasks, t.config.shared.done i = false → Underway (p.body i) (t.trace i)) ∧
    (∀ i < p.numTasks, t.config.shared.done i = true → Script (p.body i) i (t.trace i)) ∧
    (t.config.main.waited = true → ∀ later, Reaches (tracedStep p) t later →
      later.config.shared.timers.heap = [] ∧ ∀ i < p.numTasks,
        Script (p.body i) i (later.trace i) ∧ later.trace i = t.trace i ∧
          later.config.timer.holds i = false) := by
  have complete := reachable_complete reached
  refine ⟨fun i inside => complete.underway inside, fun i inside => (complete.tied i inside).done,
    fun waited later continued => ?_⟩
  have kept : Preserved (tracedStep p) fun u => (Complete p u ∧ u.config.main.waited = true) ∧
      ∀ i < p.numTasks, u.trace i = t.trace i := by
    rintro u label u' ⟨⟨complete, waited⟩, same⟩ taken
    exact ⟨⟨complete_preserved u label u' complete taken, waited_preserved u label u' waited taken⟩,
      fun i inside => (trace_final complete waited taken inside).trans (same i inside)⟩
  obtain ⟨⟨complete, waited⟩, same⟩ := kept.reaches ⟨⟨complete, waited⟩, fun _ _ => rfl⟩ continued
  obtain ⟨empty, finished⟩ := complete.of_waited waited
  exact ⟨empty, fun i inside => ⟨(finished i inside).1, same i inside, (finished i inside).2⟩⟩

/-- A task that is scheduled and one that is not, both finished when the wait is over:
the flag of the second is set by the main thread before the timer thread resumes the first. -/
theorem tasks_finished_when_waited_two :
    ∃ (p : Program) (t : Traced), Reaches (tracedStep p) Traced.init t ∧
      t.config.main.waited = true ∧ t.config.shared.timers.heap = [] ∧
      t.trace 0 = [.begins, .first, .scheduled 0 5, .resumed 5000, .second, .ends, .flagged 0] ∧
      t.trace 1 = [.begins, .ends, .flagged 1] := by
  let p : Program := ⟨2, fun i => if i = 0 then .asyncMixedTask 2 5 else .asyncIoTask 0⟩
  let schedule : List Label :=
    [List.replicate 33 .main, [.tick 5000], List.replicate 3 .timer,
      [.top ⟨5000, 0⟩], List.replicate 11 .timer, List.replicate 3 .main].flatten
  have played : (Interleaving.run (tracedStep p) Traced.init schedule).map
      (fun t => (t.config.main.waited, t.trace 0, t.trace 1)) =
        some (true, [.begins, .first, .scheduled 0 5, .resumed 5000, .second, .ends, .flagged 0],
          [.begins, .ends, .flagged 1]) := by
    decide +kernel
  obtain ⟨t, reached, final⟩ := Option.map_eq_some_iff.mp played
  simp only [Prod.mk.injEq] at final
  obtain ⟨waited, first, second⟩ := final
  obtain ⟨_, _, finished⟩ := tasks_finished_when_waited p t ⟨schedule, reached⟩
  exact ⟨p, t, ⟨schedule, reached⟩, waited, (finished waited t (Reaches.refl t)).1, first, second⟩

/-- A task with the longest delay there is goes on at once, as its deadline overflows. -/
theorem overflowing_delay_resumed : ∃ (p : Program) (t : Traced),
    Reaches (tracedStep p) Traced.init t ∧ t.config.main.waited = true ∧
      t.trace 0 = [.begins, .scheduled 0 (2 ^ 63 - 1), .resumed 0, .ends, .flagged 0] ∧
      ¬ (0 : ℤ) + (2 ^ 63 - 1) * 1000 ≤ 0 := by
  let p : Program := ⟨1, fun _ => .asyncIoTask (2 ^ 63 - 1)⟩
  let schedule : List Label :=
    [List.replicate 17 .main, List.replicate 3 .timer, [.top ⟨-1000, 0⟩],
      List.replicate 10 .timer, List.replicate 2 .main].flatten
  have played : (Interleaving.run (tracedStep p) Traced.init schedule).map
      (fun t => (t.config.main.waited, t.trace 0)) =
        some (true, [.begins, .scheduled 0 (2 ^ 63 - 1), .resumed 0, .ends, .flagged 0]) := by
    decide +kernel
  obtain ⟨t, reached, final⟩ := Option.map_eq_some_iff.mp played
  obtain ⟨waited, trace⟩ := Prod.mk.inj final
  exact ⟨p, t, ⟨schedule, reached⟩, waited, trace, by decide⟩

end Run

end ConcurrencyBench.Coroutines
