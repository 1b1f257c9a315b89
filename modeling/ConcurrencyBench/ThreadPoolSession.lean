import ConcurrencyBench.AsyncFutures
import ConcurrencyBench.ThreadPoolShutdown
import ConcurrencyBench.ThreadPoolWakeups

/-!
# Bursts of tasks on a thread pool

A benchmark of the thread pool submits a burst of tasks, keeps their futures, gets one after
the other, and goes on with the next burst; then it destroys the pool. Most have a single
burst. The benchmark's thread is the pool's owner, and the pool has no other clients. A task
is the number of its burst and its place in it. Its promise is fulfilled by the step that
ends its execution. Sums of results that do not fit in 32 bits are assumed to wrap around.

Every step of a session is a step of the pool's program, or one of the benchmark's thread
outside the pool, so what is known of the pool holds here. A task that has been submitted is
queued, or in the hands of one worker, or has fulfilled its promise, and it is one of these
only. So a burst is over when its futures have been got, and no task of it is left when the
next one begins.

The destructor may hang. What comes before it may not, as long as threads do not wake up for
no reason for ever: a worker that finds no task goes to sleep, and it takes a notification to
have it look again.
-/

namespace ConcurrencyBench.ThreadPoolSession

open Interleaving ThreadPool
open PromiseFuture (add)

variable {n : ℕ}

/-- The burst of a task and its place in the burst. -/
abbrev Task := ℕ × ℕ

/-- The bursts of a benchmark, and what the task at a place returns. -/
structure Benchmark where
  numBursts : ℕ
  tasksPerBurst : ℕ
  work : ℕ → ℤ

section Benchmarks

variable (cpuIntensiveTask : ℤ → ℤ) (argument : ℕ)

/-- `ThreadPool_CPUBound` -/
def threadPoolCPUBound : Benchmark := ⟨1, argument, fun i => cpuIntensiveTask (add 10000 i)⟩

/-- `mixed_task` sleeps as well, and returns what `cpu_intensive_task` has returned. -/
def threadPoolMixed : Benchmark := ⟨1, argument, fun i => cpuIntensiveTask (add 5000 i)⟩

/-- `ThreadPool_Scalability` -/
def threadPoolScalability : Benchmark :=
  ⟨1, argument, fun _ => cpuIntensiveTask (1000000 / argument : ℕ)⟩

/-- `ThreadPool_BurstWorkload` -/
def threadPoolBurstWorkload : Benchmark := ⟨5, argument, fun _ => cpuIntensiveTask 8000⟩

end Benchmarks

/-- The next statement of the benchmark's thread. -/
inductive Main
  | burst (burst : ℕ)
  | submit (burst i : ℕ)
  | submitting (burst i : ℕ)
  | get (burst i : ℕ) (burstResult : ℤ)
  | destroy
  | destroying
  | finished
  | threw

/-- The pool's program, the futures, the results of the bursts that are over, and the
benchmark's thread. -/
structure Config (n : ℕ) where
  core : ThreadPool.Config n Empty Task
  futures : Task → Option ℤ
  results : List ℤ
  main : Main

/-- An empty pool, and the main thread before its first burst. -/
def Config.init : Config n := ⟨ThreadPool.Config.init, fun _ => none, [], .burst 0⟩

/-- A schedule lets the benchmark's thread go on outside the pool, lets a thread go on in the
pool, lets one notify a thread of the schedule's choice, or wakes one for no reason. -/
inductive Label (n : ℕ)
  | main
  | go (i : Party n Empty)
  | notify (i : Party n Empty) (woken : Option (Party n Empty))
  | spurious (i : Party n Empty)

section Code

variable (B : Benchmark)

/-- One statement of the benchmark's thread outside the pool. -/
def bench (c : Config n) : Option (Config n) :=
  match c.main with
  -- for (int burst = 0; burst < num_bursts; ++burst) {
  | .burst b => some { c with main := if b < B.numBursts then .submit b 0 else .destroy }
  -- futures.emplace_back(pool.submit([cpu_work_size] {
  | .submit b i =>
    if i < B.tasksPerBurst then
      (ThreadPool.step c.core (.submit .owner (b, i))).map fun core =>
        { c with core, main := .submitting b i }
    else some { c with main := .get b 0 0 }
  | .submitting b i =>
    match c.core.pcs .owner with
    | .idle => some { c with main := .submit b (i + 1) }
    | _ => none
  -- burst_result += future.get();
  | .get b i burstResult =>
    if i < B.tasksPerBurst then
      (c.futures (b, i)).map fun value => { c with main := .get b (i + 1) (add burstResult value) }
    else some { c with results := c.results ++ [burstResult], main := .burst (b + 1) }
  -- }
  | .destroy => (ThreadPool.step c.core .destroy).map fun core => { c with core, main := .destroying }
  | .destroying =>
    match c.core.pcs .owner with
    | .destructor .done => some { c with main := .finished }
    | _ => none
  | .finished | .threw => none

/-- What a thread's step means outside the pool: the end of a task's execution fulfils its
promise, and an exception leaves `submit`. -/
def outside (c : Config n) (i : Party n Empty) (core : ThreadPool.Config n Empty Task) : Config n :=
  match c.core.pcs i with
  | .worker (.running task) =>
    { c with core, futures := Function.update c.futures task (some (B.work task.2)) }
  | .submit .unlockThrow _ none => { c with core, main := .threw }
  | _ => { c with core }

/-- One step of the whole program. -/
def step (c : Config n) : Label n → Option (Config n)
  | .main => bench B c
  | .go i => (ThreadPool.step c.core (.go i)).map (outside B c i)
  | .notify i woken => (ThreadPool.step c.core (.notify i woken)).map fun core => { c with core }
  | .spurious i => (ThreadPool.step c.core (.spurious i)).map fun core => { c with core }

/-- Every state some interleaving leads to. -/
def Reachable (c : Config n) : Prop := Reaches (step B) Config.init c

end Code

/-- The benchmark's thread has not begun to destroy the pool. -/
def Main.collecting : Main → Bool
  | .burst _ | .submit _ _ | .submitting _ _ | .get _ _ _ | .destroy => true
  | _ => false

/-- The burst in progress. -/
def Main.current : Main → Option ℕ
  | .submit b _ | .submitting b _ | .get b _ _ => some b
  | _ => none

/-- The task has been submitted by a thread that is at a place of a burst. -/
def issued (tasksPerBurst burst i : ℕ) (task : Task) : Bool :=
  (task.1 < burst && task.2 < tasksPerBurst) || (task.1 = burst && task.2 < i)

/-- The tasks submitted so far. -/
def Main.issued (B : Benchmark) : Main → Task → Bool
  | .burst b => ThreadPoolSession.issued B.tasksPerBurst b 0
  | .submit b i => ThreadPoolSession.issued B.tasksPerBurst b i
  | .submitting b i => ThreadPoolSession.issued B.tasksPerBurst b (i + 1)
  | .get b _ _ => ThreadPoolSession.issued B.tasksPerBurst b B.tasksPerBurst
  | .destroy | .destroying | .finished | .threw =>
    ThreadPoolSession.issued B.tasksPerBurst B.numBursts 0

/-- The thread has the task in its hands: it is submitting it and has not inserted it, or has
taken it and not ended its execution. -/
def holds (task : Task) : Pc Task → Bool
  | .worker (.takeUnlock t) | .worker (.running t) => t = task
  | .submit .lock t _ | .submit .loadStop t _ | .submit .enqueue t _ => t = task
  | _ => false

/-- The step ends the execution of the task. -/
def ends (task : Task) : Pc Task → Bool
  | .worker (.running t) => t = task
  | _ => false

/-- Where the benchmark's thread is in the pool. -/
def Inside : Main → Pc Task → Prop
  | .submitting b i, pc =>
    pc = .idle ∨ ∃ place, place ≠ .unlockThrow ∧ pc = .submit place (b, i) none
  | .destroying, pc => ∃ place, pc = .destructor place
  | .finished, pc => pc = .destructor .done
  | .threw, _ => False
  | _, pc => pc = .idle

/-- The sum of what the tasks of a burst return. -/
def burstTotal (B : Benchmark) : ℤ :=
  Int.bmod (∑ i : Fin B.tasksPerBurst, B.work i.val) (2 ^ 32)

/-- What the benchmark's thread knows of the bursts that are over and of the one in
progress. -/
def Knows (B : Benchmark) (c : Config n) : Prop :=
  match c.main with
  | .burst b => b ≤ B.numBursts ∧ c.results = List.replicate b (burstTotal B)
  | .submit b i => b < B.numBursts ∧ i ≤ B.tasksPerBurst ∧
    c.results = List.replicate b (burstTotal B)
  | .submitting b i => b < B.numBursts ∧ i < B.tasksPerBurst ∧
    c.results = List.replicate b (burstTotal B)
  | .get b i burstResult => b < B.numBursts ∧ i ≤ B.tasksPerBurst ∧
    c.results = List.replicate b (burstTotal B) ∧
    (∀ k < i, c.futures (b, k) ≠ none) ∧
    burstResult = Int.bmod (∑ k ∈ Finset.range i, B.work k) (2 ^ 32)
  | .destroy | .destroying | .finished =>
    c.results = List.replicate B.numBursts (burstTotal B)
  | .threw => False

/-- The bursts that are over. -/
def Main.bursts (B : Benchmark) : Main → ℕ
  | .burst b | .submit b _ | .submitting b _ | .get b _ _ => b
  | .destroy | .destroying | .finished | .threw => B.numBursts

/-- A task that has been submitted is in one place: in the hands of a thread, in the queue,
or done. The flag is clear until the pool is destroyed, and the tasks of the bursts that are
over are done. -/
structure Sound (B : Benchmark) (c : Config n) : Prop where
  core : ThreadPool.Reachable c.core
  clear : c.main.collecting = true → c.core.pool.stop = false
  inside : Inside c.main (c.core.pcs .owner)
  workers : ∀ w, ∃ place, c.core.pcs (.worker w) = .worker place
  counted : ∀ task, c.core.pool.tasks.count task +
    tally (fun _ pc => (holds task pc).toNat) c.core.pcs + (c.futures task).isSome.toNat =
      (c.main.issued B task).toNat
  right : ∀ task value, c.futures task = some value → value = B.work task.2
  past : ∀ task : Task, task.1 < c.main.bursts B → task.2 < B.tasksPerBurst →
    c.futures task ≠ none
  knows : Knows B c

section Issued

variable {m b i : ℕ} {task : Task}

/-- One more task is submitted. -/
theorem issued_succ (m b i : ℕ) (task : Task) :
    (issued m b (i + 1) task).toNat = (issued m b i task).toNat + (decide ((b, i) = task)).toNat := by
  obtain ⟨burst, place⟩ := task
  simp only [issued, Prod.mk.injEq]
  by_cases here : b = burst ∧ i = place
  · obtain ⟨rfl, rfl⟩ := here
    simp
  · have same : (burst = b ∧ place < i + 1) ↔ (burst = b ∧ place < i) := by omega
    simp only [← Bool.decide_and, same, here, decide_false, Bool.toNat_false, Nat.add_zero]

/-- A burst has been submitted when the next is to begin. -/
theorem issued_next (m b : ℕ) (task : Task) : issued m (b + 1) 0 task = issued m b m task := by
  obtain ⟨burst, place⟩ := task
  have same : (burst < b + 1 ∧ place < m ∨ burst = b + 1 ∧ place < 0) ↔
      (burst < b ∧ place < m ∨ burst = b ∧ place < m) := by omega
  simp only [issued, ← Bool.decide_and, ← Bool.decide_or, same]

end Issued

/-- The steps a thread may take in the pool before it sleeps or stays outside, tasks and
notifications left out. A sleeper is counted as if it were awake. -/
def weight (threads : ℕ) : Pc Task → ℕ
  | .worker place => match place with
    | .takeUnlock _ => 9
    | .running _ => 8
    | .lock | .asleep => 7
    | .waitStop => 6
    | .waitEmpty => 5
    | .exitStop => 4
    | .exitEmpty => 3
    | .take => 2
    | .sleep | .exitUnlock => 1
    | .exited => 0
  | .submit place _ _ => match place with
    | .lock => 20
    | .loadStop => 19
    | .enqueue => 18
    | .unlock => 9
    | .notifyOne => 8
    | .unlockThrow => 1
  | .destructor place => match place with
    | .storeStop => 8 * threads + 3
    | .notifyAll => 8 * threads + 2
    | .join k => (threads - k) + 1
    | .done => 0
  | .idle => 0

/-- What a thread's step in the pool does that does not throw. -/
structure Effect (n threads : ℕ) (p : Pool (Party n Empty) Task) (pc : Pc Task)
    (p' : Pool (Party n Empty) Task) (pc' : Pc Task) : Prop where
  moves : pc ≠ .idle ∧ pc ≠ .destructor .done
  stop : (∀ place, pc ≠ .destructor place) → p'.stop = p.stop
  counted : ∀ task, p'.tasks.count task + (holds task pc').toNat + (ends task pc).toNat =
    p.tasks.count task + (holds task pc).toNat
  works : ∀ place, pc = .worker place → ∃ place', pc' = .worker place'
  submits : ∀ place task, pc = .submit place task none →
    pc' = .idle ∨ ∃ place', place' ≠ .unlockThrow ∧ pc' = .submit place' task none
  destroys : ∀ place, pc = .destructor place → ∃ place', pc' = .destructor place'
  lighter : weight threads pc' + 8 * p'.tasks.length + 7 * p.sleepers.card + 1 ≤
    weight threads pc + 8 * p.tasks.length + 7 * p'.sleepers.card

section OneMove

variable {threads : ℕ} {exited : Fin n → Bool} {i : Party n Empty}
  {p p' : Pool (Party n Empty) Task} {pc pc' : Pc Task} {place : WorkerAt Task}

/-- A worker's statement has its effect if it counts its task and leaves less to do. -/
theorem worker_effect {place place' : WorkerAt Task} (stop : p'.stop = p.stop)
    (counted : ∀ task, p'.tasks.count task + (holds task (.worker place')).toNat +
      (ends task (.worker place)).toNat = p.tasks.count task + (holds task (.worker place)).toNat)
    (lighter : weight threads (.worker place') + 8 * p'.tasks.length + 7 * p.sleepers.card + 1 ≤
      weight threads (.worker place) + 8 * p.tasks.length + 7 * p'.sleepers.card) :
    Effect n threads p (.worker place) p' (.worker place') where
  moves := ⟨nofun, nofun⟩
  stop _ := stop
  counted := counted
  works _ _ := ⟨place', rfl⟩
  submits := nofun
  destroys := nofun
  lighter := lighter

/-- A worker's statement in which no task changes hands. -/
theorem idle_effect {place place' : WorkerAt Task} {owner : Option (Party n Empty)}
    (same : ∀ task, (holds task (.worker place')).toNat + (ends task (.worker place)).toNat =
      (holds task (.worker place)).toNat)
    (less : weight threads (.worker place') < weight threads (.worker place)) :
    Effect n threads p (.worker place) { p with queueMutex := owner } (.worker place') := by
  refine worker_effect rfl (fun task => ?_) ?_
  · rw [Nat.add_assoc, same]
  · dsimp only
    omega

/-- Every statement of a worker has its effect. -/
theorem work_weighs (asleep : i ∈ p.sleepers → (Pc.worker place).asleep = true)
    (moved : work i p place = some (p', pc')) : Effect n threads p (.worker place) p' pc' := by
  cases place with
  | lock =>
    obtain ⟨free, rfl, rfl⟩ := lock_map_eq_some_iff.mp moved
    exact idle_effect (fun _ => rfl) (by simp [weight])
  | waitStop | waitEmpty | exitStop | exitEmpty =>
    obtain ⟨rfl, rfl⟩ := Prod.mk.inj (Option.some.inj moved)
    split <;> exact idle_effect (fun _ => rfl) (by simp [weight])
  | sleep =>
    obtain ⟨rfl, rfl⟩ := Prod.mk.inj (Option.some.inj moved)
    have awake : i ∉ p.sleepers := fun sleeping => nomatch asleep sleeping
    refine worker_effect rfl (fun _ => rfl) ?_
    simp only [weight, Finset.card_insert_of_notMem awake]
    omega
  | asleep =>
    obtain ⟨awake, moved⟩ := Option.ite_none_left_eq_some.mp moved
    obtain ⟨free, rfl, rfl⟩ := lock_map_eq_some_iff.mp moved
    exact idle_effect (fun _ => rfl) (by simp [weight])
  | exitUnlock =>
    obtain ⟨rfl, rfl⟩ := Prod.mk.inj (Option.some.inj moved)
    exact idle_effect (fun _ => rfl) (by simp [weight])
  | exited => cases moved
  | take =>
    obtain ⟨task, rest, queue, rfl, rfl⟩ := take_cases moved
    refine worker_effect rfl (fun other => ?_) ?_
    · rw [queue, List.count_cons]
      by_cases mine : task = other
      · simp [holds, ends, mine]
      · simp [holds, ends, mine]
    · simp only [weight, queue, List.length_cons]
      omega
  | takeUnlock task =>
    obtain ⟨rfl, rfl⟩ := Prod.mk.inj (Option.some.inj moved)
    exact idle_effect (fun _ => rfl) (Nat.lt_succ_self 8)
  | running task =>
    obtain ⟨rfl, rfl⟩ := Prod.mk.inj (Option.some.inj moved)
    exact idle_effect (fun other => Nat.zero_add _) (Nat.lt_succ_self 7)

/-- A statement of `submit` that goes on in it has its effect if it counts its task and leaves
less to do. -/
theorem submission_effect {place place' : SubmitAt} {task : Task} {caller : Option Task}
    (stop : p'.stop = p.stop) (accepted : place' ≠ .unlockThrow)
    (counted : ∀ other, p'.tasks.count other + (holds other (.submit place' task caller)).toNat =
      p.tasks.count other + (holds other (.submit place task caller)).toNat)
    (lighter : weight threads (.submit place' task caller) + 8 * p'.tasks.length +
        7 * p.sleepers.card + 1 ≤
      weight threads (.submit place task caller) + 8 * p.tasks.length + 7 * p'.sleepers.card) :
    Effect n threads p (.submit place task caller) p' (.submit place' task caller) where
  moves := ⟨nofun, nofun⟩
  stop _ := stop
  counted := counted
  works := nofun
  submits := by
    rintro _ _ ⟨⟩
    exact .inr ⟨place', accepted, rfl⟩
  destroys := nofun
  lighter := lighter

/-- Every statement of a `submit` that is accepted has its effect. -/
theorem submit_weighs {place : SubmitAt} {task : Task} {caller : Option Task}
    (clear : p.stop = false) (accepted : place ≠ .unlockThrow)
    (moved : submit i p task caller place = some (p', pc')) :
    Effect n threads p (.submit place task caller) p' pc' := by
  cases place with
  | lock =>
    obtain ⟨free, rfl, rfl⟩ := lock_map_eq_some_iff.mp moved
    refine submission_effect rfl nofun (fun _ => rfl) ?_
    simp only [weight]
    omega
  | loadStop =>
    obtain ⟨rfl, rfl⟩ := Prod.mk.inj (Option.some.inj moved)
    rw [clear]
    refine submission_effect rfl nofun (fun _ => rfl) ?_
    simp only [weight]
    omega
  | unlockThrow => exact absurd rfl accepted
  | enqueue =>
    obtain ⟨rfl, rfl⟩ := Prod.mk.inj (Option.some.inj moved)
    refine submission_effect rfl nofun (fun other => ?_) ?_
    · rw [List.count_append, List.count_singleton]
      by_cases mine : task = other
      · simp [holds, mine]
      · simp [holds, mine]
    · simp only [weight, List.length_append, List.length_singleton]
      omega
  | unlock =>
    obtain ⟨rfl, rfl⟩ := Prod.mk.inj (Option.some.inj moved)
    refine submission_effect rfl nofun (fun _ => rfl) ?_
    simp only [weight, Pool.unlock]
    omega
  | notifyOne => cases moved

/-- A statement of the destructor has its effect if it leaves the tasks and less to do. -/
theorem destructor_effect {place place' : DestructorAt} (before : place ≠ .done)
    (tasks : p'.tasks = p.tasks)
    (lighter : weight threads (.destructor place') + 7 * p.sleepers.card + 1 ≤
      weight threads (.destructor place) + 7 * p'.sleepers.card) :
    Effect n threads p (.destructor place) p' (.destructor place') where
  moves := ⟨nofun, by rintro ⟨⟩; exact before rfl⟩
  stop elsewhere := absurd rfl (elsewhere place)
  counted task := by rw [tasks]; rfl
  works := nofun
  submits := nofun
  destroys _ _ := ⟨place', rfl⟩
  lighter := by
    rw [tasks]
    omega

/-- Every statement of the destructor has its effect. -/
theorem destroy_weighs {place : DestructorAt} (most : p.sleepers.card ≤ threads)
    (workers : n ≤ threads) (moved : destroy n exited p place = some (p', pc')) :
    Effect n threads p (.destructor place) p' pc' := by
  cases place with
  | storeStop =>
    obtain ⟨rfl, rfl⟩ := Prod.mk.inj (Option.some.inj moved)
    refine destructor_effect nofun rfl ?_
    simp only [weight]
    omega
  | notifyAll =>
    obtain ⟨rfl, rfl⟩ := Prod.mk.inj (Option.some.inj moved)
    refine destructor_effect nofun rfl ?_
    simp only [weight, Finset.card_empty]
    omega
  | join k =>
    rcases ite_eq_iff.mp moved with ⟨early, joined⟩ | ⟨_, moved⟩
    · obtain ⟨_, moved⟩ := Option.ite_none_right_eq_some.mp joined
      obtain ⟨rfl, rfl⟩ := Prod.mk.inj (Option.some.inj moved)
      refine destructor_effect nofun rfl ?_
      simp only [weight]
      omega
    · obtain ⟨rfl, rfl⟩ := Prod.mk.inj (Option.some.inj moved)
      refine destructor_effect nofun rfl ?_
      simp only [weight]
      omega
  | done => cases moved

/-- Every statement of the pool has its effect. -/
theorem exec_effect (most : p.sleepers.card ≤ threads) (workers : n ≤ threads)
    (asleep : i ∈ p.sleepers → pc.asleep = true)
    (accepted : ∀ place task caller, pc = .submit place task caller →
      p.stop = false ∧ place ≠ .unlockThrow)
    (moved : exec n exited i p pc = some (p', pc')) : Effect n threads p pc p' pc' := by
  cases pc with
  | idle => cases moved
  | worker place => exact work_weighs asleep moved
  | submit place task caller =>
    obtain ⟨clear, lawful⟩ := accepted place task caller rfl
    exact submit_weighs clear lawful moved
  | destructor place => exact destroy_weighs most workers moved

/-- `notify_one` has its effect, whichever worker it wakes. -/
theorem notify_effect {task : Task} {woken : Option (Party n Empty)}
    {sleepers : Finset (Party n Empty)} (standing : pc = .submit .notifyOne task none)
    (notified : notifyOne p.sleepers woken = some sleepers) :
    Effect n threads p pc { p with sleepers } .idle := by
  have fewer := notifyOne_card_le notified
  subst standing
  exact {
    moves := ⟨nofun, nofun⟩
    stop := fun _ => rfl
    counted := fun _ => rfl
    works := nofun
    submits := fun _ _ _ => .inl rfl
    destroys := nofun
    lighter := by
      simp only [weight]
      omega }

end OneMove

section Run

variable {B : Benchmark} {c c' : Config n}

/-- At the start nothing has been submitted. -/
theorem sound_init : Sound B (Config.init : Config n) where
  core := Reaches.refl _
  clear _ := rfl
  inside := rfl
  workers w := ⟨.lock, rfl⟩
  counted task := by
    have nobody : tally (fun _ pc => (holds task pc).toNat)
        (start : Party n Empty → Pc Task) = 0 := by
      rw [tally_eq_zero_iff]
      intro i
      cases i <;> rfl
    simp [Config.init, nobody, ThreadPool.Config.init, Main.issued, issued]
  right := by simp [Config.init]
  past task before := absurd before (Nat.not_lt_zero _)
  knows := ⟨Nat.zero_le _, rfl⟩

/-- Only the benchmark's thread submits, and its `submit` does not throw. -/
theorem Sound.accepted (sound : Sound B c) {i : Party n Empty} {place : SubmitAt} {task : Task}
    {caller : Option Task} (submits : c.core.pcs i = .submit place task caller) :
    i = .owner ∧ caller = none ∧ c.core.pool.stop = false ∧ place ≠ .unlockThrow := by
  cases i with
  | worker w =>
    obtain ⟨_, works⟩ := sound.workers w
    cases works.symm.trans submits
  | client nobody => exact nobody.elim
  | owner =>
    have inside := sound.inside
    have clear := sound.clear
    rw [submits] at inside
    cases position : c.main <;> rw [position] at inside clear <;>
      simp only [Inside, Pc.submit.injEq, reduceCtorEq, exists_false, false_or] at inside
    obtain ⟨_, accepted, rfl, _, rfl⟩ := inside
    exact ⟨rfl, rfl, clear rfl, accepted⟩

/-- A task in the hands of a thread has not fulfilled its promise. -/
theorem Sound.unset (sound : Sound B c) {i : Party n Empty} {task : Task}
    (mine : holds task (c.core.pcs i) = true) : c.futures task = none := by
  have counted := sound.counted task
  have held := weight_le_tally (fun _ pc => (holds task pc).toNat) c.core.pcs i
  have once := Bool.toNat_le (c.main.issued B task)
  rw [mine, Bool.toNat_true] at held
  rw [← Option.not_isSome_iff_eq_none]
  intro set
  rw [set, Bool.toNat_true] at counted
  omega

/-- Who is about to end a task has it in hand. -/
theorem holds_of_ends {task : Task} {pc : Pc Task} (ended : ends task pc = true) :
    holds task pc = true := by
  cases pc with
  | worker place => cases place <;> first | exact ended | cases ended
  | _ => cases ended

/-- The futures after a step: the end of an execution sets one. -/
theorem outside_eq (sound : Sound B c) (i : Party n Empty)
    (core : ThreadPool.Config n Empty Task) :
    outside B c i core = { c with
      core,
      futures := fun task =>
        if ends task (c.core.pcs i) then some (B.work task.2) else c.futures task } := by
  cases position : c.core.pcs i with
  | worker place =>
    cases place with
    | running t =>
      have same : Function.update c.futures t (some (B.work t.2)) =
          fun task => if t = task then some (B.work task.2) else c.futures task := by
        funext task
        by_cases here : t = task
        · rw [if_pos here, ← here, Function.update_self]
        · rw [if_neg here, Function.update_of_ne (Ne.symm here)]
      simp only [outside, position, same, ends, decide_eq_true_eq]
    | _ => simp [outside, position, ends]
  | submit place t caller =>
    have accepted := (sound.accepted position).2.2.2
    cases place <;> simp [outside, position, ends] at accepted ⊢
  | _ => simp [outside, position, ends]

/-- One thread has moved in the pool. -/
theorem Sound.pool {i : Party n Empty} {threads : ℕ} {p' : Pool (Party n Empty) Task}
    {pc' : Pc Task} {log : List (Party n Empty × Event Task)} (sound : Sound B c)
    (reached : ThreadPool.Reachable ⟨p', Function.update c.core.pcs i pc', log⟩)
    (effect : Effect n threads c.core.pool (c.core.pcs i) p' pc') :
    Sound B { c with
      core := ⟨p', Function.update c.core.pcs i pc', log⟩,
      futures := fun task =>
        if ends task (c.core.pcs i) then some (B.work task.2) else c.futures task } := by
  have kept : ∀ task, c.futures task ≠ none →
      (if ends task (c.core.pcs i) then some (B.work task.2) else c.futures task) ≠ none := by
    intro task set
    split
    · simp
    · exact set
  refine ⟨reached, ?_, ?_, ?_, ?_, ?_, ?_, ?_⟩
  · intro collecting
    refine (effect.stop fun place destroys => ?_).trans (sound.clear collecting)
    cases i with
    | worker w =>
      obtain ⟨_, works⟩ := sound.workers w
      cases works.symm.trans destroys
    | client nobody => exact nobody.elim
    | owner =>
      have inside := sound.inside
      rw [destroys] at inside
      cases position : c.main <;> simp [position, Inside, Main.collecting] at inside collecting
  · dsimp only
    by_cases mine : i = .owner
    · subst mine
      rw [Function.update_self]
      have inside := sound.inside
      obtain ⟨busy, undone⟩ := effect.moves
      cases position : c.main <;> rw [position] at inside
      case submitting =>
        obtain idle | ⟨place, _, submits⟩ := inside
        · exact absurd idle busy
        · exact effect.submits place _ submits
      case destroying =>
        obtain ⟨place, destroys⟩ := inside
        exact effect.destroys place destroys
      case finished => exact absurd inside undone
      case threw => exact inside
      all_goals exact absurd inside busy
    · rw [Function.update_of_ne (Ne.symm mine)]
      exact sound.inside
  · intro w
    dsimp only
    by_cases mine : Party.worker w = i
    · obtain ⟨place, works⟩ := sound.workers w
      rw [mine, Function.update_self]
      exact effect.works place (mine ▸ works)
    · rw [Function.update_of_ne mine]
      exact sound.workers w
  · intro task
    have counted := sound.counted task
    have moved := tally_update (fun _ pc => (holds task pc).toNat) c.core.pcs i pc'
    have balance := effect.counted task
    dsimp only at moved ⊢
    cases ended : ends task (c.core.pcs i) with
    | true =>
      have unset := sound.unset (holds_of_ends ended)
      simp only [ended, Bool.toNat_true] at balance
      simp only [unset, Option.isSome_none, Bool.toNat_false] at counted
      simp only [if_true, Option.isSome_some, Bool.toNat_true]
      omega
    | false =>
      simp only [ended, Bool.toNat_false] at balance
      simp only [Bool.false_eq_true, if_false]
      omega
  · intro task value set
    dsimp only at set
    split at set
    · exact (Option.some.inj set).symm
    · exact sound.right task value set
  · intro task before inRange
    exact kept task (sound.past task before inRange)
  · have knows := sound.knows
    unfold Knows at knows ⊢
    dsimp only
    split at knows <;> try exact knows
    obtain ⟨started, inRange, results, got, sum⟩ := knows
    exact ⟨started, inRange, results, fun k before => kept _ (got k before), sum⟩

/-- The benchmark's thread moves outside the pool and submits nothing. -/
theorem Sound.main {main : Main} {results : List ℤ} (sound : Sound B c)
    (clear : main.collecting = true → c.main.collecting = true)
    (inside : Inside main (c.core.pcs .owner))
    (issued : ∀ task, main.issued B task = c.main.issued B task)
    (past : ∀ task : Task, task.1 < main.bursts B → task.2 < B.tasksPerBurst →
      c.futures task ≠ none)
    (knows : Knows B { c with results, main }) : Sound B { c with results, main } := by
  refine ⟨sound.core, fun collecting => sound.clear (clear collecting), inside, sound.workers,
    fun task => ?_, sound.right, past, knows⟩
  dsimp only
  rw [issued]
  exact sound.counted task

/-- The benchmark's thread begins a `submit`. -/
theorem Sound.submit {b i : ℕ} {core : ThreadPool.Config n Empty Task} (sound : Sound B c)
    (submits : c.main = .submit b i) (inRange : i < B.tasksPerBurst)
    (taken : ThreadPool.step c.core (.submit .owner (b, i)) = some core) :
    Sound B { c with core, main := .submitting b i } := by
  have idle : c.core.pcs .owner = .idle := by
    have inside := sound.inside
    rwa [submits] at inside
  have reached := sound.core.tail taken
  simp only [ThreadPool.step, idle, Pc.mayCall, Option.map_some, Option.some.injEq] at taken
  subst taken
  have clear := sound.clear
  have past := sound.past
  have knows := sound.knows
  simp only [submits, Knows] at clear past knows
  refine ⟨reached, fun _ => clear rfl, ?_, ?_, fun task => ?_, sound.right, past,
    ⟨knows.1, inRange, knows.2.2⟩⟩
  · dsimp only
    rw [Function.update_self]
    exact Or.inr ⟨.lock, by simp, rfl⟩
  · intro w
    dsimp only
    rw [Function.update_of_ne (by simp)]
    exact sound.workers w
  · have counted := sound.counted task
    have moved := tally_update (fun _ pc => (holds task pc).toNat) c.core.pcs .owner
      (.submit .lock (b, i) none)
    have fresh : holds task (c.core.pcs .owner) = false := by rw [idle]; rfl
    have mine : holds task (.submit .lock (b, i) none) = decide ((b, i) = task) := rfl
    simp only [fresh, mine, Bool.toNat_false] at moved
    simp only [submits, Main.issued] at counted
    simp only [Main.issued, issued_succ]
    omega

/-- The futures of a burst have been got. -/
theorem Sound.burst_past {b : ℕ} (sound : Sound B c) (bursts : c.main.bursts B = b)
    (got : ∀ k < B.tasksPerBurst, c.futures (b, k) ≠ none) :
    ∀ task : Task, task.1 < b + 1 → task.2 < B.tasksPerBurst → c.futures task ≠ none := by
  rintro ⟨burst, place⟩ before inRange
  rcases Nat.lt_succ_iff_lt_or_eq.mp before with earlier | rfl
  · exact sound.past _ (bursts.symm ▸ earlier) inRange
  · exact got place inRange

/-- Every statement of the main thread keeps the session sound. -/
theorem bench_sound (sound : Sound B c) (moved : bench B c = some c') : Sound B c' := by
  have knows := sound.knows
  have inside := sound.inside
  have past := sound.past
  cases position : c.main with
  | burst b =>
    simp only [bench, position, Option.some.injEq] at moved
    simp only [position, Knows, Inside, Main.bursts] at knows inside past
    subst moved
    split
    next inRange =>
      exact sound.main (fun _ => by rw [position]; rfl) inside (fun _ => by rw [position]; rfl)
        past ⟨inRange, Nat.zero_le _, knows.2⟩
    next outOfRange =>
      have last : b = B.numBursts := by omega
      subst last
      exact sound.main (fun _ => by rw [position]; rfl) inside (fun _ => by rw [position]; rfl)
        past knows.2
  | submit b i =>
    simp only [bench, position] at moved
    split at moved
    next inRange =>
      obtain ⟨core, taken, rfl⟩ := Option.map_eq_some_iff.mp moved
      exact sound.submit position inRange taken
    next outOfRange =>
      simp only [position, Knows, Inside, Main.bursts] at knows inside past
      have last : i = B.tasksPerBurst := by omega
      obtain rfl := Option.some.inj moved
      refine sound.main (fun _ => by rw [position]; rfl) inside
        (fun _ => by rw [position, last]; rfl) past
        ⟨knows.1, Nat.zero_le _, knows.2.2, fun k before => absurd before (Nat.not_lt_zero k), ?_⟩
      simp
  | submitting b i =>
    simp only [bench, position] at moved
    split at moved
    next idle =>
      simp only [position, Knows, Main.bursts] at knows past
      obtain rfl := Option.some.inj moved
      exact sound.main (fun _ => by rw [position]; rfl) idle (fun _ => by rw [position]; rfl)
        past ⟨knows.1, knows.2.1, knows.2.2⟩
    next => cases moved
  | get b i burstResult =>
    simp only [bench, position] at moved
    simp only [position, Knows, Inside, Main.bursts] at knows inside past
    obtain ⟨started, most, results, got, sum⟩ := knows
    split at moved
    next inRange =>
      obtain ⟨value, set, rfl⟩ := Option.map_eq_some_iff.mp moved
      refine sound.main (fun _ => by rw [position]; rfl) inside (fun _ => by rw [position]; rfl)
        past ⟨started, inRange, results, fun k before => ?_, ?_⟩
      · rcases Nat.lt_succ_iff_lt_or_eq.mp before with earlier | rfl
        · exact got k earlier
        · simp [set]
      · rw [sum, sound.right _ _ set, add, Int.bmod_add_bmod, Finset.sum_range_succ]
    next outOfRange =>
      have last : i = B.tasksPerBurst := by omega
      subst last
      obtain rfl := Option.some.inj moved
      refine sound.main (fun _ => by rw [position]; rfl) inside (fun task => ?_)
        (sound.burst_past (by rw [position]; rfl) got) ⟨started, ?_⟩
      · rw [position]
        exact issued_next B.tasksPerBurst b task
      · rw [results, sum, List.replicate_succ', burstTotal, Finset.sum_range]
  | destroy =>
    simp only [bench, position] at moved
    obtain ⟨core, taken, rfl⟩ := Option.map_eq_some_iff.mp moved
    simp only [position, Knows, Inside, Main.bursts] at knows inside past
    have reached := sound.core.tail taken
    simp only [ThreadPool.step, inside, Option.some.injEq] at taken
    subst taken
    refine ⟨reached, by simp [Main.collecting], ?_, ?_, fun task => ?_, sound.right, past, knows⟩
    · dsimp only
      rw [Function.update_self]
      exact ⟨_, rfl⟩
    · intro w
      dsimp only
      rw [Function.update_of_ne (by simp)]
      exact sound.workers w
    · have counted := sound.counted task
      have moved := tally_update (fun _ pc => (holds task pc).toNat) c.core.pcs .owner
        (.destructor .storeStop)
      have before : holds task (c.core.pcs .owner) = false := by rw [inside]; rfl
      have after : holds task (.destructor .storeStop) = false := rfl
      simp only [before, after, Bool.toNat_false, Nat.add_zero] at moved
      dsimp only
      rw [moved]
      rwa [position] at counted
  | destroying =>
    simp only [bench, position] at moved
    split at moved
    next done =>
      simp only [position, Knows, Main.bursts] at knows past
      obtain rfl := Option.some.inj moved
      exact sound.main (by simp [Main.collecting]) done (fun _ => by rw [position]; rfl) past knows
    next => cases moved
  | finished => simp [bench, position] at moved
  | threw => simp [bench, position] at moved

/-- The sleepers are threads of the pool. -/
theorem Sound.asleep (sound : Sound B c) {i : Party n Empty}
    (sleeping : i ∈ c.core.pool.sleepers) : (c.core.pcs i).asleep = true :=
  (reachable_sound sound.core).parked i sleeping

/-- There are at least as many parties as workers. -/
theorem workers_le_card : n ≤ Fintype.card (Party n Empty) := by
  have workers := Fintype.card_le_of_injective (Party.worker (S := Empty) : Fin n → Party n Empty)
    fun _ _ same => Party.worker.inj same
  rwa [Fintype.card_fin] at workers

/-- What a step of a thread in the pool does. -/
theorem Sound.go (sound : Sound B c) {i : Party n Empty} {p' : Pool (Party n Empty) Task}
    {pc' : Pc Task}
    (moved : exec n c.core.exited i c.core.pool (c.core.pcs i) = some (p', pc')) :
    Effect n (Fintype.card (Party n Empty)) c.core.pool (c.core.pcs i) p' pc' := by
  refine exec_effect (Finset.card_le_univ _) workers_le_card sound.asleep ?_ moved
  intro place task caller submits
  exact (sound.accepted submits).2.2

/-- Every step keeps the session sound. -/
theorem step_sound : Preserved (step (n := n) B) (Sound B) := by
  intro c label c' sound taken
  cases label with
  | main => exact bench_sound sound taken
  | go i =>
    obtain ⟨core, moved, rfl⟩ := Option.map_eq_some_iff.mp taken
    have reached := sound.core.tail moved
    rw [outside_eq sound]
    obtain ⟨⟨p', pc'⟩, executed, rfl⟩ := Option.map_eq_some_iff.mp moved
    exact sound.pool reached (sound.go executed)
  | notify i woken =>
    obtain ⟨core, moved, rfl⟩ := Option.map_eq_some_iff.mp taken
    have reached := sound.core.tail moved
    simp only [ThreadPool.step] at moved
    split at moved
    next task caller standing =>
      obtain ⟨sleepers, notified, rfl⟩ := Option.map_eq_some_iff.mp moved
      obtain ⟨_, rfl, _⟩ := sound.accepted standing
      have effect : Effect n n c.core.pool (c.core.pcs i) { c.core.pool with sleepers } .idle :=
        notify_effect standing notified
      have kept := sound.pool reached effect
      simpa [standing, ends] using kept
    next => cases moved
  | spurious i =>
    obtain ⟨core, moved, rfl⟩ := Option.map_eq_some_iff.mp taken
    have reached := sound.core.tail moved
    simp only [ThreadPool.step, Option.ite_none_right_eq_some, Option.some.injEq] at moved
    obtain ⟨_, rfl⟩ := moved
    exact ⟨reached, sound.clear, sound.inside, sound.workers, sound.counted, sound.right,
      sound.past, sound.knows⟩

/-- Every reachable state is sound. -/
theorem reachable_session (reached : Reachable B c) : Sound B c :=
  step_sound.reaches sound_init reached

end Run

/-- The thread is not woken for no reason. -/
def Label.continues : Label n → Bool
  | .spurious _ => false
  | _ => true

/-- The program without spurious wake-ups. -/
def continuing (B : Benchmark) : Config n → Label n → Option (Config n) :=
  guarded (fun _ label => label.continues) (step B)

section Progress

variable {B : Benchmark} {c c' : Config n}

/-- No thread can go on in the pool. -/
structure Blocked (c : Config n) : Prop where
  exec : ∀ i, exec n c.core.exited i c.core.pool (c.core.pcs i) = none
  quiet : ∀ i task caller, c.core.pcs i ≠ .submit .notifyOne task caller

/-- Where no thread can go on, each of them is blocked. -/
theorem blocked_of_stuck (stuck : Stuck (continuing B) c) : Blocked c := by
  refine ⟨fun i => ?_, fun i task caller standing => ?_⟩
  · have none := stuck (.go i)
    simpa [continuing, guarded, Label.continues, step, ThreadPool.step] using none
  · obtain ⟨woken, left, notified⟩ := notifyOne_total c.core.pool.sleepers
    have none := stuck (.notify i woken)
    simp [continuing, guarded, Label.continues, step, ThreadPool.step, standing, notified] at none

/-- Where nobody can go on, nobody has the mutex. -/
theorem Blocked.free (blocked : Blocked c) (reached : ThreadPool.Reachable c.core) :
    c.core.pool.queueMutex = none := by
  have sound := reachable_sound reached
  by_contra held
  obtain ⟨holder, mine⟩ := Option.ne_none_iff_exists'.mp held
  have inside := (sound.mutex holder).mpr mine
  obtain ⟨outside, _⟩ | asleep | idle | left | ⟨task, caller, notifying⟩ | done | ⟨k, joining, _⟩ :=
    exec_none (sound.knows holder) (blocked.exec holder)
  · simp [inside] at outside
  · have waits := sound.parked holder asleep
    cases standing : c.core.pcs holder with
    | worker place => cases place <;> simp [standing, Pc.asleep, Pc.locked] at waits inside
    | _ => simp [standing, Pc.asleep] at waits
  · simp [idle, Pc.locked] at inside
  · cases standing : c.core.pcs holder with
    | worker place => cases place <;> simp [standing, Pc.hasExited, Pc.locked] at left inside
    | _ => simp [standing, Pc.hasExited] at left
  · exact blocked.quiet holder task caller notifying
  · simp [done, Pc.locked] at inside
  · simp [joining, Pc.locked] at inside

/-- Where nobody can go on, a worker sleeps or has left its loop. -/
theorem Blocked.worker (blocked : Blocked c) (sound : Sound B c) (w : Fin n) :
    .worker w ∈ c.core.pool.sleepers ∨ c.core.exited w = true := by
  obtain ⟨place, works⟩ := sound.workers w
  have knows := (reachable_sound sound.core).knows (.worker w)
  obtain ⟨_, held⟩ | asleep | idle | left | ⟨task, caller, notifying⟩ | done | ⟨k, joining, _⟩ :=
    exec_none knows (blocked.exec (.worker w))
  · exact absurd (blocked.free sound.core) held
  · exact Or.inl asleep
  · cases works.symm.trans idle
  · exact Or.inr left
  · cases works.symm.trans notifying
  · cases works.symm.trans done
  · cases works.symm.trans joining

/-- While the flag is clear, no worker has left its loop. -/
theorem Sound.stays (sound : Sound B c) (collecting : c.main.collecting = true) (w : Fin n) :
    c.core.exited w = false := by
  rw [← Bool.not_eq_true]
  intro left
  have drained := drained_of_exited sound.core (.worker w) left
  exact absurd (sound.clear collecting) (by simp [drained.stopped])

/-- A task that has been submitted is done when nobody can go on: while a task is queued, the
workers asleep are matched by others that look for one. -/
theorem Blocked.done {b i : ℕ} {burstResult : ℤ} (blocked : Blocked c) (workers : 0 < n)
    (sound : Sound B c) (gets : c.main = .get b i burstResult) (task : Task)
    (submitted : c.main.issued B task = true) : c.futures task ≠ none := by
  intro unset
  have collecting : c.main.collecting = true := by rw [gets]; rfl
  have idle : c.core.pcs .owner = .idle := by
    have inside := sound.inside
    rwa [gets] at inside
  have asleep : ∀ w, .worker w ∈ c.core.pool.sleepers := fun w =>
    (blocked.worker sound w).resolve_right (by simp [sound.stays collecting w])
  have waits : ∀ w, c.core.pcs (.worker w) = .worker .asleep := by
    intro w
    have standing := sound.asleep (asleep w)
    obtain ⟨place, works⟩ := sound.workers w
    rw [works] at standing ⊢
    cases place <;> first | rfl | cases standing
  have nobody : ∀ i, holds task (c.core.pcs i) = false ∧ (c.core.pcs i).notifying = false := by
    rintro (w | nobody | _)
    · rw [waits w]
      exact ⟨rfl, rfl⟩
    · exact nobody.elim
    · rw [idle]
      exact ⟨rfl, rfl⟩
  have queued : 0 < c.core.pool.tasks.count task := by
    have counted := sound.counted task
    have held : tally (fun _ pc => (holds task pc).toNat) c.core.pcs = 0 := by
      rw [tally_eq_zero_iff]
      intro i
      rw [(nobody i).1]
      rfl
    simp only [held, unset, submitted, Option.isSome_none, Bool.toNat_false,
      Bool.toNat_true] at counted
    omega
  -- the sleepers are all the workers there are to look for the task
  have matched := reachable_matched sound.core ⟨_, asleep ⟨0, workers⟩⟩
  have quiet : tally (fun _ pc => pc.notifying.toNat) c.core.pcs = 0 := by
    rw [tally_eq_zero_iff]
    intro i
    rw [(nobody i).2]
    rfl
  have looking : tally (fun _ pc => pc.looking.toNat) c.core.pcs ≤ c.core.pool.sleepers.card := by
    rw [tally_toNat]
    refine Finset.card_le_card fun i looks => ?_
    have looks : (c.core.pcs i).looking = true := (Finset.mem_filter.mp looks).2
    cases i with
    | worker w => exact asleep w
    | client nobody => exact nobody.elim
    | owner => simp [idle, Pc.looking] at looks
  have some : 0 < c.core.pool.tasks.length := queued.trans_le List.count_le_length
  omega

/-- Until the pool is destroyed some thread can go on, without a spurious wake-up. -/
theorem Sound.collecting_of_stuck (workers : 0 < n) (sound : Sound B c)
    (stuck : Stuck (continuing B) c) : c.main.collecting = false := by
  have blocked := blocked_of_stuck stuck
  have still : bench B c = none := by
    simpa [continuing, guarded, Label.continues, step] using stuck .main
  have inside := sound.inside
  cases position : c.main with
  | burst b => simp [bench, position] at still
  | submit b i =>
    rw [position] at inside
    have idle : c.core.pcs .owner = .idle := inside
    simp only [bench, position] at still
    split at still
    · simp [ThreadPool.step, idle, Pc.mayCall] at still
    · cases still
  | submitting b i =>
    rw [position] at inside
    obtain idle | ⟨place, accepted, submits⟩ := inside
    · simp [bench, position, idle] at still
    · have knows := (reachable_sound sound.core).knows .owner
      obtain ⟨_, held⟩ | asleep | idle | left | ⟨task, caller, notifying⟩ | done |
        ⟨k, joining, _⟩ := exec_none knows (blocked.exec .owner)
      · exact absurd (blocked.free sound.core) held
      · have waits := sound.asleep asleep
        simp [submits, Pc.asleep] at waits
      · cases submits.symm.trans idle
      · simp [submits, Pc.hasExited] at left
      · exact absurd notifying (blocked.quiet .owner task caller)
      · cases submits.symm.trans done
      · cases submits.symm.trans joining
  | get b i burstResult =>
    simp only [bench, position] at still
    split at still
    next inRange =>
      have submitted : c.main.issued B (b, i) = true := by
        rw [position]
        simp [Main.issued, issued, inRange]
      exact absurd (Option.map_eq_none_iff.mp still)
        (blocked.done workers sound position (b, i) submitted)
    next => cases still
  | destroy =>
    rw [position] at inside
    have idle : c.core.pcs .owner = .idle := inside
    simp [bench, position, ThreadPool.step, idle] at still
  | destroying | finished | threw => rfl

/-- The steps the benchmark's thread has still to take outside the pool, with those that its
calls and the tasks it submits will take in it. -/
def Main.remaining (B : Benchmark) (threads : ℕ) : Main → ℕ
  | .burst b => (B.numBursts - b) * (23 * B.tasksPerBurst + 3) + (8 * threads + 6)
  | .submit b i => (B.tasksPerBurst - i) * 22 + (B.tasksPerBurst + 2) +
    ((B.numBursts - (b + 1)) * (23 * B.tasksPerBurst + 3) + (8 * threads + 6))
  | .submitting b i => (B.tasksPerBurst - (i + 1)) * 22 + (B.tasksPerBurst + 3) +
    ((B.numBursts - (b + 1)) * (23 * B.tasksPerBurst + 3) + (8 * threads + 6))
  | .get b i _ => (B.tasksPerBurst - i) + 1 +
    ((B.numBursts - (b + 1)) * (23 * B.tasksPerBurst + 3) + (8 * threads + 6))
  | .destroy => 8 * threads + 5
  | .destroying => 1
  | .finished | .threw => 0

/-- The steps the threads have still to take in the pool. A sleeper takes none. -/
def poolRemaining (core : ThreadPool.Config n Empty Task) : ℕ :=
  tally (fun _ pc => weight (Fintype.card (Party n Empty)) pc) core.pcs +
    8 * core.pool.tasks.length - 7 * core.pool.sleepers.card

/-- Without spurious wake-ups, no run takes more steps than this. -/
def remaining (B : Benchmark) (c : Config n) : ℕ :=
  poolRemaining c.core + c.main.remaining B (Fintype.card (Party n Empty))

/-- What is taken off for the sleepers has been counted. -/
theorem sleepers_le {core : ThreadPool.Config n Empty Task} (reached : ThreadPool.Reachable core) :
    7 * core.pool.sleepers.card ≤
      tally (fun _ pc => weight (Fintype.card (Party n Empty)) pc) core.pcs := by
  refine (reachable_sound reached).parked.mul_card_le fun pc asleep => ?_
  cases pc with
  | worker place => cases place <;> simp [Pc.asleep, weight] at asleep ⊢
  | _ => simp [Pc.asleep] at asleep

/-- A step of one thread in the pool leaves fewer. -/
theorem Sound.pool_lowers {i : Party n Empty} {p' : Pool (Party n Empty) Task} {pc' : Pc Task}
    {log : List (Party n Empty × Event Task)} (sound : Sound B c)
    (reached : ThreadPool.Reachable ⟨p', Function.update c.core.pcs i pc', log⟩)
    (effect : Effect n (Fintype.card (Party n Empty)) c.core.pool (c.core.pcs i) p' pc') :
    poolRemaining ⟨p', Function.update c.core.pcs i pc', log⟩ < poolRemaining c.core := by
  have moved := tally_update (fun _ pc => weight (Fintype.card (Party n Empty)) pc) c.core.pcs i pc'
  have lighter := effect.lighter
  have before := sleepers_le sound.core
  have after := sleepers_le reached
  unfold poolRemaining
  dsimp only at moved after ⊢
  omega

/-- Every statement of the main thread leaves less to do. -/
theorem bench_lowers (sound : Sound B c) (moved : bench B c = some c') :
    remaining B c' < remaining B c := by
  have knows := sound.knows
  have inside := sound.inside
  cases position : c.main with
  | burst b =>
    simp only [bench, position, Option.some.injEq] at moved
    subst moved
    refine Nat.add_lt_add_left ?_ _
    rw [position]
    dsimp only
    split
    next inRange =>
      have next := rounds_left inRange (23 * B.tasksPerBurst + 3)
      simp only [Main.remaining]
      omega
    next => exact Nat.lt_add_left _ (Nat.lt_succ_self _)
  | submit b i =>
    rw [position] at inside
    have idle : c.core.pcs .owner = .idle := inside
    simp only [bench, position] at moved
    split at moved
    next inRange =>
      simp only [ThreadPool.step, idle, Pc.mayCall, Option.map_some, Option.some.injEq] at moved
      subst moved
      have lifted := tally_update (fun _ pc => weight (Fintype.card (Party n Empty)) pc)
        c.core.pcs .owner (.submit .lock (b, i) none)
      have before : weight (Fintype.card (Party n Empty)) (c.core.pcs .owner) = 0 := by
        rw [idle]
        rfl
      have after : weight (Fintype.card (Party n Empty)) (.submit .lock (b, i) none) = 20 := rfl
      have sleepers := sleepers_le sound.core
      simp only [before, after] at lifted
      simp only [remaining, poolRemaining, position, Main.remaining]
      omega
    next =>
      cases moved
      refine Nat.add_lt_add_left ?_ _
      rw [position]
      simp only [Main.remaining]
      omega
  | submitting b i =>
    simp only [bench, position] at moved
    split at moved
    next =>
      cases moved
      refine Nat.add_lt_add_left ?_ _
      rw [position]
      simp only [Main.remaining]
      omega
    next => cases moved
  | get b i burstResult =>
    simp only [bench, position] at moved
    split at moved
    next inRange =>
      obtain ⟨value, _, rfl⟩ := Option.map_eq_some_iff.mp moved
      refine Nat.add_lt_add_left ?_ _
      rw [position]
      simp only [Main.remaining]
      omega
    next =>
      cases moved
      refine Nat.add_lt_add_left ?_ _
      rw [position]
      simp only [Main.remaining]
      omega
  | destroy =>
    rw [position] at inside
    have idle : c.core.pcs .owner = .idle := inside
    simp only [bench, position, ThreadPool.step, idle, Option.map_some, Option.some.injEq] at moved
    subst moved
    have lifted := tally_update (fun _ pc => weight (Fintype.card (Party n Empty)) pc)
      c.core.pcs .owner (.destructor .storeStop)
    have before : weight (Fintype.card (Party n Empty)) (c.core.pcs .owner) = 0 := by
      rw [idle]
      rfl
    have after : weight (Fintype.card (Party n Empty)) (.destructor .storeStop) =
        8 * Fintype.card (Party n Empty) + 3 := rfl
    have sleepers := sleepers_le sound.core
    simp only [before, after] at lifted
    simp only [remaining, poolRemaining, position, Main.remaining]
    omega
  | destroying =>
    simp only [bench, position] at moved
    split at moved
    next =>
      cases moved
      refine Nat.add_lt_add_left ?_ _
      rw [position]
      exact Nat.one_pos
    next => cases moved
  | finished => simp [bench, position] at moved
  | threw => simp [bench, position] at moved

/-- Every step but a spurious wake-up leaves less to do. -/
theorem continuing_lowers : Lowers (continuing (n := n) B) (Sound B) (remaining B) := by
  intro c label c' sound taken
  obtain ⟨continues, taken⟩ := (guarded_eq_some_iff c c' label).mp taken
  cases label with
  | main => exact bench_lowers sound taken
  | go i =>
    obtain ⟨core, moved, rfl⟩ := Option.map_eq_some_iff.mp taken
    have reached := sound.core.tail moved
    rw [outside_eq sound]
    obtain ⟨⟨p', pc'⟩, executed, rfl⟩ := Option.map_eq_some_iff.mp moved
    exact Nat.add_lt_add_right (sound.pool_lowers reached (sound.go executed)) _
  | notify i woken =>
    obtain ⟨core, moved, rfl⟩ := Option.map_eq_some_iff.mp taken
    have reached := sound.core.tail moved
    simp only [ThreadPool.step] at moved
    split at moved
    next task caller standing =>
      obtain ⟨sleepers, notified, rfl⟩ := Option.map_eq_some_iff.mp moved
      obtain ⟨_, rfl, _⟩ := sound.accepted standing
      exact Nat.add_lt_add_right (sound.pool_lowers reached (notify_effect standing notified)) _
    next => cases moved
  | spurious i => cases continues

end Progress

section Results

variable {B : Benchmark} {c c' : Config n}

/-- What is queued or in the hands of a thread belongs to the burst in progress. -/
theorem Sound.current (sound : Sound B c) {task : Task}
    (pending : task ∈ c.core.pool.tasks ∨ ∃ i, holds task (c.core.pcs i) = true) :
    c.main.current = some task.1 ∧ c.futures task = none := by
  have some : 0 < c.core.pool.tasks.count task +
      tally (fun _ pc => (holds task pc).toNat) c.core.pcs := by
    rcases pending with queued | ⟨i, mine⟩
    · exact Nat.add_pos_left (List.count_pos_iff.mpr queued) _
    · have held := weight_le_tally (fun _ pc => (holds task pc).toNat) c.core.pcs i
      rw [mine] at held
      exact Nat.add_pos_right _ held
  have counted := sound.counted task
  have once := Bool.toNat_le (c.main.issued B task)
  have unset : c.futures task = none := by
    rw [← Option.not_isSome_iff_eq_none]
    intro set
    rw [set, Bool.toNat_true] at counted
    omega
  refine ⟨?_, unset⟩
  have submitted : c.main.issued B task = true := by
    by_contra missing
    rw [Bool.eq_false_iff.mpr missing, Bool.toNat_false] at counted
    omega
  have past := sound.past task
  cases position : c.main <;>
    simp only [position, Main.issued, Main.bursts, issued, Bool.or_eq_true, Bool.and_eq_true,
      decide_eq_true_eq, Nat.not_lt_zero, and_false, or_false] at submitted past
  case submit | submitting | get =>
    rcases submitted with ⟨earlier, inRange⟩ | ⟨same, _⟩
    · exact absurd unset (past earlier inRange)
    · rw [same]
      rfl
  all_goals exact absurd unset (past submitted.1 submitted.2)

/-- Each finished burst has the total of its tasks. -/
theorem Sound.results (sound : Sound B c) :
    c.results = List.replicate (c.main.bursts B) (burstTotal B) := by
  have knows := sound.knows
  unfold Knows at knows
  cases position : c.main <;> simp only [position] at knows ⊢
  case burst => exact knows.2
  case submit => exact knows.2.2
  case submitting => exact knows.2.2
  case get => exact knows.2.2.1
  all_goals exact knows

/-- `submit` never throws. -/
theorem Sound.accepts (sound : Sound B c) : c.main ≠ .threw := by
  intro threw
  have knows := sound.knows
  simp only [Knows, threw] at knows

/-- Bursts do not overlap, and each task is executed once. For any number of bursts, tasks
and workers and every interleaving: no `submit` throws; a task that has been submitted is in
one place, in the queue, in the hands of one thread or done, and it is done once; what is
queued or in the hands of a thread belongs to the burst in progress; a future that is set
holds what its task returns; every task of a burst that is over is done; and the result of
each burst that is over is the sum of what its tasks return. -/
theorem bursts_separated (B : Benchmark) (c : Config n) (reached : Reachable B c) :
    c.main ≠ .threw ∧
    (∀ task, c.core.pool.tasks.count task +
      tally (fun _ pc => (holds task pc).toNat) c.core.pcs + (c.futures task).isSome.toNat =
        (c.main.issued B task).toNat) ∧
    (∀ task, (task ∈ c.core.pool.tasks ∨ ∃ i, holds task (c.core.pcs i) = true) →
      c.main.current = some task.1) ∧
    (∀ task value, c.futures task = some value → value = B.work task.2) ∧
    (∀ burst i, burst < c.main.bursts B → i < B.tasksPerBurst → c.futures (burst, i) ≠ none) ∧
    c.results = List.replicate (c.main.bursts B) (burstTotal B) := by
  have sound := reachable_session reached
  exact ⟨sound.accepts, sound.counted, fun task pending => (sound.current pending).1, sound.right,
    fun burst i => sound.past (burst, i), sound.results⟩

/-- One worker has executed the first of two bursts of one task, and the second is queued. -/
theorem bursts_separated_two : ∃ c : Config 1, Reachable ⟨2, 1, fun _ => 7⟩ c ∧
    c.core.pool.tasks = [(1, 0)] ∧ c.main.current = some 1 ∧
    c.results = [burstTotal ⟨2, 1, fun _ => 7⟩] := by
  let schedule : List (Label 1) :=
    [List.replicate 2 .main, List.replicate 4 (.go .owner), [.notify .owner none],
      List.replicate 2 .main, List.replicate 7 (.go (.worker 0)), List.replicate 4 .main,
      List.replicate 3 (.go .owner)].flatten
  have played : (run (step ⟨2, 1, fun _ => 7⟩) (Config.init : Config 1) schedule).map
      (fun c => (c.core.pool.tasks, c.main.bursts ⟨2, 1, fun _ => 7⟩)) = some ([(1, 0)], 1) := by
    decide +kernel
  obtain ⟨c, reached, final⟩ := Option.map_eq_some_iff.mp played
  obtain ⟨queued, bursts⟩ := Prod.mk.inj final
  obtain ⟨_, _, current, _, _, results⟩ := bursts_separated ⟨2, 1, fun _ => 7⟩ c ⟨_, reached⟩
  refine ⟨c, ⟨_, reached⟩, queued, current (1, 0) (Or.inl (by simp [queued])), ?_⟩
  rw [results, bursts]
  rfl

/-- A benchmark on a pool gets all its futures. For any number of bursts and tasks, at least
one worker, and from every state that some interleaving leads to: until the pool is being
destroyed, some thread can go on other than by waking up for no reason; the runs without such
wake-ups are bounded in length; and some of them lead to the destruction of the pool, where
the results of all bursts have been collected. -/
theorem futures_collected (B : Benchmark) (workers : 0 < n) (c : Config n)
    (reached : Reachable B c) :
    (c.main.collecting = true → ∃ label, label.continues = true ∧ step B c label ≠ none) ∧
    (∃ bound, ∀ schedule last, run (continuing B) c schedule = some last →
      schedule.length ≤ bound) ∧
    ∃ last, Reaches (continuing B) c last ∧ last.main.collecting = false ∧
      last.results = List.replicate B.numBursts (burstTotal B) := by
  have sound := reachable_session reached
  have kept : Preserved (continuing (n := n) B) (Sound B) := step_sound.guarded
  refine ⟨fun collecting => ?_, ⟨remaining B c, fun schedule last played => ?_⟩, ?_⟩
  · by_contra still
    have stuck : Stuck (continuing B) c := by
      intro label
      by_contra goes
      obtain ⟨next, taken⟩ := Option.ne_none_iff_exists'.mp goes
      obtain ⟨continues, taken⟩ := (guarded_eq_some_iff c next label).mp taken
      exact still ⟨label, continues, by simp [taken]⟩
    have left := sound.collecting_of_stuck workers stuck
    rw [collecting] at left
    cases left
  · have spent := continuing_lowers.length_le kept sound played
    omega
  · obtain ⟨last, onward, stuck⟩ := continuing_lowers.exists_stuck kept sound
    have final := kept.reaches sound onward
    have left := final.collecting_of_stuck workers stuck
    refine ⟨last, onward, left, ?_⟩
    rw [final.results]
    cases position : last.main <;> first | rfl | simp [position, Main.collecting] at left

/-- The worker has gone to sleep before the first of two tasks is submitted. -/
theorem futures_collected_two : ∃ c : Config 1, Reachable ⟨1, 2, fun i => i⟩ c ∧
    .worker 0 ∈ c.core.pool.sleepers ∧ ∃ last, Reaches (continuing ⟨1, 2, fun i => i⟩) c last ∧
      last.results = [1] := by
  let schedule : List (Label 1) :=
    List.replicate 4 (.go (.worker 0)) ++ List.replicate 2 .main ++ List.replicate 3 (.go .owner)
  have played : (run (step ⟨1, 2, fun i => i⟩) (Config.init : Config 1) schedule).map
      (fun c => decide (.worker 0 ∈ c.core.pool.sleepers)) = some true := by
    decide +kernel
  obtain ⟨c, reached, asleep⟩ := Option.map_eq_some_iff.mp played
  obtain ⟨_, _, last, onward, _, results⟩ :=
    futures_collected ⟨1, 2, fun i => i⟩ (by decide) c ⟨_, reached⟩
  exact ⟨c, ⟨_, reached⟩, of_decide_eq_true asleep, last, onward, results⟩

/-- A thread pool and `std::async` collect the same. Whatever the interleaving on either side,
the result of `ThreadPool_CPUBound` is the sum that `StdAsync_CPUBound` ends with for the same
number of tasks. -/
theorem pool_agrees_with_async (cpuIntensiveTask : ℤ → ℤ) (numTasks : ℕ) (c : Config n)
    (reached : Reachable (threadPoolCPUBound cpuIntensiveTask numTasks) c)
    (collected : c.main.collecting = false) (d : Futures.Config numTasks ℤ Empty ℤ)
    (launched : (AsyncFutures.stdAsyncCPUBound cpuIntensiveTask numTasks).Reachable
      AsyncFutures.collectTotal 0 d) (totalResult : ℤ) (finished : d.main = .finished totalResult) :
    c.results = [totalResult] := by
  have sound := reachable_session reached
  have results := sound.results
  have bursts : c.main.bursts (threadPoolCPUBound cpuIntensiveTask numTasks) = 1 := by
    cases position : c.main <;> first | rfl | simp [position, Main.collecting] at collected
  rw [results, bursts, AsyncFutures.stdAsync_total (Futures.reachable_sound launched) finished]
  rfl

/-- Three tasks on two workers, one of them asleep when the first task is submitted, and the
same tasks launched on their own, the last two ending before the first. -/
theorem pool_agrees_with_async_three : ∃ (c : Config 2) (d : Futures.Config 3 ℤ Empty ℤ)
    (totalResult : ℤ), Reachable (threadPoolCPUBound (· * 2) 3) c ∧
    (AsyncFutures.stdAsyncCPUBound (· * 2) 3).Reachable AsyncFutures.collectTotal 0 d ∧
    d.main = .finished totalResult ∧ c.results = [totalResult] := by
  let pooled : List (Label 2) :=
    [List.replicate 4 (.go (.worker 0)), List.replicate 2 .main, List.replicate 4 (.go .owner),
      [.notify .owner (some (.worker 0))], List.replicate 2 .main, List.replicate 4 (.go .owner),
      [.notify .owner none], List.replicate 7 (.go (.worker 1)), List.replicate 2 .main,
      List.replicate 4 (.go .owner), [.notify .owner none], List.replicate 7 (.go (.worker 0)),
      List.replicate 7 (.go (.worker 1)), List.replicate 8 .main].flatten
  let launched : List (Futures.Label 3 Unit) :=
    [[.main, .main, .task 1 (), .main, .task 2 ()], List.replicate 2 .main, [.task 0 ()],
      List.replicate 6 .main].flatten
  have pool : (run (step (threadPoolCPUBound (· * 2) 3)) (Config.init : Config 2) pooled).map
      (fun c => c.main.collecting) = some false := by
    decide +kernel
  have async : (run ((AsyncFutures.stdAsyncCPUBound (· * 2) 3).step AsyncFutures.collectTotal 0)
      Futures.Config.init launched).map (·.main.isFinished) = some true := by
    decide +kernel
  obtain ⟨c, reached, collected⟩ := Option.map_eq_some_iff.mp pool
  obtain ⟨d, ran, done⟩ := Option.map_eq_some_iff.mp async
  cases position : d.main with
  | finished totalResult =>
    exact ⟨c, d, totalResult, ⟨_, reached⟩, ⟨_, ran⟩, position, pool_agrees_with_async (· * 2) 3 c
      ⟨_, reached⟩ collected d ⟨_, ran⟩ totalResult position⟩
  | _ => simp [position, Futures.Launcher.isFinished] at done

end Results

end ConcurrencyBench.ThreadPoolSession
