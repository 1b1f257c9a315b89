import ConcurrencyBench.ThreadPoolTasks

/-!
# The destructor and the workers' last wake-up

The destructor stores the flag and notifies without taking `queue_mutex_`. A worker
that has read the flag as clear and found the queue empty is not yet asleep; when
the store and the notification fall into this window, the worker falls asleep after
them and nobody wakes it again. The timer service of the coroutine benchmarks stores
its flag under the mutex its worker waits with, and has no such window.

If no worker is in the window when the destructor notifies, the flag is set and
nobody is asleep or about to be. Every later wait reads the flag as set, so nobody
falls asleep again, and a state in which no thread can go on has every worker back
and the destructor done.
-/

namespace ConcurrencyBench.ThreadPool

open Interleaving

universe u v
variable {ι : Type u} {n : ℕ} {S : Type u} {T : Type v}

/-- A worker that will fall asleep without reading the flag again. -/
def dozing (p : Pool ι T) : Pc T → Bool
  | .worker .sleep => true
  | .worker .waitEmpty => p.tasks.isEmpty
  | _ => false

/-- The destructor has set the flag. -/
def Pc.hasStopped : Pc T → Bool
  | .destructor .storeStop => false
  | .destructor _ => true
  | _ => false

/-- The destructor has notified the workers. -/
def Pc.hasNotified : Pc T → Bool
  | .destructor (.join _) | .destructor .done => true
  | _ => false

/-- The destructor's notification is taken while no worker is dozing. -/
def unhurried (c : Config n S T) : Label n S T → Bool
  | .go i =>
    match c.pcs i with
    | .destructor .notifyAll => !decide (∃ w : Fin n, dozing c.pool (c.pcs (.worker w)) = true)
    | _ => true
  | _ => true

/-- The label goes on with what is in progress: no new call and no spurious wake-up. -/
def Label.continues : Label n S T → Bool
  | .go _ | .notify _ _ => true
  | _ => false

/-- The program without new calls and without spurious wake-ups. -/
def continuing [DecidableEq S] : Config n S T → Label n S T → Option (Config n S T) :=
  guarded (fun _ label => label.continues) step

/-- Nobody is asleep or about to be. -/
structure Roused (c : Config n S T) : Prop where
  stopped : c.pool.stop = true
  nobody : c.pool.sleepers = ∅
  wakeful : ∀ i, dozing c.pool (c.pcs i) = false

/-- What one move does to the flag, the sleepers and those about to sleep. -/
structure Settling (i : ι) (p : Pool ι T) (pc : Pc T) (p' : Pool ι T) (pc' : Pc T) : Prop where
  slept : i ∈ p'.sleepers → i ∈ p.sleepers ∨ pc = .worker .sleep
  dozes : p.stop = true → dozing p' pc' = true → dozing p pc = true
  stops : pc'.hasStopped = true → pc.hasStopped = true ∨ p'.stop = true
  notifies : pc'.hasNotified = true → pc.hasNotified = true ∨
    (pc = .destructor .notifyAll ∧ p' = { p with sleepers := ∅ } ∧ pc' = .destructor (.join 0))
  notified : pc.hasNotified = true → pc'.hasNotified = true

/-- Who may doze off depends on the queue only. -/
theorem dozing_of_same {p p' : Pool ι T} (tasks : p'.tasks = p.tasks) (pc : Pc T) :
    dozing p' pc = dozing p pc := by
  unfold dozing
  rw [tasks]

/-- Who may doze off holds the lock. -/
theorem locked_of_dozing {p : Pool ι T} {pc : Pc T} (dozes : dozing p pc = true) :
    pc.locked = true := by
  cases pc with
  | worker place => cases place <;> simp_all [dozing, Pc.locked]
  | _ => simp [dozing] at dozes

section OneMove

variable [DecidableEq ι] {exited : Fin n → Bool} {i : ι} {p p' : Pool ι T} {pc pc' : Pc T}

omit [DecidableEq ι] in
/-- A move outside the destructor that puts nobody to sleep leaves the sleepers to be roused, if
nobody begins to doze behind the flag. -/
theorem awake_settling (slept : i ∈ p'.sleepers → i ∈ p.sleepers)
    (dozes : p.stop = true → dozing p' pc' = true → dozing p pc = true)
    (before : pc.hasNotified = false) (after : pc'.hasStopped = false ∧ pc'.hasNotified = false) :
    Settling i p pc p' pc' where
  slept asleep := .inl (slept asleep)
  dozes := dozes
  stops stopped := by
    rw [after.1] at stopped
    cases stopped
  notifies notified := by
    rw [after.2] at notified
    cases notified
  notified notified := by
    rw [before] at notified
    cases notified

/-- Every statement of a worker leaves the sleepers to be roused. -/
theorem work_settling {place : WorkerAt T} (moved : work i p place = some (p', pc')) :
    Settling i p (.worker place) p' pc' := by
  cases place with
  | lock =>
    obtain ⟨_, rfl, rfl⟩ := lock_map_eq_some_iff.mp moved
    exact awake_settling id nofun rfl ⟨rfl, rfl⟩
  | waitStop =>
    obtain ⟨rfl, rfl⟩ := Prod.mk.inj (Option.some.inj moved)
    split
    · exact awake_settling id nofun rfl ⟨rfl, rfl⟩
    · next clear => exact awake_settling id (fun set => absurd set clear) rfl ⟨rfl, rfl⟩
  | waitEmpty =>
    obtain ⟨rfl, rfl⟩ := Prod.mk.inj (Option.some.inj moved)
    split
    · next empty => exact awake_settling id (fun _ _ => empty) rfl ⟨rfl, rfl⟩
    · exact awake_settling id nofun rfl ⟨rfl, rfl⟩
  | sleep =>
    obtain ⟨rfl, rfl⟩ := Prod.mk.inj (Option.some.inj moved)
    exact ⟨fun _ => .inr rfl, nofun, nofun, nofun, nofun⟩
  | asleep =>
    obtain ⟨_, moved⟩ := Option.ite_none_left_eq_some.mp moved
    obtain ⟨_, rfl, rfl⟩ := lock_map_eq_some_iff.mp moved
    exact awake_settling id nofun rfl ⟨rfl, rfl⟩
  | exitStop | exitEmpty =>
    obtain ⟨rfl, rfl⟩ := Prod.mk.inj (Option.some.inj moved)
    split <;> exact awake_settling id nofun rfl ⟨rfl, rfl⟩
  | exitUnlock | takeUnlock task | running task =>
    obtain ⟨rfl, rfl⟩ := Prod.mk.inj (Option.some.inj moved)
    exact awake_settling id nofun rfl ⟨rfl, rfl⟩
  | exited => cases moved
  | take =>
    obtain ⟨task, rest, _, rfl, rfl⟩ := take_cases moved
    exact awake_settling id nofun rfl ⟨rfl, rfl⟩

omit [DecidableEq ι] in
/-- A `submit` that goes back leaves the sleepers to be roused. -/
theorem resume_settling {place : SubmitAt} {task : T} {caller : Option T}
    (slept : p'.sleepers ⊆ p.sleepers) :
    Settling i p (.submit place task caller) p' (resume caller) := by
  cases caller <;> exact awake_settling (fun asleep => slept asleep) nofun rfl ⟨rfl, rfl⟩

omit [DecidableEq ι] in
/-- Every statement of `submit` leaves the sleepers to be roused. -/
theorem submit_settling {place : SubmitAt} {task : T} {caller : Option T}
    (moved : submit i p task caller place = some (p', pc')) :
    Settling i p (.submit place task caller) p' pc' := by
  cases place with
  | lock =>
    obtain ⟨_, rfl, rfl⟩ := lock_map_eq_some_iff.mp moved
    exact awake_settling id nofun rfl ⟨rfl, rfl⟩
  | loadStop =>
    obtain ⟨rfl, rfl⟩ := Prod.mk.inj (Option.some.inj moved)
    split <;> exact awake_settling id nofun rfl ⟨rfl, rfl⟩
  | unlockThrow =>
    obtain ⟨rfl, rfl⟩ := Prod.mk.inj (Option.some.inj moved)
    exact resume_settling (Finset.Subset.refl _)
  | enqueue | unlock =>
    obtain ⟨rfl, rfl⟩ := Prod.mk.inj (Option.some.inj moved)
    exact awake_settling id nofun rfl ⟨rfl, rfl⟩
  | notifyOne => cases moved

omit [DecidableEq ι] in
/-- Every statement of the destructor leaves the sleepers to be roused, and its notification
leaves none. -/
theorem destroy_settling {place : DestructorAt}
    (moved : destroy n exited p place = some (p', pc')) :
    Settling i p (.destructor place) p' pc' := by
  cases place with
  | storeStop =>
    obtain ⟨rfl, rfl⟩ := Prod.mk.inj (Option.some.inj moved)
    exact ⟨.inl, nofun, fun _ => .inr rfl, nofun, nofun⟩
  | notifyAll =>
    obtain ⟨rfl, rfl⟩ := Prod.mk.inj (Option.some.inj moved)
    exact ⟨fun asleep => absurd asleep (Finset.notMem_empty i), nofun, fun _ => .inl rfl,
      fun _ => .inr ⟨rfl, rfl, rfl⟩, nofun⟩
  | join k =>
    rcases ite_eq_iff.mp moved with ⟨_, joined⟩ | ⟨_, moved⟩
    · obtain ⟨_, moved⟩ := Option.ite_none_right_eq_some.mp joined
      obtain ⟨rfl, rfl⟩ := Prod.mk.inj (Option.some.inj moved)
      exact ⟨.inl, nofun, fun _ => .inl rfl, fun _ => .inl rfl, fun _ => rfl⟩
    · obtain ⟨rfl, rfl⟩ := Prod.mk.inj (Option.some.inj moved)
      exact ⟨.inl, nofun, fun _ => .inl rfl, fun _ => .inl rfl, fun _ => rfl⟩
  | done => cases moved

/-- Every move leaves the sleepers to be roused. -/
theorem move_settling {events : List (Event T)}
    (moved : Move n exited i p pc p' pc' events) : Settling i p pc p' pc' := by
  cases moved with
  | submit task caller ready =>
    rcases mayCall_cases ready with ⟨rfl, rfl⟩ | ⟨running, rfl, rfl⟩ <;>
      exact awake_settling id nofun rfl ⟨rfl, rfl⟩
  | destroy idle =>
    subst idle
    exact awake_settling id nofun rfl ⟨rfl, rfl⟩
  | exec _ _ moved =>
    cases pc with
    | worker place => exact work_settling moved
    | idle => cases moved
    | submit place task caller => exact submit_settling moved
    | destructor place => exact destroy_settling moved
  | notify task caller standing woken sleepers notified =>
    subst standing
    exact resume_settling (notifyOne_subset notified)
  | spurious sleeping =>
    have same : dozing { p with sleepers := p.sleepers.erase i } pc = dozing p pc :=
      dozing_of_same rfl pc
    exact ⟨fun _ => .inl sleeping, fun _ dozes => same ▸ dozes, .inl, .inl, id⟩

/-- A worker without a next statement waits for the mutex, sleeps or has left its loop. -/
theorem work_none {place : WorkerAt T} (knows : Knows p (.worker place))
    (blocked : work i p place = none) :
    ((Pc.worker place).locked = false ∧ p.queueMutex ≠ none) ∨ i ∈ p.sleepers ∨
      (Pc.worker place).hasExited = true := by
  cases place with
  | lock => exact .inl ⟨rfl, held_of_lock_map_eq_none blocked⟩
  | asleep =>
    by_cases asleep : i ∈ p.sleepers
    · exact .inr (.inl asleep)
    · rw [work, if_neg asleep] at blocked
      exact .inl ⟨rfl, held_of_lock_map_eq_none blocked⟩
  | exited => exact .inr (.inr rfl)
  | take =>
    -- a worker that is about to take a task has seen one
    rw [work] at blocked
    split at blocked
    · next none => exact absurd none knows
    · cases blocked
  | _ => cases blocked

/-- A thread without a next step, other than a notification, waits for the mutex,
sleeps, has nothing to do, or joins a worker that is still in its loop. -/
theorem exec_none (knows : Knows p pc) (blocked : exec n exited i p pc = none) :
    (pc.locked = false ∧ p.queueMutex ≠ none) ∨ i ∈ p.sleepers ∨ pc = .idle ∨
      pc.hasExited = true ∨ (∃ task caller, pc = .submit .notifyOne task caller) ∨
      pc = .destructor .done ∨
      ∃ k, pc = .destructor (.join k) ∧ ∃ w : Fin n, exited w = false := by
  cases pc with
  | idle => exact .inr (.inr (.inl rfl))
  | worker place =>
    rcases work_none knows blocked with waits | sleeps | left
    · exact .inl waits
    · exact .inr (.inl sleeps)
    · exact .inr (.inr (.inr (.inl left)))
  | submit place task caller =>
    cases place with
    | lock => exact .inl ⟨rfl, held_of_lock_map_eq_none blocked⟩
    | notifyOne => exact .inr (.inr (.inr (.inr (.inl ⟨task, caller, rfl⟩))))
    | _ => cases blocked
  | destructor place =>
    cases place with
    | storeStop | notifyAll => cases blocked
    | join k =>
      refine .inr (.inr (.inr (.inr (.inr (.inr ⟨k, rfl, ?_⟩)))))
      by_contra none
      have exits : ∀ w : Fin n, w.val = k → exited w = true := by
        intro w _
        by_contra inside
        exact none ⟨w, Bool.not_eq_true _ ▸ inside⟩
      rw [exec, destroy] at blocked
      split at blocked
      · cases blocked
      · cases blocked
    | done => exact .inr (.inr (.inr (.inr (.inr (.inl rfl)))))

end OneMove

section Run

variable [DecidableEq S]

/-- Once everybody is roused, nobody falls asleep again: to doze needs a read of the
flag as clear, and a worker at its test of the queue keeps the others from emptying it. -/
theorem roused_step {c c' : Config n S T} {label : Label n S T} (sound : Sound c)
    (roused : Roused c) (taken : step c label = some c') : Roused c' := by
  obtain ⟨i, pool, pc, events, moved, rfl⟩ := step_move taken
  have effect := move_effect moved
  have settling := move_settling moved
  refine ⟨effect.stop roused.stopped, ?_, ?_⟩
  · rw [Finset.eq_empty_iff_forall_notMem]
    intro j asleep
    by_cases same : j = i
    · subst same
      rcases settling.slept asleep with before | sleeping
      · simp [roused.nobody] at before
      · have awake := roused.wakeful j
        simp [sleeping, dozing] at awake
    · have before := effect.others j asleep same
      simp [roused.nobody] at before
  · rw [Function.forall_update_iff c.pcs fun _ p => dozing pool p = false]
    constructor
    · by_contra dozes
      have before := settling.dozes roused.stopped (by simpa using dozes)
      simp [roused.wakeful i] at before
    · intro j other
      by_contra dozes
      have inside := locked_of_dozing (by simpa using dozes)
      rcases effect.tasks with ⟨_, _, same⟩ | ⟨task, _, _, enqueuing, _⟩ | ⟨task, _, _, taking, _⟩
      · rw [dozing_of_same same, roused.wakeful j] at dozes
        exact dozes rfl
      · exact other (sound.mutex.exclusive inside (locked_of_enqueuing enqueuing))
      · exact other (sound.mutex.exclusive inside (by rw [taking]; rfl))

/-- Every step leaves the sleepers to be roused. -/
theorem roused_preserved :
    Preserved (step (n := n) (S := S) (T := T)) fun c => Sound c ∧ Roused c :=
  sound_preserved.and fun _ _ _ sound roused taken => roused_step sound roused taken

/-- The flag is set while the destructor stands past its store. -/
theorem reachable_stopped {c : Config n S T} (reached : Reachable c) :
    ∀ i, (c.pcs i).hasStopped = true → c.pool.stop = true := by
  have kept : Preserved step fun c : Config n S T =>
      ∀ i, (c.pcs i).hasStopped = true → c.pool.stop = true := by
    intro c label c' known taken
    obtain ⟨i, pool, pc, events, moved, rfl⟩ := step_move taken
    have effect := move_effect moved
    rw [Function.forall_update_iff c.pcs fun _ p => p.hasStopped = true → pool.stop = true]
    refine ⟨fun past => ?_, fun j _ past => effect.stop (known j past)⟩
    rcases (move_settling moved).stops past with before | now
    · exact effect.stop (known i before)
    · exact now
  refine kept.reaches (fun i past => ?_) reached
  cases i <;> simp [Config.init, start, Pc.hasStopped] at past

/-- A notification of all while nobody dozes rouses everybody. -/
theorem roused_of_notifyAll {c : Config n S T} (reached : Reachable c) {i : Party n S}
    (standing : c.pcs i = .destructor .notifyAll)
    (calm : ∀ w : Fin n, dozing c.pool (c.pcs (.worker w)) = false) :
    Roused (⟨{ c.pool with sleepers := ∅ }, Function.update c.pcs i (.destructor (.join 0)),
      c.log⟩ : Config n S T) := by
  have stopped := reachable_stopped reached i (by rw [standing]; rfl)
  refine ⟨stopped, rfl, ?_⟩
  rw [Function.forall_update_iff c.pcs fun _ p => dozing { c.pool with sleepers := ∅ } p = false]
  refine ⟨rfl, fun j _ => ?_⟩
  rw [dozing_of_same rfl]
  by_contra dozes
  have works : (c.pcs j).works = true := by
    cases standing : c.pcs j with
    | worker place => rfl
    | _ => simp [standing, dozing] at dozes
  obtain ⟨w, rfl⟩ := (reachable_works reached j).mp works
  exact dozes (calm w)

/-- Only its own step takes a thread from the notification to the join loop. -/
theorem label_of_notifyAll {c c' : Config n S T} {label : Label n S T} {i : Party n S}
    (taken : step c label = some c') (before : c.pcs i = .destructor .notifyAll)
    (after : c'.pcs i = .destructor (.join 0)) : label = .go i := by
  have moved : c'.pcs i ≠ c.pcs i := by simp [before, after]
  cases label with
  | submit j task =>
    simp only [step, Option.map_eq_some_iff] at taken
    obtain ⟨caller, ready, rfl⟩ := taken
    by_cases same : i = j
    · subst same
      simp [before, Pc.mayCall] at ready
    · exact absurd (Function.update_of_ne same _ _) moved
  | destroy =>
    simp only [step] at taken
    split at taken
    · rename_i idle
      obtain rfl := Option.some.inj taken
      by_cases same : i = .owner
      · subst same
        simp [before] at idle
      · exact absurd (Function.update_of_ne same _ _) moved
    · simp at taken
  | go j =>
    simp only [step, Option.map_eq_some_iff] at taken
    obtain ⟨next, forward, rfl⟩ := taken
    by_cases same : i = j
    · rw [same]
    · exact absurd (Function.update_of_ne same _ _) moved
  | notify j woken =>
    simp only [step] at taken
    split at taken
    · rename_i task caller standing
      obtain ⟨sleepers, notified, rfl⟩ := Option.map_eq_some_iff.mp taken
      by_cases same : i = j
      · subst same
        simp [before] at standing
      · exact absurd (Function.update_of_ne same _ _) moved
    · simp at taken
  | spurious j =>
    simp only [step, Option.ite_none_right_eq_some, Option.some.injEq] at taken
    rw [← taken.2] at moved
    exact absurd rfl moved

/-- In a run whose notifications of all find nobody dozing, everybody is roused from
then on. -/
theorem unhurried_roused {c : Config n S T}
    (reached : Reaches (guarded unhurried step) Config.init c) :
    ∀ i, (c.pcs i).hasNotified = true → Roused c := by
  have kept : Preserved (guarded unhurried step) fun c : Config n S T =>
      Reachable c ∧ ∀ i, (c.pcs i).hasNotified = true → Roused c := by
    rintro c label c' ⟨reached, known⟩ guarded
    obtain ⟨calm, taken⟩ := (guarded_eq_some_iff c c' label).mp guarded
    refine ⟨reached.tail taken, ?_⟩
    have persists : Roused c → Roused c' := fun roused =>
      roused_step (reachable_sound reached) roused taken
    obtain ⟨i, pool, pc, events, moved, after⟩ := step_move taken
    have positions : c'.pcs = Function.update c.pcs i pc := by rw [after]
    rw [positions, Function.forall_update_iff c.pcs fun _ p => p.hasNotified = true → Roused c']
    refine ⟨fun past => ?_, fun j _ past => persists (known j past)⟩
    rcases (move_settling moved).notifies past with before | ⟨standing, same, joining⟩
    · exact persists (known i before)
    · have own := label_of_notifyAll taken standing (by rw [positions, joining]; simp)
      subst own
      simp only [unhurried, standing, Bool.not_eq_true', decide_eq_false_iff_not, not_exists,
        Bool.not_eq_true] at calm
      have roused := roused_of_notifyAll reached standing calm
      exact ⟨by rw [after, same]; exact roused.stopped, by rw [after, same],
        by rw [after, same, joining]; exact roused.wakeful⟩
  have begin : ∀ i, ((Config.init : Config n S T).pcs i).hasNotified = true →
      Roused (Config.init : Config n S T) := by
    intro i past
    cases i <;> simp [Config.init, start, Pc.hasNotified] at past
  exact (kept.reaches ⟨Reaches.refl _, begin⟩ reached).2

/-- In a stuck pool no statement can be executed. -/
theorem exec_none_of_stuck {c : Config n S T} (stuck : Stuck continuing c) (i : Party n S) :
    exec n c.exited i c.pool (c.pcs i) = none := by
  have none := stuck (.go i)
  simpa [continuing, guarded, Label.continues, step] using none

/-- Where nobody can go on and nobody sleeps, every worker has left its loop: the
owner of the mutex could go on, so the mutex is free. -/
theorem exited_of_stuck {c : Config n S T} (reached : Reachable c) (nobody : c.pool.sleepers = ∅)
    (stuck : Stuck continuing c) (w : Fin n) : c.exited w = true := by
  have blocked := exec_none_of_stuck stuck
  have quiet : ∀ i task caller, c.pcs i ≠ .submit .notifyOne task caller := by
    intro i task caller standing
    obtain ⟨woken, left, notified⟩ := notifyOne_total c.pool.sleepers
    have none := stuck (.notify i woken)
    simp [continuing, guarded, Label.continues, step, standing, notified] at none
  have sound := reachable_sound reached
  have free : c.pool.queueMutex = none := by
    by_contra held
    obtain ⟨holder, mine⟩ := Option.ne_none_iff_exists'.mp held
    have inside := (sound.mutex holder).mpr mine
    rcases exec_none (sound.knows holder) (blocked holder) with
      ⟨outside, _⟩ | asleep | idle | left | ⟨task, caller, notifying⟩ | done | ⟨k, joining, _⟩
    · simp [inside] at outside
    · simp [nobody] at asleep
    · simp [idle, Pc.locked] at inside
    · cases standing : c.pcs holder with
      | worker place => cases place <;> simp_all [Pc.hasExited, Pc.locked]
      | _ => simp [standing, Pc.hasExited] at left
    · exact quiet holder task caller notifying
    · simp [done, Pc.locked] at inside
    · simp [joining, Pc.locked] at inside
  have works := (reachable_works reached (.worker w)).mpr ⟨w, rfl⟩
  rcases exec_none (sound.knows (.worker w)) (blocked (.worker w)) with
    ⟨_, held⟩ | asleep | idle | left | ⟨task, caller, notifying⟩ | done | ⟨k, joining, _⟩
  · exact absurd free held
  · simp [nobody] at asleep
  · simp [idle, Pc.works] at works
  · exact left
  · exact absurd notifying (quiet _ task caller)
  · simp [done, Pc.works] at works
  · simp [joining, Pc.works] at works

/-- With every worker back, a destructor that cannot go on is done. -/
theorem done_of_stuck {c : Config n S T} (stuck : Stuck continuing c)
    (left : ∀ w, c.exited w = true) {i : Party n S} (past : (c.pcs i).hasNotified = true) :
    c.pcs i = .destructor .done := by
  have blocked := exec_none_of_stuck stuck i
  cases standing : c.pcs i with
  | destructor place =>
    cases place with
    | done => rfl
    | join k =>
      rw [standing] at blocked
      by_cases below : k < n <;> simp [exec, destroy, below, left] at blocked
    | _ => simp [standing, Pc.hasNotified] at past
  | _ => simp [standing, Pc.hasNotified] at past

/-- A worker about to sleep may fall asleep. -/
theorem asleep_of_sleep {c : Config n S T} {i : Party n S}
    (standing : c.pcs i = .worker .sleep) : ∃ c', Reaches step c c' ∧ i ∈ c'.pool.sleepers := by
  have sleeps : ∃ c', step c (.go i) = some c' ∧ i ∈ c'.pool.sleepers := by
    simp [step, standing, exec, work]
  obtain ⟨c', taken, asleep⟩ := sleeps
  exact ⟨c', Reaches.single taken, asleep⟩

/-- A worker that dozes can fall asleep. -/
theorem asleep_of_dozing {c : Config n S T} {i : Party n S}
    (dozes : dozing c.pool (c.pcs i) = true) :
    ∃ c', Reaches step c c' ∧ i ∈ c'.pool.sleepers := by
  cases standing : c.pcs i with
  | worker place =>
    cases place with
    | sleep => exact asleep_of_sleep standing
    | waitEmpty =>
      have empty : c.pool.tasks.isEmpty = true := by simpa [standing, dozing] using dozes
      have taken : step c (.go i) = some ⟨c.pool, Function.update c.pcs i (.worker .sleep), c.log⟩ := by
        simp [step, standing, exec, work, empty, observe]
      obtain ⟨c', onward, asleep⟩ := asleep_of_sleep
        (c := ⟨c.pool, Function.update c.pcs i (.worker .sleep), c.log⟩) (Function.update_self _ _ _)
      exact ⟨c', (Reaches.single taken).trans onward, asleep⟩
    | _ => simp [standing, dozing] at dozes
  | _ => simp [standing, dozing] at dozes

/-- A notification of all while a worker dozes can be followed by its falling asleep. -/
theorem asleep_after_notifyAll {c c' : Config n S T} {i : Party n S}
    (standing : c.pcs i = .destructor .notifyAll) (taken : step c (.go i) = some c') {w : Fin n}
    (dozes : dozing c.pool (c.pcs (.worker w)) = true) :
    ∃ c'', Reaches step c' c'' ∧ c''.pool.sleepers ≠ ∅ := by
  have other : .worker w ≠ i := by
    rintro rfl
    simp [standing, dozing] at dozes
  simp only [step, standing, exec, destroy, Option.map_some, Option.some.injEq] at taken
  have still : dozing c'.pool (c'.pcs (.worker w)) = true := by
    rw [← taken]
    dsimp only
    rw [Function.update_of_ne other]
    exact (dozing_of_same rfl _).trans dozes
  obtain ⟨c'', onward, asleep⟩ := asleep_of_dozing still
  exact ⟨c'', onward, Finset.ne_empty_of_mem asleep⟩

/-- The destructor's notification gets every worker back when no worker has read the
flag as clear and found the queue empty without being asleep yet. In a run whose
notification meets this, nobody is asleep after it in any continuation, and one that
cannot go on has every worker out of its loop and the destructor done. In a run whose
notification does not, some worker can fall asleep after it. -/
theorem workers_return_unhurried :
    (∀ (c : Config n S T) i, Reaches (guarded unhurried step) Config.init c →
      (c.pcs i).hasNotified = true → ∀ c', Reaches step c c' → c'.pool.sleepers = ∅ ∧
        (Stuck continuing c' → (∀ w, c'.exited w = true) ∧ c'.pcs i = .destructor .done)) ∧
    (∀ (c c' : Config n S T) i, Reachable c → c.pcs i = .destructor .notifyAll →
      step c (.go i) = some c' → unhurried c (.go i) = false →
        ∃ c'', Reaches step c' c'' ∧ c''.pool.sleepers ≠ ∅) := by
  constructor
  · intro c i calm past c' onward
    have reached : Reachable c := reaches_of_guarded calm
    obtain ⟨_, roused⟩ := roused_preserved.reaches
      ⟨reachable_sound reached, unhurried_roused calm i past⟩ onward
    have notified : Preserved step fun c : Config n S T => (c.pcs i).hasNotified = true := by
      intro c label c' past taken
      obtain ⟨j, pool, pc, events, moved, rfl⟩ := step_move taken
      by_cases same : i = j
      · subst same
        simpa using (move_settling moved).notified past
      · simpa [Function.update_of_ne same] using past
    refine ⟨roused.nobody, fun stuck => ?_⟩
    have left := exited_of_stuck (reached.trans onward) roused.nobody stuck
    exact ⟨left, done_of_stuck stuck left (notified.reaches past onward)⟩
  · intro c c' i _ standing taken hurried
    simp only [unhurried, standing, Bool.not_eq_false', decide_eq_true_eq] at hurried
    obtain ⟨w, dozes⟩ := hurried
    exact asleep_after_notifyAll standing taken dozes

/-- The only worker is asleep when the destructor notifies; nobody is asleep after. -/
theorem workers_return_unhurried_one : ∃ c : Config 1 (Fin 0) ℕ,
    Reaches (guarded unhurried step) Config.init c ∧ c.pcs .owner = .destructor (.join 0) ∧
      ∀ c', Reaches step c c' → c'.pool.sleepers = ∅ := by
  let schedule : List (Label 1 (Fin 0) ℕ) :=
    [List.replicate 4 (.go (.worker 0)), [.destroy], List.replicate 2 (.go .owner)].flatten
  have played : (run (guarded unhurried step) Config.init schedule).map (fun c => c.pcs .owner) =
      some (.destructor (.join 0)) := rfl
  obtain ⟨c, reached, joining⟩ := Option.map_eq_some_iff.mp played
  have returned := (workers_return_unhurried (n := 1) (S := Fin 0) (T := ℕ)).1 c .owner
    ⟨schedule, reached⟩ (by rw [joining]; rfl)
  exact ⟨c, ⟨schedule, reached⟩, joining, fun c' onward => (returned c' onward).1⟩

/-- The only worker reads the flag as clear and finds the queue empty; the destructor
sets the flag and notifies; the worker falls asleep. No step is left, and the
destructor waits for the worker. -/
theorem worker_asleep_after_notifyAll : ∃ c : Config 1 (Fin 0) ℕ, Reachable c ∧
    c.pcs .owner = .destructor (.join 0) ∧ .worker 0 ∈ c.pool.sleepers ∧ Stuck continuing c := by
  let schedule : List (Label 1 (Fin 0) ℕ) :=
    [List.replicate 3 (.go (.worker 0)), [.destroy], List.replicate 2 (.go .owner),
      [.go (.worker 0)]].flatten
  have played : (run step Config.init schedule).map (fun c => (c.pcs .owner, c.pcs (.worker 0),
      decide (.worker 0 ∈ c.pool.sleepers))) =
        some (.destructor (.join 0), .worker .asleep, true) := rfl
  obtain ⟨c, reached, final⟩ := Option.map_eq_some_iff.mp played
  obtain ⟨joining, rest⟩ := Prod.mk.inj final
  obtain ⟨waiting, asleep⟩ := Prod.mk.inj rest
  have sleeping : .worker 0 ∈ c.pool.sleepers := of_decide_eq_true asleep
  refine ⟨c, ⟨schedule, reached⟩, joining, sleeping, fun label => ?_⟩
  cases label with
  | go i =>
    rcases i with w | s | _
    · obtain rfl : w = 0 := Subsingleton.elim w 0
      simp [continuing, guarded, Label.continues, step, waiting, exec, work, sleeping]
    · exact s.elim0
    · have inside : c.exited 0 = false := by rw [Config.exited, waiting]; rfl
      simp [continuing, guarded, Label.continues, step, joining, exec, destroy, inside]
  | notify i woken =>
    rcases i with w | s | _
    · obtain rfl : w = 0 := Subsingleton.elim w 0
      simp [continuing, guarded, Label.continues, step, waiting]
    · exact s.elim0
    · simp [continuing, guarded, Label.continues, step, joining]
  | _ => rfl

end Run

end ConcurrencyBench.ThreadPool
