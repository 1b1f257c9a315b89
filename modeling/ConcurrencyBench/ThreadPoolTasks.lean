import ConcurrencyBench.ThreadPool

/-!
# Every accepted task runs exactly once

Tasks leave the queue in the order they entered it, a worker executes each task
it takes once, and a `submit` inserts its task exactly if it does not throw.
What remains is that no accepted task is left behind. The flag is stored without
the mutex, so a `submit` that has read it as clear may insert later; but it holds
the mutex from its read to its insertion. A worker leaves its loop after seeing,
under the mutex, the flag set and the queue empty. At that moment no `submit`
stands past its read, and every later one reads the flag as set: the queue is
empty for good.

What a position under the mutex has seen of the queue stays true until it gives
the mutex up, since only its owner changes the queue and the flag is never cleared.
-/

namespace ConcurrencyBench.ThreadPool

open Interleaving

universe u v
variable {ι : Type u} {n : ℕ} {S : Type u} {T : Type v}

/-- Inside a block under `queue_mutex_`. -/
def Pc.locked : Pc T → Bool
  | .worker place => match place with
    | .waitStop | .waitEmpty | .sleep | .exitStop | .exitEmpty | .exitUnlock | .take
    | .takeUnlock _ => true
    | _ => false
  | .submit place _ _ => match place with
    | .loadStop | .unlockThrow | .enqueue | .unlock => true
    | _ => false
  | _ => false

/-- At the wait on `condition_`, asleep or waiting for the mutex after a wake-up. -/
def Pc.asleep : Pc T → Bool
  | .worker .asleep => true
  | _ => false

/-- A `submit` that has read the flag as clear and is about to insert its task. -/
def Pc.enqueuing : Pc T → Bool
  | .submit .enqueue _ _ => true
  | _ => false

/-- A worker's thread, in its loop or in a call its task has made. -/
def Pc.works : Pc T → Bool
  | .worker _ => true
  | .submit _ _ caller => caller.isSome
  | _ => false

/-- What a position under the mutex has seen of the queue. -/
def Knows (p : Pool ι T) : Pc T → Prop
  | .worker .sleep => p.tasks = []
  | .worker .exitStop => p.stop = true ∨ p.tasks ≠ []
  | .worker .exitEmpty => p.stop = true
  | .worker .exitUnlock => p.stop = true ∧ p.tasks = []
  | .worker .take => p.tasks ≠ []
  | _ => True

/-- The task a `submit` was called with. -/
def Event.calledWith : Event T → Option T
  | .called task => some task
  | _ => none

/-- The task of a `submit` that has returned or thrown. -/
def Event.endedWith : Event T → Option T
  | .ended task _ => some task
  | _ => none

/-- The task of a `submit` that has returned without throwing. -/
def Event.accepted : Event T → Option T
  | .ended task true => some task
  | _ => none

/-- The task that has been put into the queue. -/
def Event.inserted : Event T → Option T
  | .enqueued task => some task
  | _ => none

/-- The task that has been taken from the queue. -/
def Event.removed : Event T → Option T
  | .dequeued task => some task
  | _ => none

/-- The task that has been begun. -/
def Event.begun : Event T → Option T
  | .began task => some task
  | _ => none

/-- A task whose execution has ended. -/
def Event.executed : Event T → Option T
  | .finished task => some task
  | _ => none

/-- The call of `submit` in progress. -/
def calling : Pc T → List T
  | .submit _ task _ => [task]
  | _ => []

/-- The task a `submit` has inserted without having returned. -/
def unacknowledged : Pc T → List T
  | .submit .unlock task _ | .submit .notifyOne task _ => [task]
  | _ => []

/-- The task a worker has taken and not begun. -/
def inHand : Pc T → List T
  | .worker (.takeUnlock task) => [task]
  | _ => []

/-- The task a worker is executing, also while its body calls `submit`. -/
def inBody : Pc T → List T
  | .worker (.running task) => [task]
  | .submit _ _ caller => caller.toList
  | _ => []

/-- What one move does to the mutex, the wait set, the flag, the queue and the
threads' knowledge of it. -/
structure Effect (n : ℕ) (exited : Fin n → Bool) (i : ι) (p : Pool ι T) (pc : Pc T)
    (p' : Pool ι T) (pc' : Pc T) (events : List (Event T)) : Prop where
  lock : LockMove Pc.locked i p.queueMutex pc p'.queueMutex pc'
  others : ∀ j ∈ p'.sleepers, j ≠ i → j ∈ p.sleepers
  here : (i ∈ p.sleepers → pc.asleep = true) → i ∈ p'.sleepers → pc'.asleep = true
  stop : p.stop = true → p'.stop = true
  tasks : (events.filterMap Event.inserted = [] ∧ events.filterMap Event.removed = [] ∧
      p'.tasks = p.tasks) ∨
    (∃ task, events.filterMap Event.inserted = [task] ∧ events.filterMap Event.removed = [] ∧
      pc.enqueuing = true ∧ p'.tasks = p.tasks ++ [task]) ∨
    (∃ task, events.filterMap Event.inserted = [] ∧ events.filterMap Event.removed = [task] ∧
      pc = .worker .take ∧ p.tasks = task :: p'.tasks)
  enqueues : pc'.enqueuing = true → p.stop = false ∨ pc.enqueuing = true
  knows : Knows p pc → Knows p' pc'
  exits : pc.hasExited = true → pc'.hasExited = true
  leaves : pc'.hasExited = true → pc.hasExited = true ∨ (pc = .worker .exitUnlock)
  works : pc'.works = pc.works
  joins : ∀ k, pc' = .destructor (.join k) → pc = pc' ∨ k = 0 ∨
    ∃ m, k = m + 1 ∧ pc = .destructor (.join m) ∧ ∀ w : Fin n, w.val = m → exited w = true
  done : pc' = .destructor .done → pc = pc' ∨ ∃ k, n ≤ k ∧ pc = .destructor (.join k)

/-- What one move adds to the accounts of its thread. -/
structure Account (pc pc' : Pc T) (events : List (Event T)) : Prop where
  calls : calling pc ++ events.filterMap Event.calledWith =
    events.filterMap Event.endedWith ++ calling pc'
  submits : unacknowledged pc ++ events.filterMap Event.inserted =
    events.filterMap Event.accepted ++ unacknowledged pc'
  takes : inHand pc ++ events.filterMap Event.removed =
    events.filterMap Event.begun ++ inHand pc'
  runs : inBody pc ++ events.filterMap Event.begun =
    events.filterMap Event.executed ++ inBody pc'

/-- What has been seen stays true while the queue stays the same. -/
theorem knows_of_same {p p' : Pool ι T} {pc : Pc T} (tasks : p'.tasks = p.tasks)
    (stop : p.stop = true → p'.stop = true) (knows : Knows p pc) : Knows p' pc := by
  unfold Knows at knows ⊢
  rw [tasks]
  split at knows
  · exact knows
  · exact knows.imp_left stop
  · exact stop knows
  · exact knows.imp_left stop
  · exact knows
  · exact knows

section OneMove

variable [DecidableEq ι] {exited : Fin n → Bool} {i : ι} {p p' : Pool ι T} {pc pc' : Pc T}

omit [DecidableEq ι] in
/-- A worker's statement has its effect if it is right about the mutex, the sleepers, the tasks
and what it has seen of them. -/
theorem worker_effect {place place' : WorkerAt T} {events : List (Event T)}
    (lock : LockMove Pc.locked i p.queueMutex (.worker place) p'.queueMutex (.worker place'))
    (others : ∀ j ∈ p'.sleepers, j ≠ i → j ∈ p.sleepers)
    (here : (i ∈ p.sleepers → (Pc.worker place).asleep = true) → i ∈ p'.sleepers →
      (Pc.worker place').asleep = true)
    (stop : p'.stop = p.stop)
    (tasks : (events.filterMap Event.inserted = [] ∧ events.filterMap Event.removed = [] ∧
        p'.tasks = p.tasks) ∨
      ∃ task, events.filterMap Event.inserted = [] ∧ events.filterMap Event.removed = [task] ∧
        Pc.worker place = .worker .take ∧ p.tasks = task :: p'.tasks)
    (knows : Knows p (.worker place) → Knows p' (.worker place'))
    (inside : place ≠ .exited) (leaves : place' = .exited → place = .exitUnlock) :
    Effect n exited i p (.worker place) p' (.worker place') events where
  lock := lock
  others := others
  here := here
  stop before := stop.trans before
  tasks := tasks.imp_right .inr
  enqueues := nofun
  knows := knows
  exits := by
    intro left
    cases place with
    | exited => exact absurd rfl inside
    | _ => cases left
  leaves := by
    intro left
    cases place' with
    | exited => exact .inr (congrArg Pc.worker (leaves rfl))
    | _ => cases left
  works := rfl
  joins := nofun
  done := nofun

omit [DecidableEq ι] in
/-- A worker's statement that leaves the sleepers and the tasks as they are. -/
theorem quiet_effect {place place' : WorkerAt T} {events : List (Event T)} {owner : Option ι}
    (lock : LockMove Pc.locked i p.queueMutex (.worker place) owner (.worker place'))
    (awake : (Pc.worker place).asleep = false)
    (quiet : events.filterMap Event.inserted = [] ∧ events.filterMap Event.removed = [])
    (knows : Knows p (.worker place) → Knows { p with queueMutex := owner } (.worker place'))
    (inside : place ≠ .exited) (leaves : place' = .exited → place = .exitUnlock) :
    Effect n exited i p (.worker place) { p with queueMutex := owner } (.worker place')
      events := by
  refine worker_effect lock (fun _ member _ => member) (fun parked member => ?_) rfl
    (.inl ⟨quiet.1, quiet.2, rfl⟩) knows inside leaves
  rw [parked member] at awake
  cases awake

/-- Every statement of a worker has its effect. -/
theorem work_effect {place : WorkerAt T} (moved : work i p place = some (p', pc')) :
    Effect n exited i p (.worker place) p' pc' (observe (.worker place) pc') := by
  cases place with
  | lock =>
    obtain ⟨free, rfl, rfl⟩ := lock_map_eq_some_iff.mp moved
    refine quiet_effect ?_ rfl ⟨rfl, rfl⟩ (fun _ => trivial) nofun nofun
    rw [free]
    exact .acquired _ _ rfl
  | waitStop =>
    obtain ⟨rfl, rfl⟩ := Prod.mk.inj (Option.some.inj moved)
    split
    · next set =>
      exact quiet_effect (.kept _ _ _ rfl) rfl ⟨rfl, rfl⟩ (fun _ => .inl set) nofun nofun
    · exact quiet_effect (.kept _ _ _ rfl) rfl ⟨rfl, rfl⟩ (fun _ => trivial) nofun nofun
  | waitEmpty =>
    obtain ⟨rfl, rfl⟩ := Prod.mk.inj (Option.some.inj moved)
    split
    · next empty =>
      exact quiet_effect (.kept _ _ _ rfl) rfl ⟨rfl, rfl⟩
        (fun _ => List.isEmpty_iff.mp empty) nofun nofun
    · next some =>
      exact quiet_effect (.kept _ _ _ rfl) rfl ⟨rfl, rfl⟩
        (fun _ => .inr fun empty => some (List.isEmpty_iff.mpr empty)) nofun nofun
  | sleep =>
    obtain ⟨rfl, rfl⟩ := Prod.mk.inj (Option.some.inj moved)
    exact worker_effect (.released _ _ _ rfl rfl)
      (fun _ member other => Finset.mem_of_mem_insert_of_ne member other) (fun _ _ => rfl) rfl
      (.inl ⟨rfl, rfl, rfl⟩) (fun _ => trivial) nofun nofun
  | asleep =>
    obtain ⟨awake, moved⟩ := Option.ite_none_left_eq_some.mp moved
    obtain ⟨free, rfl, rfl⟩ := lock_map_eq_some_iff.mp moved
    refine worker_effect ?_ (fun _ member _ => member) (fun _ member => absurd member awake) rfl
      (.inl ⟨rfl, rfl, rfl⟩) (fun _ => trivial) nofun nofun
    rw [free]
    exact .acquired _ _ rfl
  | exitStop =>
    obtain ⟨rfl, rfl⟩ := Prod.mk.inj (Option.some.inj moved)
    split
    · next set => exact quiet_effect (.kept _ _ _ rfl) rfl ⟨rfl, rfl⟩ (fun _ => set) nofun nofun
    · next clear =>
      exact quiet_effect (.kept _ _ _ rfl) rfl ⟨rfl, rfl⟩
        (fun seen => seen.resolve_left clear) nofun nofun
  | exitEmpty =>
    obtain ⟨rfl, rfl⟩ := Prod.mk.inj (Option.some.inj moved)
    split
    · next empty =>
      exact quiet_effect (.kept _ _ _ rfl) rfl ⟨rfl, rfl⟩
        (fun seen => ⟨seen, List.isEmpty_iff.mp empty⟩) nofun nofun
    · next some =>
      exact quiet_effect (.kept _ _ _ rfl) rfl ⟨rfl, rfl⟩
        (fun _ empty => some (List.isEmpty_iff.mpr empty)) nofun nofun
  | exitUnlock =>
    obtain ⟨rfl, rfl⟩ := Prod.mk.inj (Option.some.inj moved)
    exact quiet_effect (.released _ _ _ rfl rfl) rfl ⟨rfl, rfl⟩ (fun _ => trivial) nofun
      (fun _ => rfl)
  | exited => cases moved
  | take =>
    obtain ⟨task, rest, queue, rfl, rfl⟩ := take_cases moved
    exact worker_effect (.kept _ _ _ rfl) (fun _ member _ => member)
      (fun parked member => nomatch parked member) rfl (.inr ⟨task, rfl, rfl, rfl, queue⟩)
      (fun _ => trivial) nofun nofun
  | takeUnlock task =>
    obtain ⟨rfl, rfl⟩ := Prod.mk.inj (Option.some.inj moved)
    exact quiet_effect (.released _ _ _ rfl rfl) rfl ⟨rfl, rfl⟩ (fun _ => trivial) nofun nofun
  | running task =>
    obtain ⟨rfl, rfl⟩ := Prod.mk.inj (Option.some.inj moved)
    exact quiet_effect (.kept _ _ _ rfl) rfl ⟨rfl, rfl⟩ (fun _ => trivial) nofun nofun

omit [DecidableEq ι] in
/-- A statement of `submit` that goes on in it has its effect if it is right about the mutex and
the tasks, and has read the flag before it inserts. -/
theorem submission_effect {place place' : SubmitAt} {task : T} {caller : Option T}
    {events : List (Event T)}
    (lock : LockMove Pc.locked i p.queueMutex (.submit place task caller) p'.queueMutex
      (.submit place' task caller))
    (frame : p'.sleepers = p.sleepers ∧ p'.stop = p.stop)
    (tasks : (events.filterMap Event.inserted = [] ∧ events.filterMap Event.removed = [] ∧
        p'.tasks = p.tasks) ∨
      ∃ task', events.filterMap Event.inserted = [task'] ∧ events.filterMap Event.removed = [] ∧
        (Pc.submit place task caller).enqueuing = true ∧ p'.tasks = p.tasks ++ [task'])
    (enqueues : (Pc.submit place' task caller).enqueuing = true → p.stop = false) :
    Effect n exited i p (.submit place task caller) p' (.submit place' task caller) events where
  lock := lock
  others _ member _ := frame.1 ▸ member
  here parked member := nomatch parked (frame.1 ▸ member)
  stop before := frame.2.trans before
  tasks := tasks.imp_right .inl
  enqueues entering := .inl (enqueues entering)
  knows _ := trivial
  exits := nofun
  leaves := nofun
  works := rfl
  joins := nofun
  done := nofun

omit [DecidableEq ι] in
/-- A `submit` goes back to where it was called. -/
theorem resume_effect {place : SubmitAt} {task : T} {caller : Option T} {events : List (Event T)}
    (lock : LockMove Pc.locked i p.queueMutex (.submit place task caller) p'.queueMutex
      (resume caller))
    (sleepers : p'.sleepers ⊆ p.sleepers) (frame : p'.stop = p.stop ∧ p'.tasks = p.tasks)
    (quiet : events.filterMap Event.inserted = [] ∧ events.filterMap Event.removed = []) :
    Effect n exited i p (.submit place task caller) p' (resume caller) events := by
  constructor
  case lock => exact lock
  case others => exact fun _ member _ => sleepers member
  case here => exact fun parked member => nomatch parked (sleepers member)
  case stop => exact fun before => frame.1.trans before
  case tasks => exact .inl ⟨quiet.1, quiet.2, frame.2⟩
  all_goals cases caller
  case enqueues.none | enqueues.some => exact nofun
  case knows.none | knows.some => exact fun _ => trivial
  case exits.none | exits.some => exact nofun
  case leaves.none | leaves.some => exact nofun
  case works.none | works.some => rfl
  case joins.none | joins.some => exact nofun
  case done.none | done.some => exact nofun

omit [DecidableEq ι] in
/-- Where a `submit` goes back to there is no mutex to hold. -/
theorem resume_unlocked (caller : Option T) : (resume caller).locked = false := by
  cases caller <;> rfl

omit [DecidableEq ι] in
/-- Every statement of `submit` has its effect. -/
theorem submit_effect {place : SubmitAt} {task : T} {caller : Option T}
    (moved : submit i p task caller place = some (p', pc')) :
    Effect n exited i p (.submit place task caller) p' pc'
      (observe (.submit place task caller) pc') := by
  cases place with
  | lock =>
    obtain ⟨free, rfl, rfl⟩ := lock_map_eq_some_iff.mp moved
    refine submission_effect ?_ ⟨rfl, rfl⟩ (.inl ⟨rfl, rfl, rfl⟩) nofun
    rw [free]
    exact .acquired _ _ rfl
  | loadStop =>
    obtain ⟨rfl, rfl⟩ := Prod.mk.inj (Option.some.inj moved)
    split
    · exact submission_effect (.kept _ _ _ rfl) ⟨rfl, rfl⟩ (.inl ⟨rfl, rfl, rfl⟩) nofun
    · next clear =>
      exact submission_effect (.kept _ _ _ rfl) ⟨rfl, rfl⟩ (.inl ⟨rfl, rfl, rfl⟩)
        (fun _ => Bool.not_eq_true _ ▸ clear)
  | unlockThrow =>
    obtain ⟨rfl, rfl⟩ := Prod.mk.inj (Option.some.inj moved)
    exact resume_effect (.released _ _ _ rfl (resume_unlocked caller)) (Finset.Subset.refl _)
      ⟨rfl, rfl⟩ ⟨rfl, rfl⟩
  | enqueue =>
    obtain ⟨rfl, rfl⟩ := Prod.mk.inj (Option.some.inj moved)
    exact submission_effect (.kept _ _ _ rfl) ⟨rfl, rfl⟩ (.inr ⟨task, rfl, rfl, rfl, rfl⟩) nofun
  | unlock =>
    obtain ⟨rfl, rfl⟩ := Prod.mk.inj (Option.some.inj moved)
    exact submission_effect (.released _ _ _ rfl rfl) ⟨rfl, rfl⟩ (.inl ⟨rfl, rfl, rfl⟩) nofun
  | notifyOne => cases moved

omit [DecidableEq ι] in
/-- A statement of the destructor has its effect if it joins the workers in turn. -/
theorem destructor_effect {place place' : DestructorAt}
    (frame : p'.queueMutex = p.queueMutex ∧ p'.tasks = p.tasks)
    (sleepers : p'.sleepers ⊆ p.sleepers) (stop : p.stop = true → p'.stop = true)
    (joins : ∀ k, place' = .join k → k = 0 ∨
      ∃ m, k = m + 1 ∧ place = .join m ∧ ∀ w : Fin n, w.val = m → exited w = true)
    (done : place' = .done → ∃ k, n ≤ k ∧ place = .join k) :
    Effect n exited i p (.destructor place) p' (.destructor place') [] where
  lock := frame.1 ▸ .kept _ _ _ rfl
  others _ member _ := sleepers member
  here parked member := nomatch parked (sleepers member)
  stop := stop
  tasks := .inl ⟨rfl, rfl, frame.2⟩
  enqueues := nofun
  knows _ := trivial
  exits := nofun
  leaves := nofun
  works := rfl
  joins := by
    rintro k ⟨⟩
    refine .inr ((joins k rfl).imp_right ?_)
    rintro ⟨m, next, rfl, exits⟩
    exact ⟨m, next, rfl, exits⟩
  done := by
    rintro ⟨⟩
    obtain ⟨k, all, rfl⟩ := done rfl
    exact .inr ⟨k, all, rfl⟩

omit [DecidableEq ι] in
/-- Every statement of the destructor has its effect. -/
theorem destroy_effect {place : DestructorAt} (moved : destroy n exited p place = some (p', pc')) :
    Effect n exited i p (.destructor place) p' pc' (observe (.destructor place) pc') := by
  cases place with
  | storeStop =>
    obtain ⟨rfl, rfl⟩ := Prod.mk.inj (Option.some.inj moved)
    exact destructor_effect ⟨rfl, rfl⟩ (Finset.Subset.refl _) (fun _ => rfl) nofun nofun
  | notifyAll =>
    obtain ⟨rfl, rfl⟩ := Prod.mk.inj (Option.some.inj moved)
    refine destructor_effect ⟨rfl, rfl⟩ (Finset.empty_subset _) id ?_ nofun
    rintro k ⟨⟩
    exact .inl rfl
  | join k =>
    rw [destroy] at moved
    split at moved
    · obtain ⟨exits, moved⟩ := Option.ite_none_right_eq_some.mp moved
      obtain ⟨rfl, rfl⟩ := Prod.mk.inj (Option.some.inj moved)
      refine destructor_effect ⟨rfl, rfl⟩ (Finset.Subset.refl _) id ?_ nofun
      rintro _ ⟨⟩
      exact .inr ⟨k, rfl, rfl, exits⟩
    · next late =>
      obtain ⟨rfl, rfl⟩ := Prod.mk.inj (Option.some.inj moved)
      exact destructor_effect ⟨rfl, rfl⟩ (Finset.Subset.refl _) id nofun
        (fun _ => ⟨k, not_lt.mp late, rfl⟩)
  | done => cases moved

omit [DecidableEq ι] in
/-- A call of `submit` has its effect, from outside as from a task's body. -/
theorem call_effect {task : T} {caller : Option T} (ready : pc.mayCall = some caller) :
    Effect n exited i p pc p (.submit .lock task caller) [.called task] := by
  have idle : pc.locked = false ∧ pc.asleep = false ∧ pc.hasExited = false ∧
      pc.works = caller.isSome := by
    rcases mayCall_cases ready with ⟨rfl, rfl⟩ | ⟨running, rfl, rfl⟩ <;> exact ⟨rfl, rfl, rfl, rfl⟩
  obtain ⟨outside, awake, inside, works⟩ := idle
  exact {
    lock := .kept _ _ _ outside.symm
    others := fun _ member _ => member
    here := fun parked member => by
      rw [parked member] at awake
      cases awake
    stop := id
    tasks := .inl ⟨rfl, rfl, rfl⟩
    enqueues := nofun
    knows := fun _ => trivial
    exits := fun left => by
      rw [inside] at left
      cases left
    leaves := nofun
    works := works.symm
    joins := nofun
    done := nofun }

/-- Every move of a thread has its effect. -/
theorem move_effect {events : List (Event T)} (moved : Move n exited i p pc p' pc' events) :
    Effect n exited i p pc p' pc' events := by
  cases moved with
  | submit task caller ready => exact call_effect ready
  | destroy idle =>
    subst idle
    exact {
      lock := .kept _ _ _ rfl
      others := fun _ member _ => member
      here := fun parked member => nomatch parked member
      stop := id
      tasks := .inl ⟨rfl, rfl, rfl⟩
      enqueues := nofun
      knows := fun _ => trivial
      exits := nofun
      leaves := nofun
      works := rfl
      joins := nofun
      done := nofun }
  | exec _ _ moved =>
    cases pc with
    | worker place => exact work_effect moved
    | idle => cases moved
    | submit place task caller => exact submit_effect moved
    | destructor place => exact destroy_effect moved
  | notify task caller standing woken sleepers notified =>
    subst standing
    exact resume_effect (.kept _ _ _ (resume_unlocked caller)) (notifyOne_subset notified)
      ⟨rfl, rfl⟩ ⟨rfl, rfl⟩
  | spurious sleeping =>
    exact {
      lock := .kept _ _ _ rfl
      others := fun _ member _ => Finset.mem_of_mem_erase member
      here := fun parked _ => parked sleeping
      stop := id
      tasks := .inl ⟨rfl, rfl, rfl⟩
      enqueues := .inr
      knows := knows_of_same rfl id
      exits := id
      leaves := .inl
      works := rfl
      joins := fun _ _ => .inl rfl
      done := fun _ => .inl rfl }

/-- A worker accounts for its tasks. -/
theorem work_account {place : WorkerAt T} (moved : work i p place = some (p', pc')) :
    Account (.worker place) pc' (observe (.worker place) pc') := by
  cases place with
  | lock =>
    obtain ⟨_, rfl, rfl⟩ := lock_map_eq_some_iff.mp moved
    exact ⟨rfl, rfl, rfl, rfl⟩
  | waitStop | waitEmpty | exitStop | exitEmpty =>
    obtain ⟨rfl, rfl⟩ := Prod.mk.inj (Option.some.inj moved)
    split <;> exact ⟨rfl, rfl, rfl, rfl⟩
  | sleep | exitUnlock | takeUnlock task | running task =>
    obtain ⟨rfl, rfl⟩ := Prod.mk.inj (Option.some.inj moved)
    exact ⟨rfl, rfl, rfl, rfl⟩
  | asleep =>
    obtain ⟨_, moved⟩ := Option.ite_none_left_eq_some.mp moved
    obtain ⟨_, rfl, rfl⟩ := lock_map_eq_some_iff.mp moved
    exact ⟨rfl, rfl, rfl, rfl⟩
  | exited => cases moved
  | take =>
    obtain ⟨_, _, _, rfl, rfl⟩ := take_cases moved
    exact ⟨rfl, rfl, rfl, rfl⟩

omit [DecidableEq ι] in
/-- A `submit` accounts for its task, and for the one that has called it. -/
theorem submit_account {place : SubmitAt} {task : T} {caller : Option T}
    (moved : submit i p task caller place = some (p', pc')) :
    Account (.submit place task caller) pc' (observe (.submit place task caller) pc') := by
  cases place with
  | lock =>
    obtain ⟨_, rfl, rfl⟩ := lock_map_eq_some_iff.mp moved
    exact ⟨rfl, rfl, rfl, List.append_nil _⟩
  | loadStop =>
    obtain ⟨rfl, rfl⟩ := Prod.mk.inj (Option.some.inj moved)
    split <;> exact ⟨rfl, rfl, rfl, List.append_nil _⟩
  | enqueue | unlock =>
    obtain ⟨rfl, rfl⟩ := Prod.mk.inj (Option.some.inj moved)
    exact ⟨rfl, rfl, rfl, List.append_nil _⟩
  | unlockThrow =>
    obtain ⟨rfl, rfl⟩ := Prod.mk.inj (Option.some.inj moved)
    cases caller <;> exact ⟨rfl, rfl, rfl, rfl⟩
  | notifyOne => cases moved

omit [DecidableEq ι] in
/-- The destructor has no tasks to account for. -/
theorem destroy_account {place : DestructorAt} (moved : destroy n exited p place = some (p', pc')) :
    Account (.destructor place : Pc T) pc' (observe (.destructor place) pc') := by
  have inside : ∃ place', pc' = .destructor place' := by
    cases place with
    | storeStop | notifyAll =>
      obtain ⟨rfl, rfl⟩ := Prod.mk.inj (Option.some.inj moved)
      exact ⟨_, rfl⟩
    | join k =>
      rw [destroy] at moved
      split at moved
      · obtain ⟨_, moved⟩ := Option.ite_none_right_eq_some.mp moved
        obtain ⟨rfl, rfl⟩ := Prod.mk.inj (Option.some.inj moved)
        exact ⟨_, rfl⟩
      · obtain ⟨rfl, rfl⟩ := Prod.mk.inj (Option.some.inj moved)
        exact ⟨_, rfl⟩
    | done => cases moved
  obtain ⟨place', rfl⟩ := inside
  exact ⟨rfl, rfl, rfl, rfl⟩

/-- Every move accounts for its tasks. -/
theorem move_account {events : List (Event T)} (moved : Move n exited i p pc p' pc' events) :
    Account pc pc' events := by
  cases moved with
  | submit task caller ready =>
    rcases mayCall_cases ready with ⟨rfl, rfl⟩ | ⟨running, rfl, rfl⟩ <;> exact ⟨rfl, rfl, rfl, rfl⟩
  | destroy idle =>
    subst idle
    exact ⟨rfl, rfl, rfl, rfl⟩
  | exec _ _ moved =>
    cases pc with
    | worker place => exact work_account moved
    | idle => cases moved
    | submit place task caller => exact submit_account moved
    | destructor place => exact destroy_account moved
  | notify task caller standing =>
    subst standing
    cases caller <;> exact ⟨rfl, rfl, rfl, rfl⟩
  | spurious sleeping =>
    constructor <;> exact List.append_nil _

end OneMove

/-- The mutex and the wait set are used correctly, and the threads know what they
have seen. -/
structure Sound (c : Config n S T) : Prop where
  mutex : Owned Pc.locked c.pool.queueMutex c.pcs
  parked : Parked Pc.asleep c.pool.sleepers c.pcs
  knows : ∀ i, Knows c.pool (c.pcs i)

/-- The queue is empty and the flag set, and nobody stands past its read of the flag. -/
structure Drained (c : Config n S T) : Prop where
  empty : c.pool.tasks = []
  stopped : c.pool.stop = true
  quiet : ∀ i, (c.pcs i).enqueuing = false

/-- Who puts a task into the queue holds the lock. -/
theorem locked_of_enqueuing {pc : Pc T} (enqueuing : pc.enqueuing = true) : pc.locked = true := by
  cases pc with
  | submit place task caller => cases place <;> simp_all [Pc.enqueuing, Pc.locked]
  | _ => simp [Pc.enqueuing] at enqueuing

/-- A position outside the mutex claims nothing about the queue. -/
theorem knows_of_unlocked (p : Pool ι T) {pc : Pc T} (outside : pc.locked = false) :
    Knows p pc := by
  cases pc with
  | worker place => cases place <;> simp_all [Knows, Pc.locked]
  | _ => trivial

section Run

variable [DecidableEq S]

omit [DecidableEq S] in
/-- The new pool is sound. -/
theorem sound_init : Sound (Config.init : Config n S T) where
  mutex := by
    intro i
    cases i <;> simp [Config.init, start, Pc.locked]
  parked := by simp [Parked, Config.init]
  knows := by
    intro i
    cases i <;> trivial

/-- Only the mutex's owner changes the queue, so what another thread has seen under
the mutex stays true. -/
theorem sound_preserved : Preserved (step (n := n) (S := S) (T := T)) Sound := by
  intro c label c' sound taken
  obtain ⟨i, pool, pc, events, moved, rfl⟩ := step_move taken
  have effect := move_effect moved
  refine ⟨sound.mutex.move effect.lock,
    sound.parked.move effect.others (effect.here (sound.parked i)), ?_⟩
  rw [Function.forall_update_iff c.pcs fun _ p => Knows pool p]
  refine ⟨effect.knows (sound.knows i), fun j other => ?_⟩
  cases inside : (c.pcs j).locked with
  | false => exact knows_of_unlocked pool inside
  | true =>
    rcases effect.tasks with ⟨_, _, same⟩ | ⟨task, _, _, enqueuing, _⟩ | ⟨task, _, _, taking, _⟩
    · exact knows_of_same same effect.stop (sound.knows j)
    · exact absurd (sound.mutex.exclusive inside (locked_of_enqueuing enqueuing)) other
    · exact absurd (sound.mutex.exclusive inside (by rw [taking]; rfl)) other

/-- The pool is sound in every reachable state. -/
theorem reachable_sound {c : Config n S T} (reached : Reachable c) : Sound c :=
  sound_preserved.reaches sound_init reached

/-- Tasks leave the queue in the order they entered it. -/
theorem reachable_fifo {c : Config n S T} (reached : Reachable c) :
    readAll Event.removed c.log ++ c.pool.tasks = readAll Event.inserted c.log := by
  have kept : Preserved step fun c : Config n S T =>
      readAll Event.removed c.log ++ c.pool.tasks = readAll Event.inserted c.log := by
    intro c label c' ordered taken
    obtain ⟨i, pool, pc, events, moved, rfl⟩ := step_move taken
    rw [readAll_append, readAll_append, ← ordered]
    rcases (move_effect moved).tasks with
      ⟨none, nothing, same⟩ | ⟨task, insert, nothing, _, last⟩ | ⟨task, none, remove, _, first⟩
    · simp [none, nothing, same]
    · simp [insert, nothing, last]
    · simp [none, remove, first]
  exact kept.reaches rfl reached

/-- Once drained, a pool stays drained. -/
theorem drained_preserved : Preserved (step (n := n) (S := S) (T := T)) Drained := by
  intro c label c' drained taken
  obtain ⟨i, pool, pc, events, moved, rfl⟩ := step_move taken
  have effect := move_effect moved
  refine ⟨?_, effect.stop drained.stopped, ?_⟩
  · rcases effect.tasks with ⟨_, _, same⟩ | ⟨task, _, _, enqueuing, _⟩ | ⟨task, _, _, _, first⟩
    · exact same.trans drained.empty
    · simp [drained.quiet i] at enqueuing
    · simp [drained.empty] at first
  · rw [Function.forall_update_iff c.pcs fun _ p => p.enqueuing = false]
    refine ⟨?_, fun j _ => drained.quiet j⟩
    by_contra arrived
    rcases effect.enqueues (by simpa using arrived) with clear | before
    · simp [drained.stopped] at clear
    · simp [drained.quiet i] at before

/-- A worker that leaves its loop holds the mutex while it knows the queue empty and
the flag set, so it leaves the pool drained. -/
theorem drained_of_exited {c : Config n S T} (reached : Reachable c) :
    ∀ i, (c.pcs i).hasExited = true → Drained c := by
  have kept : Preserved step fun c : Config n S T =>
      Sound c ∧ ∀ i, (c.pcs i).hasExited = true → Drained c := by
    refine sound_preserved.and fun c label c' sound gone taken => ?_
    have persists : Drained c → Drained c' := fun drained =>
      drained_preserved c label c' drained taken
    obtain ⟨i, pool, pc, events, moved, rfl⟩ := step_move taken
    rw [Function.forall_update_iff c.pcs fun _ p => p.hasExited = true → _]
    refine ⟨fun left => persists ?_, fun j _ left => persists (gone j left)⟩
    rcases (move_effect moved).leaves left with before | leaving
    · exact gone i before
    · have seen : c.pool.stop = true ∧ c.pool.tasks = [] := by
        have knows := sound.knows i
        rwa [leaving] at knows
      refine ⟨seen.2, seen.1, fun j => ?_⟩
      by_contra enqueuing
      have same : i = j := sound.mutex.exclusive (by rw [leaving]; rfl)
        (locked_of_enqueuing (by simpa using enqueuing))
      simp [← same, leaving, Pc.enqueuing] at enqueuing
  have begin : ∀ i, ((Config.init : Config n S T).pcs i).hasExited = true →
      Drained (Config.init : Config n S T) := by
    intro i left
    cases i <;> simp [Config.init, start, Pc.hasExited] at left
  exact (kept.reaches ⟨sound_init, begin⟩ reached).2

/-- The four accounts of every thread. -/
structure Accounted (c : Config n S T) : Prop where
  calls : ∀ i, pick Event.calledWith i c.log = pick Event.endedWith i c.log ++ calling (c.pcs i)
  submits : ∀ i, pick Event.inserted i c.log =
    pick Event.accepted i c.log ++ unacknowledged (c.pcs i)
  takes : ∀ i, pick Event.removed i c.log = pick Event.begun i c.log ++ inHand (c.pcs i)
  runs : ∀ i, pick Event.begun i c.log = pick Event.executed i c.log ++ inBody (c.pcs i)

/-- All tasks are accounted for in every reachable state. -/
theorem reachable_accounted {c : Config n S T} (reached : Reachable c) : Accounted c := by
  have kept : Preserved (step (n := n) (S := S) (T := T)) Accounted := by
    intro c label c' accounted taken
    obtain ⟨i, pool, pc, events, moved, rfl⟩ := step_move taken
    have account := move_account moved
    exact ⟨settled_update accounted.calls account.calls,
      settled_update accounted.submits account.submits,
      settled_update accounted.takes account.takes, settled_update accounted.runs account.runs⟩
  have begin : Accounted (Config.init : Config n S T) := by
    constructor <;> intro i <;> cases i <;> rfl
  exact kept.reaches begin reached

/-- The workers' threads are those in the loop or in a call made from it. -/
theorem reachable_works {c : Config n S T} (reached : Reachable c) :
    ∀ i, (c.pcs i).works = true ↔ ∃ w, i = .worker w := by
  have kept : Preserved step fun c : Config n S T =>
      ∀ i, (c.pcs i).works = true ↔ ∃ w, i = .worker w := by
    intro c label c' known taken
    obtain ⟨i, pool, pc, events, moved, rfl⟩ := step_move taken
    rw [Function.forall_update_iff c.pcs fun j p => p.works = true ↔ ∃ w, j = .worker w]
    refine ⟨?_, fun j _ => known j⟩
    rw [(move_effect moved).works]
    exact known i
  refine kept.reaches (fun i => ?_) reached
  cases i <;> simp [Config.init, start, Pc.works]

/-- A worker that has left its loop stays out of it. -/
theorem exited_preserved (w : Fin n) :
    Preserved step fun c : Config n S T => c.exited w = true := by
  intro c label c' left taken
  obtain ⟨i, pool, pc, events, moved, rfl⟩ := step_move taken
  by_cases same : .worker w = i
  · subst same
    simpa [Config.exited] using (move_effect moved).exits left
  · simpa [Config.exited, Function.update_of_ne same] using left

/-- The join loop has passed only workers that have left. -/
structure Joined (c : Config n S T) : Prop where
  passed : ∀ i k, c.pcs i = .destructor (.join k) → ∀ w : Fin n, w.val < k → c.exited w = true
  all : ∀ i, c.pcs i = .destructor .done → ∀ w : Fin n, c.exited w = true

/-- In every reachable state the workers that are joined have returned. -/
theorem reachable_joined {c : Config n S T} (reached : Reachable c) : Joined c := by
  have kept : Preserved (step (n := n) (S := S) (T := T)) Joined := by
    intro c label c' joined taken
    have stays : ∀ w, c.exited w = true → c'.exited w = true := fun w left =>
      exited_preserved w c label c' left taken
    obtain ⟨i, pool, pc, events, moved, after⟩ := step_move taken
    have effect := move_effect moved
    have positions : c'.pcs = Function.update c.pcs i pc := by rw [after]
    constructor
    · rw [positions, Function.forall_update_iff c.pcs fun _ p =>
        ∀ k, p = .destructor (.join k) → ∀ w : Fin n, w.val < k → c'.exited w = true]
      refine ⟨fun k joining w before => ?_, fun j _ k joining w before =>
        stays w (joined.passed j k joining w before)⟩
      rcases effect.joins k joining with same | zero | ⟨m, next, standing, left⟩
      · exact stays w (joined.passed i k (same.trans joining) w before)
      · omega
      · rcases Nat.lt_succ_iff_lt_or_eq.mp (next ▸ before) with earlier | now
        · exact stays w (joined.passed i m standing w earlier)
        · exact stays w (left w now)
    · rw [positions, Function.forall_update_iff c.pcs fun _ p =>
        p = .destructor .done → ∀ w : Fin n, c'.exited w = true]
      refine ⟨fun finished w => ?_, fun j _ finished w => stays w (joined.all j finished w)⟩
      rcases effect.done finished with same | ⟨k, beyond, standing⟩
      · exact stays w (joined.all i (same.trans finished) w)
      · exact stays w (joined.passed i k standing w (by omega))
  have begin : Joined (Config.init : Config n S T) := by
    constructor <;> intro i <;> cases i <;> simp [Config.init, start]
  exact kept.reaches begin reached

variable [Fintype S]

/-- No task is begun more often than it was inserted. -/
theorem begun_le_inserted {c : Config n S T} (reached : Reachable c) :
    (readAll Event.begun c.log : Multiset T) ≤ readAll Event.inserted c.log := by
  have takes := (reachable_accounted reached).takes
  calc (readAll Event.begun c.log : Multiset T)
      = ∑ i, (pick Event.begun i c.log : Multiset T) := readAll_eq_sum _ _
    _ ≤ ∑ i, (pick Event.removed i c.log : Multiset T) := by
        refine Finset.sum_le_sum fun i _ => ?_
        rw [takes i, ← Multiset.coe_add]
        exact Multiset.le_add_right _ _
    _ = (readAll Event.removed c.log : Multiset T) := (readAll_eq_sum _ _).symm
    _ ≤ (readAll Event.inserted c.log : Multiset T) := by
        rw [← reachable_fifo reached, ← Multiset.coe_add]
        exact Multiset.le_add_right _ _

/-- When no thread has a task in its hands, all tasks taken have been executed. -/
theorem executed_of_idle {c : Config n S T} (reached : Reachable c)
    (hands : ∀ i, inHand (c.pcs i) = []) (bodies : ∀ i, inBody (c.pcs i) = []) :
    (readAll Event.executed c.log : Multiset T) = readAll Event.removed c.log := by
  have accounted := reachable_accounted reached
  rw [readAll_eq_sum, readAll_eq_sum]
  refine Finset.sum_congr rfl fun i _ => ?_
  rw [accounted.takes i, accounted.runs i, hands i, bodies i, List.append_nil, List.append_nil]

/-- Every accepted task runs exactly once and the pool drains before it stops. Tasks
are removed in the order of their insertion and begun at most as often as they were
inserted. The calls of a thread are, in order, those that have ended and the one in
progress; its insertions are the tasks of the calls that returned and the one about
to, so a call that throws inserts nothing. Once a worker has left its loop the queue
stays empty. The destructor's joins return only when all workers have left, and then
every inserted task has been executed once and none is queued. -/
theorem accepted_tasks_run_once (workers : 0 < n) (c : Config n S T) (reached : Reachable c) :
    readAll Event.removed c.log ++ c.pool.tasks = readAll Event.inserted c.log ∧
    (readAll Event.begun c.log : Multiset T) ≤ readAll Event.inserted c.log ∧
    (∀ i, pick Event.calledWith i c.log = pick Event.endedWith i c.log ++ calling (c.pcs i) ∧
      pick Event.inserted i c.log = pick Event.accepted i c.log ++ unacknowledged (c.pcs i)) ∧
    (∀ w, c.exited w = true → ∀ c', Reaches step c c' → c'.pool.tasks = []) ∧
    (∀ i, c.pcs i = .destructor .done → ∀ w, c.exited w = true) ∧
    ((∀ w, c.exited w = true) → c.pool.tasks = [] ∧
      (readAll Event.executed c.log : Multiset T) = readAll Event.inserted c.log) := by
  have accounted := reachable_accounted reached
  refine ⟨reachable_fifo reached, begun_le_inserted reached,
    fun i => ⟨accounted.calls i, accounted.submits i⟩, fun w left c' onward => ?_,
    (reachable_joined reached).all, fun left => ?_⟩
  · exact (drained_preserved.reaches (drained_of_exited reached _ left) onward).empty
  · have empty : c.pool.tasks = [] :=
      (drained_of_exited reached (.worker ⟨0, workers⟩) (left _)).empty
    have outside : ∀ i, (c.pcs i).works = true → (c.pcs i).hasExited = true := by
      intro i working
      obtain ⟨w, rfl⟩ := (reachable_works reached i).mp working
      exact left w
    have idle : ∀ i, inHand (c.pcs i) = [] ∧ inBody (c.pcs i) = [] := by
      intro i
      have gone := outside i
      cases standing : c.pcs i with
      | worker place => cases place <;> simp_all [Pc.works, Pc.hasExited, inHand, inBody]
      | submit place task caller => cases caller <;> simp_all [Pc.works, Pc.hasExited, inHand, inBody]
      | _ => exact ⟨rfl, rfl⟩
    have fifo := reachable_fifo reached
    rw [empty, List.append_nil] at fifo
    refine ⟨empty, ?_⟩
    rw [executed_of_idle reached (fun i => (idle i).1) (fun i => (idle i).2), fifo]

/-- A client's task is run by the only worker while the pool is being destroyed. -/
theorem accepted_tasks_run_once_one : ∃ c : Config 1 (Fin 1) ℕ, Reachable c ∧
    c.pcs .owner = .destructor .done ∧ (readAll Event.executed c.log : Multiset ℕ) = {7} := by
  let schedule : List (Label 1 (Fin 1) ℕ) :=
    [[.submit (.client 0) 7], List.replicate 4 (.go (.client 0)), [.destroy],
      List.replicate 2 (.go .owner), [.notify (.client 0) none],
      List.replicate 12 (.go (.worker 0)), List.replicate 2 (.go .owner)].flatten
  have played : (run step Config.init schedule).map
      (fun c => (c.pcs .owner, readAll Event.inserted c.log)) = some (.destructor .done, [7]) := rfl
  obtain ⟨c, reached, final⟩ := Option.map_eq_some_iff.mp played
  obtain ⟨position, inserted⟩ := Prod.mk.inj final
  obtain ⟨_, _, _, _, joined, once⟩ := accepted_tasks_run_once (by decide) c ⟨schedule, reached⟩
  refine ⟨c, ⟨schedule, reached⟩, position, ?_⟩
  rw [(once (joined .owner position)).2, inserted]
  rfl

end Run

end ConcurrencyBench.ThreadPool
