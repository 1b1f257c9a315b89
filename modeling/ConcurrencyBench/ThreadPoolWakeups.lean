import ConcurrencyBench.ThreadPoolTasks

/-!
# No task waits while a worker sleeps

`submit` notifies after it has released the mutex, a notification may find nobody
asleep, and the worker it wakes may find its task taken by another. No single
boolean survives all of this; a count does. While somebody sleeps, every queued
task and every sleeper is matched by a notification still to come or by a worker in
its loop, asleep or not. An insertion adds a task and a notification to come, a
notification removes itself and a sleeper, a removal takes a task and a worker out
of the loop. A worker falls asleep only on an empty queue, where the sleepers alone
are to be matched, and each of them is in its loop. The same holds where a worker
leaves the loop for good.
-/

namespace ConcurrencyBench.ThreadPool

open Interleaving

universe u v
variable {ι : Type u} {n : ℕ} {S : Type u} {T : Type v}

/-- A worker in its loop that has no task yet and has not decided to leave. -/
def Pc.looking : Pc T → Bool
  | .worker place => match place with
    | .exitUnlock | .exited | .takeUnlock _ | .running _ => false
    | _ => true
  | _ => false

/-- A `submit` that has inserted its task and not yet notified. -/
def Pc.notifying : Pc T → Bool
  | .submit .unlock _ _ | .submit .notifyOne _ _ => true
  | _ => false

/-- The workers awake and looking for a task. -/
def Config.awake [Fintype S] [DecidableEq S] (c : Config n S T) : ℕ :=
  (Finset.univ.filter fun i => (c.pcs i).looking = true ∧ i ∉ c.pool.sleepers).card

/-- The submits that have inserted their task and not yet notified. -/
def Config.notifying [Fintype S] (c : Config n S T) : ℕ :=
  (Finset.univ.filter fun i => (c.pcs i).notifying = true).card

/-- What one move does to the count while tasks and sleepers remain. -/
structure Matching (p : Pool ι T) (pc : Pc T) (p' : Pool ι T) (pc' : Pc T) : Prop where
  asleep : p'.tasks ≠ [] → p'.sleepers.Nonempty → p.sleepers.Nonempty
  count : p'.tasks ≠ [] → p'.sleepers.Nonempty →
    p'.tasks.length + p'.sleepers.card + pc.notifying.toNat + pc.looking.toNat ≤
      p.tasks.length + p.sleepers.card + pc'.notifying.toNat + pc'.looking.toNat

section OneMove

variable [DecidableEq ι] {exited : Fin n → Bool} {i : ι} {p p' : Pool ι T} {pc pc' : Pc T}

omit [DecidableEq ι] in
/-- A move that leaves the tasks and the sleepers, and its thread no less ready than before. -/
theorem still_matching (frame : p'.tasks = p.tasks ∧ p'.sleepers = p.sleepers)
    (ready : pc.notifying.toNat + pc.looking.toNat ≤ pc'.notifying.toNat + pc'.looking.toNat) :
    Matching p pc p' pc' := by
  obtain ⟨tasks, sleepers⟩ := frame
  refine ⟨fun _ some => sleepers ▸ some, fun _ _ => ?_⟩
  rw [tasks, sleepers]
  omega

omit [DecidableEq ι] in
/-- With no task left there is nothing to match. -/
theorem empty_matching (none : p'.tasks = []) : Matching p pc p' pc' :=
  ⟨fun some => absurd none some, fun some => absurd none some⟩

/-- Every statement of a worker keeps tasks and wake-ups matched. -/
theorem work_matching {place : WorkerAt T} (knows : Knows p (.worker place))
    (moved : work i p place = some (p', pc')) : Matching p (.worker place) p' pc' := by
  cases place with
  | lock =>
    obtain ⟨_, rfl, rfl⟩ := lock_map_eq_some_iff.mp moved
    exact still_matching ⟨rfl, rfl⟩ le_rfl
  | waitStop | waitEmpty | exitStop =>
    obtain ⟨rfl, rfl⟩ := Prod.mk.inj (Option.some.inj moved)
    split <;> exact still_matching ⟨rfl, rfl⟩ le_rfl
  | sleep =>
    obtain ⟨rfl, rfl⟩ := Prod.mk.inj (Option.some.inj moved)
    exact empty_matching knows
  | asleep =>
    obtain ⟨_, moved⟩ := Option.ite_none_left_eq_some.mp moved
    obtain ⟨_, rfl, rfl⟩ := lock_map_eq_some_iff.mp moved
    exact still_matching ⟨rfl, rfl⟩ le_rfl
  | exitEmpty =>
    obtain ⟨rfl, rfl⟩ := Prod.mk.inj (Option.some.inj moved)
    split
    · next empty => exact empty_matching (List.isEmpty_iff.mp empty)
    · exact still_matching ⟨rfl, rfl⟩ le_rfl
  | exitUnlock | takeUnlock task =>
    obtain ⟨rfl, rfl⟩ := Prod.mk.inj (Option.some.inj moved)
    exact still_matching ⟨rfl, rfl⟩ le_rfl
  | exited => cases moved
  | take =>
    obtain ⟨task, rest, queue, rfl, rfl⟩ := take_cases moved
    refine ⟨fun _ some => some, fun _ _ => ?_⟩
    simp only [queue, List.length_cons, Pc.notifying, Pc.looking, Bool.toNat_true,
      Bool.toNat_false]
    omega
  | running task =>
    obtain ⟨rfl, rfl⟩ := Prod.mk.inj (Option.some.inj moved)
    exact still_matching ⟨rfl, rfl⟩ (Nat.zero_le _)

omit [DecidableEq ι] in
/-- Every statement of `submit` keeps tasks and wake-ups matched. -/
theorem submit_matching {place : SubmitAt} {task : T} {caller : Option T}
    (moved : submit i p task caller place = some (p', pc')) :
    Matching p (.submit place task caller) p' pc' := by
  cases place with
  | lock =>
    obtain ⟨_, rfl, rfl⟩ := lock_map_eq_some_iff.mp moved
    exact still_matching ⟨rfl, rfl⟩ le_rfl
  | loadStop =>
    obtain ⟨rfl, rfl⟩ := Prod.mk.inj (Option.some.inj moved)
    split <;> exact still_matching ⟨rfl, rfl⟩ le_rfl
  | unlockThrow =>
    obtain ⟨rfl, rfl⟩ := Prod.mk.inj (Option.some.inj moved)
    exact still_matching ⟨rfl, rfl⟩ (Nat.zero_le _)
  | enqueue =>
    obtain ⟨rfl, rfl⟩ := Prod.mk.inj (Option.some.inj moved)
    refine ⟨fun _ some => some, fun _ _ => ?_⟩
    simp only [List.length_append, List.length_singleton, Pc.notifying, Pc.looking,
      Bool.toNat_true, Bool.toNat_false]
    omega
  | unlock =>
    obtain ⟨rfl, rfl⟩ := Prod.mk.inj (Option.some.inj moved)
    exact still_matching ⟨rfl, rfl⟩ le_rfl
  | notifyOne => cases moved

omit [DecidableEq ι] in
/-- Every statement of the destructor keeps tasks and wake-ups matched. -/
theorem destroy_matching {place : DestructorAt}
    (moved : destroy n exited p place = some (p', pc')) :
    Matching p (.destructor place) p' pc' := by
  cases place with
  | storeStop =>
    obtain ⟨rfl, rfl⟩ := Prod.mk.inj (Option.some.inj moved)
    exact still_matching ⟨rfl, rfl⟩ le_rfl
  | notifyAll =>
    obtain ⟨rfl, rfl⟩ := Prod.mk.inj (Option.some.inj moved)
    exact ⟨fun _ some => absurd some Finset.not_nonempty_empty,
      fun _ some => absurd some Finset.not_nonempty_empty⟩
  | join k =>
    rw [destroy] at moved
    split at moved
    · obtain ⟨_, moved⟩ := Option.ite_none_right_eq_some.mp moved
      obtain ⟨rfl, rfl⟩ := Prod.mk.inj (Option.some.inj moved)
      exact still_matching ⟨rfl, rfl⟩ le_rfl
    · obtain ⟨rfl, rfl⟩ := Prod.mk.inj (Option.some.inj moved)
      exact still_matching ⟨rfl, rfl⟩ le_rfl
  | done => cases moved

/-- Every move keeps tasks and wake-ups matched. -/
theorem move_matching {events : List (Event T)} (knows : Knows p pc)
    (moved : Move n exited i p pc p' pc' events) : Matching p pc p' pc' := by
  cases moved with
  | submit task caller ready =>
    rcases mayCall_cases ready with ⟨rfl, rfl⟩ | ⟨running, rfl, rfl⟩ <;>
      exact still_matching ⟨rfl, rfl⟩ le_rfl
  | destroy idle =>
    subst idle
    exact still_matching ⟨rfl, rfl⟩ le_rfl
  | exec _ _ moved =>
    cases pc with
    | worker place => exact work_matching knows moved
    | idle => cases moved
    | submit place task caller => exact submit_matching moved
    | destructor place => exact destroy_matching moved
  | notify task caller standing woken sleepers notified =>
    subst standing
    refine ⟨fun _ some => some.mono (notifyOne_subset notified), fun _ some => ?_⟩
    have fewer := notifyOne_card notified some
    cases caller <;> simp only [resume, Pc.looking, Pc.notifying, Bool.toNat_true,
      Bool.toNat_false] <;> omega
  | spurious sleeping =>
    refine ⟨fun _ _ => ⟨i, sleeping⟩, fun _ _ => ?_⟩
    have fewer := Finset.card_erase_le (s := p.sleepers) (a := i)
    dsimp only
    omega

end OneMove

section Run

variable [Fintype S] [DecidableEq S]

/-- While somebody sleeps, tasks and sleepers are matched by notifications to come
and workers in their loops. -/
def Matched (c : Config n S T) : Prop :=
  c.pool.sleepers.Nonempty → c.pool.tasks.length + c.pool.sleepers.card ≤
    tally (fun _ p => p.notifying.toNat) c.pcs + tally (fun _ p => p.looking.toNat) c.pcs

/-- A sleeper is looking for a task. -/
theorem looking_of_asleep (pc : Pc T) (asleep : pc.asleep = true) : pc.looking = true := by
  cases pc with
  | worker place => cases place <;> simp_all [Pc.asleep, Pc.looking]
  | _ => simp [Pc.asleep] at asleep

/-- One step keeps the match. With no task left, the sleepers are among the workers
in their loops; otherwise the step's own thread balances the count. -/
theorem matched_step {c c' : Config n S T} {label : Label n S T} (sound : Sound c)
    (matched : Matched c) (taken : step c label = some c') : Matched c' := by
  intro some
  by_cases none : c'.pool.tasks = []
  · have sleepers := (sound_preserved c label c' sound taken).parked.card_le looking_of_asleep
    rw [none, List.length_nil]
    omega
  · obtain ⟨i, pool, pc, events, moved, rfl⟩ := step_move taken
    have matching := move_matching (sound.knows i) moved
    have before := matched (matching.asleep none some)
    have count := matching.count none some
    have notifying := tally_update (fun _ p => p.notifying.toNat) c.pcs i pc
    have looking := tally_update (fun _ p => p.looking.toNat) c.pcs i pc
    dsimp only at notifying looking ⊢
    omega

/-- Tasks and wake-ups are matched in every reachable state. -/
theorem reachable_matched {c : Config n S T} (reached : Reachable c) : Matched c := by
  have kept : Preserved step fun c : Config n S T => Sound c ∧ Matched c :=
    sound_preserved.and fun _ _ _ sound matched taken => matched_step sound matched taken
  have begin : Matched (Config.init : Config n S T) := by simp [Matched, Config.init]
  exact (kept.reaches ⟨sound_init, begin⟩ reached).2

/-- While at least one worker is asleep on `condition_`, the queued tasks are no more
than the submits that have inserted their task and not yet notified and the workers
awake and looking for a task. Workers that have taken a task or decided to leave are
not counted as looking. -/
theorem tasks_within_wakeups (c : Config n S T) (reached : Reachable c)
    (sleeping : c.pool.sleepers.Nonempty) :
    c.pool.tasks.length ≤ c.notifying + c.awake := by
  have matched := reachable_matched reached sleeping
  have split := (reachable_sound reached).parked.card_add_awake looking_of_asleep
  have notifying := tally_toNat Pc.notifying c.pcs
  rw [Config.notifying, Config.awake]
  omega

/-- Both workers sleep; two clients have inserted a task each, and one has notified. -/
theorem tasks_within_wakeups_two : ∃ c : Config 2 (Fin 2) ℕ, Reachable c ∧
    c.pool.sleepers.Nonempty ∧ c.pool.tasks = [7, 8] ∧ 2 ≤ c.notifying + c.awake := by
  let schedule : List (Label 2 (Fin 2) ℕ) :=
    [List.replicate 4 (.go (.worker 0)), List.replicate 4 (.go (.worker 1)),
      [.submit (.client 0) 7], List.replicate 4 (.go (.client 0)),
      [.submit (.client 1) 8], List.replicate 4 (.go (.client 1)),
      [.notify (.client 0) (some (.worker 0))]].flatten
  have played : (run step Config.init schedule).map
      (fun c => (decide (.worker 1 ∈ c.pool.sleepers), c.pool.tasks)) = some (true, [7, 8]) := by
    decide +kernel
  obtain ⟨c, reached, final⟩ := Option.map_eq_some_iff.mp played
  obtain ⟨asleep, queued⟩ := Prod.mk.inj final
  have sleeping : c.pool.sleepers.Nonempty := ⟨.worker 1, of_decide_eq_true asleep⟩
  have within := tasks_within_wakeups c ⟨schedule, reached⟩ sleeping
  rw [queued] at within
  exact ⟨c, ⟨schedule, reached⟩, sleeping, queued, within⟩

end Run

end ConcurrencyBench.ThreadPool
