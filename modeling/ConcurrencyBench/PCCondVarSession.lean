import ConcurrencyBench.PCCondVar

/-!
# Every session with the condition variable completes

What a position under the mutex has seen of the queue and the flag stays true until it
gives the mutex up. The flag is set under the mutex after every producer has returned,
so a consumer that is about to fall asleep has seen it clear, and nobody falls asleep
after it is set. The notification of all that follows then leaves nobody asleep for
good. So a state in which no thread can go on has the producers back, the flag set,
nobody asleep and every consumer out of its loop.

A consumer leaves its loop with the flag set and the queue empty. Nothing is pushed
after that, so the queue stays empty: the items taken are all the items pushed.
-/

namespace ConcurrencyBench.PCCondVar

open Interleaving

universe u v
variable {ι : Type u} {P C : ℕ} {T : Type v}

/-- Inside a block under the mutex. -/
def Pc.locked : Pc T → Bool
  | .producer place => match place with
    | .push _ _ | .unlock _ => true
    | _ => false
  | .consumer place => match place with
    | .lock | .asleep | .exited => false
    | _ => true
  | .main place => match place with
    | .storeDone | .unlock => true
    | _ => false

/-- At the wait on `cv`, asleep or waiting for the mutex after a wake-up. -/
def Pc.asleep : Pc T → Bool
  | .consumer .asleep => true
  | _ => false

/-- The main thread has set the flag. -/
def Pc.hasStored : Pc T → Bool
  | .main place => match place with
    | .joinProducers _ | .lock | .storeDone => false
    | _ => true
  | _ => false

/-- The main thread has notified all. -/
def Pc.hasNotified : Pc T → Bool
  | .main (.joinConsumers _) | .main .finished => true
  | _ => false

/-- The items a producer has yet to push. -/
def Pc.left : Pc T → List T
  | .producer place => match place with
    | .loop left | .unlock left | .notifyOne left => left
    | .lock item left | .push item left => item :: left
    | .returned => []
  | _ => []

/-- A position belongs to its thread's function. -/
def Party.Runs : Party P C → Pc T → Prop
  | .producer _, pc => ∃ place, pc = .producer place
  | .consumer _, pc => ∃ place, pc = .consumer place
  | .main, pc => ∃ place, pc = .main place

/-- What a position under the mutex has seen of the queue and the flag. -/
def Knows (s : Shared ι T) : Pc T → Prop
  | .consumer .sleep => s.done = false
  | .consumer .exitTest => s.q ≠ [] ∨ s.done = true
  | .consumer .exitUnlock => s.q = [] ∧ s.done = true
  | .consumer .front => s.q ≠ []
  | .consumer (.pop item) => ∃ rest, s.q = item :: rest
  | _ => True

/-- The threads the main thread has joined. -/
def Joined (returned : Party P C → Bool) : Pc T → Prop
  | .main (.joinProducers k) => ∀ p : Fin P, p.val < k → returned (.producer p) = true
  | .main (.joinConsumers k) => (∀ p, returned (.producer p) = true) ∧
    ∀ c : Fin C, c.val < k → returned (.consumer c) = true
  | .main .finished => (∀ p, returned (.producer p) = true) ∧ ∀ c, returned (.consumer c) = true
  | .main _ => ∀ p, returned (.producer p) = true
  | _ => True

/-- The item of an insertion. -/
def Event.inserted : Event T → Option T
  | .pushed item => some item
  | _ => none

/-- The item of a removal. -/
def Event.removed : Event T → Option T
  | .popped item => some item
  | _ => none

/-- What one move does to the mutex, the wait set, the flag, the queue and the
threads' knowledge of it. -/
structure Effect (returned : Party P C → Bool) (i : ι) (s : Shared ι T) (pc : Pc T)
    (s' : Shared ι T) (pc' : Pc T) (events : List (Event T)) : Prop where
  lock : LockMove Pc.locked i s.m pc s'.m pc'
  others : ∀ j ∈ s'.sleepers, j ≠ i → j ∈ s.sleepers
  here : (i ∈ s.sleepers → pc.asleep = true) → i ∈ s'.sleepers → pc'.asleep = true
  slept : i ∈ s'.sleepers → i ∈ s.sleepers ∨ pc = .consumer .sleep
  knows : Knows s pc → Knows s' pc'
  quiet : (s'.q = s.q ∧ s'.done = s.done) ∨ pc.locked = true
  stored : s'.done = true → s.done = true ∨ pc = .main .storeDone ∧ pc'.hasStored = true
  stores : pc'.hasStored = true → pc.hasStored = true ∨ s'.done = true
  done : s.done = true → s'.done = true
  keeps : pc.hasStored = true → pc'.hasStored = true
  notifies : pc'.hasNotified = true → pc.hasNotified = true ∨ s'.sleepers = ∅
  left : pc.left = events.filterMap Event.inserted ++ pc'.left
  returns : pc.returned = true → pc'.returned = true
  leaves : pc'.returned = true → pc.returned = true ∨ pc = .consumer .exitUnlock ∨
    ∃ place, pc = .producer place
  joined : Joined returned pc → Joined returned pc'
  items : (events.filterMap Event.inserted = [] ∧ events.filterMap Event.removed = [] ∧
      s'.q = s.q) ∨
    (∃ item, events.filterMap Event.inserted = [item] ∧ events.filterMap Event.removed = [] ∧
      pc.left ≠ [] ∧ s'.q = s.q ++ [item]) ∨
    (∃ item, events.filterMap Event.inserted = [] ∧ events.filterMap Event.removed = [item] ∧
      (∃ place, pc = .consumer place) ∧ (Knows s pc → s.q = item :: s'.q))

section OneMove

variable [DecidableEq ι] {returned : Party P C → Bool} {i : ι} {s s' : Shared ι T} {pc pc' : Pc T}

omit [DecidableEq ι] in
/-- A statement of a producer under its code's guards. It may add an item of its list to
the queue. -/
theorem producer_effect {place place' : ProducerAt T} {events : List (Event T)}
    {owner : Option ι} {q : List T}
    (lock : LockMove Pc.locked i s.m (.producer place) owner (.producer place'))
    (staying : (Pc.producer place).returned = false)
    (quiet : q = s.q ∨ (Pc.producer place).locked = true)
    (left : (Pc.producer place).left =
      events.filterMap Event.inserted ++ (Pc.producer place').left)
    (items : (events.filterMap Event.inserted = [] ∧ events.filterMap Event.removed = [] ∧
        q = s.q) ∨
      ∃ item, events.filterMap Event.inserted = [item] ∧ events.filterMap Event.removed = [] ∧
        (Pc.producer place).left ≠ [] ∧ q = s.q ++ [item]) :
    Effect returned i s (.producer place) { s with m := owner, q } (.producer place') events where
  lock := lock
  others _ member _ := member
  here parked member := nomatch parked member
  slept := .inl
  knows _ := trivial
  quiet := quiet.imp_left fun same => ⟨same, rfl⟩
  stored := .inl
  stores := nofun
  done := id
  keeps := nofun
  notifies := nofun
  left := left
  returns back := by
    rw [staying] at back
    cases back
  leaves _ := .inr (.inr ⟨place, rfl⟩)
  joined _ := trivial
  items := items.imp_right .inl

omit [DecidableEq ι] in
/-- Every statement of a producer has its effect. -/
theorem prod_effect {place place' : ProducerAt T} (moved : prod i s place = some (s', place')) :
    Effect returned i s (.producer place) s' (.producer place') (observe (.producer place)) := by
  cases place with
  | loop left =>
    cases left <;> obtain ⟨rfl, rfl⟩ := Prod.mk.inj (Option.some.inj moved) <;>
      exact producer_effect (.kept _ _ _ rfl) rfl (.inl rfl) rfl (.inl ⟨rfl, rfl, rfl⟩)
  | lock item left =>
    obtain ⟨free, rfl, rfl⟩ := lock_map_eq_some_iff.mp moved
    refine producer_effect ?_ rfl (.inl rfl) rfl (.inl ⟨rfl, rfl, rfl⟩)
    rw [free]
    exact .acquired _ _ rfl
  | push item left =>
    obtain ⟨rfl, rfl⟩ := Prod.mk.inj (Option.some.inj moved)
    exact producer_effect (.kept _ _ _ rfl) rfl (.inr rfl) rfl
      (.inr ⟨item, rfl, rfl, List.cons_ne_nil _ _, rfl⟩)
  | unlock left =>
    obtain ⟨rfl, rfl⟩ := Prod.mk.inj (Option.some.inj moved)
    exact producer_effect (.released _ _ _ rfl rfl) rfl (.inl rfl) rfl (.inl ⟨rfl, rfl, rfl⟩)
  | notifyOne left | returned => cases moved

omit [DecidableEq ι] in
/-- A statement of a consumer that does not fall asleep. -/
theorem consumer_effect {place place' : ConsumerAt T} {events : List (Event T)}
    {owner : Option ι} {q : List T}
    (lock : LockMove Pc.locked i s.m (.consumer place) owner (.consumer place'))
    (awake : (i ∈ s.sleepers → (Pc.consumer place).asleep = true) → i ∉ s.sleepers)
    (staying : (Pc.consumer place).returned = false)
    (leaves : (Pc.consumer place').returned = true → place = .exitUnlock)
    (quiet : q = s.q ∨ (Pc.consumer place).locked = true)
    (knows : Knows s (.consumer place) → Knows { s with m := owner, q } (.consumer place'))
    (added : events.filterMap Event.inserted = [])
    (items : (events.filterMap Event.removed = [] ∧ q = s.q) ∨
      ∃ item, events.filterMap Event.removed = [item] ∧
        (Knows s (.consumer place) → s.q = item :: q)) :
    Effect returned i s (.consumer place) { s with m := owner, q } (.consumer place') events where
  lock := lock
  others _ member _ := member
  here parked member := absurd member (awake parked)
  slept := .inl
  knows := knows
  quiet := quiet.imp_left fun same => ⟨same, rfl⟩
  stored := .inl
  stores := nofun
  done := id
  keeps := nofun
  notifies := nofun
  left := by
    rw [added]
    rfl
  returns back := by
    rw [staying] at back
    cases back
  leaves back := by
    rw [leaves back]
    exact .inr (.inl rfl)
  joined _ := trivial
  items := by
    rcases items with ⟨taken, same⟩ | ⟨item, taken, shorter⟩
    · exact .inl ⟨added, taken, same⟩
    · exact .inr (.inr ⟨item, added, taken, ⟨place, rfl⟩, shorter⟩)

omit [DecidableEq ι] in
/-- A statement of a consumer that leaves the queue and the wait set as they are. -/
theorem still_effect {place place' : ConsumerAt T} {owner : Option ι}
    (lock : LockMove Pc.locked i s.m (.consumer place) owner (.consumer place'))
    (awake : (Pc.consumer place).asleep = false) (staying : (Pc.consumer place).returned = false)
    (leaves : (Pc.consumer place').returned = true → place = .exitUnlock)
    (knows : Knows s (.consumer place) → Knows { s with m := owner } (.consumer place'))
    (silent : observe (.consumer place) = []) :
    Effect returned i s (.consumer place) { s with m := owner } (.consumer place')
      (observe (.consumer place)) := by
  refine consumer_effect lock (fun parked member => ?_) staying leaves (.inl rfl) knows ?_
    (.inl ⟨?_, rfl⟩)
  · rw [parked member] at awake
    cases awake
  · rw [silent]
    rfl
  · rw [silent]
    rfl

/-- Every statement of a consumer has its effect. -/
theorem cons_effect {place place' : ConsumerAt T} (moved : cons i s place = some (s', place')) :
    Effect returned i s (.consumer place) s' (.consumer place') (observe (.consumer place)) := by
  cases place with
  | lock =>
    obtain ⟨free, rfl, rfl⟩ := lock_map_eq_some_iff.mp moved
    refine still_effect ?_ rfl rfl nofun (fun _ => trivial) rfl
    rw [free]
    exact .acquired _ _ rfl
  | waitTest =>
    rw [cons] at moved
    split at moved <;> obtain ⟨rfl, rfl⟩ := Prod.mk.inj (Option.some.inj moved)
    · next waiting =>
      refine still_effect (.kept _ _ _ rfl) rfl rfl nofun (fun _ => ?_) rfl
      rw [Bool.or_eq_true, Bool.not_eq_true', List.isEmpty_eq_false_iff] at waiting
      exact waiting
    · next shut =>
      refine still_effect (.kept _ _ _ rfl) rfl rfl nofun (fun _ => ?_) rfl
      rw [Bool.not_eq_true, Bool.or_eq_false_iff] at shut
      exact shut.2
  | sleep =>
    obtain ⟨rfl, rfl⟩ := Prod.mk.inj (Option.some.inj moved)
    exact {
      lock := .released _ _ _ rfl rfl
      others := fun _ member other => Finset.mem_of_mem_insert_of_ne member other
      here := fun _ _ => rfl
      slept := fun _ => .inr rfl
      knows := fun _ => trivial
      quiet := .inl ⟨rfl, rfl⟩
      stored := .inl
      stores := nofun
      done := id
      keeps := nofun
      notifies := nofun
      left := rfl
      returns := nofun
      leaves := nofun
      joined := fun _ => trivial
      items := .inl ⟨rfl, rfl, rfl⟩ }
  | asleep =>
    obtain ⟨woken, moved⟩ := Option.ite_none_left_eq_some.mp moved
    obtain ⟨free, rfl, rfl⟩ := lock_map_eq_some_iff.mp moved
    refine consumer_effect ?_ (fun _ => woken) rfl nofun (.inl rfl) (fun _ => trivial) rfl
      (.inl ⟨rfl, rfl⟩)
    rw [free]
    exact .acquired _ _ rfl
  | exitTest =>
    rw [cons] at moved
    split at moved <;> obtain ⟨rfl, rfl⟩ := Prod.mk.inj (Option.some.inj moved)
    · next both =>
      refine still_effect (.kept _ _ _ rfl) rfl rfl nofun (fun _ => ?_) rfl
      rw [Bool.and_eq_true, List.isEmpty_iff] at both
      exact both
    · next some =>
      refine still_effect (.kept _ _ _ rfl) rfl rfl nofun (fun known empty => some ?_) rfl
      rw [Bool.and_eq_true, List.isEmpty_iff]
      exact ⟨empty, known.resolve_left (not_not_intro empty)⟩
  | exitUnlock =>
    obtain ⟨rfl, rfl⟩ := Prod.mk.inj (Option.some.inj moved)
    exact still_effect (.released _ _ _ rfl rfl) rfl rfl (fun _ => rfl) (fun _ => trivial) rfl
  | exited => cases moved
  | front =>
    rw [cons] at moved
    split at moved
    · cases moved
    · next item rest standing =>
      obtain ⟨rfl, rfl⟩ := Prod.mk.inj (Option.some.inj moved)
      exact still_effect (.kept _ _ _ rfl) rfl rfl nofun (fun _ => ⟨rest, standing⟩) rfl
  | pop item =>
    obtain ⟨rfl, rfl⟩ := Prod.mk.inj (Option.some.inj moved)
    refine consumer_effect (.kept _ _ _ rfl) (fun parked member => nomatch parked member) rfl nofun
      (.inr rfl) (fun _ => trivial) rfl (.inr ⟨item, rfl, ?_⟩)
    rintro ⟨rest, standing⟩
    rw [standing, List.tail_cons]
  | unlock =>
    obtain ⟨rfl, rfl⟩ := Prod.mk.inj (Option.some.inj moved)
    exact still_effect (.released _ _ _ rfl rfl) rfl rfl nofun (fun _ => trivial) rfl

omit [DecidableEq ι] in
/-- A statement of the main thread that neither sets the flag nor notifies. -/
theorem main_effect {place place' : MainAt} {owner : Option ι}
    (lock : LockMove Pc.locked i s.m (.main place : Pc T) owner (.main place'))
    (keeps : (Pc.main place' : Pc T).hasStored = (Pc.main place : Pc T).hasStored)
    (notifies : (Pc.main place' : Pc T).hasNotified = (Pc.main place : Pc T).hasNotified)
    (joined : Joined returned (.main place : Pc T) → Joined returned (.main place' : Pc T)) :
    Effect returned i s (.main place) { s with m := owner } (.main place')
      (observe (.main place)) where
  lock := lock
  others _ member _ := member
  here parked member := nomatch parked member
  slept := .inl
  knows _ := trivial
  quiet := .inl ⟨rfl, rfl⟩
  stored := .inl
  stores stored := .inl (keeps ▸ stored)
  done := id
  keeps stored := keeps.trans stored
  notifies notified := .inl (notifies ▸ notified)
  left := rfl
  returns := nofun
  leaves := nofun
  joined := joined
  items := .inl ⟨rfl, rfl, rfl⟩

omit [DecidableEq ι] in
/-- Every statement of the main thread has its effect. -/
theorem finish_effect {place place' : MainAt}
    (moved : finish P C returned i s place = some (s', place')) :
    Effect returned i s (.main place) s' (.main place') (observe (.main place)) := by
  cases place with
  | joinProducers k =>
    rw [finish] at moved
    split at moved
    · obtain ⟨back, moved⟩ := Option.ite_none_right_eq_some.mp moved
      obtain ⟨rfl, rfl⟩ := Prod.mk.inj (Option.some.inj moved)
      refine main_effect (.kept _ _ _ rfl) rfl rfl fun joined p below => ?_
      rcases Nat.lt_succ_iff_lt_or_eq.mp below with before | here
      · exact joined p before
      · exact back p here
    · next all =>
      obtain ⟨rfl, rfl⟩ := Prod.mk.inj (Option.some.inj moved)
      exact main_effect (.kept _ _ _ rfl) rfl rfl fun joined p =>
        joined p (p.isLt.trans_le (Nat.le_of_not_lt all))
  | lock =>
    obtain ⟨free, rfl, rfl⟩ := lock_map_eq_some_iff.mp moved
    refine main_effect ?_ rfl rfl id
    rw [free]
    exact .acquired _ _ rfl
  | storeDone =>
    obtain ⟨rfl, rfl⟩ := Prod.mk.inj (Option.some.inj moved)
    exact {
      lock := .kept _ _ _ rfl
      others := fun _ member _ => member
      here := fun parked member => nomatch parked member
      slept := .inl
      knows := fun _ => trivial
      quiet := .inr rfl
      stored := fun _ => .inr ⟨rfl, rfl⟩
      stores := fun _ => .inr rfl
      done := fun _ => rfl
      keeps := nofun
      notifies := nofun
      left := rfl
      returns := nofun
      leaves := nofun
      joined := id
      items := .inl ⟨rfl, rfl, rfl⟩ }
  | unlock =>
    obtain ⟨rfl, rfl⟩ := Prod.mk.inj (Option.some.inj moved)
    exact main_effect (.released _ _ _ rfl rfl) rfl rfl id
  | notifyAll =>
    obtain ⟨rfl, rfl⟩ := Prod.mk.inj (Option.some.inj moved)
    exact {
      lock := .kept _ _ _ rfl
      others := fun _ member _ => nomatch Finset.notMem_empty _ member
      here := fun _ member => nomatch Finset.notMem_empty _ member
      slept := fun member => nomatch Finset.notMem_empty _ member
      knows := fun _ => trivial
      quiet := .inl ⟨rfl, rfl⟩
      stored := .inl
      stores := fun _ => .inl rfl
      done := id
      keeps := fun _ => rfl
      notifies := fun _ => .inr rfl
      left := rfl
      returns := nofun
      leaves := nofun
      joined := fun joined => ⟨joined, nofun⟩
      items := .inl ⟨rfl, rfl, rfl⟩ }
  | joinConsumers k =>
    rw [finish] at moved
    split at moved
    · obtain ⟨back, moved⟩ := Option.ite_none_right_eq_some.mp moved
      obtain ⟨rfl, rfl⟩ := Prod.mk.inj (Option.some.inj moved)
      refine main_effect (.kept _ _ _ rfl) rfl rfl fun joined => ⟨joined.1, fun c below => ?_⟩
      rcases Nat.lt_succ_iff_lt_or_eq.mp below with before | here
      · exact joined.2 c before
      · exact back c here
    · next all =>
      obtain ⟨rfl, rfl⟩ := Prod.mk.inj (Option.some.inj moved)
      exact main_effect (.kept _ _ _ rfl) rfl rfl fun joined =>
        ⟨joined.1, fun c => joined.2 c (c.isLt.trans_le (Nat.le_of_not_lt all))⟩
  | finished => cases moved

/-- Every move of a thread has its effect. -/
theorem move_effect {events : List (Event T)} (parked : i ∈ s.sleepers → pc.asleep = true)
    (moved : Move P C returned i s pc s' pc' events) :
    Effect returned i s pc s' pc' events := by
  cases moved with
  | exec _ _ moved =>
    cases pc with
    | producer place =>
      obtain ⟨⟨_, _⟩, taken, same⟩ := Option.map_eq_some_iff.mp moved
      obtain ⟨rfl, rfl⟩ := Prod.mk.inj same
      exact prod_effect taken
    | consumer place =>
      obtain ⟨⟨_, _⟩, taken, same⟩ := Option.map_eq_some_iff.mp moved
      obtain ⟨rfl, rfl⟩ := Prod.mk.inj same
      exact cons_effect taken
    | main place =>
      obtain ⟨⟨_, _⟩, taken, same⟩ := Option.map_eq_some_iff.mp moved
      obtain ⟨rfl, rfl⟩ := Prod.mk.inj same
      exact finish_effect taken
  | notify left standing woken sleepers notified =>
    have fewer := notifyOne_subset notified
    subst standing
    exact {
      lock := .kept _ _ _ rfl
      others := fun _ member _ => fewer member
      here := fun parked member => nomatch parked (fewer member)
      slept := fun member => .inl (fewer member)
      knows := fun _ => trivial
      quiet := .inl ⟨rfl, rfl⟩
      stored := .inl
      stores := nofun
      done := id
      keeps := nofun
      notifies := nofun
      left := rfl
      returns := nofun
      leaves := nofun
      joined := fun _ => trivial
      items := .inl ⟨rfl, rfl, rfl⟩ }
  | spurious sleeping =>
    have asleep := parked sleeping
    cases pc with
    | consumer place =>
      cases place with
      | asleep =>
        exact {
          lock := .kept _ _ _ rfl
          others := fun _ member _ => Finset.mem_of_mem_erase member
          here := fun _ _ => rfl
          slept := fun member => .inl (Finset.mem_of_mem_erase member)
          knows := fun _ => trivial
          quiet := .inl ⟨rfl, rfl⟩
          stored := .inl
          stores := nofun
          done := id
          keeps := nofun
          notifies := nofun
          left := rfl
          returns := nofun
          leaves := nofun
          joined := fun _ => trivial
          items := .inl ⟨rfl, rfl, rfl⟩ }
      | _ => cases asleep
    | _ => cases asleep

/-- A thread that moves stays in its own code. -/
theorem move_runs {events : List (Event T)} {party : Party P C} (runs : party.Runs pc)
    (moved : Move P C returned i s pc s' pc' events) : party.Runs pc' := by
  cases moved with
  | exec _ _ moved =>
    cases party <;> obtain ⟨place, rfl⟩ := runs <;>
      obtain ⟨_, _, same⟩ := Option.map_eq_some_iff.mp moved <;>
      exact ⟨_, (Prod.mk.inj same).2.symm⟩
  | notify left standing => cases party <;> simp [standing, Party.Runs] at runs ⊢
  | spurious => exact runs

end OneMove

section Run

/-- The items a thread has to push. -/
def Party.toPush (items : Fin P → List T) : Party P C → List T
  | .producer p => items p
  | _ => []

/-- A thread that has been joined stays returned. -/
theorem Joined.mono {returned returned' : Party P C → Bool} {pc : Pc T}
    (joined : Joined returned pc) (kept : ∀ i, returned i = true → returned' i = true) :
    Joined returned' pc := by
  cases pc with
  | main place =>
    cases place with
    | joinProducers k => exact fun p below => kept _ (joined p below)
    | joinConsumers k =>
      exact ⟨fun p => kept _ (joined.1 p), fun c below => kept _ (joined.2 c below)⟩
    | finished => exact ⟨fun p => kept _ (joined.1 p), fun c => kept _ (joined.2 c)⟩
    | _ => exact fun p => kept _ (joined p)
  | _ => trivial

/-- Everything a session keeps. -/
structure Sound (items : Fin P → List T) (c : Config P C T) : Prop where
  mutex : Owned Pc.locked c.shared.m c.pcs
  parked : Parked Pc.asleep c.shared.sleepers c.pcs
  runs : ∀ i : Party P C, i.Runs (c.pcs i)
  knows : ∀ i, Knows c.shared (c.pcs i)
  joined : ∀ i, Joined c.returned (c.pcs i)
  stored : c.shared.done = true ↔ (c.pcs .main).hasStored = true
  notified : (c.pcs .main).hasNotified = true → c.shared.sleepers = ∅
  lists : ∀ i : Party P C, pick Event.inserted i c.log ++ (c.pcs i).left = i.toPush items
  takers : ∀ i : Party P C, pick Event.removed i c.log ≠ [] → ∃ k, i = .consumer k
  fifo : readAll Event.removed c.log ++ c.shared.q = readAll Event.inserted c.log
  emptied : ∀ k, (c.pcs (.consumer k)).returned = true → c.shared.q = [] ∧ c.shared.done = true

/-- The new session is sound. -/
theorem sound_init (items : Fin P → List T) : Sound items (Config.init items : Config P C T) where
  mutex i := by cases i <;> simp [Config.init, start, Pc.locked]
  parked i sleeping := by simp [Config.init] at sleeping
  runs i := by cases i <;> simp [Config.init, start, Party.Runs]
  knows i := by cases i <;> simp [Config.init, start, Knows]
  joined i := by cases i <;> simp [Config.init, start, Joined]
  stored := by simp [Config.init, start, Pc.hasStored]
  notified := by simp [Config.init]
  lists i := by cases i <;> simp [Config.init, start, Pc.left, pick, Party.toPush]
  takers i := by simp [Config.init, pick]
  fifo := by simp [Config.init, readAll]
  emptied k exited := by simp [Config.init, start, Pc.returned] at exited

variable {items : Fin P → List T} {c : Config P C T}

/-- Once the flag is set, every producer has returned and has nothing left to push. -/
theorem Sound.pushed (sound : Sound items c) (done : c.shared.done = true) (i : Party P C) :
    (c.pcs i).left = [] := by
  have stored := sound.stored.mp done
  have back : ∀ p, (c.pcs (.producer p)).returned = true := by
    have joined := sound.joined .main
    cases standing : c.pcs .main with
    | main place =>
      cases place <;> simp_all [Pc.hasStored, Joined, Config.returned]
    | _ => simp [standing, Pc.hasStored] at stored
  have runs := sound.runs i
  cases i with
  | producer p =>
    have returned := back p
    cases standing : c.pcs (.producer p) with
    | producer place => cases place <;> simp_all [Pc.returned, Pc.left]
    | _ => simp [standing, Party.Runs] at runs
  | _ =>
    cases standing : c.pcs _ with
    | producer place => simp [standing, Party.Runs] at runs
    | _ => rfl

/-- In a sound session every move has its effect. -/
theorem Sound.effect (sound : Sound items c) {i : Party P C} {shared : Shared (Party P C) T}
    {pc : Pc T} {events : List (Event T)}
    (moved : Move P C c.returned i c.shared (c.pcs i) shared pc events) :
    Effect c.returned i c.shared (c.pcs i) shared pc events :=
  move_effect (sound.parked i) moved

/-- A thread keeps what it knows while nothing changes, and while it is outside the mutex. -/
theorem Knows.kept {s s' : Shared ι T} {pc : Pc T} (known : Knows s pc)
    (quiet : (s'.q = s.q ∧ s'.done = s.done) ∨ pc.locked = false) : Knows s' pc := by
  cases pc with
  | consumer place =>
    rcases quiet with ⟨queue, flag⟩ | outside
    · cases place <;> simp_all [Knows]
    · cases place <;> simp_all [Knows, Pc.locked]
  | _ => trivial

section Step

variable {i : Party P C} {shared : Shared (Party P C) T} {pc : Pc T} {events : List (Event T)}

/-- The queue holds what has been pushed and not yet taken, in order. -/
theorem fifo_step (sound : Sound items c)
    (effect : Effect c.returned i c.shared (c.pcs i) shared pc events) :
    readAll Event.removed (c.log ++ events.map (i, ·)) ++ shared.q =
      readAll Event.inserted (c.log ++ events.map (i, ·)) := by
  rw [readAll_append, readAll_append, ← sound.fifo]
  rcases effect.items with ⟨added, taken, same⟩ | ⟨item, added, taken, _, longer⟩ |
    ⟨item, added, taken, _, shorter⟩
  · simp [added, taken, same]
  · simp [added, taken, longer]
  · simp [added, taken, shorter (sound.knows i)]

/-- Once a consumer has left its loop the queue stays empty. -/
theorem emptied_step (sound : Sound items c)
    (effect : Effect c.returned i c.shared (c.pcs i) shared pc events)
    (empty : c.shared.q = []) (done : c.shared.done = true) :
    shared.q = [] ∧ shared.done = true := by
  refine ⟨?_, effect.done done⟩
  rcases effect.items with ⟨_, _, same⟩ | ⟨item, _, _, unpushed, _⟩ | ⟨item, _, _, _, shorter⟩
  · rw [same, empty]
  · exact absurd (sound.pushed done i) unpushed
  · simpa [empty] using shorter (sound.knows i)

/-- Only the main thread sets the flag. -/
theorem stored_step (sound : Sound items c)
    (effect : Effect c.returned i c.shared (c.pcs i) shared pc events) :
    shared.done = true ↔ (Function.update c.pcs i pc .main).hasStored = true := by
  by_cases mine : i = .main
  · subst mine
    rw [Function.update_self]
    constructor
    · intro done
      rcases effect.stored done with before | after
      · exact effect.keeps (sound.stored.mp before)
      · exact after.2
    · intro stored
      rcases effect.stores stored with before | after
      · exact effect.done (sound.stored.mpr before)
      · exact after
  · rw [Function.update_of_ne (Ne.symm mine), ← sound.stored]
    refine ⟨fun done => ?_, effect.done⟩
    rcases effect.stored done with before | after
    · exact before
    · have runs := sound.runs i
      cases i <;> simp [after.1, Party.Runs] at runs mine

/-- After the flag is set nobody falls asleep, so the notification of all leaves
nobody asleep for good. -/
theorem notified_step (sound : Sound items c)
    (effect : Effect c.returned i c.shared (c.pcs i) shared pc events)
    (notified : (Function.update c.pcs i pc .main).hasNotified = true) : shared.sleepers = ∅ := by
  have before : (c.pcs .main).hasNotified = true ∨ shared.sleepers = ∅ := by
    by_cases mine : i = .main
    · subst mine
      exact effect.notifies (by simpa using notified)
    · exact Or.inl (by simpa [Function.update_of_ne (Ne.symm mine)] using notified)
  rcases before with earlier | none
  · have empty := sound.notified earlier
    have done : c.shared.done = true := by
      refine sound.stored.mpr ?_
      cases standing : c.pcs .main with
      | main place => cases place <;> simp_all [Pc.hasNotified, Pc.hasStored]
      | _ => simp [standing, Pc.hasNotified] at earlier
    refine Finset.eq_empty_of_forall_notMem fun j sleeping => ?_
    by_cases mine : j = i
    · subst mine
      rcases effect.slept sleeping with asleep | falling
      · simp [empty] at asleep
      · have known := sound.knows j
        simp [falling, Knows, done] at known
    · have asleep := effect.others j sleeping mine
      simp [empty] at asleep
  · exact none

end Step

/-- One step keeps every part: the mover by its effect, and the other threads because
they are outside the mutex wherever the queue or the flag changes. -/
theorem sound_step {c' : Config P C T} {label : Label P C} (sound : Sound items c)
    (taken : step c label = some c') : Sound items c' := by
  obtain ⟨i, shared, pc, events, moved, rfl⟩ := step_move taken
  have effect := sound.effect moved
  have back : ∀ j, c.returned j = true → (Function.update c.pcs i pc j).returned = true := by
    rw [Function.forall_update_iff c.pcs fun j p => c.returned j = true → p.returned = true]
    exact ⟨effect.returns, fun _ _ returned => returned⟩
  constructor
  case mutex => exact sound.mutex.move effect.lock
  case parked => exact sound.parked.move effect.others (effect.here (sound.parked i))
  case runs =>
    intro j
    revert j
    dsimp only
    rw [Function.forall_update_iff c.pcs fun j p => j.Runs p]
    exact ⟨move_runs (sound.runs i) moved, fun j _ => sound.runs j⟩
  case knows =>
    dsimp only
    rw [Function.forall_update_iff c.pcs fun _ p => Knows shared p]
    refine ⟨effect.knows (sound.knows i), fun j other => (sound.knows j).kept ?_⟩
    refine effect.quiet.imp_right fun inside => ?_
    by_contra held
    exact other (sound.mutex.exclusive (by simpa using held) inside)
  case joined =>
    dsimp only
    rw [Function.forall_update_iff c.pcs fun _ p => Joined _ p]
    exact ⟨(effect.joined (sound.joined i)).mono back, fun j _ => (sound.joined j).mono back⟩
  case stored => exact stored_step sound effect
  case notified => exact notified_step sound effect
  case lists =>
    dsimp only
    rw [Function.forall_update_iff c.pcs fun j p => pick Event.inserted j _ ++ p.left =
      j.toPush items]
    refine ⟨?_, fun j other => ?_⟩
    · rw [pick_self, List.append_assoc, ← effect.left, sound.lists i]
    · rw [pick_other Event.inserted other, sound.lists j]
  case takers =>
    intro j took
    by_cases mine : j = i
    · subst mine
      rcases effect.items with ⟨_, none, _⟩ | ⟨_, _, none, _, _⟩ | ⟨_, _, _, ⟨_, taking⟩, _⟩
      · exact sound.takers j (by simpa [pick_self, none] using took)
      · exact sound.takers j (by simpa [pick_self, none] using took)
      · have runs := sound.runs j
        cases j <;> simp [taking, Party.Runs] at runs ⊢
    · rw [pick_other Event.removed mine] at took
      exact sound.takers j took
  case fifo => exact fifo_step sound effect
  case emptied =>
    intro k exited
    by_cases mine : Party.consumer k = i
    · subst mine
      rcases effect.leaves (by simpa using exited) with before | leaving | ⟨place, producing⟩
      · obtain ⟨empty, done⟩ := sound.emptied k before
        exact emptied_step sound effect empty done
      · have known := sound.knows (.consumer k)
        rw [leaving] at known
        exact emptied_step sound effect known.1 known.2
      · have runs := sound.runs (.consumer k)
        simp [producing, Party.Runs] at runs
    · obtain ⟨empty, done⟩ := sound.emptied k (by simpa [Function.update_of_ne mine] using exited)
      exact emptied_step sound effect empty done

/-- The session is sound in every reachable state. -/
theorem reachable_sound (reached : Reachable items c) : Sound items c := by
  have kept : Preserved (step (P := P) (C := C)) (Sound items) :=
    fun _ _ _ sound taken => sound_step sound taken
  exact kept.reaches (sound_init items) reached

/-- The label is not a spurious wake-up. -/
def Label.prompted : Label P C → Bool
  | .spurious _ => false
  | _ => true

section Blocked

variable {s : Shared (Party P C) T} {i : Party P C} {pc : Pc T} {returned : Party P C → Bool}

/-- The thread holding the mutex can always go on. -/
theorem exec_of_locked (known : Knows s pc) (inside : pc.locked = true) :
    exec P C returned i s pc ≠ none := by
  cases pc with
  | producer place => cases place <;> simp_all [Pc.locked, exec, prod]
  | consumer place =>
    cases place with
    | front => cases queue : s.q <;> simp_all [Knows, exec, cons]
    | _ => simp_all [Pc.locked, exec, cons]
  | main place => cases place <;> simp_all [Pc.locked, exec, finish]

/-- A producer that cannot go on although nobody holds the mutex is about to notify. -/
theorem prod_none {place : ProducerAt T} (free : s.m = none)
    (outside : (Pc.producer place).locked = false) (blocked : prod i s place = none) :
    place = .returned ∨ ∃ left, place = .notifyOne left := by
  cases place with
  | loop left => cases left <;> simp [prod] at blocked
  | _ => simp_all [prod, Shared.lock, Pc.locked]

/-- A consumer that cannot go on although nobody holds the mutex is asleep. -/
theorem cons_none {place : ConsumerAt T} (free : s.m = none)
    (outside : (Pc.consumer place).locked = false) (blocked : cons i s place = none) :
    place = .exited ∨ (place = .asleep ∧ i ∈ s.sleepers) := by
  cases place <;> simp_all [cons, Shared.lock, Pc.locked]

/-- The main thread goes on while nobody holds the mutex and every producer is back. -/
theorem finish_none {place : MainAt} (free : s.m = none)
    (back : ∀ p, returned (.producer p) = true) (blocked : finish P C returned i s place = none) :
    (Pc.main place : Pc T).hasNotified = true := by
  cases place with
  | joinProducers k =>
    simp only [finish, back, implies_true, if_true] at blocked
    split at blocked <;> simp at blocked
  | _ => simp_all [finish, Shared.lock, Pc.hasNotified]

end Blocked

/-- If nobody can go on, every consumer has left its loop. -/
theorem exited_of_blocked (sound : Sound items c)
    (blocked : ∀ label, label.prompted = true → step c label = none) (k : Fin C) :
    (c.pcs (.consumer k)).returned = true := by
  have still : ∀ i, exec P C c.returned i c.shared (c.pcs i) = none := fun i => by
    simpa [step] using blocked (.go i) rfl
  have free : c.shared.m = none := by
    by_contra held
    obtain ⟨i, owner⟩ := Option.ne_none_iff_exists'.mp held
    exact exec_of_locked (sound.knows i) ((sound.mutex i).mpr owner) (still i)
  have outside : ∀ i, (c.pcs i).locked = false := fun i => by
    by_contra inside
    have owner := (sound.mutex i).mp (by simpa using inside)
    simp [free] at owner
  have producers : ∀ p, c.returned (.producer p) = true := by
    intro p
    obtain ⟨place, standing⟩ : ∃ place, c.pcs (.producer p) = .producer place :=
      sound.runs (.producer p)
    rcases prod_none free (standing ▸ outside (.producer p))
      (by simpa [standing, exec] using still (.producer p)) with rfl | ⟨left, rfl⟩
    · simp [Config.returned, standing, Pc.returned]
    · obtain ⟨woken, sleepers, notified⟩ := notifyOne_total c.shared.sleepers
      simpa [step, standing, notified] using blocked (.notify (.producer p) woken) rfl
  have awake : c.shared.sleepers = ∅ := by
    obtain ⟨place, standing⟩ : ∃ place, c.pcs .main = .main place := sound.runs .main
    refine sound.notified ?_
    rw [standing]
    exact finish_none free producers (by simpa [standing, exec] using still .main)
  obtain ⟨place, standing⟩ : ∃ place, c.pcs (.consumer k) = .consumer place :=
    sound.runs (.consumer k)
  rcases cons_none free (standing ▸ outside (.consumer k))
    (by simpa [standing, exec] using still (.consumer k)) with rfl | ⟨_, sleeping⟩
  · rw [standing]
    rfl
  · simp [awake] at sleeping

/-- When everything pushed has been taken, what the consumers have taken is what the
producers had to push. -/
theorem consumed_eq_produced (sound : Sound items c) (pushed : ∀ i, (c.pcs i).left = [])
    (empty : c.shared.q = []) :
    ∑ k, (pick Event.removed (.consumer k) c.log : Multiset T) = ∑ p, (items p : Multiset T) := by
  have lists : ∀ i : Party P C, pick Event.inserted i c.log = i.toPush items := fun i => by
    simpa [pushed i] using sound.lists i
  have fifo : readAll Event.removed c.log = readAll Event.inserted c.log := by
    simpa [empty] using sound.fifo
  calc ∑ k, (pick Event.removed (.consumer k) c.log : Multiset T)
      = ∑ i, (pick Event.removed i c.log : Multiset T) := by
        refine Fintype.sum_of_injective Party.consumer (fun _ _ => Party.consumer.inj) _ _ ?_ fun _ => rfl
        intro i notConsumer
        have nothing : pick Event.removed i c.log = [] := by
          by_contra took
          obtain ⟨k, rfl⟩ := sound.takers i took
          exact notConsumer ⟨k, rfl⟩
        rw [nothing, Multiset.coe_nil]
    _ = (readAll Event.inserted c.log : Multiset T) := by rw [← readAll_eq_sum, fifo]
    _ = ∑ i : Party P C, (i.toPush items : Multiset T) := by simp only [readAll_eq_sum, lists]
    _ = ∑ p, (items p : Multiset T) := by
        refine (Fintype.sum_of_injective Party.producer (fun _ _ => Party.producer.inj) _ _ ?_
          fun _ => rfl).symm
        intro i notProducer
        cases i with
        | producer p => exact absurd ⟨p, rfl⟩ notProducer
        | _ => rfl

/-- A session completes and consumes what was produced, for any numbers of producers
and consumers, any lists to push and every interleaving. While a consumer is in its
loop, some thread can go on without a spurious wake-up; a consumer has left its loop
only with the flag set and the queue empty; and when all have, the queue is empty and
the items the consumers have taken, each counted for the consumer that took it, are
the items of the producers' lists. -/
theorem session_completes (items : Fin P → List T) (positive : 0 < C) (c : Config P C T)
    (reached : Reachable items c) :
    ((∃ k, (c.pcs (.consumer k)).returned = false) →
      ∃ label, label.prompted = true ∧ step c label ≠ none) ∧
    (∀ k, (c.pcs (.consumer k)).returned = true → c.shared.done = true ∧ c.shared.q = []) ∧
    ((∀ k, (c.pcs (.consumer k)).returned = true) → c.shared.q = [] ∧
      ∑ k, (pick Event.removed (.consumer k) c.log : Multiset T) = ∑ p, (items p : Multiset T)) := by
  have sound := reachable_sound reached
  refine ⟨?_, fun k exited => (sound.emptied k exited).symm, fun exited => ?_⟩
  · rintro ⟨k, unfinished⟩
    by_contra none
    have exited := exited_of_blocked sound (fun label prompted => by
      by_contra enabled
      exact none ⟨label, prompted, enabled⟩) k
    simp [exited] at unfinished
  · obtain ⟨empty, done⟩ := sound.emptied ⟨0, positive⟩ (exited ⟨0, positive⟩)
    exact ⟨empty, consumed_eq_produced sound (sound.pushed done) empty⟩

/-- A consumer falls asleep before any producer has pushed and is woken by a notification.
It takes the second item, and the other consumer the first; both fall asleep on the empty
queue before the last item is pushed, and one of them leaves its loop by the main thread's
notification. -/
theorem session_completes_two : ∃ c : Config 2 2 ℕ,
    Reachable (fun p => if p = 0 then [7, 8] else [9]) c ∧
    (∀ k, (c.pcs (.consumer k)).returned = true) ∧
    ∑ k, (pick Event.removed (.consumer k) c.log : Multiset ℕ) = {7, 8, 9} := by
  let items : Fin 2 → List ℕ := fun p => if p = 0 then [7, 8] else [9]
  let schedule : List (Label 2 2) :=
    [List.replicate 3 (.go (.consumer 0)), List.replicate 4 (.go (.producer 0)),
      List.replicate 4 (.go (.producer 1)), [.notify (.producer 0) (some (.consumer 0))],
      List.replicate 6 (.go (.consumer 1)), List.replicate 6 (.go (.consumer 0)),
      [.notify (.producer 1) none], List.replicate 3 (.go (.consumer 0)),
      List.replicate 3 (.go (.consumer 1)), List.replicate 4 (.go (.producer 0)),
      [.notify (.producer 0) (some (.consumer 1)), .go (.producer 0), .go (.producer 1)],
      List.replicate 7 (.go .main), List.replicate 10 (.go (.consumer 1)),
      List.replicate 4 (.go (.consumer 0))].flatten
  have played : (run step (Config.init items) schedule).map
      (fun c => ((c.pcs (.consumer 0)).returned, (c.pcs (.consumer 1)).returned)) =
        some (true, true) := by
    decide +kernel
  obtain ⟨c, reached, back⟩ := Option.map_eq_some_iff.mp played
  obtain ⟨first, second⟩ := Prod.mk.inj back
  have exited : ∀ k, (c.pcs (.consumer k)).returned = true := fun | 0 => first | 1 => second
  obtain ⟨_, _, ends⟩ := session_completes items Nat.two_pos c ⟨schedule, reached⟩
  refine ⟨c, ⟨schedule, reached⟩, exited, (ends exited).2.trans ?_⟩
  decide

end Run

end ConcurrencyBench.PCCondVar
