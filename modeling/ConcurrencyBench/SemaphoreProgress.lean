import ConcurrencyBench.SemaphoreTokens

/-!
# Progress of the semaphore queue

A call in progress has a bounded number of statements left, since the
fall-through to the loop head of `pop` is never taken. A thread without a next
step is at rest, waits for the mutex, or waits for a semaphore at zero; the
owner of the mutex always has a next step. So when nobody can go on, the mutex
is free, no token is in anyone's hands, and the two token accounts determine the
semaphores from the queue's length and the calls of `close` and `shutdown`.

After a `shutdown` these counts are positive. However many threads wait, the last
ones are released by the tokens the earlier ones hand back.
-/

namespace ConcurrencyBench.SemaphoreQueue

open Interleaving

universe u v
variable {ι : Type u} {T : Type v}

/-- Statements a `push` has left at most. -/
def PushAt.cost : PushAt → ℕ
  | .entryShutdown => 11
  | .entryClosed => 10
  | .acquire => 9
  | .wokenShutdown => 8
  | .wokenClosed => 7
  | .returnSlot => 1
  | .lock => 6
  | .lockedShutdown => 5
  | .lockedClosed => 4
  | .lockedReturnSlot => 2
  | .unlockRejected => 1
  | .enqueue => 3
  | .unlock => 2
  | .release => 1

/-- Statements a `pop` has left at most, on its single way through the loop. -/
def PopAt.cost : PopAt T → ℕ
  | .lock => 12
  | .empty => 11
  | .lockedShutdown => 10
  | .lockedClosed => 9
  | .unlockFinished => 1
  | .unlock => 8
  | .acquire => 7
  | .relock => 6
  | .front => 5
  | .release _ => 2
  | .unlockTaken _ => 1
  | .unlockEmpty => 4
  | .wokenShutdown => 3
  | .wokenClosed => 2
  | .returnToken => 1

/-- Statements a wake loop has left at most, its last test included. -/
def wakeCost (maxSize i : ℕ) : ℕ := maxSize + 1 - i + 1

/-- Statements the call in progress has left at most. -/
def cost (maxSize : ℕ) : Pc T → ℕ
  | .idle | .returned _ => 0
  | .push place _ => place.cost
  | .pop place => place.cost
  | .close .storeClosed => wakeCost maxSize 0 + 1
  | .close (.wakeConsumers i) => wakeCost maxSize i
  | .shutdown .storeShutdown => 2 * wakeCost maxSize 0 + 2
  | .shutdown .storeClosed => 2 * wakeCost maxSize 0 + 1
  | .shutdown (.wakeConsumers i) => wakeCost maxSize i + wakeCost maxSize 0
  | .shutdown (.wakeProducers i) => wakeCost maxSize i

/-- Statements all calls in progress have left at most. -/
def Config.remaining [Fintype ι] (c : Config ι T) : ℕ := tally (fun _ => cost c.q.maxSize) c.pcs

/-- The program without new calls. -/
def continuing [DecidableEq ι] : Config ι T → Label ι T → Option (Config ι T) :=
  guarded (fun _ label => label.continues) step

/-- The thread has no call, or its call waits for a semaphore. -/
def Pc.waiting : Pc T → Bool
  | .idle | .returned _ | .push .acquire _ | .pop .acquire => true
  | _ => false

section Statements

variable {i : ι} {q q' : Queue ι T} {pc pc' : Pc T}

/-- Every statement of `push` lowers its cost. -/
theorem push_cost {place : PushAt} {item : T} (moved : push i q item place = some (q', pc')) :
    cost q.maxSize pc' < place.cost := by
  cases place with
  | entryShutdown | entryClosed | wokenShutdown | wokenClosed | lockedShutdown | lockedClosed =>
    obtain ⟨-, rfl⟩ := Prod.mk.inj (Option.some.inj moved)
    split <;> simp only [cost, PushAt.cost, Nat.reduceLT]
  | acquire =>
    obtain ⟨_, moved⟩ := Option.ite_none_right_eq_some.mp moved
    obtain ⟨-, rfl⟩ := Prod.mk.inj (Option.some.inj moved)
    simp only [cost, PushAt.cost, Nat.reduceLT]
  | lock =>
    obtain ⟨_, -, rfl⟩ := lock_map_eq_some_iff.mp moved
    simp only [cost, PushAt.cost, Nat.reduceLT]
  | returnSlot | lockedReturnSlot | unlockRejected | enqueue | unlock | release =>
    obtain ⟨-, rfl⟩ := Prod.mk.inj (Option.some.inj moved)
    simp only [cost, PushAt.cost, Nat.reduceLT]

/-- Every statement of `pop` lowers its cost, as long as a thread that has found the
queue empty finds it closed. -/
theorem pop_cost {place : PopAt T} (found : (Pc.pop place).foundEmpty = true → q.closed = true)
    (moved : pop i q place = some (q', pc')) : cost q.maxSize pc' < place.cost := by
  cases place with
  | lock | relock =>
    obtain ⟨_, -, rfl⟩ := lock_map_eq_some_iff.mp moved
    simp only [cost, PopAt.cost, Nat.reduceLT]
  | empty | lockedShutdown | lockedClosed | wokenShutdown =>
    obtain ⟨-, rfl⟩ := Prod.mk.inj (Option.some.inj moved)
    split <;> simp only [cost, PopAt.cost, Nat.reduceLT]
  | unlockFinished | unlock | release | unlockTaken | unlockEmpty | returnToken =>
    obtain ⟨-, rfl⟩ := Prod.mk.inj (Option.some.inj moved)
    simp only [cost, PopAt.cost, Nat.reduceLT]
  | acquire =>
    obtain ⟨_, moved⟩ := Option.ite_none_right_eq_some.mp moved
    obtain ⟨-, rfl⟩ := Prod.mk.inj (Option.some.inj moved)
    simp only [cost, PopAt.cost, Nat.reduceLT]
  | front =>
    obtain ⟨_, -, rfl⟩ | ⟨_, _, _, -, rfl⟩ := front_cases moved <;>
      simp only [cost, PopAt.cost, Nat.reduceLT]
  | wokenClosed =>
    -- the other way would be the head of the loop again
    have closed : q.closed = true := found rfl
    rw [pop, closed] at moved
    obtain ⟨-, rfl⟩ := Prod.mk.inj (Option.some.inj moved)
    simp only [if_true, cost, PopAt.cost, Nat.reduceLT]

/-- Every statement of `close` lowers its cost. -/
theorem close_cost {place : CloseAt} (moved : close q place = some (q', pc')) :
    cost q.maxSize pc' < cost q.maxSize (Pc.close place : Pc T) := by
  cases place with
  | storeClosed =>
    obtain ⟨-, rfl⟩ := Prod.mk.inj (Option.some.inj moved)
    exact Nat.lt_succ_self _
  | wakeConsumers k =>
    rw [close] at moved
    split at moved <;> obtain ⟨-, rfl⟩ := Prod.mk.inj (Option.some.inj moved) <;>
      simp only [cost, wakeCost] <;> omega

/-- Every statement of `shutdown` lowers its cost. -/
theorem shutdown_cost {place : ShutdownAt} (moved : shutdown q place = some (q', pc')) :
    cost q.maxSize pc' < cost q.maxSize (Pc.shutdown place : Pc T) := by
  cases place with
  | storeShutdown | storeClosed =>
    obtain ⟨-, rfl⟩ := Prod.mk.inj (Option.some.inj moved)
    simp only [cost]
    omega
  | wakeConsumers k | wakeProducers k =>
    rw [shutdown] at moved
    split at moved <;> obtain ⟨-, rfl⟩ := Prod.mk.inj (Option.some.inj moved) <;>
      simp only [cost, wakeCost] <;> omega

/-- A statement other than the fall-through of `pop` lowers its thread's cost. -/
theorem exec_cost (found : pc.foundEmpty = true → q.closed = true)
    (moved : exec i q pc = some (q', pc')) : cost q.maxSize pc' < cost q.maxSize pc := by
  cases pc with
  | idle | returned => cases moved
  | push place item => exact push_cost moved
  | pop place => exact pop_cost found moved
  | close place => exact close_cost moved
  | shutdown place => exact shutdown_cost moved

/-- A thread without a next step waits, or wants the mutex while it is held. -/
theorem exec_none (blocked : exec i q pc = none) :
    pc.waiting = true ∨ (pc.locked = false ∧ q.mtx ≠ none) := by
  cases pc with
  | idle | returned => exact .inl rfl
  | push place item =>
    cases place with
    | acquire => exact .inl rfl
    | lock => exact .inr ⟨rfl, held_of_lock_map_eq_none blocked⟩
    | _ => cases blocked
  | pop place =>
    cases place with
    | acquire => exact .inl rfl
    | lock | relock => exact .inr ⟨rfl, held_of_lock_map_eq_none blocked⟩
    | front =>
      rw [exec, pop] at blocked
      split at blocked <;> cases blocked
    | _ => cases blocked
  | close place =>
    cases place with
    | storeClosed => cases blocked
    | wakeConsumers k =>
      rw [exec, close] at blocked
      split at blocked <;> cases blocked
  | shutdown place =>
    cases place with
    | storeShutdown | storeClosed => cases blocked
    | wakeConsumers k | wakeProducers k =>
      rw [exec, shutdown] at blocked
      split at blocked <;> cases blocked

end Statements

/-- A waiting thread holds no mutex and no token and is in no wake loop. -/
theorem waiting_empty_handed (maxSize : ℕ) {pc : Pc T} (waiting : pc.waiting = true) :
    pc.locked = false ∧ slotsInHand pc = 0 ∧ tokensInHand pc = 0 ∧
      consumerWakes maxSize pc = 0 ∧ producerWakes maxSize pc = 0 := by
  cases pc with
  | push place item =>
    cases place <;> simp_all [Pc.waiting, Pc.locked, slotsInHand, tokensInHand, consumerWakes,
      producerWakes]
  | pop place =>
    cases place <;> simp_all [Pc.waiting, Pc.locked, slotsInHand, tokensInHand, consumerWakes,
      producerWakes]
  | close place | shutdown place => simp [Pc.waiting] at waiting
  | idle | returned => exact ⟨rfl, rfl, rfl, rfl, rfl⟩

section Run

variable [Fintype ι] {maxSize : ℕ} {c : Config ι T}

/-- When no thread can go on, every thread waits: the owner of the mutex would
have a next step, so nobody holds it and nobody is kept out by it. -/
theorem all_waiting (balanced : Balanced maxSize c)
    (blocked : ∀ i, exec i c.q (c.pcs i) = none) (i : ι) : (c.pcs i).waiting = true := by
  have unlocked : ∀ j, (c.pcs j).locked = false := by
    intro j
    rcases exec_none (blocked j) with waiting | ⟨outside, _⟩
    · exact (waiting_empty_handed maxSize waiting).1
    · exact outside
  rcases exec_none (blocked i) with waiting | ⟨_, held⟩
  · exact waiting
  · obtain ⟨owner, mine⟩ := Option.ne_none_iff_exists'.mp held
    have inside := (balanced.mutex owner).mpr mine
    simp [unlocked owner] at inside

/-- With every thread waiting, the queue's length and the finished calls of
`close` and `shutdown` determine both semaphores. -/
theorem settled_counts (balanced : Balanced maxSize c)
    (waiting : ∀ i, (c.pcs i).waiting = true) :
    c.q.emptySlots + c.q.queue.length = maxSize + (maxSize + 1) * shutdowns c.log ∧
      c.q.filledSlots = c.q.queue.length + (maxSize + 1) * (closes c.log + shutdowns c.log) := by
  have slots : tally (fun _ => slotsInHand) c.pcs = 0 := by
    rw [tally_eq_zero_iff]
    exact fun i => (waiting_empty_handed maxSize (waiting i)).2.1
  have tokens : tally (fun _ => tokensInHand) c.pcs = 0 := by
    rw [tally_eq_zero_iff]
    exact fun i => (waiting_empty_handed maxSize (waiting i)).2.2.1
  have consumers : tally (fun _ => consumerWakes maxSize) c.pcs = 0 := by
    rw [tally_eq_zero_iff]
    exact fun i => (waiting_empty_handed maxSize (waiting i)).2.2.2.1
  have producers : tally (fun _ => producerWakes maxSize) c.pcs = 0 := by
    rw [tally_eq_zero_iff]
    exact fun i => (waiting_empty_handed maxSize (waiting i)).2.2.2.2
  have slotAccount := balanced.slots
  have tokenAccount := balanced.tokens
  rw [slots, producers] at slotAccount
  rw [tokens, consumers] at tokenAccount
  exact ⟨by omega, by omega⟩

omit [Fintype ι] in
/-- A waiting thread whose semaphores both have a token can go on unless it is at rest. -/
theorem atRest_of_tokens {i : ι} {q : Queue ι T} {pc : Pc T} (waiting : pc.waiting = true)
    (blocked : exec i q pc = none) (slot : 0 < q.emptySlots) (token : 0 < q.filledSlots) :
    pc.atRest = true := by
  cases pc with
  | idle | returned => rfl
  | push place item =>
    cases place <;> simp [Pc.waiting] at waiting
    simp [exec, push] at blocked
    omega
  | pop place =>
    cases place <;> simp [Pc.waiting] at waiting
    simp [exec, pop] at blocked
    omega
  | close place | shutdown place => simp [Pc.waiting] at waiting

end Run

/-- The event is the start of a `shutdown`. -/
def Event.startsShutdown : Event T → Bool
  | .called .shutdown => true
  | _ => false

/-- The thread is inside a `shutdown`. -/
def inShutdown : Pc T → ℕ
  | .shutdown _ => 1
  | _ => 0

/-- Calls of `shutdown` that have started. -/
def shutdownsStarted (log : List (ι × Event T)) : ℕ :=
  log.countP fun entry => entry.2.startsShutdown

section Statements

variable {i : ι} {q q' : Queue ι T} {pc' : Pc T}

/-- A thread outside `shutdown` stays outside and returns from none. -/
theorem exec_outside {pc : Pc T} (moved : exec i q pc = some (q', pc')) (out : inShutdown pc = 0) :
    inShutdown pc' = 0 ∧ (observe pc pc').countP Event.endsShutdown = 0 ∧
      (observe pc pc').countP Event.startsShutdown = 0 := by
  cases pc with
  | idle | returned => cases moved
  | push place item =>
    cases place with
    | entryShutdown | entryClosed | wokenShutdown | wokenClosed | lockedShutdown
      | lockedClosed =>
      obtain ⟨-, rfl⟩ := Prod.mk.inj (Option.some.inj moved)
      split <;> exact ⟨rfl, rfl, rfl⟩
    | acquire =>
      obtain ⟨_, moved⟩ := Option.ite_none_right_eq_some.mp moved
      obtain ⟨-, rfl⟩ := Prod.mk.inj (Option.some.inj moved)
      exact ⟨rfl, rfl, rfl⟩
    | lock =>
      obtain ⟨_, -, rfl⟩ := lock_map_eq_some_iff.mp moved
      exact ⟨rfl, rfl, rfl⟩
    | returnSlot | lockedReturnSlot | unlockRejected | enqueue | unlock | release =>
      obtain ⟨-, rfl⟩ := Prod.mk.inj (Option.some.inj moved)
      exact ⟨rfl, rfl, rfl⟩
  | pop place =>
    cases place with
    | lock | relock =>
      obtain ⟨_, -, rfl⟩ := lock_map_eq_some_iff.mp moved
      exact ⟨rfl, rfl, rfl⟩
    | empty | lockedShutdown | lockedClosed | wokenShutdown | wokenClosed =>
      obtain ⟨-, rfl⟩ := Prod.mk.inj (Option.some.inj moved)
      split <;> exact ⟨rfl, rfl, rfl⟩
    | acquire =>
      obtain ⟨_, moved⟩ := Option.ite_none_right_eq_some.mp moved
      obtain ⟨-, rfl⟩ := Prod.mk.inj (Option.some.inj moved)
      exact ⟨rfl, rfl, rfl⟩
    | front =>
      obtain ⟨_, -, rfl⟩ | ⟨_, _, _, -, rfl⟩ := front_cases (i := i) moved <;> exact ⟨rfl, rfl, rfl⟩
    | unlockFinished | unlock | release | unlockTaken | unlockEmpty | returnToken =>
      obtain ⟨-, rfl⟩ := Prod.mk.inj (Option.some.inj moved)
      exact ⟨rfl, rfl, rfl⟩
  | close place =>
    cases place with
    | storeClosed =>
      obtain ⟨-, rfl⟩ := Prod.mk.inj (Option.some.inj moved)
      exact ⟨rfl, rfl, rfl⟩
    | wakeConsumers k =>
      rw [exec, close] at moved
      split at moved <;> obtain ⟨-, rfl⟩ := Prod.mk.inj (Option.some.inj moved) <;>
        exact ⟨rfl, rfl, rfl⟩
  | shutdown place => cases out

/-- A started `shutdown` is in progress until it returns. -/
theorem move_inShutdown {pc : Pc T} {events : List (Event T)}
    (moved : Move i q pc q' pc' events) :
    inShutdown pc' + events.countP Event.endsShutdown =
      inShutdown pc + events.countP Event.startsShutdown := by
  cases moved with
  | call op rest =>
    have outside : inShutdown pc = 0 := by
      cases pc with
      | idle | returned => rfl
      | _ => cases rest
    rw [outside]
    cases op <;> rfl
  | exec _ _ moved =>
    cases pc with
    | shutdown place =>
      cases place with
      | storeShutdown | storeClosed =>
        obtain ⟨-, rfl⟩ := Prod.mk.inj (Option.some.inj moved)
        rfl
      | wakeConsumers k | wakeProducers k =>
        rw [exec, shutdown] at moved
        split at moved <;> obtain ⟨-, rfl⟩ := Prod.mk.inj (Option.some.inj moved) <;> rfl
    | _ =>
      obtain ⟨outside, ends, starts⟩ := exec_outside moved rfl
      rw [outside, ends, starts]
      rfl

end Statements

section Shutdown

variable [Fintype ι] [DecidableEq ι] {maxSize : ℕ}

/-- The calls of `shutdown` that have started are those that have returned and
those in progress. -/
theorem reachable_shutdowns {c : Config ι T} (reached : Reachable maxSize c) :
    shutdownsStarted c.log = shutdowns c.log + tally (fun _ => inShutdown) c.pcs := by
  have kept : Preserved step fun c : Config ι T =>
      shutdownsStarted c.log = shutdowns c.log + tally (fun _ => inShutdown) c.pcs := by
    intro c label c' counted taken
    obtain ⟨i, q, pc, events, moved, rfl⟩ := step_move taken
    have inside := tally_update (fun _ => inShutdown) c.pcs i pc
    have change := move_inShutdown moved
    have started : shutdownsStarted (c.log ++ events.map (i, ·)) =
        shutdownsStarted c.log + events.countP Event.startsShutdown := by
      simp [shutdownsStarted, List.countP_map, Function.comp_def]
    simp only [started, shutdowns_append]
    omega
  exact kept.reaches (by simp [Config.init, shutdownsStarted, shutdowns, tally, inShutdown]) reached

/-- Without new calls every step of a balanced state lowers the statements left. -/
theorem continuing_lowers :
    Lowers (continuing (ι := ι) (T := T)) (Balanced maxSize) Config.remaining := by
  intro c label c' balanced taken
  obtain ⟨continues, taken⟩ := (guarded_eq_some_iff c c' label).mp taken
  cases label with
  | call i op => simp [Label.continues] at continues
  | go i =>
    simp only [step, Option.map_eq_some_iff] at taken
    obtain ⟨⟨q, pc⟩, moved, rfl⟩ := taken
    have size := (move_accounts (.exec q pc moved)).maxSize
    have lower := exec_cost (balanced.found i) moved
    have total := tally_update (fun _ => cost c.q.maxSize) c.pcs i pc
    simp only [Config.remaining, size]
    omega

omit [Fintype ι] in
/-- A state without a continuing step is one in which no thread can go on. -/
theorem blocked_of_stuck {c : Config ι T} (stuck : Stuck continuing c) (i : ι) :
    exec i c.q (c.pcs i) = none := by
  have none := stuck (.go i)
  simpa [continuing, guarded, Label.continues, step] using none

omit [Fintype ι] in
/-- The log only grows. -/
theorem logged_preserved (entry : ι × Event T) :
    Preserved (step (ι := ι) (T := T)) fun c => entry ∈ c.log := by
  intro c label c' logged taken
  obtain ⟨i, q, pc, events, moved, rfl⟩ := step_move taken
  exact List.mem_append_left _ logged

/-- Where nobody can go on although a `shutdown` has started, that call has
returned, and both semaphores are positive. -/
theorem tokens_after_shutdown {c : Config ι T} (reached : Reachable maxSize c) {i : ι}
    (started : (i, Event.called .shutdown) ∈ c.log) (waiting : ∀ j, (c.pcs j).waiting = true) :
    0 < c.q.emptySlots ∧ 0 < c.q.filledSlots := by
  have outside : tally (fun _ => inShutdown) c.pcs = 0 := by
    rw [tally_eq_zero_iff]
    intro j
    have here := waiting j
    cases standing : c.pcs j with
    | shutdown place => simp [standing, Pc.waiting] at here
    | _ => rfl
  have some : 0 < shutdownsStarted c.log := by
    rw [shutdownsStarted, List.countP_pos_iff]
    exact ⟨_, started, rfl⟩
  have counted := reachable_shutdowns reached
  obtain ⟨slots, tokens⟩ := settled_counts (reachable_balanced reached) waiting
  have within := reachable_committed reached
  obtain ⟨others, returned⟩ : ∃ n, shutdowns c.log = n + 1 := ⟨shutdowns c.log - 1, by omega⟩
  simp only [returned, Nat.mul_add, Nat.mul_one] at slots tokens
  rw [Config.committed] at within
  omega

/-- `shutdown` releases every waiter. Once some call of it has started, and with
no new calls, every continuation is finite, and one that cannot go on has every
call returned: no thread is left at a semaphore, however many were waiting. -/
theorem shutdown_releases_waiters (maxSize : ℕ) (c : Config ι T) (reached : Reachable maxSize c)
    (i : ι) (started : (i, Event.called .shutdown) ∈ c.log) :
    (∃ bound, ∀ schedule c', run continuing c schedule = some c' → schedule.length ≤ bound) ∧
    (∀ c', Reaches continuing c c' → Stuck continuing c' → ∀ j, (c'.pcs j).atRest = true) := by
  constructor
  · refine ⟨c.remaining, fun schedule c' played => ?_⟩
    have spent := continuing_lowers.length_le (balanced_preserved maxSize).guarded
      (reachable_balanced reached) played
    omega
  · intro c' onward stuck j
    have reached' : Reachable maxSize c' := reached.trans (reaches_of_guarded onward)
    have started' := (logged_preserved _).reaches started (reaches_of_guarded onward)
    have blocked := blocked_of_stuck stuck
    have waiting := all_waiting (reachable_balanced reached') blocked
    obtain ⟨slot, token⟩ := tokens_after_shutdown reached' started' waiting
    exact atRest_of_tokens (waiting j) (blocked j) slot token

/-- A producer waits for a slot of a queue without any, and another thread starts
`shutdown`. -/
theorem shutdown_releases_waiters_one : ∃ c : Config (Fin 2) ℕ, Reachable 0 c ∧
    exec 0 c.q (c.pcs 0) = none ∧ (c.pcs 0).atRest = false ∧
    ∀ c', Reaches continuing c c' → Stuck continuing c' → (c'.pcs 0).atRest = true := by
  let schedule : List (Label (Fin 2) ℕ) := [.call 0 (.push 7), .go 0, .go 0, .call 1 .shutdown]
  refine ⟨_, ⟨schedule, rfl⟩, rfl, rfl, fun c' onward stuck => ?_⟩
  exact (shutdown_releases_waiters 0 _ ⟨schedule, rfl⟩ 1
    (List.mem_append_right _ (List.mem_singleton.mpr rfl))).2 c' onward stuck 0

end Shutdown

end ConcurrencyBench.SemaphoreQueue
