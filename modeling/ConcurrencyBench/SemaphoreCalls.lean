import ConcurrencyBench.SemaphoreOrder
import ConcurrencyBench.SemaphoreProgress

/-!
# What the calls of the semaphore queue contribute

A call makes statements of its own kind only, and only the closing kinds write
the flags. The insertions of a thread are the pushes it has been told were
accepted, followed by the one not yet acknowledged; its removals are the items
handed out to it, followed by the one not yet delivered. A budget that charges
for every statement, and for the pop each queued item still allows, goes down
with every statement.
-/

namespace ConcurrencyBench.SemaphoreQueue

open Interleaving

universe u v
variable {ι : Type u} {T : Type v}

/-- The functions of the queue. -/
inductive Kind
  | push | pop | close | shutdown
deriving DecidableEq

/-- The function that is called. -/
def Op.kind : Op T → Kind
  | .push _ => .push
  | .pop => .pop
  | .close => .close
  | .shutdown => .shutdown

/-- The function that has returned. -/
def Result.kind : Result T → Kind
  | .pushed _ _ => .push
  | .popped _ => .pop
  | .closed => .close
  | .shutDown => .shutdown

/-- The kind of the call a thread is in or back from. -/
def Pc.kind : Pc T → Option Kind
  | .idle => none
  | .push _ _ => some .push
  | .pop _ => some .pop
  | .close _ => some .close
  | .shutdown _ => some .shutdown
  | .returned result => some result.kind

/-- The function an event is about. -/
def Event.kind : Event T → Kind
  | .called op => op.kind
  | .enqueued _ => .push
  | .dequeued _ => .pop
  | .returned result => result.kind

/-- The item an event inserts. -/
def Event.inserted : Event T → Option T
  | .enqueued item => some item
  | _ => none

/-- The item an event removes. -/
def Event.removed : Event T → Option T
  | .dequeued item => some item
  | _ => none

/-- The item of a push that returned true. -/
def Event.accepted : Event T → Option T
  | .returned (.pushed item true) => some item
  | _ => none

/-- The item a pop that returned true handed out. -/
def Event.handedOut : Event T → Option T
  | .returned (.popped item) => item
  | _ => none

/-- The item a push has inserted without having returned. -/
def unacknowledged : Pc T → List T
  | .push .unlock item | .push .release item => [item]
  | _ => []

/-- The item a pop has removed without having returned. -/
def undelivered : Pc T → List T
  | .pop (.release item) | .pop (.unlockTaken item) => [item]
  | _ => []

/-- The item of a push that has not inserted it, returned or not. -/
def notInserted : Pc T → List T
  | .push .unlock _ | .push .release _ => []
  | .push _ item | .returned (.pushed item false) => [item]
  | _ => []

/-- A push that will return false, or has. -/
def Pc.rejecting : Pc T → Bool
  | .push .returnSlot _ | .push .lockedReturnSlot _ | .push .unlockRejected _
  | .returned (.pushed _ false) => true
  | _ => false

/-- The statements of one more `pop`, its start included. -/
def popCharge : ℕ := 13

/-- What a position will still charge beyond its own statements: a push whose item
is not yet queued, for the pop that item will allow; a pop that has taken an item,
for the pop its thread may start next. -/
def credit : Pc T → ℕ
  | .push .unlock _ | .push .release _ => 0
  | .push _ _ => popCharge
  | .pop (.release _) | .pop (.unlockTaken _) | .returned (.popped (some _)) => popCharge
  | _ => 0

/-- The contribution of one statement. -/
structure Contribution (q : Queue ι T) (pc : Pc T) (q' : Queue ι T) (pc' : Pc T) : Prop where
  kind : pc'.kind = pc.kind
  events : ∀ event ∈ observe pc pc', pc.kind = some event.kind
  pushes : unacknowledged pc ++ (observe pc pc').filterMap Event.inserted =
    (observe pc pc').filterMap Event.accepted ++ unacknowledged pc'
  pops : undelivered pc ++ (observe pc pc').filterMap Event.removed =
    (observe pc pc').filterMap Event.handedOut ++ undelivered pc'
  items : notInserted pc = (observe pc pc').filterMap Event.inserted ++ notInserted pc'
  closed : pc.kind ≠ some .close → pc.kind ≠ some .shutdown → q'.closed = q.closed
  shutdown : pc.kind ≠ some .shutdown → q'.shutdown = q.shutdown
  accepts : q.closed = false → q.shutdown = false → pc.rejecting = false → pc'.rejecting = false
  budget : (pc.foundEmpty = true → q.closed = true) →
    cost q.maxSize pc' + credit pc' + popCharge * q'.queue.length <
      cost q.maxSize pc + credit pc + popCharge * q.queue.length

section OneMove

variable {i : ι} {q q' : Queue ι T} {pc' : Pc T}

/-- A statement that leaves the flags as they are. What it has left to do is less than
before, and its item is neither lost nor charged twice. -/
theorem flagless_contribution {pc : Pc T}
    (lower : (pc.foundEmpty = true → q.closed = true) → cost q.maxSize pc' < cost q.maxSize pc)
    (flags : q'.closed = q.closed ∧ q'.shutdown = q.shutdown) (kind : pc'.kind = pc.kind)
    (events : ∀ event ∈ observe pc pc', pc.kind = some event.kind)
    (pushes : unacknowledged pc ++ (observe pc pc').filterMap Event.inserted =
      (observe pc pc').filterMap Event.accepted ++ unacknowledged pc')
    (pops : undelivered pc ++ (observe pc pc').filterMap Event.removed =
      (observe pc pc').filterMap Event.handedOut ++ undelivered pc')
    (items : notInserted pc = (observe pc pc').filterMap Event.inserted ++ notInserted pc')
    (accepts : q.closed = false → q.shutdown = false → pc.rejecting = false →
      pc'.rejecting = false)
    (weight : credit pc' + popCharge * q'.queue.length ≤ credit pc + popCharge * q.queue.length) :
    Contribution q pc q' pc' where
  kind := kind
  events := events
  pushes := pushes
  pops := pops
  items := items
  closed _ _ := flags.1
  shutdown _ := flags.2
  accepts := accepts
  budget found := by
    have less := lower found
    omega

/-- Every statement of `push` contributes what it says. -/
theorem push_contribution {place : PushAt} {item : T}
    (moved : push i q item place = some (q', pc')) :
    Contribution q (.push place item) q' pc' := by
  have lower := push_cost moved
  cases place with
  | entryShutdown =>
    obtain ⟨rfl, next⟩ := Prod.mk.inj (Option.some.inj moved)
    obtain ⟨set, rfl⟩ | ⟨_, rfl⟩ := ite_eq_iff.mp next
    · refine flagless_contribution (fun _ => lower) ⟨rfl, rfl⟩ rfl (List.forall_mem_singleton.mpr rfl)
        rfl rfl rfl (fun _ clear => ?_) (Nat.add_le_add_right (Nat.zero_le _) _)
      exact absurd set (Bool.eq_false_iff.mp clear)
    · exact flagless_contribution (fun _ => lower) ⟨rfl, rfl⟩ rfl nofun rfl rfl rfl
        (fun _ _ _ => rfl) le_rfl
  | entryClosed =>
    obtain ⟨rfl, next⟩ := Prod.mk.inj (Option.some.inj moved)
    obtain ⟨set, rfl⟩ | ⟨_, rfl⟩ := ite_eq_iff.mp next
    · refine flagless_contribution (fun _ => lower) ⟨rfl, rfl⟩ rfl (List.forall_mem_singleton.mpr rfl)
        rfl rfl rfl (fun clear => ?_) (Nat.add_le_add_right (Nat.zero_le _) _)
      exact absurd set (Bool.eq_false_iff.mp clear)
    · exact flagless_contribution (fun _ => lower) ⟨rfl, rfl⟩ rfl nofun rfl rfl rfl
        (fun _ _ _ => rfl) le_rfl
  | wokenShutdown | lockedShutdown =>
    obtain ⟨rfl, next⟩ := Prod.mk.inj (Option.some.inj moved)
    obtain ⟨set, rfl⟩ | ⟨_, rfl⟩ := ite_eq_iff.mp next
    · refine flagless_contribution (fun _ => lower) ⟨rfl, rfl⟩ rfl nofun rfl rfl rfl
        (fun _ clear => ?_) le_rfl
      exact absurd set (Bool.eq_false_iff.mp clear)
    · exact flagless_contribution (fun _ => lower) ⟨rfl, rfl⟩ rfl nofun rfl rfl rfl
        (fun _ _ _ => rfl) le_rfl
  | wokenClosed | lockedClosed =>
    obtain ⟨rfl, next⟩ := Prod.mk.inj (Option.some.inj moved)
    obtain ⟨set, rfl⟩ | ⟨_, rfl⟩ := ite_eq_iff.mp next
    · refine flagless_contribution (fun _ => lower) ⟨rfl, rfl⟩ rfl nofun rfl rfl rfl
        (fun clear => ?_) le_rfl
      exact absurd set (Bool.eq_false_iff.mp clear)
    · exact flagless_contribution (fun _ => lower) ⟨rfl, rfl⟩ rfl nofun rfl rfl rfl
        (fun _ _ _ => rfl) le_rfl
  | acquire =>
    obtain ⟨_, moved⟩ := Option.ite_none_right_eq_some.mp moved
    obtain ⟨rfl, rfl⟩ := Prod.mk.inj (Option.some.inj moved)
    exact flagless_contribution (fun _ => lower) ⟨rfl, rfl⟩ rfl nofun rfl rfl rfl
      (fun _ _ _ => rfl) le_rfl
  | lock =>
    obtain ⟨_, rfl, rfl⟩ := lock_map_eq_some_iff.mp moved
    exact flagless_contribution (fun _ => lower) ⟨rfl, rfl⟩ rfl nofun rfl rfl rfl
      (fun _ _ _ => rfl) le_rfl
  | returnSlot | unlockRejected =>
    obtain ⟨rfl, rfl⟩ := Prod.mk.inj (Option.some.inj moved)
    exact flagless_contribution (fun _ => lower) ⟨rfl, rfl⟩ rfl (List.forall_mem_singleton.mpr rfl)
      rfl rfl rfl nofun (Nat.add_le_add_right (Nat.zero_le _) _)
  | lockedReturnSlot =>
    obtain ⟨rfl, rfl⟩ := Prod.mk.inj (Option.some.inj moved)
    exact flagless_contribution (fun _ => lower) ⟨rfl, rfl⟩ rfl nofun rfl rfl rfl nofun le_rfl
  | enqueue =>
    obtain ⟨rfl, rfl⟩ := Prod.mk.inj (Option.some.inj moved)
    refine flagless_contribution (fun _ => lower) ⟨rfl, rfl⟩ rfl (List.forall_mem_singleton.mpr rfl)
      rfl rfl rfl (fun _ _ _ => rfl) ?_
    simp only [credit, popCharge, List.length_append, List.length_singleton]
    omega
  | unlock =>
    obtain ⟨rfl, rfl⟩ := Prod.mk.inj (Option.some.inj moved)
    exact flagless_contribution (fun _ => lower) ⟨rfl, rfl⟩ rfl nofun rfl rfl rfl
      (fun _ _ _ => rfl) le_rfl
  | release =>
    obtain ⟨rfl, rfl⟩ := Prod.mk.inj (Option.some.inj moved)
    exact flagless_contribution (fun _ => lower) ⟨rfl, rfl⟩ rfl (List.forall_mem_singleton.mpr rfl)
      rfl rfl rfl (fun _ _ _ => rfl) le_rfl

/-- Every statement of `pop` contributes what it says. -/
theorem pop_contribution {place : PopAt T} (moved : pop i q place = some (q', pc')) :
    Contribution q (.pop place) q' pc' := by
  have lower : ((Pc.pop place).foundEmpty = true → q.closed = true) →
      cost q.maxSize pc' < cost q.maxSize (.pop place) := fun found => pop_cost found moved
  cases place with
  | lock | relock =>
    obtain ⟨_, rfl, rfl⟩ := lock_map_eq_some_iff.mp moved
    exact flagless_contribution lower ⟨rfl, rfl⟩ rfl nofun rfl rfl rfl (fun _ _ _ => rfl) le_rfl
  | empty | lockedShutdown | lockedClosed | wokenShutdown | wokenClosed =>
    obtain ⟨rfl, next⟩ := Prod.mk.inj (Option.some.inj moved)
    obtain ⟨_, rfl⟩ | ⟨_, rfl⟩ := ite_eq_iff.mp next <;>
      exact flagless_contribution lower ⟨rfl, rfl⟩ rfl nofun rfl rfl rfl (fun _ _ _ => rfl) le_rfl
  | unlock | release | unlockEmpty =>
    obtain ⟨rfl, rfl⟩ := Prod.mk.inj (Option.some.inj moved)
    exact flagless_contribution lower ⟨rfl, rfl⟩ rfl nofun rfl rfl rfl (fun _ _ _ => rfl) le_rfl
  | unlockFinished | unlockTaken | returnToken =>
    obtain ⟨rfl, rfl⟩ := Prod.mk.inj (Option.some.inj moved)
    exact flagless_contribution lower ⟨rfl, rfl⟩ rfl (List.forall_mem_singleton.mpr rfl)
      rfl rfl rfl (fun _ _ _ => rfl) le_rfl
  | acquire =>
    obtain ⟨_, moved⟩ := Option.ite_none_right_eq_some.mp moved
    obtain ⟨rfl, rfl⟩ := Prod.mk.inj (Option.some.inj moved)
    exact flagless_contribution lower ⟨rfl, rfl⟩ rfl nofun rfl rfl rfl (fun _ _ _ => rfl) le_rfl
  | front =>
    obtain ⟨_, rfl, rfl⟩ | ⟨item, rest, standing, rfl, rfl⟩ := front_cases moved
    · exact flagless_contribution lower ⟨rfl, rfl⟩ rfl nofun rfl rfl rfl (fun _ _ _ => rfl) le_rfl
    · refine flagless_contribution lower ⟨rfl, rfl⟩ rfl (List.forall_mem_singleton.mpr rfl)
        rfl rfl rfl (fun _ _ _ => rfl) ?_
      simp only [credit, popCharge, standing, List.length_cons]
      omega

/-- Every statement of `close` contributes what it says. -/
theorem close_contribution {place : CloseAt} (moved : close q place = some (q', pc')) :
    Contribution q (.close place) q' pc' := by
  have lower := close_cost moved
  cases place with
  | storeClosed =>
    obtain ⟨rfl, rfl⟩ := Prod.mk.inj (Option.some.inj moved)
    exact {
      kind := rfl
      events := nofun
      pushes := rfl
      pops := rfl
      items := rfl
      closed := fun other => absurd rfl other
      shutdown := fun _ => rfl
      accepts := fun _ _ _ => rfl
      budget := fun _ => Nat.add_lt_add_right lower _ }
  | wakeConsumers k =>
    rcases ite_eq_iff.mp moved with ⟨_, same⟩ | ⟨_, same⟩ <;>
      obtain ⟨rfl, rfl⟩ := Prod.mk.inj (Option.some.inj same)
    · exact flagless_contribution (fun _ => lower) ⟨rfl, rfl⟩ rfl nofun rfl rfl rfl
        (fun _ _ _ => rfl) le_rfl
    · exact flagless_contribution (fun _ => lower) ⟨rfl, rfl⟩ rfl
        (List.forall_mem_singleton.mpr rfl) rfl rfl rfl (fun _ _ _ => rfl) le_rfl

/-- Every statement of `shutdown` contributes what it says. -/
theorem shutdown_contribution {place : ShutdownAt} (moved : shutdown q place = some (q', pc')) :
    Contribution q (.shutdown place) q' pc' := by
  have lower := shutdown_cost moved
  cases place with
  | storeShutdown | storeClosed =>
    obtain ⟨rfl, rfl⟩ := Prod.mk.inj (Option.some.inj moved)
    exact {
      kind := rfl
      events := nofun
      pushes := rfl
      pops := rfl
      items := rfl
      closed := fun _ other => absurd rfl other
      shutdown := fun other => absurd rfl other
      accepts := fun _ _ _ => rfl
      budget := fun _ => Nat.add_lt_add_right lower _ }
  | wakeConsumers k =>
    rcases ite_eq_iff.mp moved with ⟨_, same⟩ | ⟨_, same⟩ <;>
      obtain ⟨rfl, rfl⟩ := Prod.mk.inj (Option.some.inj same) <;>
      exact flagless_contribution (fun _ => lower) ⟨rfl, rfl⟩ rfl nofun rfl rfl rfl
        (fun _ _ _ => rfl) le_rfl
  | wakeProducers k =>
    rcases ite_eq_iff.mp moved with ⟨_, same⟩ | ⟨_, same⟩ <;>
      obtain ⟨rfl, rfl⟩ := Prod.mk.inj (Option.some.inj same)
    · exact flagless_contribution (fun _ => lower) ⟨rfl, rfl⟩ rfl nofun rfl rfl rfl
        (fun _ _ _ => rfl) le_rfl
    · exact flagless_contribution (fun _ => lower) ⟨rfl, rfl⟩ rfl
        (List.forall_mem_singleton.mpr rfl) rfl rfl rfl (fun _ _ _ => rfl) le_rfl

/-- Every statement contributes what it says. -/
theorem exec_contribution {pc : Pc T} (moved : exec i q pc = some (q', pc')) :
    Contribution q pc q' pc' := by
  cases pc with
  | idle => simp [exec] at moved
  | push place item => exact push_contribution moved
  | pop place => exact pop_contribution moved
  | close place => exact close_contribution moved
  | shutdown place => exact shutdown_contribution moved
  | returned result => simp [exec] at moved

/-- A thread that makes a statement is not between calls. -/
theorem not_atRest_of_exec {pc : Pc T} (moved : exec i q pc = some (q', pc')) :
    pc.atRest = false := by
  cases pc with
  | idle | returned => simp [exec] at moved
  | _ => rfl

/-- A statement after which its thread is between calls returns from its call. -/
theorem observe_of_atRest {pc : Pc T} (moved : exec i q pc = some (q', pc'))
    (back : pc'.atRest = true) :
    ∃ result, pc' = .returned result ∧ observe pc pc' = [.returned result] := by
  have busy := not_atRest_of_exec moved
  have kind := (exec_contribution moved).kind
  cases pc' with
  | idle => cases pc <;> simp [Pc.kind, Pc.atRest] at kind busy
  | returned result =>
    refine ⟨result, rfl, ?_⟩
    unfold observe
    split
    next item => simp [exec, push] at moved
    all_goals simp_all
  | _ => simp [Pc.atRest] at back

/-- Any other statement logs no result. -/
theorem observe_of_not_atRest {pc : Pc T} (inside : pc'.atRest = false) (result : Result T) :
    .returned result ∉ observe pc pc' := by
  intro member
  unfold observe at member
  split at member <;> simp_all [Pc.atRest]

/-- A thread between calls owes nothing, and the start of a call is no event of
an item. -/
theorem move_pending {pc : Pc T} {events : List (Event T)} (moved : Move i q pc q' pc' events) :
    unacknowledged pc ++ events.filterMap Event.inserted =
        events.filterMap Event.accepted ++ unacknowledged pc' ∧
      undelivered pc ++ events.filterMap Event.removed =
        events.filterMap Event.handedOut ++ undelivered pc' := by
  cases moved with
  | call op rest =>
    cases op <;> cases pc <;> simp only [Pc.atRest, Bool.false_eq_true] at rest <;>
      exact ⟨rfl, rfl⟩
  | exec _ _ moved => exact ⟨(exec_contribution moved).pushes, (exec_contribution moved).pops⟩

end OneMove

section Run

variable [DecidableEq ι] {maxSize : ℕ} {c : Config ι T}

/-- The insertions of a thread are its accepted pushes and the one not yet acknowledged. -/
theorem reachable_inserted (reached : Reachable maxSize c) (i : ι) :
    pick Event.inserted i c.log = pick Event.accepted i c.log ++ unacknowledged (c.pcs i) := by
  have kept : Preserved step fun c : Config ι T => ∀ i,
      pick Event.inserted i c.log = pick Event.accepted i c.log ++ unacknowledged (c.pcs i) := by
    intro c label c' settled taken
    obtain ⟨i, q, pc, events, moved, rfl⟩ := step_move taken
    exact settled_update settled (move_pending moved).1
  exact kept.reaches (fun _ => rfl) reached i

/-- The removals of a thread are the items handed out to it and the one not yet delivered. -/
theorem reachable_removed (reached : Reachable maxSize c) (i : ι) :
    pick Event.removed i c.log = pick Event.handedOut i c.log ++ undelivered (c.pcs i) := by
  have kept : Preserved step fun c : Config ι T => ∀ i,
      pick Event.removed i c.log = pick Event.handedOut i c.log ++ undelivered (c.pcs i) := by
    intro c label c' settled taken
    obtain ⟨i, q, pc, events, moved, rfl⟩ := step_move taken
    exact settled_update settled (move_pending moved).2
  exact kept.reaches (fun _ => rfl) reached i

end Run

/-- The items inserted, over all threads, are those the channel was sent. -/
theorem sent_history (log : List (ι × Event T)) :
    Channel.sent (history log) = readAll Event.inserted log := by
  simp only [Channel.sent, history, readAll, List.filterMap_filterMap]
  congr 1
  funext entry
  rcases entry with ⟨i, event⟩
  cases event <;> rfl

/-- The items removed, over all threads, are those the channel handed on. -/
theorem received_history (log : List (ι × Event T)) :
    Channel.received (history log) = readAll Event.removed log := by
  simp only [Channel.received, history, readAll, List.filterMap_filterMap]
  congr 1
  funext entry
  rcases entry with ⟨i, event⟩
  cases event <;> rfl

end ConcurrencyBench.SemaphoreQueue
