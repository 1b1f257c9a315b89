import ConcurrencyBench.SemaphoreQueue

/-!
# Token accounts of the semaphore queue

A slot token is at every moment in `empty_slots_`, in the hands of a thread, or
spent on a queued item; a filled token is in `filled_slots_`, in the hands of a
consumer, or owed by a producer that has inserted its item and not yet announced
it. The wake loops add tokens one at a time. Counting what a thread holds by its
position makes both accounts exact equations that every step of every thread
preserves.

While `closed_` is clear no wake token exists, so the slot account alone bounds
the queue. Once it is set no position newly reaches the insertion. These two
facts are the capacity bound through `close` and `shutdown`.
-/

namespace ConcurrencyBench.SemaphoreQueue

open Interleaving

universe u v
variable {ι : Type u} {T : Type v}

/-- Slot tokens a thread holds: a producer between `empty_slots_.acquire()` and
its insertion or return of the slot, and a consumer that has removed an item and
not yet released its slot. -/
def slotsInHand : Pc T → ℕ
  | .push place _ => match place with
    | .wokenShutdown | .wokenClosed | .returnSlot | .lock | .lockedShutdown | .lockedClosed
    | .lockedReturnSlot | .enqueue => 1
    | _ => 0
  | .pop (.release _) => 1
  | _ => 0

/-- Filled tokens a thread holds or owes: a consumer between
`filled_slots_.acquire()` and its removal or return of the token, and a producer
that has inserted its item and not yet released `filled_slots_`. -/
def tokensInHand : Pc T → ℕ
  | .push place _ => match place with
    | .unlock | .release => 1
    | _ => 0
  | .pop place => match place with
    | .relock | .front | .unlockEmpty | .wokenShutdown | .wokenClosed | .returnToken => 1
    | _ => 0
  | _ => 0

/-- Tokens the wake loops of a call in progress have added to `filled_slots_`. -/
def consumerWakes (maxSize : ℕ) : Pc T → ℕ
  | .close (.wakeConsumers i) => min i (maxSize + 1)
  | .shutdown (.wakeConsumers i) => min i (maxSize + 1)
  | .shutdown (.wakeProducers _) => maxSize + 1
  | _ => 0

/-- Tokens the wake loop of a call in progress has added to `empty_slots_`. -/
def producerWakes (maxSize : ℕ) : Pc T → ℕ
  | .shutdown (.wakeProducers i) => min i (maxSize + 1)
  | _ => 0

/-- The position is past the store to `closed_` of a `close` or `shutdown`. -/
def Pc.closing : Pc T → Bool
  | .close (.wakeConsumers _) | .shutdown (.wakeConsumers _) | .shutdown (.wakeProducers _) => true
  | _ => false

/-- A consumer that has acquired a filled token and then found the queue empty. -/
def Pc.foundEmpty : Pc T → Bool
  | .pop .unlockEmpty | .pop .wokenShutdown | .pop .wokenClosed | .pop .returnToken => true
  | _ => false

/-- A producer that has passed its last flag check and is about to insert. -/
def atEnqueue : Pc T → ℕ
  | .push .enqueue _ => 1
  | _ => 0

/-- The event is the return of a `close`. -/
def Event.endsClose : Event T → Bool
  | .returned .closed => true
  | _ => false

/-- The event is the return of a `shutdown`. -/
def Event.endsShutdown : Event T → Bool
  | .returned .shutDown => true
  | _ => false

/-- Calls of `close` that have returned. -/
def closes (log : List (ι × Event T)) : ℕ := log.countP fun entry => entry.2.endsClose

/-- Calls of `shutdown` that have returned. -/
def shutdowns (log : List (ι × Event T)) : ℕ := log.countP fun entry => entry.2.endsShutdown

/-- The returns of `close`, with some more events. -/
theorem closes_append (log : List (ι × Event T)) (i : ι) (events : List (Event T)) :
    closes (log ++ events.map (i, ·)) = closes log + events.countP Event.endsClose := by
  simp [closes, List.countP_map, Function.comp_def]

/-- The returns of `shutdown`, with some more events. -/
theorem shutdowns_append (log : List (ι × Event T)) (i : ι) (events : List (Event T)) :
    shutdowns (log ++ events.map (i, ·)) = shutdowns log + events.countP Event.endsShutdown := by
  simp [shutdowns, List.countP_map, Function.comp_def]

/-- Inside a block under `mtx_`. -/
def Pc.locked : Pc T → Bool
  | .push place _ => match place with
    | .lockedShutdown | .lockedClosed | .lockedReturnSlot | .unlockRejected | .enqueue
    | .unlock => true
    | _ => false
  | .pop place => match place with
    | .empty | .lockedShutdown | .lockedClosed | .unlockFinished | .unlock | .front | .release _
    | .unlockTaken _ | .unlockEmpty => true
    | _ => false
  | _ => false

/-- What one move does to the capacity, the mutex, the two token accounts, the
flags and the room in the queue. Each acquisition moves a token into the
thread's hands, each release, insertion or removal moves one out, and a wake
loop's release is matched by its counter. The fall-through to the loop head of
`pop` would drop a token, so the filled account asks that it is not taken. -/
structure Accounts (i : ι) (q : Queue ι T) (pc : Pc T) (q' : Queue ι T) (pc' : Pc T)
    (events : List (Event T)) : Prop where
  maxSize : q'.maxSize = q.maxSize
  lock : LockMove Pc.locked i q.mtx pc q'.mtx pc'
  slots : q'.emptySlots + slotsInHand pc' + q'.queue.length + producerWakes q.maxSize pc =
    q.emptySlots + slotsInHand pc + q.queue.length + producerWakes q.maxSize pc' +
      (q.maxSize + 1) * events.countP Event.endsShutdown
  tokens : (pc.foundEmpty = true → q.closed = true) →
    q'.filledSlots + tokensInHand pc' + q.queue.length + consumerWakes q.maxSize pc =
      q.filledSlots + tokensInHand pc + q'.queue.length + consumerWakes q.maxSize pc' +
        (q.maxSize + 1) * (events.countP Event.endsClose + events.countP Event.endsShutdown)
  closed : q.closed = true → q'.closed = true
  shutdown : q.shutdown = true → q'.shutdown = true
  closing : pc'.closing = true → pc.closing = true ∨ q'.closed = true
  ending : 0 < events.countP Event.endsClose + events.countP Event.endsShutdown →
    pc.closing = true
  found : pc'.foundEmpty = true →
    pc.foundEmpty = true ∨ (pc = .pop .front ∧ q.queue = [] ∧ q' = q)
  room : q'.closed = true →
    q'.queue.length + atEnqueue pc' ≤ q.queue.length + atEnqueue pc

section OneMove

variable {i : ι} {q q' : Queue ι T} {pc' : Pc T}

/-- Outside the wake loops nobody has been woken. -/
theorem wakes_of_awake (maxSize : ℕ) {pc : Pc T} (awake : pc.closing = false) :
    consumerWakes maxSize pc = 0 ∧ producerWakes maxSize pc = 0 := by
  cases pc with
  | close place =>
    cases place with
    | storeClosed => exact ⟨rfl, rfl⟩
    | wakeConsumers k => exact nomatch awake
  | shutdown place =>
    cases place with
    | storeShutdown | storeClosed => exact ⟨rfl, rfl⟩
    | wakeConsumers k | wakeProducers k => exact nomatch awake
  | _ => exact ⟨rfl, rfl⟩

/-- A statement outside the wake loops accounts for its tokens, if what it adds to one place
it takes from another. -/
theorem trade_accounts {pc : Pc T} {events : List (Event T)}
    (frame : q'.maxSize = q.maxSize ∧ q'.closed = q.closed ∧ q'.shutdown = q.shutdown)
    (lock : LockMove Pc.locked i q.mtx pc q'.mtx pc')
    (awake : pc.closing = false ∧ pc'.closing = false ∧ events.countP Event.endsClose = 0 ∧
      events.countP Event.endsShutdown = 0)
    (slots : q'.emptySlots + slotsInHand pc' + q'.queue.length =
      q.emptySlots + slotsInHand pc + q.queue.length)
    (tokens : (pc.foundEmpty = true → q.closed = true) →
      q'.filledSlots + tokensInHand pc' + q.queue.length =
        q.filledSlots + tokensInHand pc + q'.queue.length)
    (found : pc'.foundEmpty = true →
      pc.foundEmpty = true ∨ (pc = .pop .front ∧ q.queue = [] ∧ q' = q))
    (room : q.closed = true →
      q'.queue.length + atEnqueue pc' ≤ q.queue.length + atEnqueue pc) :
    Accounts i q pc q' pc' events := by
  obtain ⟨sameSize, sameClosed, sameShutdown⟩ := frame
  obtain ⟨before, after, noClose, noShutdown⟩ := awake
  obtain ⟨consumersBefore, producersBefore⟩ := wakes_of_awake q.maxSize before
  obtain ⟨consumersAfter, producersAfter⟩ := wakes_of_awake q.maxSize after
  constructor
  case maxSize => exact sameSize
  case lock => exact lock
  case slots =>
    rw [producersBefore, producersAfter, noShutdown, slots]
    rfl
  case tokens =>
    intro closed
    rw [consumersBefore, consumersAfter, noClose, noShutdown, tokens closed]
    rfl
  case closed => exact sameClosed.trans
  case shutdown => exact sameShutdown.trans
  case closing =>
    intro closing
    exact absurd closing (by rw [after]; decide)
  case ending =>
    intro ended
    rw [noClose, noShutdown] at ended
    exact absurd ended (by decide)
  case found => exact found
  case room => exact fun closed => room (sameClosed.symm.trans closed)

/-- A statement that only reads, or takes or gives back the mutex, leaves the thread with what
it had in hand. -/
theorem still_accounts {pc : Pc T} {events : List (Event T)} {mtx : Option ι}
    (lock : LockMove Pc.locked i q.mtx pc mtx pc')
    (awake : pc.closing = false ∧ pc'.closing = false ∧ events.countP Event.endsClose = 0 ∧
      events.countP Event.endsShutdown = 0)
    (same : slotsInHand pc' = slotsInHand pc ∧ tokensInHand pc' = tokensInHand pc ∧
      pc'.foundEmpty = pc.foundEmpty ∧ atEnqueue pc' = atEnqueue pc) :
    Accounts i q pc { q with mtx } pc' events := by
  obtain ⟨slots, tokens, found, enqueuing⟩ := same
  refine trade_accounts ⟨rfl, rfl, rfl⟩ lock awake ?_ ?_ ?_ ?_
  · rw [slots]
  · intro _
    rw [tokens]
  · exact fun empty => .inl (found ▸ empty)
  · intro _
    rw [enqueuing]

/-- Every statement of `push` accounts for its tokens. -/
theorem push_accounts {place : PushAt} {item : T} (moved : push i q item place = some (q', pc')) :
    Accounts i q (.push place item) q' pc' (observe (.push place item) pc') := by
  cases place with
  | entryShutdown | entryClosed | wokenShutdown | wokenClosed | lockedShutdown =>
    obtain ⟨rfl, rfl⟩ := Prod.mk.inj (Option.some.inj moved)
    split <;> exact still_accounts (.kept _ _ _ rfl) ⟨rfl, rfl, rfl, rfl⟩ ⟨rfl, rfl, rfl, rfl⟩
  | acquire =>
    obtain ⟨available, same⟩ := Option.ite_none_right_eq_some.mp moved
    obtain ⟨rfl, rfl⟩ := Prod.mk.inj (Option.some.inj same)
    refine trade_accounts ⟨rfl, rfl, rfl⟩ (.kept _ _ _ rfl) ⟨rfl, rfl, rfl, rfl⟩ ?_
      (fun _ => rfl) nofun (fun _ => le_rfl)
    simp only [slotsInHand]
    omega
  | returnSlot | lockedReturnSlot =>
    obtain ⟨rfl, rfl⟩ := Prod.mk.inj (Option.some.inj moved)
    exact trade_accounts ⟨rfl, rfl, rfl⟩ (.kept _ _ _ rfl) ⟨rfl, rfl, rfl, rfl⟩ rfl
      (fun _ => rfl) nofun (fun _ => le_rfl)
  | lock =>
    obtain ⟨free, rfl, rfl⟩ := lock_map_eq_some_iff.mp moved
    refine still_accounts ?_ ⟨rfl, rfl, rfl, rfl⟩ ⟨rfl, rfl, rfl, rfl⟩
    rw [free]
    exact .acquired _ _ rfl
  | lockedClosed =>
    obtain ⟨rfl, rfl⟩ := Prod.mk.inj (Option.some.inj moved)
    split
    · exact still_accounts (.kept _ _ _ rfl) ⟨rfl, rfl, rfl, rfl⟩ ⟨rfl, rfl, rfl, rfl⟩
    · -- with the flag set this branch is not taken, and so makes no insertion then
      next unset =>
        exact trade_accounts ⟨rfl, rfl, rfl⟩ (.kept _ _ _ rfl) ⟨rfl, rfl, rfl, rfl⟩ rfl
          (fun _ => rfl) nofun (fun closed => absurd closed unset)
  | unlockRejected | unlock =>
    obtain ⟨rfl, rfl⟩ := Prod.mk.inj (Option.some.inj moved)
    exact still_accounts (.released _ _ _ rfl rfl) ⟨rfl, rfl, rfl, rfl⟩ ⟨rfl, rfl, rfl, rfl⟩
  | enqueue =>
    obtain ⟨rfl, rfl⟩ := Prod.mk.inj (Option.some.inj moved)
    have longer : (q.queue ++ [item]).length = q.queue.length + 1 := List.length_append
    refine trade_accounts ⟨rfl, rfl, rfl⟩ (.kept _ _ _ rfl) ⟨rfl, rfl, rfl, rfl⟩ ?_ ?_ nofun ?_
    · simp only [slotsInHand, longer]
      omega
    · intro _
      simp only [tokensInHand, longer]
      omega
    · intro _
      simp only [atEnqueue, longer]
      omega
  | release =>
    obtain ⟨rfl, rfl⟩ := Prod.mk.inj (Option.some.inj moved)
    exact trade_accounts ⟨rfl, rfl, rfl⟩ (.kept _ _ _ rfl) ⟨rfl, rfl, rfl, rfl⟩ rfl
      (fun _ => rfl) nofun (fun _ => le_rfl)

/-- Every statement of `pop` accounts for its tokens. -/
theorem pop_accounts {place : PopAt T} (moved : pop i q place = some (q', pc')) :
    Accounts i q (.pop place) q' pc' (observe (.pop place) pc') := by
  cases place with
  | empty | lockedShutdown | lockedClosed =>
    obtain ⟨rfl, rfl⟩ := Prod.mk.inj (Option.some.inj moved)
    split <;> exact still_accounts (.kept _ _ _ rfl) ⟨rfl, rfl, rfl, rfl⟩ ⟨rfl, rfl, rfl, rfl⟩
  | lock | relock =>
    obtain ⟨free, rfl, rfl⟩ := lock_map_eq_some_iff.mp moved
    refine still_accounts ?_ ⟨rfl, rfl, rfl, rfl⟩ ⟨rfl, rfl, rfl, rfl⟩
    rw [free]
    exact .acquired _ _ rfl
  | unlockFinished | unlock | unlockTaken item | unlockEmpty =>
    obtain ⟨rfl, rfl⟩ := Prod.mk.inj (Option.some.inj moved)
    exact still_accounts (.released _ _ _ rfl rfl) ⟨rfl, rfl, rfl, rfl⟩ ⟨rfl, rfl, rfl, rfl⟩
  | acquire =>
    obtain ⟨available, same⟩ := Option.ite_none_right_eq_some.mp moved
    obtain ⟨rfl, rfl⟩ := Prod.mk.inj (Option.some.inj same)
    refine trade_accounts ⟨rfl, rfl, rfl⟩ (.kept _ _ _ rfl) ⟨rfl, rfl, rfl, rfl⟩ rfl
      (fun _ => ?_) nofun (fun _ => le_rfl)
    simp only [tokensInHand]
    omega
  | front =>
    obtain ⟨nothing, rfl, rfl⟩ | ⟨item, rest, queue, rfl, rfl⟩ := front_cases moved
    · exact trade_accounts ⟨rfl, rfl, rfl⟩ (.kept _ _ _ rfl) ⟨rfl, rfl, rfl, rfl⟩ rfl
        (fun _ => rfl) (fun _ => .inr ⟨rfl, nothing, rfl⟩) (fun _ => le_rfl)
    · have longer : q.queue.length = rest.length + 1 := by rw [queue, List.length_cons]
      refine trade_accounts ⟨rfl, rfl, rfl⟩ (.kept _ _ _ rfl) ⟨rfl, rfl, rfl, rfl⟩ ?_ ?_ nofun ?_
      · simp only [slotsInHand, longer]
        omega
      · intro _
        simp only [tokensInHand, longer]
        omega
      · intro _
        simp only [atEnqueue, longer]
        omega
  | release item =>
    obtain ⟨rfl, rfl⟩ := Prod.mk.inj (Option.some.inj moved)
    exact trade_accounts ⟨rfl, rfl, rfl⟩ (.kept _ _ _ rfl) ⟨rfl, rfl, rfl, rfl⟩ rfl
      (fun _ => rfl) nofun (fun _ => le_rfl)
  | wokenShutdown =>
    obtain ⟨rfl, rfl⟩ := Prod.mk.inj (Option.some.inj moved)
    split <;> exact still_accounts (.kept _ _ _ rfl) ⟨rfl, rfl, rfl, rfl⟩ ⟨rfl, rfl, rfl, rfl⟩
  | wokenClosed =>
    obtain ⟨rfl, rfl⟩ := Prod.mk.inj (Option.some.inj moved)
    split
    · exact still_accounts (.kept _ _ _ rfl) ⟨rfl, rfl, rfl, rfl⟩ ⟨rfl, rfl, rfl, rfl⟩
    · -- the token would be dropped, but the queue was found empty and so is closed
      next unset =>
        exact trade_accounts ⟨rfl, rfl, rfl⟩ (.kept _ _ _ rfl) ⟨rfl, rfl, rfl, rfl⟩ rfl
          (fun closed => absurd (closed rfl) unset) nofun (fun _ => le_rfl)
  | returnToken =>
    obtain ⟨rfl, rfl⟩ := Prod.mk.inj (Option.some.inj moved)
    exact trade_accounts ⟨rfl, rfl, rfl⟩ (.kept _ _ _ rfl) ⟨rfl, rfl, rfl, rfl⟩ rfl
      (fun _ => rfl) nofun (fun _ => le_rfl)

/-- A statement of a call that holds nothing accounts for its tokens, if what it adds to a
semaphore its loop has counted. -/
theorem wake_accounts {pc : Pc T} {events : List (Event T)}
    (frame : q'.maxSize = q.maxSize ∧ q'.queue = q.queue ∧ q'.mtx = q.mtx)
    (bare : pc'.locked = pc.locked ∧ slotsInHand pc' = slotsInHand pc ∧
      tokensInHand pc' = tokensInHand pc ∧ atEnqueue pc' = atEnqueue pc ∧ pc'.foundEmpty = false)
    (flags : (q.closed = true → q'.closed = true) ∧ (q.shutdown = true → q'.shutdown = true))
    (closing : pc'.closing = true → pc.closing = true ∨ q'.closed = true)
    (ending : 0 < events.countP Event.endsClose + events.countP Event.endsShutdown →
      pc.closing = true)
    (slots : q'.emptySlots + producerWakes q.maxSize pc =
      q.emptySlots + producerWakes q.maxSize pc' +
        (q.maxSize + 1) * events.countP Event.endsShutdown)
    (tokens : q'.filledSlots + consumerWakes q.maxSize pc =
      q.filledSlots + consumerWakes q.maxSize pc' +
        (q.maxSize + 1) * (events.countP Event.endsClose + events.countP Event.endsShutdown)) :
    Accounts i q pc q' pc' events := by
  obtain ⟨sameSize, sameQueue, sameMtx⟩ := frame
  obtain ⟨sameSide, sameSlots, sameTokens, sameEnqueue, full⟩ := bare
  constructor
  case maxSize => exact sameSize
  case lock => exact sameMtx ▸ .kept _ _ _ sameSide
  case slots =>
    rw [sameQueue, sameSlots]
    omega
  case tokens =>
    intro _
    rw [sameQueue, sameTokens]
    omega
  case closed => exact flags.1
  case shutdown => exact flags.2
  case closing => exact closing
  case ending => exact ending
  case found =>
    intro found
    rw [full] at found
    exact absurd found (by decide)
  case room =>
    intro _
    rw [sameQueue, sameEnqueue]

/-- A wake loop that goes on has made one release more. -/
theorem min_succ_of_lt {k limit : ℕ} (before : k < limit) :
    min (k + 1) limit = min k limit + 1 := by
  rw [min_eq_left before.le, min_eq_left before]

/-- Every statement of `close` accounts for its tokens. -/
theorem close_accounts {place : CloseAt} (moved : close q place = some (q', pc')) :
    Accounts i q (.close place) q' pc' (observe (.close place) pc') := by
  cases place with
  | storeClosed =>
    obtain ⟨rfl, rfl⟩ := Prod.mk.inj (Option.some.inj moved)
    refine wake_accounts ⟨rfl, rfl, rfl⟩ ⟨rfl, rfl, rfl, rfl, rfl⟩ ⟨fun _ => rfl, id⟩
      (fun _ => .inr rfl) nofun rfl ?_
    simp only [consumerWakes, Nat.zero_min]
    rfl
  | wakeConsumers k =>
    rw [close] at moved
    split at moved
    · next before =>
      obtain ⟨rfl, rfl⟩ := Prod.mk.inj (Option.some.inj moved)
      refine wake_accounts ⟨rfl, rfl, rfl⟩ ⟨rfl, rfl, rfl, rfl, rfl⟩ ⟨id, id⟩
        (fun _ => .inl rfl) nofun rfl ?_
      simp only [consumerWakes, min_succ_of_lt before, observe, List.countP_nil]
      omega
    · next after =>
      obtain ⟨rfl, rfl⟩ := Prod.mk.inj (Option.some.inj moved)
      have all : min k (q.maxSize + 1) = q.maxSize + 1 := min_eq_right (not_lt.mp after)
      refine wake_accounts ⟨rfl, rfl, rfl⟩ ⟨rfl, rfl, rfl, rfl, rfl⟩ ⟨id, id⟩
        nofun (fun _ => rfl) rfl ?_
      change q.filledSlots + min k (q.maxSize + 1) = q.filledSlots + 0 + (q.maxSize + 1) * 1
      omega

/-- Every statement of `shutdown` accounts for its tokens. -/
theorem shutdown_accounts {place : ShutdownAt} (moved : shutdown q place = some (q', pc')) :
    Accounts i q (.shutdown place) q' pc' (observe (.shutdown place) pc') := by
  cases place with
  | storeShutdown =>
    obtain ⟨rfl, rfl⟩ := Prod.mk.inj (Option.some.inj moved)
    exact wake_accounts ⟨rfl, rfl, rfl⟩ ⟨rfl, rfl, rfl, rfl, rfl⟩ ⟨id, fun _ => rfl⟩
      nofun nofun rfl rfl
  | storeClosed =>
    obtain ⟨rfl, rfl⟩ := Prod.mk.inj (Option.some.inj moved)
    refine wake_accounts ⟨rfl, rfl, rfl⟩ ⟨rfl, rfl, rfl, rfl, rfl⟩ ⟨fun _ => rfl, id⟩
      (fun _ => .inr rfl) nofun rfl ?_
    simp only [consumerWakes, Nat.zero_min]
    rfl
  | wakeConsumers k =>
    rw [shutdown] at moved
    split at moved
    · next before =>
      obtain ⟨rfl, rfl⟩ := Prod.mk.inj (Option.some.inj moved)
      refine wake_accounts ⟨rfl, rfl, rfl⟩ ⟨rfl, rfl, rfl, rfl, rfl⟩ ⟨id, id⟩
        (fun _ => .inl rfl) nofun rfl ?_
      simp only [consumerWakes, min_succ_of_lt before, observe, List.countP_nil]
      omega
    · next after =>
      obtain ⟨rfl, rfl⟩ := Prod.mk.inj (Option.some.inj moved)
      have all : min k (q.maxSize + 1) = q.maxSize + 1 := min_eq_right (not_lt.mp after)
      refine wake_accounts ⟨rfl, rfl, rfl⟩ ⟨rfl, rfl, rfl, rfl, rfl⟩ ⟨id, id⟩
        (fun _ => .inl rfl) nofun ?_ ?_
      · simp only [producerWakes, Nat.zero_min]
        rfl
      · simp only [consumerWakes, all]
        rfl
  | wakeProducers k =>
    rw [shutdown] at moved
    split at moved
    · next before =>
      obtain ⟨rfl, rfl⟩ := Prod.mk.inj (Option.some.inj moved)
      refine wake_accounts ⟨rfl, rfl, rfl⟩ ⟨rfl, rfl, rfl, rfl, rfl⟩ ⟨id, id⟩
        (fun _ => .inl rfl) nofun ?_ rfl
      simp only [producerWakes, min_succ_of_lt before, observe, List.countP_nil]
      omega
    · next after =>
      obtain ⟨rfl, rfl⟩ := Prod.mk.inj (Option.some.inj moved)
      have all : min k (q.maxSize + 1) = q.maxSize + 1 := min_eq_right (not_lt.mp after)
      refine wake_accounts ⟨rfl, rfl, rfl⟩ ⟨rfl, rfl, rfl, rfl, rfl⟩ ⟨id, id⟩
        nofun (fun _ => rfl) ?_ ?_
      · change q.emptySlots + min k (q.maxSize + 1) = q.emptySlots + 0 + (q.maxSize + 1) * 1
        omega
      · -- the other loop's tokens are those that `shutdown` leaves behind
        change q.filledSlots + (q.maxSize + 1) = q.filledSlots + 0 + (q.maxSize + 1) * 1
        omega

/-- Starting a call holds nothing, takes nothing and wakes nobody. -/
theorem call_accounts {pc : Pc T} (op : Op T) (rest : pc.atRest = true) :
    Accounts i q pc q op.entry [.called op] := by
  have idle : pc.locked = false ∧ pc.closing = false ∧ slotsInHand pc = 0 ∧
      tokensInHand pc = 0 ∧ pc.foundEmpty = false ∧ atEnqueue pc = 0 := by
    cases pc with
    | idle | returned result => exact ⟨rfl, rfl, rfl, rfl, rfl, rfl⟩
    | _ => exact nomatch rest
  have entering : op.entry.locked = false ∧ op.entry.closing = false ∧ slotsInHand op.entry = 0 ∧
      tokensInHand op.entry = 0 ∧ op.entry.foundEmpty = false ∧ atEnqueue op.entry = 0 := by
    cases op <;> exact ⟨rfl, rfl, rfl, rfl, rfl, rfl⟩
  obtain ⟨outside, awake, noSlots, noTokens, notFound, notEnqueuing⟩ := idle
  obtain ⟨outside', awake', noSlots', noTokens', notFound', notEnqueuing'⟩ := entering
  exact still_accounts (.kept _ _ _ (outside'.trans outside.symm)) ⟨awake, awake', rfl, rfl⟩
    ⟨noSlots'.trans noSlots.symm, noTokens'.trans noTokens.symm, notFound'.trans notFound.symm,
      notEnqueuing'.trans notEnqueuing.symm⟩

/-- Every move of a thread accounts for its tokens. -/
theorem move_accounts {pc : Pc T} {events : List (Event T)} (moved : Move i q pc q' pc' events) :
    Accounts i q pc q' pc' events := by
  cases moved with
  | call op rest => exact call_accounts op rest
  | exec _ _ moved =>
    cases pc with
    | idle => simp [exec] at moved
    | push place item => exact push_accounts moved
    | pop place => exact pop_accounts moved
    | close place => exact close_accounts moved
    | shutdown place => exact shutdown_accounts moved
    | returned result => simp [exec] at moved

end OneMove

/-- The accounts of a state reached from a fresh queue of the given capacity. -/
structure Balanced [Fintype ι] (maxSize : ℕ) (c : Config ι T) : Prop where
  capacity : c.q.maxSize = maxSize
  mutex : Owned Pc.locked c.q.mtx c.pcs
  slots : c.q.emptySlots + tally (fun _ => slotsInHand) c.pcs + c.q.queue.length =
    maxSize + tally (fun _ => producerWakes maxSize) c.pcs + (maxSize + 1) * shutdowns c.log
  tokens : c.q.filledSlots + tally (fun _ => tokensInHand) c.pcs =
    c.q.queue.length + tally (fun _ => consumerWakes maxSize) c.pcs +
      (maxSize + 1) * (closes c.log + shutdowns c.log)
  closing : ∀ i, (c.pcs i).closing = true → c.q.closed = true
  ended : 0 < closes c.log + shutdowns c.log → c.q.closed = true
  found : ∀ i, (c.pcs i).foundEmpty = true → c.q.closed = true

section Run

variable [Fintype ι]

/-- The new queue is balanced. -/
theorem balanced_init (maxSize : ℕ) : Balanced maxSize (Config.init maxSize : Config ι T) where
  capacity := rfl
  mutex := by simp [Owned, Config.init, Queue.make, Pc.locked]
  slots := by simp [Config.init, Queue.make, tally, slotsInHand, producerWakes, shutdowns]
  tokens := by
    simp [Config.init, Queue.make, tally, tokensInHand, consumerWakes, closes, shutdowns]
  closing := by simp [Config.init, Pc.closing]
  ended := by simp [Config.init, closes, shutdowns]
  found := by simp [Config.init, Pc.foundEmpty]

/-- A call that has not stored `closed_` has woken nobody. -/
theorem wakes_of_not_closing (maxSize : ℕ) (pc : Pc T) (before : pc.closing = false) :
    consumerWakes maxSize pc = 0 ∧ producerWakes maxSize pc = 0 := by
  cases pc with
  | close place => cases place <;> simp_all [Pc.closing, consumerWakes, producerWakes]
  | shutdown place => cases place <;> simp_all [Pc.closing, consumerWakes, producerWakes]
  | _ => exact ⟨rfl, rfl⟩

/-- The accounts when so many tokens of either kind have been lost for good. -/
structure Books (maxSize slotsLost tokensLost : ℕ) (c : Config ι T) : Prop where
  capacity : c.q.maxSize = maxSize
  mutex : Owned Pc.locked c.q.mtx c.pcs
  slots : c.q.emptySlots + tally (fun _ => slotsInHand) c.pcs + c.q.queue.length + slotsLost =
    maxSize + tally (fun _ => producerWakes maxSize) c.pcs + (maxSize + 1) * shutdowns c.log
  tokens : c.q.filledSlots + tally (fun _ => tokensInHand) c.pcs + tokensLost =
    c.q.queue.length + tally (fun _ => consumerWakes maxSize) c.pcs +
      (maxSize + 1) * (closes c.log + shutdowns c.log)
  closing : ∀ i, (c.pcs i).closing = true → c.q.closed = true
  ended : 0 < closes c.log + shutdowns c.log → c.q.closed = true
  found : ∀ i, (c.pcs i).foundEmpty = true → c.q.closed = true

/-- The code loses no token. -/
theorem balanced_iff (maxSize : ℕ) (c : Config ι T) : Balanced maxSize c ↔ Books maxSize 0 0 c :=
  ⟨fun h => ⟨h.capacity, h.mutex, h.slots, h.tokens, h.closing, h.ended, h.found⟩,
    fun h => ⟨h.capacity, h.mutex, h.slots, h.tokens, h.closing, h.ended, h.found⟩⟩

section Lost

variable {maxSize slotsLost tokensLost : ℕ} {c : Config ι T}

/-- While `closed_` is clear no wake loop has added a token, in a call in
progress or in one that has returned. -/
theorem no_wakes_before_close (books : Books maxSize slotsLost tokensLost c)
    (clear : c.q.closed = false) :
    tally (fun _ => consumerWakes maxSize) c.pcs = 0 ∧
      tally (fun _ => producerWakes maxSize) c.pcs = 0 ∧ closes c.log + shutdowns c.log = 0 := by
  have quiet : ∀ i, (c.pcs i).closing = false := by
    intro i
    by_contra past
    simp [books.closing i (by simpa using past)] at clear
  have none : closes c.log + shutdowns c.log = 0 := by
    by_contra some
    simp [books.ended (Nat.pos_of_ne_zero some)] at clear
  refine ⟨?_, ?_, none⟩
  · rw [tally_eq_zero_iff]
    exact fun i => (wakes_of_not_closing maxSize _ (quiet i)).1
  · rw [tally_eq_zero_iff]
    exact fun i => (wakes_of_not_closing maxSize _ (quiet i)).2

/-- A consumer that holds a token while the queue is empty holds a wake token:
every other filled token stands for a queued item. So `closed_` is set. -/
theorem Books.closed_of_empty (books : Books maxSize slotsLost tokensLost c)
    (i : ι) (holding : tokensInHand (c.pcs i) = 1) (empty : c.q.queue = []) :
    c.q.closed = true := by
  by_contra clear
  obtain ⟨noWakes, _, noneEnded⟩ := no_wakes_before_close books (by simpa using clear)
  have held := weight_le_tally (fun _ => tokensInHand) c.pcs i
  have account := books.tokens
  simp only [noWakes, noneEnded, empty, List.length_nil] at account
  omega

/-- Who has a token and finds the queue empty finds it closed. -/
theorem closed_of_empty_wake (balanced : Balanced maxSize c)
    (i : ι) (holding : tokensInHand (c.pcs i) = 1) (empty : c.q.queue = []) :
    c.q.closed = true :=
  ((balanced_iff maxSize c).mp balanced).closed_of_empty i holding empty

/-- One thread's move keeps the accounts, whatever has been lost before. -/
theorem Books.move [DecidableEq ι] {i : ι} {q : Queue ι T} {pc : Pc T} {events : List (Event T)}
    (books : Books maxSize slotsLost tokensLost c) (moved : Move i c.q (c.pcs i) q pc events) :
    Books maxSize slotsLost tokensLost
      ⟨q, Function.update c.pcs i pc, c.log ++ events.map (i, ·)⟩ := by
  have accounts := move_accounts moved
  have size : c.q.maxSize = maxSize := books.capacity
  have slots := accounts.slots
  have tokens := accounts.tokens (books.found i)
  rw [size] at slots tokens
  have hands := tally_update (fun _ => slotsInHand) c.pcs i pc
  have slotWakes := tally_update (fun _ => producerWakes maxSize) c.pcs i pc
  have held := tally_update (fun _ => tokensInHand) c.pcs i pc
  have tokenWakes := tally_update (fun _ => consumerWakes maxSize) c.pcs i pc
  have slotsBefore := books.slots
  have tokensBefore := books.tokens
  have slotsAfter : q.emptySlots + tally (fun _ => slotsInHand) (Function.update c.pcs i pc) +
      q.queue.length + slotsLost = maxSize +
        tally (fun _ => producerWakes maxSize) (Function.update c.pcs i pc) +
        (maxSize + 1) * shutdowns (c.log ++ events.map (i, ·)) := by
    rw [shutdowns_append, Nat.mul_add]
    omega
  have tokensAfter : q.filledSlots + tally (fun _ => tokensInHand) (Function.update c.pcs i pc) +
      tokensLost =
      q.queue.length + tally (fun _ => consumerWakes maxSize) (Function.update c.pcs i pc) +
        (maxSize + 1) *
          (closes (c.log ++ events.map (i, ·)) + shutdowns (c.log ++ events.map (i, ·))) := by
    rw [shutdowns_append, closes_append]
    simp only [Nat.mul_add] at tokens tokensBefore ⊢
    omega
  have closingAfter : ∀ j, (Function.update c.pcs i pc j).closing = true → q.closed = true := by
    rw [Function.forall_update_iff c.pcs fun _ p => p.closing = true → q.closed = true]
    refine ⟨fun past => ?_, fun j _ past => accounts.closed (books.closing j past)⟩
    rcases accounts.closing past with earlier | now
    · exact accounts.closed (books.closing i earlier)
    · exact now
  have endedAfter : 0 < closes (c.log ++ events.map (i, ·)) +
      shutdowns (c.log ++ events.map (i, ·)) → q.closed = true := by
    intro some
    rw [closes_append, shutdowns_append] at some
    rcases Nat.eq_zero_or_pos (closes c.log + shutdowns c.log) with none | earlier
    · exact accounts.closed (books.closing i (accounts.ending (by omega)))
    · exact accounts.closed (books.ended earlier)
  have foundAfter : ∀ j, (Function.update c.pcs i pc j).foundEmpty = true → q.closed = true := by
    rw [Function.forall_update_iff c.pcs fun _ p => p.foundEmpty = true → q.closed = true]
    refine ⟨fun found => ?_, fun j _ found => accounts.closed (books.found j found)⟩
    rcases accounts.found found with earlier | ⟨front, empty, _⟩
    · exact accounts.closed (books.found i earlier)
    · exact accounts.closed (books.closed_of_empty i (by simp [front, tokensInHand]) empty)
  exact ⟨accounts.maxSize.trans size, books.mutex.move accounts.lock, slotsAfter, tokensAfter,
    closingAfter, endedAfter, foundAfter⟩

end Lost

/-- While `closed_` is clear the slots in hand and the queued items together are
within the capacity. -/
theorem slots_before_close {maxSize : ℕ} {c : Config ι T} (balanced : Balanced maxSize c)
    (clear : c.q.closed = false) :
    tally (fun _ => slotsInHand) c.pcs + c.q.queue.length ≤ maxSize := by
  obtain ⟨_, noWakes, noneEnded⟩ :=
    no_wakes_before_close ((balanced_iff maxSize c).mp balanced) clear
  have account := balanced.slots
  have none : shutdowns c.log = 0 := by omega
  simp only [noWakes, none] at account
  omega

variable [DecidableEq ι]

/-- Every step keeps the accounts. The capacity bound is read off the slot
account while `closed_` is clear; afterwards nothing new reaches the insertion. -/
theorem balanced_preserved (maxSize : ℕ) :
    Preserved (step (ι := ι) (T := T)) (Balanced maxSize) := by
  intro c label c' balanced taken
  obtain ⟨i, q, pc, events, moved, rfl⟩ := step_move taken
  rw [balanced_iff] at balanced ⊢
  exact balanced.move moved

/-- The queue is balanced in every reachable state. -/
theorem reachable_balanced {maxSize : ℕ} {c : Config ι T} (reached : Reachable maxSize c) :
    Balanced maxSize c :=
  (balanced_preserved maxSize).reaches (balanced_init maxSize) reached

/-- The queued items and the producers about to insert. -/
def Config.committed (c : Config ι T) : ℕ :=
  c.q.queue.length + tally (fun _ => atEnqueue) c.pcs

/-- A producer about to insert holds a slot. -/
theorem atEnqueue_le_slotsInHand (pc : Pc T) : atEnqueue pc ≤ slotsInHand pc := by
  cases pc with
  | push place item => cases place <;> simp [atEnqueue, slotsInHand]
  | _ => exact Nat.zero_le _

/-- One step keeps the queue and its committed producers within the capacity.
With `closed_` clear afterwards, the committed producers are among the holders
of slots. With `closed_` set afterwards, the step committed no new producer. -/
theorem committed_step {maxSize : ℕ} {c c' : Config ι T} {label : Label ι T}
    (balanced : Balanced maxSize c) (within : c.committed ≤ maxSize)
    (taken : step c label = some c') : c'.committed ≤ maxSize := by
  have after : Balanced maxSize c' := balanced_preserved maxSize c label c' balanced taken
  cases flag : c'.q.closed with
  | false =>
    have slots := slots_before_close after flag
    have fewer : tally (fun _ => atEnqueue) c'.pcs ≤ tally (fun _ => slotsInHand) c'.pcs :=
      Finset.sum_le_sum fun i _ => atEnqueue_le_slotsInHand (c'.pcs i)
    simp only [Config.committed]
    omega
  | true =>
    obtain ⟨i, q, pc, events, moved, rfl⟩ := step_move taken
    have room := (move_accounts moved).room flag
    have commits := tally_update (fun _ => atEnqueue) c.pcs i pc
    simp only [Config.committed] at within ⊢
    omega

/-- Slots are committed within the capacity in every reachable state. -/
theorem reachable_committed {maxSize : ℕ} {c : Config ι T} (reached : Reachable maxSize c) :
    c.committed ≤ maxSize := by
  have kept : Preserved step fun c : Config ι T =>
      Balanced maxSize c ∧ c.committed ≤ maxSize :=
    (balanced_preserved maxSize).and fun _ _ _ balanced within taken =>
      committed_step balanced within taken
  have start : (Config.init maxSize : Config ι T).committed ≤ maxSize := by
    simp [Config.committed, Config.init, Queue.make, tally, atEnqueue]
  exact (kept.reaches ⟨balanced_init maxSize, start⟩ reached).2

/-- The queue never holds more items than its capacity, in any state that any
interleaving of pushes, pops, closes and shutdowns leads to. -/
theorem queue_within_capacity (maxSize : ℕ) (c : Config ι T) (reached : Reachable maxSize c) :
    c.q.queue.length ≤ maxSize := by
  have within := reachable_committed reached
  simp only [Config.committed] at within
  omega

/-- A push that has passed its last flag check fills the queue after `shutdown` has released
its extra tokens. A third push takes one of these meanwhile and hands it back. -/
theorem queue_within_capacity_shutdown : ∃ c : Config (Fin 4) ℕ,
    Reachable 2 c ∧ c.q.queue = [7, 8] ∧ c.q.emptySlots = 3 ∧ c.q.queue.length ≤ 2 := by
  let schedule : List (Label (Fin 4) ℕ) :=
    [[.call 0 (.push 7)], List.replicate 11 (.go 0), [.call 1 (.push 8)],
      List.replicate 8 (.go 1), [.call 2 (.push 9)], List.replicate 2 (.go 2),
      [.call 3 .shutdown], List.replicate 10 (.go 3), [.go 2, .go 1],
      List.replicate 2 (.go 2)].flatten
  refine ⟨_, ⟨schedule, rfl⟩, rfl, rfl, ?_⟩
  exact queue_within_capacity 2 _ ⟨schedule, rfl⟩

end Run

end ConcurrencyBench.SemaphoreQueue
