import ConcurrencyBench.SemaphoreConservation

/-!
# The semaphore queue with items whose copy throws

`push` copies its item into the FIFO and `pop` copies the first item out, both under the
mutex and with a token in hand. Either copy may throw, and so may the allocation of the
FIFO; the insertion then has no effect and the item to be removed stays. The exception
leaves the call through `lock_guard`'s destructor, which releases the mutex. No handler
returns the token, as the rejecting paths of both functions do.

So a slot is lost by each `push` that throws and a filled token by each `pop` that
throws. The accounts hold with these losses in them.
-/

namespace ConcurrencyBench.SemaphoreQueue

open Interleaving

universe u v
variable {ι : Type u} {T : Type v}

/-- A thread runs, is on its way out of a call by an exception, or has left it so. -/
inductive Place (T : Type v)
  | running (pc : Pc T)
  | unwinding (op : Op T)
  | threw (op : Op T)

/-- No call is in progress. -/
def Place.atRest : Place T → Bool
  | .running pc => pc.atRest
  | .unwinding _ => false
  | .threw _ => true

/-- The call whose copy a position makes. -/
def copying (q : Queue ι T) : Pc T → Option (Op T)
  -- queue_.push(item);
  | .push .enqueue item => some (.push item)
  -- if (!queue_.empty()) { item = queue_.front(); ...
  | .pop .front => if q.queue.isEmpty then none else some .pop
  | _ => none

/-- The queue, every thread's place, the log, and the calls that have been left by an
exception. -/
structure Throwing (ι : Type u) (T : Type v) where
  q : Queue ι T
  places : ι → Place T
  log : List (ι × Event T)
  thrown : List (Op T)

/-- A schedule starts a call, lets a thread go on, or makes a thread's copy throw. -/
inductive Throw (ι : Type u) (T : Type v)
  | call (i : ι) (op : Op T)
  | go (i : ι)
  | throws (i : ι)

/-- The new queue, with no call made and nothing thrown. -/
def Throwing.init (maxSize : ℕ) : Throwing ι T :=
  ⟨Queue.make maxSize, fun _ => .running .idle, [], []⟩

variable [DecidableEq ι]

/-- One step of the whole program. -/
def throwingStep (c : Throwing ι T) : Throw ι T → Option (Throwing ι T)
  | .call i op =>
    if (c.places i).atRest then
      some { c with
        places := Function.update c.places i (.running op.entry)
        log := c.log ++ [(i, .called op)] }
    else none
  | .go i =>
    match c.places i with
    | .running pc => (exec i c.q pc).map fun (q, pc') =>
        { c with
          q := q
          places := Function.update c.places i (.running pc')
          log := c.log ++ (observe pc pc').map (i, ·) }
    -- ~lock_guard
    | .unwinding op =>
      some { c with
        q := c.q.unlock
        places := Function.update c.places i (.threw op)
        thrown := op :: c.thrown }
    | .threw _ => none
  | .throws i =>
    match c.places i with
    | .running pc => (copying c.q pc).map fun op =>
        { c with places := Function.update c.places i (.unwinding op) }
    | _ => none

/-- Every state some interleaving leads to. -/
def Throwing.Reachable (maxSize : ℕ) (c : Throwing ι T) : Prop :=
  Reaches throwingStep (Throwing.init maxSize) c

/-- The label continues a call of this thread. -/
def Throw.continues (i : ι) : Throw ι T → Bool
  | .call _ _ => false
  | .go j | .throws j => j = i

/-- The program in which only one thread moves, and begins no call. -/
def alone (i : ι) : Throwing ι T → Throw ι T → Option (Throwing ι T) :=
  guarded (fun _ label => label.continues i) throwingStep

/-- A call made while all others are at rest ends with an exception. -/
def Throws (c : Throwing ι T) (i : ι) (op : Op T) (c' : Throwing ι T) : Prop :=
  ∃ began, throwingStep c (.call i op) = some began ∧ Reaches (alone i) began c' ∧
    c'.places i = .threw op

/-! ## What has been lost -/

/-- Slots lost by the calls that have thrown. -/
def slotsLost (thrown : List (Op T)) : ℕ :=
  thrown.countP fun
    | .push _ => true
    | _ => false

/-- Filled tokens lost by the calls that have thrown. -/
def tokensLost (thrown : List (Op T)) : ℕ :=
  thrown.countP fun
    | .pop => true
    | _ => false

/-- The position whose tokens and mutex a place still has. -/
def Place.pc : Place T → Pc T
  | .running pc => pc
  | .unwinding (.push item) => .push .enqueue item
  | .unwinding .pop => .pop .front
  | .unwinding _ | .threw _ => .idle

omit [DecidableEq ι] in
/-- A call loses what its thread had in hand where it threw. -/
theorem slotsLost_cons (op : Op T) (thrown : List (Op T)) :
    slotsLost (op :: thrown) = slotsLost thrown + slotsInHand (Place.unwinding op).pc := by
  cases op <;> simp [slotsLost, Place.pc, slotsInHand]

omit [DecidableEq ι] in
/-- Another call that threw loses what it had in hand. -/
theorem tokensLost_cons (op : Op T) (thrown : List (Op T)) :
    tokensLost (op :: thrown) = tokensLost thrown + tokensInHand (Place.unwinding op).pc := by
  cases op <;> simp [tokensLost, Place.pc, tokensInHand]

omit [DecidableEq ι] in
/-- The state with every thread back at the last position it had. -/
def Throwing.held (c : Throwing ι T) : Config ι T := ⟨c.q, fun i => (c.places i).pc, c.log⟩

omit [DecidableEq ι] in
/-- The calls that copy an item: `push` into the queue, and `pop` from its front. -/
theorem copying_cases {q : Queue ι T} {pc : Pc T} {op : Op T} (copied : copying q pc = some op) :
    (∃ item, pc = .push .enqueue item ∧ op = .push item) ∨
      (pc = .pop .front ∧ op = .pop ∧ q.queue ≠ []) := by
  cases pc with
  | push place item =>
    cases place with
    | enqueue => exact .inl ⟨item, rfl, (Option.some.inj copied).symm⟩
    | _ => simp [copying] at copied
  | pop place =>
    cases place with
    | front =>
      simp only [copying, Option.ite_none_left_eq_some, Option.some.injEq] at copied
      exact .inr ⟨rfl, copied.2.symm, by simpa using copied.1⟩
    | _ => simp [copying] at copied
  | _ => simp [copying] at copied

omit [DecidableEq ι] in
/-- A call that throws has in hand what it had before the copy. -/
theorem copying_pc {q : Queue ι T} {pc : Pc T} {op : Op T} (copied : copying q pc = some op) :
    (Place.unwinding op).pc = pc := by
  rcases copying_cases copied with ⟨item, rfl, rfl⟩ | ⟨rfl, rfl, _⟩ <;> rfl

/-- What is held of a changed place is the changed place held. -/
theorem held_update (c : Throwing ι T) (i : ι) (place : Place T) (q : Queue ι T)
    (log : List (ι × Event T)) (thrown : List (Op T)) :
    (⟨q, Function.update c.places i place, log, thrown⟩ : Throwing ι T).held =
      ⟨q, Function.update c.held.pcs i place.pc, log⟩ := by
  have pcs : (fun j => (Function.update c.places i place j).pc) =
      Function.update c.held.pcs i place.pc := by
    funext j
    by_cases mine : j = i
    · subst mine
      simp
    · simp [Function.update_of_ne mine, Throwing.held]
  simp only [Throwing.held] at pcs ⊢
  rw [pcs]

/-- The accounts with the losses in them; a thread on its way out was making a copy. -/
structure Spent [Fintype ι] (maxSize : ℕ) (c : Throwing ι T) : Prop where
  books : Books maxSize (slotsLost c.thrown) (tokensLost c.thrown) c.held
  copied : ∀ i op, c.places i = .unwinding op → (∃ item, op = .push item) ∨ op = .pop

section Run

variable [Fintype ι] {maxSize : ℕ}

/-- A thread that gives up the mutex and no token loses what it holds. -/
theorem Books.lose {slots tokens : ℕ} {c : Config ι T} {i : ι}
    (books : Books maxSize slots tokens c) (inside : (c.pcs i).locked = true)
    (quiet : (c.pcs i).closing = false) :
    Books maxSize (slots + slotsInHand (c.pcs i)) (tokens + tokensInHand (c.pcs i))
      ⟨c.q.unlock, Function.update c.pcs i .idle, c.log⟩ := by
  have hands := tally_update (fun _ => slotsInHand) c.pcs i .idle
  have slotWakes := tally_update (fun _ => producerWakes maxSize) c.pcs i .idle
  have held := tally_update (fun _ => tokensInHand) c.pcs i .idle
  have tokenWakes := tally_update (fun _ => consumerWakes maxSize) c.pcs i .idle
  obtain ⟨noTokenWakes, noSlotWakes⟩ := wakes_of_not_closing maxSize _ quiet
  have idleSlots : slotsInHand (.idle : Pc T) = 0 := rfl
  have idleTokens : tokensInHand (.idle : Pc T) = 0 := rfl
  have idleSlotWakes : producerWakes maxSize (.idle : Pc T) = 0 := rfl
  have idleTokenWakes : consumerWakes maxSize (.idle : Pc T) = 0 := rfl
  constructor
  case capacity => exact books.capacity
  case mutex => exact books.mutex.move (.released _ _ _ inside rfl)
  case slots =>
    have before := books.slots
    simp only [Queue.unlock]
    omega
  case tokens =>
    have before := books.tokens
    simp only [Queue.unlock]
    omega
  case closing =>
    intro j past
    by_cases mine : j = i
    · subst mine
      simp [Pc.closing] at past
    · exact books.closing j (by simpa [Function.update_of_ne mine] using past)
  case ended => exact books.ended
  case found =>
    intro j found
    by_cases mine : j = i
    · subst mine
      simp [Pc.foundEmpty] at found
    · exact books.found j (by simpa [Function.update_of_ne mine] using found)

variable {c : Throwing ι T}

omit [DecidableEq ι] in
/-- The new queue has spent nothing. -/
theorem spent_init : Spent maxSize (Throwing.init maxSize : Throwing ι T) where
  books := (balanced_iff maxSize _).mp (balanced_init maxSize)
  copied := by simp [Throwing.init]

omit [Fintype ι] in
/-- A thread that goes to a place where it is not on its way out leaves the others there. -/
theorem copied_update {places : ι → Place T} {i : ι} {place : Place T}
    (copied : ∀ j op, places j = .unwinding op → (∃ item, op = .push item) ∨ op = .pop)
    (mine : ∀ op, place = .unwinding op → (∃ item, op = .push item) ∨ op = .pop) :
    ∀ j op, Function.update places i place j = .unwinding op →
      (∃ item, op = .push item) ∨ op = .pop := by
  intro j op leaving
  by_cases same : j = i
  · subst same
    exact mine op (by simpa using leaving)
  · exact copied j op (by simpa [Function.update_of_ne same] using leaving)

/-- A thread of the base program moves. -/
theorem Spent.move {i : ι} {q : Queue ι T} {pc : Pc T} {events : List (Event T)}
    (spent : Spent maxSize c) (moved : Move i c.q (c.places i).pc q pc events) :
    Spent maxSize ⟨q, Function.update c.places i (.running pc), c.log ++ events.map (i, ·),
      c.thrown⟩ := by
  refine ⟨?_, copied_update spent.copied (by simp)⟩
  rw [held_update]
  exact spent.books.move moved

/-- The exception leaves the call: the mutex is released and the token is lost. -/
theorem Spent.unwind {i : ι} {op : Op T} (spent : Spent maxSize c)
    (leaving : c.places i = .unwinding op) :
    Spent maxSize ⟨c.q.unlock, Function.update c.places i (.threw op), c.log, op :: c.thrown⟩ := by
  have position : c.held.pcs i = (Place.unwinding op).pc := by simp [Throwing.held, leaving]
  have inside : (c.held.pcs i).locked = true ∧ (c.held.pcs i).closing = false := by
    rw [position]
    rcases spent.copied i op leaving with ⟨item, rfl⟩ | rfl <;> exact ⟨rfl, rfl⟩
  have lost := spent.books.lose inside.1 inside.2
  rw [position, ← slotsLost_cons, ← tokensLost_cons] at lost
  refine ⟨?_, copied_update spent.copied (by simp)⟩
  rw [held_update]
  exact lost

/-- The exception leaves the thread where it is, with what it holds. -/
theorem Spent.throw {i : ι} {pc : Pc T} {op : Op T} (spent : Spent maxSize c)
    (standing : c.places i = .running pc) (copied : copying c.q pc = some op) :
    Spent maxSize { c with places := Function.update c.places i (.unwinding op) } := by
  refine ⟨?_, copied_update spent.copied ?_⟩
  · have same : Function.update c.held.pcs i (Place.unwinding op).pc = c.held.pcs := by
      rw [copying_pc copied, Function.update_eq_self_iff]
      simp [Throwing.held, standing, Place.pc]
    rw [held_update, same]
    exact spent.books
  · rintro _ ⟨⟩
    rcases copying_cases copied with ⟨item, _, rfl⟩ | ⟨_, rfl, _⟩
    · exact .inl ⟨item, rfl⟩
    · exact .inr rfl

/-- Every step keeps the account. -/
theorem spent_preserved (maxSize : ℕ) :
    Preserved (throwingStep (ι := ι) (T := T)) (Spent maxSize) := by
  intro c label c' spent taken
  cases label with
  | call i op =>
    simp only [throwingStep, Option.ite_none_right_eq_some, Option.some.injEq] at taken
    obtain ⟨rest, rfl⟩ := taken
    have position : (c.places i).pc.atRest = true := by
      cases standing : c.places i with
      | running pc => simpa [standing, Place.atRest, Place.pc] using rest
      | unwinding op => simp [standing, Place.atRest] at rest
      | threw op => rfl
    exact spent.move (.call op position)
  | go i =>
    simp only [throwingStep] at taken
    split at taken
    · rename_i pc standing
      obtain ⟨⟨q, pc'⟩, moved, rfl⟩ := Option.map_eq_some_iff.mp taken
      refine spent.move ?_
      rw [standing]
      exact .exec q pc' moved
    · rename_i op leaving
      obtain rfl := Option.some.inj taken
      exact spent.unwind leaving
    · contradiction
  | throws i =>
    simp only [throwingStep] at taken
    split at taken
    · rename_i pc standing
      obtain ⟨op, copied, rfl⟩ := Option.map_eq_some_iff.mp taken
      exact spent.throw standing copied
    · contradiction

/-- The account is right in every reachable state. -/
theorem reachable_spent (reached : c.Reachable maxSize) : Spent maxSize c :=
  (spent_preserved maxSize).reaches spent_init reached

omit [Fintype ι] [DecidableEq ι] in
/-- Where all places are at rest, so are the program counters they hold. -/
theorem held_atRest (rest : ∀ i, (c.places i).atRest = true) (i : ι) :
    (c.held.pcs i).atRest = true := by
  have here := rest i
  cases standing : c.places i with
  | running pc => simpa [Throwing.held, standing, Place.pc, Place.atRest] using here
  | unwinding op => simp [standing, Place.atRest] at here
  | threw op => simp [Throwing.held, standing, Place.pc, Pc.atRest]

omit [DecidableEq ι] in
/-- Between calls nobody holds the mutex. -/
theorem Spent.free (spent : Spent maxSize c) (rest : ∀ i, (c.places i).atRest = true) :
    c.q.mtx = none := by
  by_contra held
  obtain ⟨i, owner⟩ := Option.ne_none_iff_exists'.mp held
  have inside := (spent.books.mutex i).mpr owner
  have outside := (waiting_empty_handed maxSize (waiting_of_atRest (held_atRest rest i))).1
  simp [outside] at inside

end Run

/-! ## One call that throws -/

/-- A call made alone gets as far as its copy: a `push` finds both flags clear and a
slot, a `pop` finds an item and a token. -/
def Queue.copies (q : Queue ι T) : Op T → Bool
  | .push _ => !q.shutdown && !q.closed && decide (0 < q.emptySlots)
  | .pop => !q.queue.isEmpty && decide (0 < q.filledSlots)
  | .close | .shutdown => false

/-- The queue short of the token that a call had acquired. -/
def Queue.short (q : Queue ι T) : Op T → Queue ι T
  | .push _ => { q with emptySlots := q.emptySlots - 1 }
  | .pop => { q with filledSlots := q.filledSlots - 1 }
  | .close | .shutdown => q

/-- What a thread that moves alone from a queue `q₀` has made of it, as long as it may
still throw. -/
def Alone (i : ι) (q₀ q : Queue ι T) : Place T → Prop
  | .running (.push place item) => match place with
    | .entryShutdown => q = q₀
    | .entryClosed => q = q₀ ∧ q₀.shutdown = false
    | .acquire => q = q₀ ∧ q₀.shutdown = false ∧ q₀.closed = false
    | .wokenShutdown | .wokenClosed | .lock =>
      q = q₀.short (.push item) ∧ q₀.copies (.push item) = true
    | .lockedShutdown | .lockedClosed | .enqueue =>
      q = { q₀.short (.push item) with mtx := some i } ∧ q₀.copies (.push item) = true
    | _ => True
  | .running (.pop place) => q.queue = [] ∨ match place with
    | .lock | .acquire => q = q₀
    | .empty | .unlock => q = { q₀ with mtx := some i }
    | .relock => q = q₀.short .pop ∧ 0 < q₀.filledSlots
    | .front => q = { q₀.short .pop with mtx := some i } ∧ 0 < q₀.filledSlots
    | .release _ | .unlockTaken _ => True
    | _ => False
  | .running _ => True
  | .unwinding op => q = { q₀.short op with mtx := some i } ∧ q₀.copies op = true
  | .threw op => q = q₀.short op ∧ q₀.copies op = true

section Call

variable {i : ι} {q₀ q q' : Queue ι T}

omit [DecidableEq ι] in
/-- A statement of a `push` that has the queue to itself. -/
theorem alone_push {place : PushAt} {item : T} {pc' : Pc T}
    (lone : Alone i q₀ q (.running (.push place item)))
    (moved : push i q item place = some (q', pc')) : Alone i q₀ q' (.running pc') := by
  cases place with
  | entryShutdown =>
    rw [push] at moved
    split at moved <;> obtain ⟨rfl, rfl⟩ := Prod.mk.inj (Option.some.inj moved)
    · trivial
    · next clear =>
      obtain rfl : q = q₀ := lone
      exact ⟨rfl, Bool.eq_false_iff.mpr clear⟩
  | entryClosed =>
    rw [push] at moved
    split at moved <;> obtain ⟨rfl, rfl⟩ := Prod.mk.inj (Option.some.inj moved)
    · trivial
    · next clear =>
      obtain ⟨rfl, running⟩ := lone
      exact ⟨rfl, running, Bool.eq_false_iff.mpr clear⟩
  | acquire =>
    obtain ⟨slot, moved⟩ := Option.ite_none_right_eq_some.mp moved
    obtain ⟨rfl, rfl⟩ := Prod.mk.inj (Option.some.inj moved)
    obtain ⟨rfl, running, clear⟩ := lone
    refine ⟨rfl, ?_⟩
    simp only [Queue.copies, running, clear, slot, Bool.not_false, Bool.and_self, decide_true]
  | lock =>
    obtain ⟨_, rfl, rfl⟩ := lock_map_eq_some_iff.mp moved
    obtain ⟨rfl, copies⟩ := lone
    exact ⟨rfl, copies⟩
  | wokenShutdown | wokenClosed | lockedShutdown | lockedClosed =>
    rw [push] at moved
    split at moved <;> obtain ⟨rfl, rfl⟩ := Prod.mk.inj (Option.some.inj moved)
    · trivial
    · exact lone
  | returnSlot | lockedReturnSlot | unlockRejected | enqueue | unlock | release =>
    obtain ⟨rfl, rfl⟩ := Prod.mk.inj (Option.some.inj moved)
    trivial

omit [DecidableEq ι] in
/-- A statement of a `pop` that has the queue to itself. Once it has found the queue
empty it throws no more. -/
theorem alone_pop {place : PopAt T} {pc' : Pc T} (free : q₀.mtx = none)
    (lone : Alone i q₀ q (.running (.pop place))) (moved : pop i q place = some (q', pc')) :
    Alone i q₀ q' (.running pc') := by
  cases place with
  | lock =>
    obtain ⟨_, rfl, rfl⟩ := lock_map_eq_some_iff.mp moved
    exact lone.imp_right fun same => by rw [same]
  | empty =>
    rw [pop] at moved
    split at moved <;> obtain ⟨rfl, rfl⟩ := Prod.mk.inj (Option.some.inj moved)
    · next none => exact .inl (List.isEmpty_iff.mp none)
    · exact lone
  | unlock =>
    obtain ⟨rfl, rfl⟩ := Prod.mk.inj (Option.some.inj moved)
    refine lone.imp_right fun same => ?_
    rw [same, Queue.unlock, ← free]
  | acquire =>
    obtain ⟨token, moved⟩ := Option.ite_none_right_eq_some.mp moved
    obtain ⟨rfl, rfl⟩ := Prod.mk.inj (Option.some.inj moved)
    refine lone.imp_right fun same => ?_
    rw [← same]
    exact ⟨rfl, token⟩
  | relock =>
    obtain ⟨_, rfl, rfl⟩ := lock_map_eq_some_iff.mp moved
    exact lone.imp_right fun known => ⟨by rw [known.1], known.2⟩
  | front =>
    obtain ⟨nothing, rfl, rfl⟩ | ⟨_, _, _, rfl, rfl⟩ := front_cases moved
    · exact .inl nothing
    · exact .inr trivial
  | release =>
    obtain ⟨rfl, rfl⟩ := Prod.mk.inj (Option.some.inj moved)
    exact .inr trivial
  | unlockEmpty =>
    obtain ⟨rfl, rfl⟩ := Prod.mk.inj (Option.some.inj moved)
    exact lone
  | lockedShutdown | wokenShutdown =>
    rw [pop] at moved
    split at moved <;> obtain ⟨rfl, rfl⟩ := Prod.mk.inj (Option.some.inj moved) <;> exact lone
  | lockedClosed | wokenClosed =>
    rw [pop] at moved
    split at moved <;> obtain ⟨rfl, rfl⟩ := Prod.mk.inj (Option.some.inj moved)
    · exact lone
    · exact .inl (lone.resolve_right id)
  | unlockFinished | unlockTaken | returnToken =>
    obtain ⟨rfl, rfl⟩ := Prod.mk.inj (Option.some.inj moved)
    trivial

omit [DecidableEq ι] in
/-- A statement of a thread that moves alone. -/
theorem Alone.exec {pc pc' : Pc T} (free : q₀.mtx = none) (lone : Alone i q₀ q (.running pc))
    (moved : exec i q pc = some (q', pc')) : Alone i q₀ q' (.running pc') := by
  have kind := (exec_contribution moved).kind
  cases pc with
  | idle | returned => cases moved
  | push place item => exact alone_push lone moved
  | pop place => exact alone_pop free lone moved
  | close place | shutdown place =>
    cases pc' with
    | push | pop => cases kind
    | _ => trivial

omit [DecidableEq ι] in
/-- The one thread may throw. -/
theorem Alone.throw {pc : Pc T} {op : Op T} (lone : Alone i q₀ q (.running pc))
    (copied : copying q pc = some op) : Alone i q₀ q (.unwinding op) := by
  rcases copying_cases copied with ⟨item, rfl, rfl⟩ | ⟨rfl, rfl, found⟩
  · exact lone
  · obtain ⟨rfl, token⟩ := lone.resolve_left found
    refine ⟨rfl, ?_⟩
    simpa [Queue.copies, Queue.short, token] using found

omit [DecidableEq ι] in
/-- The one thread that unwinds gives the lock back. -/
theorem Alone.unwind {op : Op T} (free : q₀.mtx = none) (lone : Alone i q₀ q (.unwinding op)) :
    Alone i q₀ q.unlock (.threw op) := by
  obtain ⟨rfl, copied⟩ := lone
  refine ⟨?_, copied⟩
  have same : (q₀.short op).mtx = none := by cases op <;> exact free
  simp only [Queue.unlock, ← same]

omit [DecidableEq ι] in
/-- The one thread may begin its call. -/
theorem alone_entry (op : Op T) : Alone i q₀ q₀ (.running op.entry) := by
  cases op with
  | push item => exact rfl
  | pop => exact Or.inr rfl
  | close | shutdown => trivial

/-- What one thread does alone, from the beginning of its call on. -/
theorem alone_reaches {c began c' : Throwing ι T} {op : Op T} (free : c.q.mtx = none)
    (called : throwingStep c (.call i op) = some began) (onward : Reaches (alone i) began c') :
    Alone i c.q c'.q (c'.places i) := by
  have kept : Preserved (alone i) fun d : Throwing ι T => Alone i c.q d.q (d.places i) := by
    intro d label d' lone taken
    obtain ⟨mine, stepped⟩ := (guarded_eq_some_iff d d' label).mp taken
    cases label with
    | call j op => simp [Throw.continues] at mine
    | go j =>
      obtain rfl : j = i := by simpa [Throw.continues] using mine
      simp only [throwingStep] at stepped
      split at stepped
      · rename_i pc standing
        obtain ⟨⟨q, pc'⟩, moved, rfl⟩ := Option.map_eq_some_iff.mp stepped
        rw [standing] at lone
        simpa using lone.exec free moved
      · rename_i op leaving
        obtain rfl := Option.some.inj stepped
        rw [leaving] at lone
        simpa using lone.unwind free
      · contradiction
    | throws j =>
      obtain rfl : j = i := by simpa [Throw.continues] using mine
      simp only [throwingStep] at stepped
      split at stepped
      · rename_i pc standing
        obtain ⟨op, copied, rfl⟩ := Option.map_eq_some_iff.mp stepped
        rw [standing] at lone
        simpa using lone.throw copied
      · contradiction
  refine kept.reaches ?_ onward
  simp only [throwingStep, Option.ite_none_right_eq_some, Option.some.injEq] at called
  obtain ⟨_, rfl⟩ := called
  simpa using alone_entry op

/-- An exception that leaves a call leaves the queue one token short. -/
theorem throws_short {c c' : Throwing ι T} {op : Op T} (free : c.q.mtx = none)
    (thrown : Throws c i op c') : c'.q = c.q.short op ∧ c.q.copies op = true := by
  obtain ⟨began, called, onward, left⟩ := thrown
  have lone := alone_reaches free called onward
  rw [left] at lone
  exact lone

/-- What a thread can execute uninterrupted it can execute alone. -/
theorem alone_statements {c : Throwing ι T} {pc pc' : Pc T}
    (standing : c.places i = .running pc)
    (executed : Reaches (statement i) (c.q, pc) (q', pc')) :
    ∃ d, Reaches (alone i) c d ∧ d.q = q' ∧ d.places i = .running pc' := by
  have kept : Preserved (statement i) fun place : Queue ι T × Pc T =>
      ∃ d, Reaches (alone i) c d ∧ d.q = place.1 ∧ d.places i = .running place.2 := by
    rintro ⟨q, pc⟩ label ⟨q', pc'⟩ ⟨d, reached, rfl, running⟩ moved
    let next : Throwing ι T := { d with
      q := q'
      places := Function.update d.places i (.running pc')
      log := d.log ++ (observe pc pc').map (i, ·) }
    have taken : alone i d (.go i) = some next := by
      rw [alone, guarded_eq_some_iff]
      refine ⟨by simp [Throw.continues], ?_⟩
      simp only [throwingStep, running, Option.map_eq_some_iff]
      exact ⟨(q', pc'), moved, rfl⟩
    exact ⟨next, reached.tail taken, rfl, Function.update_self ..⟩
  exact kept.reaches ⟨c, Reaches.refl c, rfl, standing⟩ executed

/-- A copy that throws ends the call. -/
theorem alone_throws {c : Throwing ι T} {pc : Pc T} {op : Op T}
    (standing : c.places i = .running pc) (copied : copying c.q pc = some op) :
    ∃ c', Reaches (alone i) c c' ∧ c'.places i = .threw op := by
  let unwound : Throwing ι T :=
    { c with places := Function.update c.places i (.unwinding op) }
  have first : alone i c (.throws i) = some unwound := by
    rw [alone, guarded_eq_some_iff]
    exact ⟨by simp [Throw.continues], by simp [throwingStep, standing, copied, unwound]⟩
  obtain ⟨c', second, left⟩ : ∃ c', alone i unwound (.go i) = some c' ∧
      c'.places i = .threw op := by
    simp [alone, guarded, Throw.continues, throwingStep, unwound]
  exact ⟨c', (Reaches.single first).tail second, left⟩

omit [DecidableEq ι] in
/-- A call that gets as far as its copy gets there uninterrupted, as nobody holds the mutex. -/
theorem reaches_copy {op : Op T} (free : q.mtx = none) (copies : q.copies op = true) :
    ∃ q' pc, Reaches (statement i) (q, op.entry) (q', pc) ∧ copying q' pc = some op := by
  cases op with
  | push item =>
    simp only [Queue.copies, Bool.and_eq_true, Bool.not_eq_true', decide_eq_true_eq] at copies
    obtain ⟨⟨running, opened⟩, slot⟩ := copies
    refine ⟨{ q with emptySlots := q.emptySlots - 1, mtx := some i }, .push .enqueue item,
      ⟨List.replicate 8 (), ?_⟩, rfl⟩
    simp [run, statement, SemaphoreQueue.exec, push, Op.entry, running, opened, slot, Queue.lock,
      free]
  | pop =>
    simp only [Queue.copies, Bool.and_eq_true, Bool.not_eq_true', decide_eq_true_eq] at copies
    obtain ⟨found, token⟩ := copies
    have item : q.queue ≠ [] := by simpa using found
    refine ⟨{ q with filledSlots := q.filledSlots - 1, mtx := some i }, .pop .front,
      ⟨List.replicate 5 (), ?_⟩, if_neg (by simpa using item)⟩
    simp [run, statement, SemaphoreQueue.exec, pop, Op.entry, item, token, Queue.lock,
      Queue.unlock, free]
  | close | shutdown => simp [Queue.copies] at copies

/-- A call that gets as far as its copy may throw. -/
theorem throws_of_copies {c : Throwing ι T} {op : Op T} (free : c.q.mtx = none)
    (rest : (c.places i).atRest = true) (copies : c.q.copies op = true) :
    ∃ c', Throws c i op c' := by
  let began : Throwing ι T := { c with
    places := Function.update c.places i (.running op.entry)
    log := c.log ++ [(i, .called op)] }
  have called : throwingStep c (.call i op) = some began := if_pos rest
  obtain ⟨q, pc, executed, copied⟩ := reaches_copy (i := i) free copies
  obtain ⟨d, reached, rfl, standing⟩ :=
    alone_statements (c := began) (Function.update_self ..) executed
  obtain ⟨c', thrown, left⟩ := alone_throws standing copied
  exact ⟨c', began, called, reached.trans thrown, left⟩

end Call

section AtRest

variable [Fintype ι]

/-- Between calls the semaphores are short of exactly what has been lost: a slot for each
`push` that has thrown, and a filled token for each `pop`. -/
theorem tokens_lost (maxSize : ℕ) (c : Throwing ι T) (reached : c.Reachable maxSize)
    (rest : ∀ i, (c.places i).atRest = true) :
    c.q.emptySlots + c.q.queue.length + slotsLost c.thrown =
      maxSize + (maxSize + 1) * shutdowns c.log ∧
    c.q.filledSlots + tokensLost c.thrown =
      c.q.queue.length + (maxSize + 1) * (closes c.log + shutdowns c.log) := by
  have books := (reachable_spent reached).books
  have waiting := fun i => waiting_empty_handed maxSize (waiting_of_atRest (held_atRest rest i))
  have slots : tally (fun _ => slotsInHand) c.held.pcs = 0 :=
    (tally_eq_zero_iff _ _).mpr fun i => (waiting i).2.1
  have tokens : tally (fun _ => tokensInHand) c.held.pcs = 0 :=
    (tally_eq_zero_iff _ _).mpr fun i => (waiting i).2.2.1
  have consumers : tally (fun _ => consumerWakes maxSize) c.held.pcs = 0 :=
    (tally_eq_zero_iff _ _).mpr fun i => (waiting i).2.2.2.1
  have producers : tally (fun _ => producerWakes maxSize) c.held.pcs = 0 :=
    (tally_eq_zero_iff _ _).mpr fun i => (waiting i).2.2.2.2
  have slotAccount := books.slots
  have tokenAccount := books.tokens
  rw [slots, producers] at slotAccount
  rw [tokens, consumers] at tokenAccount
  exact ⟨slotAccount, tokenAccount⟩

/-- Two of three slots are lost to two `push`es that throw, and the third takes an item. -/
theorem tokens_lost_two : ∃ c : Throwing (Fin 1) ℕ, c.Reachable 3 ∧
    c.thrown = [.push 7, .push 7] ∧ c.q.queue = [8] ∧ c.q.emptySlots = 0 := by
  let thrown : List (Throw (Fin 1) ℕ) :=
    .call 0 (.push 7) :: List.replicate 8 (.go 0) ++ [.throws 0, .go 0]
  let pushed : List (Throw (Fin 1) ℕ) := .call 0 (.push 8) :: List.replicate 11 (.go 0)
  have played : (run throwingStep (Throwing.init 3) (thrown ++ thrown ++ pushed)).map
      (fun c => (c.thrown, c.q.queue, shutdowns c.log, decide (∀ i, (c.places i).atRest = true))) =
      some ([.push 7, .push 7], [8], 0, true) := rfl
  obtain ⟨c, ran, shown⟩ := Option.map_eq_some_iff.mp played
  simp only [Prod.mk.injEq, decide_eq_true_eq] at shown
  obtain ⟨lost, queued, none, rest⟩ := shown
  have account := (tokens_lost 3 c ⟨_, ran⟩ rest).1
  rw [lost, queued, none] at account
  exact ⟨c, ⟨_, ran⟩, lost, queued, by simpa [slotsLost] using account⟩

/-- A call that an exception leaves, with all other threads idle, leaves the queue as it
was exactly if it cannot get as far as its copy: whenever it throws, the queue is short
of the token the call had acquired. -/
theorem throw_restores_iff (maxSize : ℕ) (c : Throwing ι T) (reached : c.Reachable maxSize)
    (rest : ∀ j, (c.places j).atRest = true) (i : ι) (op : Op T) :
    ((∀ c', Throws c i op c' → c'.q.queue = c.q.queue ∧ c'.q.emptySlots = c.q.emptySlots ∧
        c'.q.filledSlots = c.q.filledSlots) ↔ c.q.copies op = false) ∧
      ∀ c', Throws c i op c' → c'.q = c.q.short op := by
  have free := (reachable_spent reached).free rest
  refine ⟨⟨fun restored => ?_, fun stops c' thrown => ?_⟩,
    fun c' thrown => (throws_short free thrown).1⟩
  · by_contra copies
    simp only [Bool.not_eq_false] at copies
    obtain ⟨c', thrown⟩ := throws_of_copies free (rest i) copies
    obtain ⟨_, slots, tokens⟩ := restored c' thrown
    rw [(throws_short free thrown).1] at slots tokens
    cases op with
    | push item =>
      simp only [Queue.copies, Bool.and_eq_true, decide_eq_true_eq] at copies
      have slot := copies.2
      simp only [Queue.short] at slots
      omega
    | pop =>
      simp only [Queue.copies, Bool.and_eq_true, decide_eq_true_eq] at copies
      have token := copies.2
      simp only [Queue.short] at tokens
      omega
    | close | shutdown => simp [Queue.copies] at copies
  · simp [(throws_short free thrown).2] at stops

/-- In a fresh queue of capacity one a `push` gets as far as its copy, so that it may
leave the queue other than it was. -/
theorem throw_restores_iff_one :
    ¬ ∀ c', Throws (Throwing.init 1 : Throwing (Fin 1) ℕ) 0 (.push 7) c' →
      c'.q.queue = [] ∧ c'.q.emptySlots = 1 ∧ c'.q.filledSlots = 0 := by
  intro restored
  have stops := (throw_restores_iff 1 _ (Reaches.refl _) (fun _ => rfl) 0 (.push 7)).1.mp restored
  simp [Queue.copies, Throwing.init, Queue.make] at stops

/-- After one `push` that throws, a queue of capacity one is empty and has no slot: the
next `push` waits for good. After a `pop` that throws, it holds an item and no token: the
next `pop` waits for good. -/
theorem thrown_token_missed :
    (∃ c' later : Throwing (Fin 1) ℕ, Throws (Throwing.init 1) 0 (.push 7) c' ∧
      c'.q.queue = [] ∧ c'.q.emptySlots = 0 ∧ Reaches throwingStep c' later ∧
      later.places 0 = .running (.push .acquire 8) ∧ Stuck throwingStep later) ∧
    ∃ c c' later : Throwing (Fin 1) ℕ, c.Reachable 1 ∧ c.q.queue = [7] ∧ c.q.filledSlots = 1 ∧
      Throws c 0 .pop c' ∧ c'.q.queue = [7] ∧ c'.q.filledSlots = 0 ∧
      Reaches throwingStep c' later ∧ later.places 0 = .running (.pop .acquire) ∧
      Stuck throwingStep later := by
  have stuck : ∀ later : Throwing (Fin 1) ℕ,
      (later.places 0 = .running (.push .acquire 8) ∧ later.q.emptySlots = 0 ∨
        later.places 0 = .running (.pop .acquire) ∧ later.q.filledSlots = 0) →
      Stuck throwingStep later := by
    rintro later waiting label
    rcases waiting with ⟨standing, none⟩ | ⟨standing, none⟩ <;>
      rcases label with ⟨i, op⟩ | i | i <;> rw [Subsingleton.elim i 0] <;>
      simp [throwingStep, standing, none, Place.atRest, Pc.atRest, exec, push, pop, copying]
  constructor
  · let thrown : List (Throw (Fin 1) ℕ) := List.replicate 8 (.go 0) ++ [.throws 0, .go 0]
    let next : List (Throw (Fin 1) ℕ) := [.call 0 (.push 8), .go 0, .go 0]
    exact ⟨_, _, ⟨_, rfl, ⟨thrown, rfl⟩, rfl⟩, rfl, rfl, ⟨next, rfl⟩, rfl,
      stuck _ (.inl ⟨rfl, rfl⟩)⟩
  · let pushed : List (Throw (Fin 1) ℕ) := .call 0 (.push 7) :: List.replicate 11 (.go 0)
    let thrown : List (Throw (Fin 1) ℕ) := List.replicate 5 (.go 0) ++ [.throws 0, .go 0]
    let next : List (Throw (Fin 1) ℕ) := .call 0 .pop :: List.replicate 3 (.go 0)
    exact ⟨_, _, _, ⟨pushed, rfl⟩, rfl, rfl, ⟨_, rfl, ⟨thrown, rfl⟩, rfl⟩, rfl, rfl, ⟨next, rfl⟩,
      rfl, stuck _ (.inr ⟨rfl, rfl⟩)⟩

end AtRest

end ConcurrencyBench.SemaphoreQueue
