import ConcurrencyBench.Channel
import ConcurrencyBench.Logs
import ConcurrencyBench.SemaphoreTokens

/-!
# The semaphore queue refines a channel that ends

Every state of the queue is a channel: its items are the FIFO's content, its
capacity bound is the one proved by the token accounts, and it has ended once
the FIFO is empty, no producer stands before its insertion, and a closing flag
is set that every later producer still has to read.

Insertions and removals are the channel's sends and receives. A `pop` commits to
returning false in two places: under the mutex with an empty queue and a flag
set, and after a wake-up on an empty queue, where the token accounts show the
flag set as well. In both the mutex excludes a producer past its last check, so
the channel has ended there, and by the channel's laws nothing is accepted later.
-/

namespace ConcurrencyBench.SemaphoreQueue

open Interleaving

universe u v
variable {ι : Type u} {T : Type v}

/-- The channel act an event stands for. -/
def Event.act : Event T → Option (Channel.Act T)
  | .enqueued item => some (.send item)
  | .dequeued item => some (.receive item)
  | _ => none

/-- The insertions and removals of a log, in the order they happened. -/
def history (log : List (ι × Event T)) : List (Channel.Act T) := readAll Event.act log

/-- A `pop` that has decided to return false, or has found the queue empty after
its wake-up, or is back with false. -/
def Pc.gaveUp : Pc T → Bool
  | .pop .unlockFinished | .pop .unlockEmpty | .pop .wokenShutdown | .pop .wokenClosed
  | .pop .returnToken | .returned (.popped none) => true
  | _ => false

/-- A `pop` that has seen the queue empty and still holds the mutex. -/
def Pc.sawEmpty : Pc T → Bool
  | .pop .lockedShutdown | .pop .lockedClosed => true
  | _ => false

/-- No item is queued and none will be: nobody stands before the insertion, and
every producer still has a set flag to read. -/
structure Drained (c : Config ι T) : Prop where
  empty : c.q.queue = []
  quiet : ∀ i item, c.pcs i ≠ .push .enqueue item
  rejecting : c.q.closed = true ∨
    (c.q.shutdown = true ∧ ∀ i item, c.pcs i ≠ .push .lockedClosed item)

/-- What one move does to the FIFO and to the decisions about its end. -/
structure Ordering (i : ι) (q : Queue ι T) (pc : Pc T) (q' : Queue ι T) (pc' : Pc T)
    (events : List (Event T)) : Prop where
  content : (events.filterMap Event.act = [] ∧ q'.queue = q.queue) ∨
    (∃ item, events.filterMap Event.act = [.send item] ∧ pc = .push .enqueue item ∧
      q'.queue = q.queue ++ [item]) ∨
    (∃ item, events.filterMap Event.act = [.receive item] ∧ pc = .pop .front ∧
      q.queue = item :: q'.queue)
  commits : ∀ item, pc' = .push .enqueue item → pc = .push .lockedClosed item ∧
    q.closed = false
  checks : ∀ item, pc' = .push .lockedClosed item → q.shutdown = false
  saw : pc'.sawEmpty = true → q'.queue = [] ∨ pc.sawEmpty = true
  givesUp : pc'.gaveUp = true → pc.gaveUp = true ∨ (q' = q ∧ pc.locked = true ∧
    ((pc.sawEmpty = true ∧ (q.shutdown = true ∨ q.closed = true)) ∨
      (pc = .pop .front ∧ q.queue = [])))

section OneMove

variable {i : ι} {q q' : Queue ι T} {pc' : Pc T}

/-- A statement that logs no act on an item, and neither commits a producer nor decides anything
for a consumer, is in order. -/
theorem quiet_ordering {pc : Pc T} {events : List (Event T)}
    (content : events.filterMap Event.act = [] ∧ q'.queue = q.queue)
    (commits : ∀ item, pc' ≠ .push .enqueue item) (checks : ∀ item, pc' ≠ .push .lockedClosed item)
    (saw : pc'.sawEmpty = false) (gave : pc'.gaveUp = true → pc.gaveUp = true) :
    Ordering i q pc q' pc' events where
  content := .inl content
  commits item arrived := absurd arrived (commits item)
  checks item arrived := absurd arrived (checks item)
  saw seen := by
    rw [saw] at seen
    cases seen
  givesUp given := .inl (gave given)

/-- Every statement of `push` is in order. -/
theorem push_ordering {place : PushAt} {item : T} (moved : push i q item place = some (q', pc')) :
    Ordering i q (.push place item) q' pc' (observe (.push place item) pc') := by
  cases place with
  | entryShutdown | entryClosed | wokenShutdown | wokenClosed =>
    obtain ⟨rfl, rfl⟩ := Prod.mk.inj (Option.some.inj moved)
    split <;> exact quiet_ordering ⟨rfl, rfl⟩ nofun nofun rfl nofun
  | acquire =>
    obtain ⟨_, moved⟩ := Option.ite_none_right_eq_some.mp moved
    obtain ⟨rfl, rfl⟩ := Prod.mk.inj (Option.some.inj moved)
    exact quiet_ordering ⟨rfl, rfl⟩ nofun nofun rfl nofun
  | lock =>
    obtain ⟨_, rfl, rfl⟩ := lock_map_eq_some_iff.mp moved
    exact quiet_ordering ⟨rfl, rfl⟩ nofun nofun rfl nofun
  | lockedShutdown =>
    obtain ⟨rfl, rfl⟩ := Prod.mk.inj (Option.some.inj moved)
    split
    · exact quiet_ordering ⟨rfl, rfl⟩ nofun nofun rfl nofun
    · next clear =>
      exact {
        content := .inl ⟨rfl, rfl⟩
        commits := nofun
        checks := fun _ _ => Bool.not_eq_true _ ▸ clear
        saw := nofun
        givesUp := nofun }
  | lockedClosed =>
    obtain ⟨rfl, rfl⟩ := Prod.mk.inj (Option.some.inj moved)
    split
    · exact quiet_ordering ⟨rfl, rfl⟩ nofun nofun rfl nofun
    · next clear =>
      exact {
        content := .inl ⟨rfl, rfl⟩
        commits := by
          rintro _ ⟨⟩
          exact ⟨rfl, Bool.not_eq_true _ ▸ clear⟩
        checks := nofun
        saw := nofun
        givesUp := nofun }
  | returnSlot | lockedReturnSlot | unlockRejected | unlock | release =>
    obtain ⟨rfl, rfl⟩ := Prod.mk.inj (Option.some.inj moved)
    exact quiet_ordering ⟨rfl, rfl⟩ nofun nofun rfl nofun
  | enqueue =>
    obtain ⟨rfl, rfl⟩ := Prod.mk.inj (Option.some.inj moved)
    exact {
      content := .inr (.inl ⟨item, rfl, rfl, rfl⟩)
      commits := nofun
      checks := nofun
      saw := nofun
      givesUp := nofun }

/-- Every statement of `pop` is in order. -/
theorem pop_ordering {place : PopAt T} (moved : pop i q place = some (q', pc')) :
    Ordering i q (.pop place) q' pc' (observe (.pop place) pc') := by
  cases place with
  | lock | relock =>
    obtain ⟨_, rfl, rfl⟩ := lock_map_eq_some_iff.mp moved
    exact quiet_ordering ⟨rfl, rfl⟩ nofun nofun rfl nofun
  | empty =>
    obtain ⟨rfl, rfl⟩ := Prod.mk.inj (Option.some.inj moved)
    split
    · next empty =>
      exact {
        content := .inl ⟨rfl, rfl⟩
        commits := nofun
        checks := nofun
        saw := fun _ => .inl (List.isEmpty_iff.mp empty)
        givesUp := nofun }
    · exact quiet_ordering ⟨rfl, rfl⟩ nofun nofun rfl nofun
  | lockedShutdown =>
    obtain ⟨rfl, rfl⟩ := Prod.mk.inj (Option.some.inj moved)
    split
    · next set =>
      exact {
        content := .inl ⟨rfl, rfl⟩
        commits := nofun
        checks := nofun
        saw := nofun
        givesUp := fun _ => .inr ⟨rfl, rfl, .inl ⟨rfl, .inl set⟩⟩ }
    · exact {
        content := .inl ⟨rfl, rfl⟩
        commits := nofun
        checks := nofun
        saw := fun _ => .inr rfl
        givesUp := nofun }
  | lockedClosed =>
    obtain ⟨rfl, rfl⟩ := Prod.mk.inj (Option.some.inj moved)
    split
    · next set =>
      exact {
        content := .inl ⟨rfl, rfl⟩
        commits := nofun
        checks := nofun
        saw := nofun
        givesUp := fun _ => .inr ⟨rfl, rfl, .inl ⟨rfl, .inr set⟩⟩ }
    · exact quiet_ordering ⟨rfl, rfl⟩ nofun nofun rfl nofun
  | acquire =>
    obtain ⟨_, moved⟩ := Option.ite_none_right_eq_some.mp moved
    obtain ⟨rfl, rfl⟩ := Prod.mk.inj (Option.some.inj moved)
    exact quiet_ordering ⟨rfl, rfl⟩ nofun nofun rfl nofun
  | front =>
    obtain ⟨nothing, rfl, rfl⟩ | ⟨item, rest, queue, rfl, rfl⟩ := front_cases moved
    · exact {
        content := .inl ⟨rfl, rfl⟩
        commits := nofun
        checks := nofun
        saw := nofun
        givesUp := fun _ => .inr ⟨rfl, rfl, .inr ⟨rfl, nothing⟩⟩ }
    · exact {
        content := .inr (.inr ⟨item, rfl, rfl, queue⟩)
        commits := nofun
        checks := nofun
        saw := nofun
        givesUp := nofun }
  | unlock | release item | unlockTaken item =>
    obtain ⟨rfl, rfl⟩ := Prod.mk.inj (Option.some.inj moved)
    exact quiet_ordering ⟨rfl, rfl⟩ nofun nofun rfl nofun
  | unlockFinished | unlockEmpty | returnToken =>
    obtain ⟨rfl, rfl⟩ := Prod.mk.inj (Option.some.inj moved)
    exact quiet_ordering ⟨rfl, rfl⟩ nofun nofun rfl (fun _ => rfl)
  | wokenShutdown | wokenClosed =>
    obtain ⟨rfl, rfl⟩ := Prod.mk.inj (Option.some.inj moved)
    split <;> exact quiet_ordering ⟨rfl, rfl⟩ nofun nofun rfl (fun _ => rfl)

/-- Every statement of `close` is in order. -/
theorem close_ordering {place : CloseAt} (moved : close q place = some (q', pc')) :
    Ordering i q (.close place) q' pc' (observe (.close place) pc') := by
  cases place with
  | storeClosed =>
    obtain ⟨rfl, rfl⟩ := Prod.mk.inj (Option.some.inj moved)
    exact quiet_ordering ⟨rfl, rfl⟩ nofun nofun rfl nofun
  | wakeConsumers k =>
    rcases ite_eq_iff.mp moved with ⟨_, same⟩ | ⟨_, same⟩ <;>
      obtain ⟨rfl, rfl⟩ := Prod.mk.inj (Option.some.inj same) <;>
      exact quiet_ordering ⟨rfl, rfl⟩ nofun nofun rfl nofun

/-- Every statement of `shutdown` is in order. -/
theorem shutdown_ordering {place : ShutdownAt} (moved : shutdown q place = some (q', pc')) :
    Ordering i q (.shutdown place) q' pc' (observe (.shutdown place) pc') := by
  cases place with
  | storeShutdown | storeClosed =>
    obtain ⟨rfl, rfl⟩ := Prod.mk.inj (Option.some.inj moved)
    exact quiet_ordering ⟨rfl, rfl⟩ nofun nofun rfl nofun
  | wakeConsumers k | wakeProducers k =>
    rcases ite_eq_iff.mp moved with ⟨_, same⟩ | ⟨_, same⟩ <;>
      obtain ⟨rfl, rfl⟩ := Prod.mk.inj (Option.some.inj same) <;>
      exact quiet_ordering ⟨rfl, rfl⟩ nofun nofun rfl nofun

/-- A call is in order. -/
theorem call_ordering (pc : Pc T) (op : Op T) : Ordering i q pc q op.entry [.called op] := by
  cases op <;> exact quiet_ordering ⟨rfl, rfl⟩ nofun nofun rfl nofun

/-- Every move of a thread is in order. -/
theorem move_ordering {pc : Pc T} {events : List (Event T)} (moved : Move i q pc q' pc' events) :
    Ordering i q pc q' pc' events := by
  cases moved with
  | call op => exact call_ordering pc op
  | exec _ _ moved =>
    cases pc with
    | idle => simp [exec] at moved
    | push place item => exact push_ordering moved
    | pop place => exact pop_ordering moved
    | close place => exact close_ordering moved
    | shutdown place => exact shutdown_ordering moved
    | returned result => simp [exec] at moved

end OneMove

/-- The decisions of consumers in a state: one that still holds the mutex after
seeing no item is right, and one that has given up has drained the queue. -/
structure Decided (c : Config ι T) : Prop where
  saw : ∀ i, (c.pcs i).sawEmpty = true → c.q.queue = []
  gave : ∀ i, (c.pcs i).gaveUp = true → Drained c

section Run

variable [Fintype ι] [DecidableEq ι] {maxSize : ℕ}

omit [Fintype ι] in
/-- Once drained, a queue stays drained. An insertion needs a producer at its
insertion; reaching it needs both flags read as clear. -/
theorem drained_preserved : Preserved (step (ι := ι) (T := T)) Drained := by
  intro c label c' drained taken
  obtain ⟨i, q, pc, events, moved, rfl⟩ := step_move taken
  have ordering := move_ordering moved
  have accounts := move_accounts moved
  refine ⟨?_, ?_, ?_⟩
  · rcases ordering.content with ⟨_, same⟩ | ⟨item, _, standing, _⟩ | ⟨item, _, _, first⟩
    · exact same.trans drained.empty
    · exact absurd standing (drained.quiet i item)
    · rw [drained.empty] at first
      simp at first
  · rw [Function.forall_update_iff c.pcs fun _ p => ∀ item, p ≠ .push .enqueue item]
    refine ⟨fun item arrived => ?_, fun j _ => drained.quiet j⟩
    obtain ⟨standing, clear⟩ := ordering.commits item arrived
    rcases drained.rejecting with closed | ⟨_, nobody⟩
    · simp [closed] at clear
    · exact nobody i item standing
  · rcases drained.rejecting with closed | ⟨shut, nobody⟩
    · exact Or.inl (accounts.closed closed)
    · refine Or.inr ⟨accounts.shutdown shut, ?_⟩
      rw [Function.forall_update_iff c.pcs fun _ p => ∀ item, p ≠ .push .lockedClosed item]
      refine ⟨fun item arrived => ?_, fun j _ => nobody j⟩
      have clear := ordering.checks item arrived
      simp [shut] at clear

/-- Who has seen the queue empty holds the lock. -/
theorem locked_of_sawEmpty {pc : Pc T} (saw : pc.sawEmpty = true) : pc.locked = true := by
  cases pc with
  | pop place => cases place <;> simp_all [Pc.sawEmpty, Pc.locked]
  | _ => simp [Pc.sawEmpty] at saw

omit [DecidableEq ι] in
/-- A thread that sees no item while it holds the mutex, and a flag set, makes the
queue drained: the mutex keeps every producer away from its last check. -/
theorem drained_of_locked {c : Config ι T} (balanced : Balanced maxSize c) {i : ι}
    (locked : (c.pcs i).locked = true) (consumer : ∀ place item, c.pcs i ≠ .push place item)
    (empty : c.q.queue = []) (flag : c.q.shutdown = true ∨ c.q.closed = true) : Drained c := by
  have alone : ∀ place item, Pc.locked (.push place item : Pc T) = true →
      ∀ j, c.pcs j ≠ .push place item := by
    intro place item inside j standing
    have same : i = j := balanced.mutex.exclusive locked (by rw [standing]; exact inside)
    exact consumer place item (same ▸ standing)
  refine ⟨empty, fun j item => alone .enqueue item rfl j, ?_⟩
  rcases flag with shut | closed
  · exact Or.inr ⟨shut, fun j item => alone .lockedClosed item rfl j⟩
  · exact Or.inl closed

/-- Each step keeps the consumers' decisions right. Only a producer holding the
mutex adds an item, so a consumer holding it sees the truth. A consumer newly
giving up holds the mutex and has seen a flag set, or was woken on an empty queue. -/
theorem decided_step {c c' : Config ι T} {label : Label ι T} (balanced : Balanced maxSize c)
    (decided : Decided c) (taken : step c label = some c') : Decided c' := by
  have persists : Drained c → Drained c' := fun drained =>
    drained_preserved c label c' drained taken
  obtain ⟨i, q, pc, events, moved, rfl⟩ := step_move taken
  have ordering := move_ordering moved
  have stays : c.q.queue = [] → (∀ item, c.pcs i ≠ .push .enqueue item) → q.queue = [] := by
    intro empty elsewhere
    rcases ordering.content with ⟨_, same⟩ | ⟨item, _, standing, _⟩ | ⟨item, _, _, first⟩
    · exact same.trans empty
    · exact absurd standing (elsewhere item)
    · rw [empty] at first
      simp at first
  refine ⟨?_, ?_⟩
  · rw [Function.forall_update_iff c.pcs fun _ p => p.sawEmpty = true → q.queue = []]
    refine ⟨fun saw => ?_, fun j other saw => stays (decided.saw j saw) fun item standing => ?_⟩
    · rcases ordering.saw saw with empty | before
      · exact empty
      · refine stays (decided.saw i before) fun item standing => ?_
        simp [standing, Pc.sawEmpty] at before
    · exact other (balanced.mutex.exclusive (locked_of_sawEmpty saw)
        (by rw [standing]; rfl))
  · rw [Function.forall_update_iff c.pcs fun _ p => p.gaveUp = true → _]
    refine ⟨fun gave => ?_, fun j _ gave => persists (decided.gave j gave)⟩
    rcases ordering.givesUp gave with before | ⟨rfl, locked, reason⟩
    · exact persists (decided.gave i before)
    · apply persists
      rcases reason with ⟨saw, flag⟩ | ⟨front, empty⟩
      · refine drained_of_locked balanced locked (fun place item standing => ?_)
          (decided.saw i saw) flag
        simp [standing, Pc.sawEmpty] at saw
      · have closed := closed_of_empty_wake balanced i (by simp [front, tokensInHand]) empty
        exact drained_of_locked balanced locked (by simp [front]) empty (Or.inr closed)

/-- What was decided is right in every reachable state. -/
theorem reachable_decided {c : Config ι T} (reached : Reachable maxSize c) : Decided c := by
  have kept : Preserved step fun c : Config ι T => Balanced maxSize c ∧ Decided c :=
    (balanced_preserved maxSize).and fun _ _ _ balanced decided taken =>
      decided_step balanced decided taken
  have start : Decided (Config.init maxSize : Config ι T) :=
    ⟨by simp [Config.init, Pc.sawEmpty], by simp [Config.init, Pc.gaveUp]⟩
  exact (kept.reaches ⟨balanced_init maxSize, start⟩ reached).2

omit [Fintype ι] [DecidableEq ι] in
/-- The history, with some more events. -/
theorem history_append (log : List (ι × Event T)) (i : ι) (events : List (Event T)) :
    history (log ++ events.map (i, ·)) = history log ++ events.filterMap Event.act :=
  readAll_append Event.act log i events

/-- The channel a reachable state stands for. -/
def Config.channel (c : Config ι T) (reached : Reachable maxSize c) : Channel T maxSize where
  items := c.q.queue
  within := (Nat.le_add_right _ _).trans (reachable_committed reached)
  ended := Drained c
  drained := Drained.empty

/-- Every step of the program is an act of its channel or a quiet step, and the
log gains exactly that act. -/
theorem step_refines {c c' : Config ι T} {label : Label ι T} (reached : Reachable maxSize c)
    (taken : step c label = some c') :
    (history c'.log = history c.log ∧
      Channel.Quiet (c.channel reached) (c'.channel (reached.tail taken))) ∨
    (∃ act, history c'.log = history c.log ++ [act] ∧
      Channel.Step (c.channel reached) act (c'.channel (reached.tail taken))) := by
  have persists : Drained c → Drained c' := fun drained =>
    drained_preserved c label c' drained taken
  obtain ⟨i, q, pc, events, moved, rfl⟩ := step_move taken
  rw [history_append]
  rcases (move_ordering moved).content with
    ⟨none, same⟩ | ⟨item, send, standing, last⟩ | ⟨item, receive, _, first⟩
  · exact Or.inl ⟨by simp [none], same, persists⟩
  · have before : ¬ Drained c := fun drained => drained.quiet i item standing
    refine Or.inr ⟨.send item, by rw [send], before, last, fun after => ?_, persists⟩
    have empty : q.queue = [] := after.empty
    simp [last] at empty
  · exact Or.inr ⟨.receive item, by rw [receive], first, persists⟩

/-- A run of the program is a trace of its channel, whose acts are what the run
adds to the log's history. -/
theorem run_refines {c c' : Config ι T} (reached : Reachable maxSize c)
    (onward : Reaches step c c') : ∃ (reached' : Reachable maxSize c') (acts : List (Channel.Act T)),
      history c'.log = history c.log ++ acts ∧
        Channel.Trace (c.channel reached) acts (c'.channel reached') := by
  have kept : Preserved step fun d : Config ι T =>
      ∃ (reached' : Reachable maxSize d) (acts : List (Channel.Act T)),
        history d.log = history c.log ++ acts ∧
          Channel.Trace (c.channel reached) acts (d.channel reached') := by
    rintro d label d' ⟨reached', acts, logged, trace⟩ taken
    refine ⟨reached'.tail taken, ?_⟩
    rcases step_refines reached' taken with ⟨same, quiet⟩ | ⟨act, more, acted⟩
    · exact ⟨acts, same.trans logged, trace.quiet quiet⟩
    · refine ⟨acts ++ [act], ?_, trace.act act acted⟩
      rw [more, logged, List.append_assoc]
  exact kept.reaches ⟨reached, [], by simp, Channel.Trace.start _⟩ onward

/-- In every reachable state the items removed so far, followed by the queue's
content, are the items inserted so far, in order. -/
theorem reachable_fifo {c : Config ι T} (reached : Reachable maxSize c) :
    Channel.received (history c.log) ++ c.q.queue = Channel.sent (history c.log) := by
  obtain ⟨_, acts, logged, trace⟩ := run_refines (Reaches.refl (Config.init maxSize)) reached
  have all : history c.log = acts := by simpa [Config.init, history, readAll] using logged
  simpa [all, Config.channel, Config.init, Queue.make] using trace.conserves

/-- Once a consumer has given up, the queue is empty in every later state and
nothing is inserted any more. -/
theorem drained_for_good {c c' : Config ι T} (reached : Reachable maxSize c)
    (drained : Drained c) (onward : Reaches step c c') :
    c'.q.queue = [] ∧ Channel.sent (history c'.log) = Channel.received (history c.log) := by
  obtain ⟨_, acts, logged, trace⟩ := run_refines reached onward
  obtain ⟨still, none⟩ := trace.final drained
  have order := reachable_fifo reached
  rw [drained.empty, List.append_nil] at order
  exact ⟨Drained.empty still, by rw [logged, none, List.append_nil, order]⟩

end Run

/-- The events of a thread since its latest call began. -/
def latestCall [DecidableEq ι] (i : ι) (log : List (ι × Event T)) : List (Event T) :=
  log.foldl (fun events entry =>
    if entry.1 = i then
      match entry.2 with
      | .called _ => []
      | event => events ++ [event]
    else events) []

/-- What the call a thread is in, or back from, has logged by its position. -/
def callSoFar : Pc T → List (Event T)
  | .push .unlock item | .push .release item => [.enqueued item]
  | .pop (.release item) | .pop (.unlockTaken item) => [.dequeued item]
  | .returned (.pushed item true) => [.enqueued item, .returned (.pushed item true)]
  | .returned (.popped (some item)) => [.dequeued item, .returned (.popped (some item))]
  | .returned result => [.returned result]
  | _ => []

/-- No statement logs a call. -/
theorem called_notMem_observe (pc pc' : Pc T) (op : Op T) : .called op ∉ observe pc pc' := by
  unfold observe
  split <;> simp

/-- A statement of `push` extends the account of its call by what it logs. -/
theorem push_callSoFar {i : ι} {q q' : Queue ι T} {pc' : Pc T} {place : PushAt} {item : T}
    (moved : push i q item place = some (q', pc')) :
    callSoFar pc' = callSoFar (.push place item) ++ observe (.push place item) pc' := by
  cases place with
  | entryShutdown | entryClosed | wokenShutdown | wokenClosed | lockedShutdown | lockedClosed =>
    obtain ⟨rfl, rfl⟩ := Prod.mk.inj (Option.some.inj moved)
    split <;> rfl
  | acquire =>
    obtain ⟨_, moved⟩ := Option.ite_none_right_eq_some.mp moved
    obtain ⟨rfl, rfl⟩ := Prod.mk.inj (Option.some.inj moved)
    rfl
  | lock =>
    obtain ⟨_, rfl, rfl⟩ := lock_map_eq_some_iff.mp moved
    rfl
  | _ =>
    obtain ⟨rfl, rfl⟩ := Prod.mk.inj (Option.some.inj moved)
    rfl

/-- A statement of `pop` extends the account of its call by what it logs. -/
theorem pop_callSoFar {i : ι} {q q' : Queue ι T} {pc' : Pc T} {place : PopAt T}
    (moved : pop i q place = some (q', pc')) :
    callSoFar pc' = callSoFar (.pop place) ++ observe (.pop place) pc' := by
  cases place with
  | empty | lockedShutdown | lockedClosed | wokenShutdown | wokenClosed =>
    obtain ⟨rfl, rfl⟩ := Prod.mk.inj (Option.some.inj moved)
    split <;> rfl
  | lock | relock =>
    obtain ⟨_, rfl, rfl⟩ := lock_map_eq_some_iff.mp moved
    rfl
  | acquire =>
    obtain ⟨_, moved⟩ := Option.ite_none_right_eq_some.mp moved
    obtain ⟨rfl, rfl⟩ := Prod.mk.inj (Option.some.inj moved)
    rfl
  | front =>
    obtain ⟨_, rfl, rfl⟩ | ⟨_, _, _, rfl, rfl⟩ := front_cases moved <;> rfl
  | _ =>
    obtain ⟨rfl, rfl⟩ := Prod.mk.inj (Option.some.inj moved)
    rfl

/-- A statement of `close` extends the account of its call by what it logs. -/
theorem close_callSoFar {q q' : Queue ι T} {pc' : Pc T} {place : CloseAt}
    (moved : close q place = some (q', pc')) :
    callSoFar pc' = callSoFar (.close place) ++ observe (.close place) pc' := by
  cases place with
  | storeClosed =>
    obtain ⟨rfl, rfl⟩ := Prod.mk.inj (Option.some.inj moved)
    rfl
  | wakeConsumers k =>
    rw [close] at moved
    split at moved <;> obtain ⟨rfl, rfl⟩ := Prod.mk.inj (Option.some.inj moved) <;> rfl

/-- A statement of `shutdown` extends the account of its call by what it logs. -/
theorem shutdown_callSoFar {q q' : Queue ι T} {pc' : Pc T} {place : ShutdownAt}
    (moved : shutdown q place = some (q', pc')) :
    callSoFar pc' = callSoFar (.shutdown place) ++ observe (.shutdown place) pc' := by
  cases place with
  | storeShutdown | storeClosed =>
    obtain ⟨rfl, rfl⟩ := Prod.mk.inj (Option.some.inj moved)
    rfl
  | wakeConsumers k | wakeProducers k =>
    rw [shutdown] at moved
    split at moved <;> obtain ⟨rfl, rfl⟩ := Prod.mk.inj (Option.some.inj moved) <;> rfl

/-- One move either begins a call, whose account is then empty, or extends the
account of the call in progress by what it logs. -/
theorem move_callSoFar {i : ι} {q q' : Queue ι T} {pc pc' : Pc T} {events : List (Event T)}
    (moved : Move i q pc q' pc' events) :
    (∃ op, events = [.called op] ∧ callSoFar pc' = []) ∨
      ((∀ op, .called op ∉ events) ∧ callSoFar pc' = callSoFar pc ++ events) := by
  cases moved with
  | call op => exact .inl ⟨op, rfl, by cases op <;> rfl⟩
  | exec _ _ moved =>
    refine .inr ⟨called_notMem_observe pc pc', ?_⟩
    cases pc with
    | idle | returned => cases moved
    | push place item => exact push_callSoFar moved
    | pop place => exact pop_callSoFar moved
    | close place => exact close_callSoFar moved
    | shutdown place => exact shutdown_callSoFar moved

section Calls

variable [DecidableEq ι] {maxSize : ℕ}

/-- Another thread's events are no part of a thread's latest call. -/
theorem latestCall_other {i j : ι} (other : i ≠ j) (log : List (ι × Event T))
    (events : List (Event T)) :
    latestCall j (log ++ events.map (i, ·)) = latestCall j log := by
  induction events generalizing log with
  | nil => simp
  | cons event rest inductionHypothesis =>
    rw [List.map_cons, List.append_cons, inductionHypothesis]
    simp [latestCall, other]

/-- A new call has had no answer. -/
theorem latestCall_called (i : ι) (log : List (ι × Event T)) (op : Op T) :
    latestCall i (log ++ [Event.called op].map (i, ·)) = [] := by
  simp [latestCall]

/-- Events other than the beginning of a call extend the latest call. -/
theorem latestCall_extends (i : ι) (log : List (ι × Event T)) (events : List (Event T))
    (within : ∀ op, .called op ∉ events) :
    latestCall i (log ++ events.map (i, ·)) = latestCall i log ++ events := by
  induction events generalizing log with
  | nil => simp
  | cons event rest inductionHypothesis =>
    simp only [List.mem_cons, not_or] at within
    rw [List.map_cons, List.append_cons, inductionHypothesis _ fun op => (within op).2]
    have last : latestCall i (log ++ [(i, event)]) = latestCall i log ++ [event] := by
      cases event with
      | called op => exact absurd rfl (within op).1
      | _ => simp [latestCall]
    rw [last, List.append_assoc, List.singleton_append]

/-- A thread's position tells what its latest call has logged. -/
theorem reachable_latestCall {c : Config ι T} (reached : Reachable maxSize c) :
    ∀ i, latestCall i c.log = callSoFar (c.pcs i) := by
  have kept : Preserved step fun c : Config ι T =>
      ∀ i, latestCall i c.log = callSoFar (c.pcs i) := by
    intro c label c' told taken
    obtain ⟨i, q, pc, events, moved, rfl⟩ := step_move taken
    rw [Function.forall_update_iff c.pcs fun j p =>
      latestCall j (c.log ++ events.map (i, ·)) = callSoFar p]
    refine ⟨?_, fun j other => (latestCall_other other.symm c.log events).trans (told j)⟩
    rcases move_callSoFar moved with ⟨op, rfl, none⟩ | ⟨within, more⟩
    · rw [latestCall_called, none]
    · rw [latestCall_extends i c.log events within, told i, more]
  exact kept.reaches (fun i => rfl) reached

variable [Fintype ι]

/-- No accepted item is stranded, lost, duplicated or reordered. Items leave in
the order they were inserted. A push that is back inserted its item once if it
returned true and nothing otherwise; a pop that is back removed exactly what it
handed out. Once a pop has given up, the queue is empty for good and every item
ever inserted had been removed by then, whatever closed the queue and whenever. -/
theorem accepted_items_delivered (maxSize : ℕ) (c : Config ι T)
    (reached : Reachable maxSize c) :
    Channel.received (history c.log) ++ c.q.queue = Channel.sent (history c.log) ∧
    (∀ i item accepted, c.pcs i = .returned (.pushed item accepted) →
      Channel.sent ((latestCall i c.log).filterMap Event.act) = if accepted then [item] else []) ∧
    (∀ i item, c.pcs i = .returned (.popped item) →
      Channel.received ((latestCall i c.log).filterMap Event.act) = item.toList) ∧
    (∀ i, (c.pcs i).gaveUp = true → ∀ c', Reaches step c c' → c'.q.queue = [] ∧
      Channel.sent (history c'.log) = Channel.received (history c.log)) := by
  have told := reachable_latestCall reached
  refine ⟨reachable_fifo reached, ?_, ?_, ?_⟩
  · intro i item accepted back
    rw [told i, back]
    cases accepted <;> simp [callSoFar, Event.act, Channel.sent]
  · intro i item back
    rw [told i, back]
    cases item <;> simp [callSoFar, Event.act, Channel.received]
  · intro i gave c' onward
    exact drained_for_good reached ((reachable_decided reached).gave i gave) onward

/-- One thread pushes an item, takes it back, closes the queue and gives up. -/
theorem accepted_items_delivered_one : ∃ c : Config (Fin 1) ℕ, Reachable 1 c ∧
    c.pcs 0 = .returned (.popped none) ∧ Channel.received (history c.log) = [7] ∧
    ∀ c', Reaches step c c' → c'.q.queue = [] := by
  let schedule : List (Label (Fin 1) ℕ) :=
    [[.call 0 (.push 7)], List.replicate 11 (.go 0), [.call 0 .pop], List.replicate 8 (.go 0),
      [.call 0 .close], List.replicate 4 (.go 0), [.call 0 .pop], List.replicate 5 (.go 0)].flatten
  have played : (run step (Config.init 1) schedule).map
      (fun c => (c.pcs 0, Channel.received (history c.log))) =
        some (.returned (.popped none), [7]) := rfl
  obtain ⟨c, reached, final⟩ := Option.map_eq_some_iff.mp played
  obtain ⟨returned, received⟩ := Prod.mk.inj final
  refine ⟨c, ⟨schedule, reached⟩, returned, received, fun c' onward => ?_⟩
  have gave : (c.pcs 0).gaveUp = true := by rw [returned]; rfl
  exact ((accepted_items_delivered 1 c ⟨schedule, reached⟩).2.2.2 0 gave c' onward).1

end Calls

end ConcurrencyBench.SemaphoreQueue
