import ConcurrencyBench.Iterations
import ConcurrencyBench.SemaphoreDelivery
import ConcurrencyBench.VarianceTracker

/-!
# Producers and consumers with trackers

One iteration of `ProducerConsumer_MPMC_Semaphore` is a session over a semaphore queue in
which every thread keeps books. A producer records each push that has returned true before
it makes its next call. A consumer counts each item it has been handed and then records it.
The main thread is the closer of the session: it joins the producers, closes the queue,
joins the consumers, and after that calls `shutdown`, which finds nobody at the queue.

A thread with nothing to enter in the books takes the steps of the session. So an
iteration is a run of the session until the main thread has joined the consumers, and each
book says how many of its thread's calls have returned true.
-/

namespace ConcurrencyBench.ProducerConsumerMPMC

open Interleaving SemaphoreQueue SemaphoreSession

variable {P C : ℕ}

/-- What a thread has to do before its next call. -/
inductive Owed
  | nothing | fetchAdd | record
deriving DecidableEq

/-- What a thread has to do when its call stands here. -/
def owed : Pc ℤ → Owed
  -- if (!queue.push(item)) break; producer_tracker.record_operation(producer_id);
  | .returned (.pushed _ true) => .record
  -- while (queue.pop(item)) { items_consumed.fetch_add(1, std::memory_order_relaxed);
  | .returned (.popped (some _)) => .fetchAdd
  | _ => .nothing

/-- Where the main thread is: with its team, in `shutdown`, or past it. -/
inductive MainAt
  | session | shutdown | finished
deriving DecidableEq

/-- The session and what its threads keep beside it. -/
structure Config (P C : ℕ) where
  session : Session P C ℤ
  owes : Role P C → Owed
  itemsConsumed : ℕ
  producerTracker : VarianceTracker P
  consumerTracker : VarianceTracker C
  main : MainAt

/-- A fresh iteration with this capacity and these items for each producer. -/
def Config.init (maxSize : ℕ) (items : Fin P → List ℤ) : Config P C where
  session := Session.init maxSize items
  owes _ := .nothing
  itemsConsumed := 0
  producerTracker := .make P
  consumerTracker := .make C
  main := .session

/-- A thread that is joined, or about to call, has nothing left to do. -/
def Config.settled (c : Config P C) : Role P C → Prop
  -- for (auto& producer : producers) producer.join();
  | .closer => ∀ p, c.owes (.producer p) = .nothing
  | role => c.owes role = .nothing

instance (c : Config P C) : DecidablePred c.settled
  | .producer p => inferInstanceAs (Decidable (c.owes (.producer p) = .nothing))
  | .consumer k => inferInstanceAs (Decidable (c.owes (.consumer k) = .nothing))
  | .closer => inferInstanceAs (Decidable (∀ p, c.owes (.producer p) = .nothing))

/-- The next entry of a thread in the books. -/
def keepBooks (c : Config P C) (role : Role P C) : Option (Config P C) :=
  match role, c.owes role with
  -- producer_tracker.record_operation(producer_id);
  | .producer p, .record =>
    some { c with
      owes := Function.update c.owes (.producer p) .nothing
      producerTracker := c.producerTracker.recordOperation p }
  -- items_consumed.fetch_add(1, std::memory_order_relaxed);
  | .consumer k, .fetchAdd =>
    some { c with
      owes := Function.update c.owes (.consumer k) .record
      itemsConsumed := c.itemsConsumed + 1 }
  -- consumer_tracker.record_operation(consumer_id);
  | .consumer k, .record =>
    some { c with
      owes := Function.update c.owes (.consumer k) .nothing
      consumerTracker := c.consumerTracker.recordOperation k }
  | _, _ => none

/-- The consumer has left its loop. -/
def leftLoop : Pc ℤ → Bool
  | .returned (.popped none) => true
  | _ => false

/-- The closer has returned from `close`. -/
def closeReturned : Pc ℤ → Bool
  | .returned .closed => true
  | _ => false

/-- The main thread after `close`. -/
def finish (c : Config P C) : Option (Config P C) :=
  match c.main with
  -- for (auto& consumer : consumers) consumer.join(); queue.shutdown();
  | .session =>
    if closeReturned (c.session.core.pcs .closer) = true ∧
        ∀ k, leftLoop (c.session.core.pcs (.consumer k)) = true ∧
          c.owes (.consumer k) = .nothing then
      (SemaphoreQueue.step c.session.core (.call .closer .shutdown)).map fun core =>
        { c with session := ⟨core, c.session.todo⟩, main := .shutdown }
    else none
  | .shutdown =>
    match c.session.core.pcs .closer with
    | .returned _ => some { c with main := .finished }
    | _ => (SemaphoreQueue.step c.session.core (.go .closer)).map fun core =>
        { c with session := ⟨core, c.session.todo⟩ }
  | .finished => none

/-- A schedule lets a thread make its next call, go on with the one it is in, or keep its
books, or lets the main thread finish. -/
inductive Label (P C : ℕ)
  | call (role : Role P C)
  | go (role : Role P C)
  | keepBooks (role : Role P C)
  | finish

/-- One step of an iteration. -/
def step (c : Config P C) : Label P C → Option (Config P C)
  | .call role =>
    if c.main = .session ∧ c.settled role then
      (SemaphoreSession.step true c.session (.call role)).map fun session => { c with session }
    else none
  | .go role =>
    if c.main = .session then
      (SemaphoreSession.step true c.session (.go role)).map fun session =>
        { c with
          session
          owes := Function.update c.owes role (owed (session.core.pcs role)) }
    else none
  | .keepBooks role => if c.main = .session then keepBooks c role else none
  | .finish => finish c

/-- What one step of an iteration is: one of the session, an entry in a book, or one of the
main thread after the session. -/
inductive Turn (c : Config P C) : Config P C → Prop
  | call (role : Role P C) (session : Session P C ℤ) (standing : c.main = .session)
      (settled : c.settled role)
      (moved : SemaphoreSession.step true c.session (.call role) = some session) :
      Turn c { c with session }
  | go (role : Role P C) (session : Session P C ℤ) (standing : c.main = .session)
      (moved : SemaphoreSession.step true c.session (.go role) = some session) :
      Turn c { c with
        session
        owes := Function.update c.owes role (owed (session.core.pcs role)) }
  | produced (p : Fin P) (standing : c.main = .session) (owes : c.owes (.producer p) = .record) :
      Turn c { c with
        owes := Function.update c.owes (.producer p) .nothing
        producerTracker := c.producerTracker.recordOperation p }
  | counted (k : Fin C) (standing : c.main = .session) (owes : c.owes (.consumer k) = .fetchAdd) :
      Turn c { c with
        owes := Function.update c.owes (.consumer k) .record
        itemsConsumed := c.itemsConsumed + 1 }
  | consumed (k : Fin C) (standing : c.main = .session) (owes : c.owes (.consumer k) = .record) :
      Turn c { c with
        owes := Function.update c.owes (.consumer k) .nothing
        consumerTracker := c.consumerTracker.recordOperation k }
  | joined (core : SemaphoreQueue.Config (Role P C) ℤ) (standing : c.main = .session)
      (closed : closeReturned (c.session.core.pcs .closer) = true)
      (left : ∀ k, leftLoop (c.session.core.pcs (.consumer k)) = true ∧
        c.owes (.consumer k) = .nothing)
      (moved : SemaphoreQueue.step c.session.core (.call .closer .shutdown) = some core) :
      Turn c { c with session := ⟨core, c.session.todo⟩, main := .shutdown }
  | shutdown (core : SemaphoreQueue.Config (Role P C) ℤ) (standing : c.main = .shutdown)
      (moved : SemaphoreQueue.step c.session.core (.go .closer) = some core) :
      Turn c { c with session := ⟨core, c.session.todo⟩ }
  | finished (standing : c.main = .shutdown) : Turn c { c with main := .finished }

/-- Keeping books is a turn while the session lasts. -/
theorem keepBooks_turn {c c' : Config P C} {role : Role P C} (standing : c.main = .session)
    (taken : keepBooks c role = some c') : Turn c c' := by
  unfold keepBooks at taken
  split at taken
  next p owes => exact Option.some.inj taken ▸ .produced p standing owes
  next k owes => exact Option.some.inj taken ▸ .counted k standing owes
  next k owes => exact Option.some.inj taken ▸ .consumed k standing owes
  next => simp at taken

/-- Whatever the main thread does to finish is a turn. -/
theorem finish_turn {c c' : Config P C} (taken : finish c = some c') : Turn c c' := by
  cases standing : c.main with
  | session =>
    simp only [finish, standing, Option.ite_none_right_eq_some, Option.map_eq_some_iff] at taken
    obtain ⟨⟨closed, left⟩, core, moved, rfl⟩ := taken
    exact .joined core standing closed left moved
  | shutdown =>
    simp only [finish, standing] at taken
    split at taken
    · obtain rfl := Option.some.inj taken
      exact .finished standing
    · obtain ⟨core, moved, rfl⟩ := Option.map_eq_some_iff.mp taken
      have turn := Turn.shutdown core standing moved
      rwa [standing] at turn
  | finished => simp [finish, standing] at taken

/-- Every step is a turn. -/
theorem step_turn {c c' : Config P C} {label : Label P C} (taken : step c label = some c') :
    Turn c c' := by
  cases label with
  | call role =>
    simp only [step, Option.ite_none_right_eq_some, Option.map_eq_some_iff] at taken
    obtain ⟨⟨standing, settled⟩, session, moved, rfl⟩ := taken
    exact .call role session standing settled moved
  | go role =>
    simp only [step, Option.ite_none_right_eq_some, Option.map_eq_some_iff] at taken
    obtain ⟨standing, session, moved, rfl⟩ := taken
    exact .go role session standing moved
  | keepBooks role =>
    simp only [step, Option.ite_none_right_eq_some] at taken
    exact keepBooks_turn taken.1 taken.2
  | finish => exact finish_turn taken

/-- `static_cast<int>(producer_id * items_per_producer + j)`, for each `j` -/
def items (quota : ℕ) (p : Fin P) : List ℤ :=
  (List.range quota).map fun j => Int.bmod (p * quota + j) (2 ^ 32)

/-- Every state some interleaving of an iteration leads to. -/
def Reachable (quota : ℕ) (c : Config P C) : Prop :=
  -- SemaphoreQueue<int> queue(50);
  Reaches step (Config.init 50 (items quota)) c

/-- What the benchmark publishes. -/
structure Report where
  producerFairness : ℚ
  consumerFairness : ℚ

/-- What an iteration leaves in `last_producer_fairness` and `last_consumer_fairness`, in an
arithmetic that rounds. -/
def result (fl : Fairness.Rounding) (c : Config P C) : Option Report :=
  match c.main with
  | .finished =>
    some ⟨c.producerTracker.roundedCoefficient fl, c.consumerTracker.roundedCoefficient fl⟩
  | _ => none

/-- A result is that of an iteration that has finished. -/
theorem result_eq_some_iff (fl : Fairness.Rounding) (c : Config P C) (report : Report) :
    result fl c = some report ↔ c.main = .finished ∧
      ⟨c.producerTracker.roundedCoefficient fl, c.consumerTracker.roundedCoefficient fl⟩ =
        report := by
  cases standing : c.main <;> simp [result, standing]

/-- `num_producers` -/
def numProducers (numThreads : ℕ) : ℕ := numThreads / 2

/-- `num_consumers` -/
def numConsumers (numThreads : ℕ) : ℕ := numThreads - numProducers numThreads

/-- The benchmark is skipped without a report. -/
def Skipped (numThreads : ℕ) : Prop := numProducers numThreads = 0 ∨ numConsumers numThreads = 0

/-- A report of the benchmark, which the framework lets iterate this often. -/
def Publishes (fl : Fairness.Rounding) (numThreads quota total : ℕ) (report : Report) : Prop :=
  -- if (num_producers == 0 || num_consumers == 0) { state.SkipWithError(...); return; }
  ¬ Skipped numThreads ∧ ∃ last,
    Reaches (iterate step (Config.init 50 (items quota) :
        Config (numProducers numThreads) (numConsumers numThreads)) (result fl) total)
      (.between 0 none) (.passed last) ∧ report = last.getD ⟨0, 0⟩

/-! ## What the books say -/

/-- The entries still to be made in a tracker. -/
def Owed.due : Owed → ℕ
  | .nothing => 0
  | .fetchAdd | .record => 1

/-- While the session runs, each book says how many calls have returned true, and a thread
has entries to make only between its calls. -/
structure Running (maxSize : ℕ) (items : Fin P → List ℤ) (c : Config P C) : Prop where
  reached : SemaphoreSession.Reachable true maxSize items c.session
  resting : ∀ role, c.owes role ≠ .nothing → (c.session.core.pcs role).atRest = true
  closer : c.owes .closer = .nothing
  producers : ∀ p, c.owes (.producer p) ≠ .fetchAdd
  produced : ∀ p, c.producerTracker.threadCounts p + (c.owes (.producer p)).due =
    (c.session.acceptedFrom p).length
  consumed : ∀ k, c.consumerTracker.threadCounts k + (c.owes (.consumer k)).due =
    (c.session.takenBy k).length
  joined : c.session.core.pcs .closer ≠ .idle → ∀ p, c.owes (.producer p) = .nothing

/-- Once the main thread has joined everybody, the books are complete. -/
structure Complete (items : Fin P → List ℤ) (c : Config P C) : Prop where
  produced : ∀ p, c.producerTracker.threadCounts p = (items p).length
  consumed : ∑ k, c.consumerTracker.threadCounts k = ∑ p, (items p).length
  closer : (c.session.core.pcs .closer).kind = some .shutdown

/-- What holds in each stage of an iteration. -/
def Sound (maxSize : ℕ) (items : Fin P → List ℤ) (c : Config P C) : Prop :=
  match c.main with
  | .session => Running maxSize items c
  | .shutdown | .finished => Complete items c

section OneCall

variable {i : Role P C} {q q' : Queue (Role P C) ℤ} {pc pc' : Pc ℤ}

/-- Who owes the books something is in no call. -/
theorem atRest_of_owed (entry : owed pc ≠ .nothing) : pc.atRest = true := by
  cases pc with
  | returned => rfl
  | _ => exact absurd rfl entry

/-- An entry is due for each result of a kind that the thread has just returned, and for
nothing else that it logs. -/
theorem length_filterMap {value : Event ℤ → Option ℤ} {kind : Kind}
    (results : ∀ result, result.kind = kind →
      ([.returned result].filterMap value).length = (owed (.returned result)).due)
    (only : ∀ event, (∀ result, event ≠ .returned result) → value event = none)
    (moved : exec i q pc = some (q', pc')) (own : pc.kind = some kind) :
    ((observe pc pc').filterMap value).length = (owed pc').due := by
  cases rest : pc'.atRest with
  | true =>
    obtain ⟨result, rfl, logged⟩ := observe_of_atRest moved rest
    have kinds : some result.kind = some kind := (exec_contribution moved).kind.trans own
    rw [logged]
    exact results result (Option.some.inj kinds)
  | false =>
    have nothing : owed pc' = .nothing := by
      by_contra entry
      simp [atRest_of_owed entry] at rest
    have silent : (observe pc pc').filterMap value = [] := by
      rw [List.filterMap_eq_nil_iff]
      intro event member
      refine only event fun result same => ?_
      exact observe_of_not_atRest rest result (same ▸ member)
    rw [silent, nothing]
    rfl

/-- A push that returns true is one to record. -/
theorem accepted_length (moved : exec i q pc = some (q', pc')) (own : pc.kind = some .push) :
    ((observe pc pc').filterMap Event.accepted).length = (owed pc').due := by
  refine length_filterMap (fun result kind => ?_) (fun event other => ?_) moved own
  · cases result with
    | pushed item accepted => cases accepted <;> rfl
    | _ => simp [Result.kind] at kind
  · cases event with
    | returned result => exact absurd rfl (other result)
    | _ => rfl

/-- A pop that returns true is one to count and record. -/
theorem handedOut_length (moved : exec i q pc = some (q', pc')) (own : pc.kind = some .pop) :
    ((observe pc pc').filterMap Event.handedOut).length = (owed pc').due := by
  refine length_filterMap (fun result kind => ?_) (fun event other => ?_) moved own
  · cases result with
    | popped item => cases item <;> rfl
    | _ => simp [Result.kind] at kind
  · cases event with
    | returned result => exact absurd rfl (other result)
    | _ => rfl

/-- Only those who push and pop have entries to make. -/
theorem kind_of_owed (entry : owed pc ≠ .nothing) : pc.kind = some .push ∨ pc.kind = some .pop := by
  cases pc with
  | returned result =>
    cases result with
    | pushed => exact Or.inl rfl
    | popped => exact Or.inr rfl
    | _ => exact absurd rfl entry
  | _ => exact absurd rfl entry

/-- A producer counts no items. -/
theorem owed_of_push (kind : pc.kind = some .push) : owed pc ≠ .fetchAdd := by
  cases pc with
  | returned result =>
    cases result with
    | pushed item accepted => cases accepted <;> simp [owed]
    | _ => simp [Pc.kind, Result.kind] at kind
  | _ => simp [owed]

end OneCall

section Session

variable {maxSize : ℕ} {items : Fin P → List ℤ} {s s' : Session P C ℤ} {role : Role P C}

/-- A call is made by a role at rest, and only enters its operation. -/
theorem step_call (taken : SemaphoreSession.step true s (.call role) = some s') :
    ∃ op todo, (s.core.pcs role).atRest = true ∧
      s' = ⟨⟨s.core.q, Function.update s.core.pcs role op.entry,
        s.core.log ++ [Event.called op].map (role, ·)⟩, todo⟩ := by
  simp only [SemaphoreSession.step, SemaphoreQueue.step, Option.bind_eq_some_iff,
    Option.map_eq_some_iff, Option.ite_none_right_eq_some, Option.some.injEq] at taken
  obtain ⟨⟨op, todo⟩, _, core, ⟨rest, rfl⟩, rfl⟩ := taken
  exact ⟨op, todo, rest, rfl⟩

/-- A role that goes on executes its next statement. -/
theorem step_go (taken : SemaphoreSession.step true s (.go role) = some s') :
    ∃ q pc, exec role s.core.q (s.core.pcs role) = some (q, pc) ∧
      s' = ⟨⟨q, Function.update s.core.pcs role pc,
        s.core.log ++ (observe (s.core.pcs role) pc).map (role, ·)⟩, s.todo⟩ := by
  simp only [SemaphoreSession.step, SemaphoreQueue.step, Option.map_eq_some_iff] at taken
  obtain ⟨core, ⟨⟨q, pc⟩, moved, rfl⟩, rfl⟩ := taken
  exact ⟨q, pc, moved, rfl⟩

/-- Calls are no entries. -/
theorem pick_called (value : Event ℤ → Option ℤ) (log : List (Role P C × Event ℤ))
    (other : Role P C) {op : Op ℤ} (none : value (.called op) = none) :
    pick value other (log ++ [Event.called op].map (role, ·)) = pick value other log := by
  by_cases same : other = role
  · subst same
    rw [pick_self, List.filterMap_cons_none none, List.filterMap_nil, List.append_nil]
  · rw [pick_other value same]

/-- A statement makes as many entries due for its thread as it logs results, and none for the
other threads. -/
theorem due_append {value : Event ℤ → Option ℤ} {log : List (Role P C × Event ℤ)}
    {owes : Role P C → Owed} {other : Role P C} {recorded : ℕ} {pc pc' : Pc ℤ}
    (nothing : owes role = .nothing)
    (logged : role = other → ((observe pc pc').filterMap value).length = (owed pc').due)
    (counted : recorded + (owes other).due = (pick value other log).length) :
    recorded + (Function.update owes role (owed pc') other).due =
      (pick value other (log ++ (observe pc pc').map (role, ·))).length := by
  by_cases same : role = other
  · subst same
    rw [pick_self, List.length_append, Function.update_self, logged rfl, ← counted, nothing]
    rfl
  · rw [pick_other _ (Ne.symm same), Function.update_of_ne (Ne.symm same), counted]

end Session

section Run

variable {maxSize : ℕ} {items : Fin P → List ℤ} {c c' : Config P C} {role : Role P C}

/-- A call leaves the books right. -/
theorem running_call {session : Session P C ℤ} (running : Running maxSize items c)
    (settled : c.settled role)
    (taken : SemaphoreSession.step true c.session (.call role) = some session) :
    Running maxSize items { c with session } := by
  have reached := running.reached.tail taken
  obtain ⟨op, todo, rest, rfl⟩ := step_call taken
  refine ⟨reached, fun other entry => ?_, running.closer, running.producers, fun p => ?_,
    fun k => ?_, fun begun => ?_⟩
  · by_cases same : other = role
    · subst same
      cases other with
      | closer => exact absurd running.closer entry
      | producer | consumer => exact absurd settled entry
    · dsimp only
      rw [Function.update_of_ne same]
      exact running.resting other entry
  · rw [running.produced p, Session.acceptedFrom, Session.acceptedFrom, pick_called _ _ _ rfl]
  · rw [running.consumed k, Session.takenBy, Session.takenBy, pick_called _ _ _ rfl]
  · cases role with
    | closer => exact settled
    | producer | consumer => exact running.joined (by simpa using begun)

/-- A statement leaves the books right, as what a finished call owes is written down. -/
theorem running_go {session : Session P C ℤ} (running : Running maxSize items c)
    (taken : SemaphoreSession.step true c.session (.go role) = some session) :
    Running maxSize items
      { c with
        session
        owes := Function.update c.owes role (owed (session.core.pcs role)) } := by
  have orderly := reachable_orderly running.reached
  have done := (reachable_joined running.reached).finished
  have reached := running.reached.tail taken
  obtain ⟨q, pc, moved, rfl⟩ := step_go taken
  have busy := not_atRest_of_exec moved
  have own := kind_of_exec orderly moved
  have kept := (exec_contribution moved).kind
  have nothing : c.owes role = .nothing := by
    by_contra entry
    simp [running.resting role entry] at busy
  dsimp only
  rw [Function.update_self]
  refine ⟨reached, fun other entry => ?_, ?_, fun p => ?_, fun p => ?_, fun k => ?_,
    fun begun p => ?_⟩
  · by_cases same : other = role
    · subst same
      dsimp only at entry ⊢
      rw [Function.update_self] at entry ⊢
      exact atRest_of_owed entry
    · dsimp only at entry ⊢
      rw [Function.update_of_ne same] at entry ⊢
      exact running.resting other entry
  · by_cases same : role = .closer
    · subst same
      dsimp only
      rw [Function.update_self]
      by_contra entry
      rcases kind_of_owed entry with push | pop
      · simpa [Role.kind] using (kept.trans own).symm.trans push
      · simpa [Role.kind] using (kept.trans own).symm.trans pop
    · exact (Function.update_of_ne (Ne.symm same) _ _).trans running.closer
  · by_cases same : role = .producer p
    · subst same
      dsimp only
      rw [Function.update_self]
      exact owed_of_push (kept.trans own)
    · dsimp only
      rw [Function.update_of_ne (Ne.symm same)]
      exact running.producers p
  · refine due_append nothing (fun same => ?_) (running.produced p)
    exact accepted_length moved (by rw [own, same]; rfl)
  · refine due_append nothing (fun same => ?_) (running.consumed k)
    exact handedOut_length moved (by rw [own, same]; rfl)
  · have started : c.session.core.pcs .closer ≠ .idle := by
      intro idle
      by_cases same : role = .closer
      · subst same
        simp [idle, Pc.atRest] at busy
      · exact begun ((Function.update_of_ne (Ne.symm same) _ _).trans idle)
    have other : role ≠ .producer p := by
      rintro rfl
      simp [atRest_of_producerDone (done started p)] at busy
    exact (Function.update_of_ne (Ne.symm other) _ _).trans (running.joined started p)

/-- An entry in a book leaves the thread's own debt smaller, and everything else as it was. -/
theorem running_entry {owes : Owed} {counted : ℕ} {producers : VarianceTracker P}
    {consumers : VarianceTracker C} (running : Running maxSize items c)
    (entry : c.owes role ≠ .nothing)
    (pushes : ∀ p, role = .producer p → owes ≠ .fetchAdd)
    (produced : ∀ p, producers.threadCounts p +
      (Function.update c.owes role owes (.producer p)).due =
        c.producerTracker.threadCounts p + (c.owes (.producer p)).due)
    (consumed : ∀ k, consumers.threadCounts k +
      (Function.update c.owes role owes (.consumer k)).due =
        c.consumerTracker.threadCounts k + (c.owes (.consumer k)).due) :
    Running maxSize items { c with
      owes := Function.update c.owes role owes
      itemsConsumed := counted
      producerTracker := producers
      consumerTracker := consumers } := by
  have notCloser : role ≠ .closer := by
    rintro rfl
    exact entry running.closer
  refine ⟨running.reached, fun other owing => ?_, ?_, fun p => ?_, fun p => ?_, fun k => ?_,
    fun begun p => ?_⟩
  · by_cases same : other = role
    · subst same
      exact running.resting other entry
    · dsimp only at owing
      rw [Function.update_of_ne same] at owing
      exact running.resting other owing
  · exact (Function.update_of_ne (Ne.symm notCloser) _ _).trans running.closer
  · by_cases same : role = .producer p
    · dsimp only
      rw [same, Function.update_self]
      exact pushes p same
    · dsimp only
      rw [Function.update_of_ne (Ne.symm same)]
      exact running.producers p
  · exact (produced p).trans (running.produced p)
  · exact (consumed k).trans (running.consumed k)
  · have other : .producer p ≠ role := by
      rintro rfl
      exact entry (running.joined begun p)
    exact (Function.update_of_ne other _ _).trans (running.joined begun p)

/-- A producer that records its push has settled it. -/
theorem running_produced (running : Running maxSize items c) {p : Fin P}
    (owes : c.owes (.producer p) = .record) :
    Running maxSize items { c with
      owes := Function.update c.owes (.producer p) .nothing
      producerTracker := c.producerTracker.recordOperation p } := by
  refine running_entry running (by simp [owes]) (by simp) (fun p' => ?_) (fun k => ?_)
  · rw [VarianceTracker.recordOperation_threadCounts]
    by_cases same : p' = p
    · subst same
      rw [Function.update_self, Function.update_self, owes]
      rfl
    · rw [Function.update_of_ne same, Function.update_of_ne (by simpa using same)]
  · rw [Function.update_of_ne (by simp)]

/-- A consumer counts its pop first and records it then. -/
theorem running_counted (running : Running maxSize items c) {k : Fin C}
    (owes : c.owes (.consumer k) = .fetchAdd) :
    Running maxSize items { c with
      owes := Function.update c.owes (.consumer k) .record
      itemsConsumed := c.itemsConsumed + 1 } := by
  refine running_entry running (by simp [owes]) (by simp) (fun p => ?_) (fun k' => ?_)
  · rw [Function.update_of_ne (by simp)]
  · by_cases same : k' = k
    · subst same
      rw [Function.update_self, owes]
      rfl
    · rw [Function.update_of_ne (by simpa using same)]

/-- A consumer that records its pop has settled it. -/
theorem running_consumed (running : Running maxSize items c) {k : Fin C}
    (owes : c.owes (.consumer k) = .record) :
    Running maxSize items { c with
      owes := Function.update c.owes (.consumer k) .nothing
      consumerTracker := c.consumerTracker.recordOperation k } := by
  refine running_entry running (by simp [owes]) (by simp) (fun p => ?_) (fun k' => ?_)
  · rw [Function.update_of_ne (by simp)]
  · rw [VarianceTracker.recordOperation_threadCounts]
    by_cases same : k' = k
    · subst same
      rw [Function.update_self, Function.update_self, owes]
      rfl
    · rw [Function.update_of_ne same, Function.update_of_ne (by simpa using same)]

/-- At the start the books are empty. -/
theorem running_init (maxSize : ℕ) (items : Fin P → List ℤ) :
    Running maxSize items (Config.init maxSize items : Config P C) where
  reached := Reaches.refl _
  resting role owing := absurd rfl owing
  closer := rfl
  producers _ := by simp [Config.init]
  produced _ := rfl
  consumed _ := rfl
  joined begun := absurd rfl begun

/-- When the main thread has joined everybody, the session is done. -/
theorem done_of_joined (running : Running maxSize items c)
    (closed : closeReturned (c.session.core.pcs .closer) = true)
    (left : ∀ k, leftLoop (c.session.core.pcs (.consumer k)) = true) : c.session.Done := by
  have closer : c.session.core.pcs .closer = .returned .closed := by
    unfold closeReturned at closed
    split at closed
    · assumption
    · simp at closed
  refine ⟨(reachable_joined running.reached).finished (by simp [closer]), fun k => ?_, closer⟩
  have leaves := left k
  unfold leftLoop at leaves
  split at leaves
  · assumption
  · simp at leaves

/-- The books are complete then: every producer has recorded its items, and the consumers
together as many. -/
theorem books_of_done (consumers : 0 < C) (running : Running maxSize items c)
    (done : c.session.Done) (nothing : ∀ k, c.owes (.consumer k) = .nothing) :
    (∀ p, c.producerTracker.threadCounts p = (items p).length) ∧
      ∑ k, c.consumerTracker.threadCounts k = ∑ p, (items p).length := by
  have accepted : ∀ p, c.session.acceptedFrom p = items p := fun p =>
    (inserted_of_done running.reached done p).symm.trans (lists_of_done running.reached done p)
  constructor
  · intro p
    have counted := running.produced p
    rw [running.joined (by simp [done.closer]) p, accepted p] at counted
    exact counted
  · have taken : ∀ k, c.consumerTracker.threadCounts k = (c.session.takenBy k).length := by
      intro k
      have counted := running.consumed k
      rw [nothing k] at counted
      exact counted
    have delivered := congrArg Multiset.card (taken_of_done running.reached done consumers)
    simp only [Multiset.card_sum, Multiset.coe_card, accepted] at delivered
    rw [Finset.sum_congr rfl fun k _ => taken k, delivered]

/-- During the session the books are right. -/
theorem running_of_sound (sound : Sound maxSize items c) (standing : c.main = .session) :
    Running maxSize items c := by
  simpa only [Sound, standing] using sound

/-- After the session the books are complete. -/
theorem complete_of_sound (sound : Sound maxSize items c) (after : c.main ≠ .session) :
    Complete items c := by
  cases standing : c.main with
  | session => exact absurd standing after
  | shutdown | finished => simpa only [Sound, standing] using sound

/-- Right books are sound during the session. -/
theorem sound_of_running (running : Running maxSize items c) (standing : c.main = .session) :
    Sound maxSize items c := by
  simpa only [Sound, standing] using running

/-- Complete books are sound after the session. -/
theorem sound_of_complete (complete : Complete items c) (after : c.main ≠ .session) :
    Sound maxSize items c := by
  cases standing : c.main with
  | session => exact absurd standing after
  | shutdown | finished => simpa only [Sound, standing] using complete

/-- Once the main thread has joined the consumers, the books are complete. -/
theorem complete_joined {core : SemaphoreQueue.Config (Role P C) ℤ} (consumers : 0 < C)
    (running : Running maxSize items c)
    (closed : closeReturned (c.session.core.pcs .closer) = true)
    (left : ∀ k, leftLoop (c.session.core.pcs (.consumer k)) = true ∧
      c.owes (.consumer k) = .nothing)
    (moved : SemaphoreQueue.step c.session.core (.call .closer .shutdown) = some core) :
    Complete items { c with session := ⟨core, c.session.todo⟩, main := .shutdown } := by
  simp only [SemaphoreQueue.step, Option.ite_none_right_eq_some, Option.some.injEq] at moved
  obtain ⟨_, rfl⟩ := moved
  have done := done_of_joined running closed fun k => (left k).1
  obtain ⟨produced, consumed⟩ := books_of_done consumers running done fun k => (left k).2
  exact ⟨produced, consumed, by simp [Op.entry, Pc.kind]⟩

/-- `shutdown` leaves the books complete. -/
theorem complete_shutdown {core : SemaphoreQueue.Config (Role P C) ℤ} (complete : Complete items c)
    (moved : SemaphoreQueue.step c.session.core (.go .closer) = some core) :
    Complete items { c with session := ⟨core, c.session.todo⟩ } := by
  simp only [SemaphoreQueue.step, Option.map_eq_some_iff] at moved
  obtain ⟨⟨q, pc⟩, executed, rfl⟩ := moved
  refine ⟨complete.produced, complete.consumed, ?_⟩
  dsimp only
  rw [Function.update_self, (exec_contribution executed).kind, complete.closer]

/-- Every step keeps the books sound. -/
theorem sound_preserved (consumers : 0 < C) :
    Preserved step (Sound maxSize items : Config P C → Prop) := by
  intro c label c' sound taken
  have running := running_of_sound sound
  cases step_turn taken with
  | call role session standing settled moved =>
    exact sound_of_running (running_call (running standing) settled moved) standing
  | go role session standing moved =>
    exact sound_of_running (running_go (running standing) moved) standing
  | produced p standing owes =>
    exact sound_of_running (running_produced (running standing) owes) standing
  | counted k standing owes =>
    exact sound_of_running (running_counted (running standing) owes) standing
  | consumed k standing owes =>
    exact sound_of_running (running_consumed (running standing) owes) standing
  | joined core standing closed left moved =>
    exact complete_joined consumers (running standing) closed left moved
  | shutdown core standing moved =>
    have after : c.main ≠ .session := by simp [standing]
    exact sound_of_complete (complete_shutdown (complete_of_sound sound after) moved) after
  | finished standing =>
    obtain ⟨produced, consumed, closer⟩ := complete_of_sound sound (by simp [standing])
    exact ⟨produced, consumed, closer⟩

/-- The books are sound in every reachable state. -/
theorem reaches_sound (consumers : 0 < C) (reached : Reaches step (Config.init maxSize items) c) :
    Sound maxSize items c := by
  have start : Sound maxSize items (Config.init maxSize items : Config P C) :=
    running_init maxSize items
  exact (sound_preserved consumers).reaches start reached

/-- However the queue has been shared out, each producer has recorded its items, and the
consumers together have recorded as many. -/
theorem finished_complete (consumers : 0 < C) (reached : Reaches step (Config.init maxSize items) c)
    (finished : c.main = .finished) : Complete items c :=
  complete_of_sound (reaches_sound consumers reached) (by simp [finished])

end Run

section Quota

variable {quota : ℕ}

/-- A producer pushes as many items as its quota. -/
theorem items_length (quota : ℕ) (p : Fin P) : (items quota p).length = quota := by
  simp [items]

/-- All producers together push their quotas. -/
theorem items_sum (quota : ℕ) : ∑ p : Fin P, (items quota p).length = P * quota := by
  simp [items_length]

/-- With equal quotas the books of the producers are all the same in the end. Of those of the
consumers this is the sum. -/
theorem finished_quotas {c : Config P C} (consumers : 0 < C) (reached : Reachable quota c)
    (finished : c.main = .finished) :
    (∀ p, c.producerTracker.threadCounts p = quota) ∧
      ∑ k, c.consumerTracker.threadCounts k = P * quota := by
  have complete := finished_complete consumers reached finished
  refine ⟨fun p => ?_, ?_⟩
  · rw [complete.produced p, items_length]
  · rw [complete.consumed, items_sum]

/-- A benchmark that is not skipped has a consumer. -/
theorem numConsumers_pos {numThreads : ℕ} (started : ¬ Skipped numThreads) :
    0 < numConsumers numThreads :=
  Nat.pos_of_ne_zero fun none => started (Or.inr none)

/-- What is published of the producers says nothing about the schedule. -/
theorem producerFairness_of_publishes {fl : Fairness.Rounding} {numThreads total : ℕ}
    {report : Report} (published : Publishes fl numThreads quota total report) :
    report.producerFairness = fl.published (numProducers numThreads) quota total := by
  obtain ⟨started, last, reached, rfl⟩ := published
  rcases returns_of_passed reached with ⟨rfl, rfl⟩ | ⟨iterates, _, rfl, c, ran, ended⟩
  · rfl
  · obtain ⟨finished, rfl⟩ := (result_eq_some_iff fl c _).mp ended
    obtain ⟨produced, _⟩ := finished_quotas (numConsumers_pos started) ran finished
    rw [Fairness.Rounding.published, if_neg iterates.ne']
    exact VarianceTracker.roundedCoefficient_of_quota produced fl

end Quota

end ConcurrencyBench.ProducerConsumerMPMC
