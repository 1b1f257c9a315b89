import ConcurrencyBench.ProducerConsumerMPMC

/-!
# What the schedule decides about the consumers

The books of the consumers are tied to each other only through their sum. An iteration
always comes to its end: every statement is paid for, and where nobody can go on the main
thread is done. So it is enough to let the producers and consumers take turns, one item at
a time: whichever consumer is given each item, the iteration can be completed after that,
and as no book ever shrinks and the sum is fixed, the books stay as they are. Every way to
share out the items is therefore that of some run.
-/

namespace ConcurrencyBench.ProducerConsumerMPMC

open Interleaving SemaphoreQueue SemaphoreSession

variable {P C : ℕ}

/-! ## Iterations complete -/

/-- Statements a thread has left in the books. -/
def Owed.left : Owed → ℕ
  | .nothing => 0
  | .record => 1
  | .fetchAdd => 2

/-- Steps an iteration has left at most. -/
def Config.left (maxSize : ℕ) (c : Config P C) : ℕ :=
  match c.main with
  | .session => 3 * c.session.budget + tally (fun _ => Owed.left) c.owes +
      (cost maxSize (.shutdown .storeShutdown : Pc ℤ) + 2)
  | .shutdown => cost maxSize (c.session.core.pcs .closer) + 1
  | .finished => 0

section Completion

variable {maxSize : ℕ} {items : Fin P → List ℤ} {c c' : Config P C} {role : Role P C}

/-- Every step but those in the books is one of the queue's program. -/
theorem step_core {label : Label P C} (taken : step c label = some c') :
    c'.session.core = c.session.core ∨
      ∃ label', SemaphoreQueue.step c.session.core label' = some c'.session.core := by
  cases step_turn taken with
  | call role session standing settled moved => exact Or.inr (SemaphoreSession.step_core moved)
  | go role session standing moved => exact Or.inr (SemaphoreSession.step_core moved)
  | joined core standing closed left moved => exact Or.inr ⟨_, moved⟩
  | shutdown core standing moved => exact Or.inr ⟨_, moved⟩
  | produced | counted | consumed | finished => exact Or.inl rfl

/-- Every step keeps the queue balanced. -/
theorem balanced_step (maxSize : ℕ) :
    Preserved step fun c : Config P C => Balanced maxSize c.session.core := by
  intro c label c' balanced taken
  rcases step_core taken with same | ⟨label', moved⟩
  · rw [same]
    exact balanced
  · exact balanced_preserved maxSize _ _ _ balanced moved

/-- An entry in a book is one less to make. -/
theorem entry_left {owes : Owed} (lower : owes.left < (c.owes role).left) :
    tally (fun _ => Owed.left) (Function.update c.owes role owes) <
      tally (fun _ => Owed.left) c.owes := by
  have exchanged := tally_update (fun _ => Owed.left) c.owes role owes
  omega

/-- A statement of `shutdown` brings the main thread closer to its end. -/
theorem shutdown_left {core : SemaphoreQueue.Config (Role P C) ℤ}
    (balanced : Balanced maxSize c.session.core)
    (moved : SemaphoreQueue.step c.session.core (.go .closer) = some core) :
    cost maxSize (core.pcs .closer) < cost maxSize (c.session.core.pcs .closer) := by
  simp only [SemaphoreQueue.step, Option.map_eq_some_iff] at moved
  obtain ⟨⟨q, pc⟩, executed, rfl⟩ := moved
  have lower := exec_cost (balanced.found .closer) executed
  rw [balanced.capacity] at lower
  dsimp only
  rwa [Function.update_self]

/-- Every step lowers what an iteration has left. -/
theorem left_lowers (maxSize : ℕ) :
    Lowers step (fun c : Config P C => Balanced maxSize c.session.core)
      (Config.left maxSize) := by
  intro c label c' balanced taken
  have spends : ∀ {label' : SemaphoreSession.Label P C} {session : Session P C ℤ},
      SemaphoreSession.step true c.session label' = some session →
        session.budget < c.session.budget :=
    fun moved => budget_lowers true maxSize _ _ _ balanced moved
  cases step_turn taken with
  | call role session standing settled moved =>
    have lower := spends moved
    simp only [Config.left, standing]
    omega
  | go role session standing moved =>
    have lower := spends moved
    have entries := tally_update (fun _ => Owed.left) c.owes role (owed (session.core.pcs role))
    have most : (owed (session.core.pcs role)).left ≤ 2 := by
      cases owed (session.core.pcs role) <;> simp [Owed.left]
    simp only [Config.left, standing]
    omega
  | produced p standing owes =>
    have lower : Owed.nothing.left < (c.owes (.producer p)).left := by simp [owes, Owed.left]
    have fewer := entry_left lower
    simp only [Config.left, standing]
    omega
  | counted k standing owes =>
    have lower : Owed.record.left < (c.owes (.consumer k)).left := by simp [owes, Owed.left]
    have fewer := entry_left lower
    simp only [Config.left, standing]
    omega
  | consumed k standing owes =>
    have lower : Owed.nothing.left < (c.owes (.consumer k)).left := by simp [owes, Owed.left]
    have fewer := entry_left lower
    simp only [Config.left, standing]
    omega
  | joined core standing closed left moved =>
    simp only [SemaphoreQueue.step, Option.ite_none_right_eq_some, Option.some.injEq] at moved
    obtain ⟨_, rfl⟩ := moved
    simp only [Config.left, standing, Function.update_self, Op.entry]
    omega
  | shutdown core standing moved =>
    have lower := shutdown_left balanced moved
    simp only [Config.left, standing]
    omega
  | finished standing => simp [Config.left, standing]

/-- A thread that has something to enter in the books can do so. -/
theorem nothing_of_stuck (running : Running maxSize items c) (standing : c.main = .session)
    (stuck : Stuck step c) (role : Role P C) : c.owes role = .nothing := by
  have blocked : keepBooks c role = none := by
    have none := stuck (.keepBooks role)
    rwa [step, if_pos standing] at none
  cases role with
  | producer p =>
    have noItems := running.producers p
    cases owes : c.owes (.producer p) with
    | nothing => rfl
    | fetchAdd => exact absurd owes noItems
    | record => simp [keepBooks, owes] at blocked
  | consumer k =>
    cases owes : c.owes (.consumer k) with
    | nothing => rfl
    | fetchAdd | record => simp [keepBooks, owes] at blocked
  | closer => exact running.closer

/-- Where nobody owes the books anything, everybody has settled. -/
theorem settled_of_nothing (nothing : ∀ role, c.owes role = .nothing) (role : Role P C) :
    c.settled role := by
  cases role with
  | closer => exact fun p => nothing (.producer p)
  | producer | consumer => exact nothing _

/-- With the books kept, the threads are free to take the steps of the session. -/
theorem session_stuck (standing : c.main = .session) (stuck : Stuck step c)
    (nothing : ∀ role, c.owes role = .nothing) :
    Stuck (SemaphoreSession.step true) c.session := by
  rintro (role | role)
  · have blocked := stuck (.call role)
    rw [step, if_pos ⟨standing, settled_of_nothing nothing role⟩] at blocked
    exact Option.map_eq_none_iff.mp blocked
  · have blocked := stuck (.go role)
    rw [step, if_pos standing] at blocked
    exact Option.map_eq_none_iff.mp blocked

/-- The main thread calls `shutdown` once the session is done. -/
theorem finish_of_done (standing : c.main = .session) (done : c.session.Done)
    (nothing : ∀ k, c.owes (.consumer k) = .nothing) : finish c ≠ none := by
  have closed : closeReturned (c.session.core.pcs .closer) = true := by
    rw [done.closer]
    rfl
  have left : ∀ k, leftLoop (c.session.core.pcs (.consumer k)) = true ∧
      c.owes (.consumer k) = .nothing := by
    intro k
    refine ⟨?_, nothing k⟩
    rw [done.consumers k]
    rfl
  simp only [finish, standing]
  rw [if_pos ⟨closed, left⟩]
  simp [SemaphoreQueue.step, done.closer, Pc.atRest]

/-- Nothing in `shutdown` waits. -/
theorem shutdown_goes {ι T : Type*} (q : Queue ι T) (place : ShutdownAt) :
    shutdown q place ≠ none := by
  cases place with
  | storeShutdown | storeClosed => simp [shutdown]
  | wakeConsumers i | wakeProducers i =>
    by_cases more : i < q.maxSize + 1 <;> simp [shutdown, more]

/-- In `shutdown` the main thread can go on. -/
theorem finish_of_shutdown (standing : c.main = .shutdown)
    (closer : (c.session.core.pcs .closer).kind = some .shutdown) : finish c ≠ none := by
  simp only [finish, standing]
  cases position : c.session.core.pcs .closer with
  | returned => simp
  | shutdown place =>
    have goes := shutdown_goes c.session.core.q place
    simpa [SemaphoreQueue.step, position, exec] using goes
  | _ => simp [position, Pc.kind] at closer

/-- An iteration in which nobody can go on is at its end. -/
theorem finished_of_stuck (capacity : 0 < maxSize) (consumers : 0 < C)
    (sound : Sound maxSize items c) (stuck : Stuck step c) : c.main = .finished := by
  cases standing : c.main with
  | session =>
    have running := running_of_sound sound standing
    have nothing := nothing_of_stuck running standing stuck
    have done := done_of_stuck capacity consumers running.reached
      (session_stuck standing stuck nothing)
    exact absurd (stuck .finish) (finish_of_done standing done fun k => nothing _)
  | shutdown =>
    have complete := complete_of_sound sound (by simp [standing])
    exact absurd (stuck .finish) (finish_of_shutdown standing complete.closer)
  | finished => rfl

/-- Whatever has happened so far, an iteration can be completed. -/
theorem iteration_completes (capacity : 0 < maxSize) (consumers : 0 < C)
    (reached : Reaches step (Config.init maxSize items) c) :
    ∃ last, Reaches step c last ∧ last.main = .finished := by
  have start : Balanced maxSize (Config.init maxSize items : Config P C).session.core :=
    balanced_init maxSize
  have balanced := (balanced_step maxSize).reaches start reached
  obtain ⟨last, onward, stuck⟩ := (left_lowers maxSize).exists_stuck (balanced_step maxSize) balanced
  have sound := reaches_sound consumers (reached.trans onward)
  exact ⟨last, onward, finished_of_stuck capacity consumers sound stuck⟩

/-- No book of a consumer ever shrinks. -/
theorem consumed_grows (bound : ℕ) (k : Fin C) :
    Preserved step fun c : Config P C => bound ≤ c.consumerTracker.threadCounts k := by
  intro c label c' grown taken
  cases step_turn taken with
  | consumed k' standing owes =>
    dsimp only
    rw [VarianceTracker.recordOperation_threadCounts]
    by_cases own : k = k'
    · subst own
      rw [Function.update_self]
      exact Nat.le_succ_of_le grown
    · rw [Function.update_of_ne own]
      exact grown
  | _ => exact grown

end Completion

/-! ## One item at a time -/

/-- A queue that nobody is at, with these items and the capacity for as many. -/
def holding {ι T : Type*} (maxSize : ℕ) (waiting : List T) : Queue ι T where
  mtx := none
  queue := waiting
  emptySlots := maxSize - waiting.length
  filledSlots := waiting.length
  maxSize := maxSize
  closed := false
  shutdown := false

section Uninterrupted

variable {ι T : Type*} {i : ι} {maxSize : ℕ} {waiting : List T} {item : T}

/-- A push that finds a slot. -/
theorem push_uninterrupted (room : waiting.length < maxSize) :
    Reaches (statement i) (holding maxSize waiting, (Op.push item).entry)
      (holding maxSize (waiting ++ [item]), .returned (.pushed item true)) := by
  have slot : 0 < maxSize - waiting.length := Nat.sub_pos_of_lt room
  refine ⟨List.replicate 11 (), ?_⟩
  simp [run, statement, exec, push, Op.entry, holding, Queue.lock, Queue.unlock, slot]
  omega

/-- A pop that finds an item. -/
theorem pop_uninterrupted (room : waiting.length < maxSize) :
    Reaches (statement i) (holding maxSize (item :: waiting), Op.pop.entry)
      (holding maxSize waiting, .returned (.popped (some item))) := by
  refine ⟨List.replicate 8 (), ?_⟩
  simp [run, statement, exec, pop, Op.entry, holding, Queue.lock, Queue.unlock]
  omega

end Uninterrupted

section Turns

variable {maxSize : ℕ} {waiting : List ℤ} {item : ℤ} {c : Config P C} {role : Role P C}

/-- Statements that a thread makes uninterrupted in its call are steps of the iteration. -/
theorem reaches_statements {place : Queue (Role P C) ℤ × Pc ℤ} (standing : c.main = .session)
    (owes : c.owes role = owed (c.session.core.pcs role))
    (executed : Reaches (statement role) (c.session.core.q, c.session.core.pcs role) place) :
    ∃ log, Reaches step c { c with
      session :=
        ⟨⟨place.1, Function.update c.session.core.pcs role place.2, log⟩, c.session.todo⟩
      owes := Function.update c.owes role (owed place.2) } := by
  have kept : Preserved (statement role) fun place : Queue (Role P C) ℤ × Pc ℤ =>
      ∃ log, Reaches step c { c with
        session :=
          ⟨⟨place.1, Function.update c.session.core.pcs role place.2, log⟩, c.session.todo⟩
        owes := Function.update c.owes role (owed place.2) } := by
    rintro ⟨q, pc⟩ label ⟨q', pc'⟩ ⟨log, reached⟩ moved
    have executes : exec role q pc = some (q', pc') := moved
    have forward : step { c with
        session := ⟨⟨q, Function.update c.session.core.pcs role pc, log⟩, c.session.todo⟩
        owes := Function.update c.owes role (owed pc) } (.go role) = some { c with
          session := ⟨⟨q', Function.update c.session.core.pcs role pc',
            log ++ (observe pc pc').map (role, ·)⟩, c.session.todo⟩
          owes := Function.update c.owes role (owed pc') } := by
      simp [step, standing, SemaphoreSession.step, SemaphoreQueue.step, executes]
    exact ⟨_, reached.tail forward⟩
  refine kept.reaches ⟨c.session.core.log, ?_⟩ executed
  rw [Function.update_eq_self, ← owes, Function.update_eq_self]
  exact Reaches.refl c

/-- A producer that may push is in no call. -/
theorem atRest_of_mayPush {pc : Pc ℤ} (ready : mayPush pc = true) : pc.atRest = true := by
  cases pc with
  | idle | returned => rfl
  | _ => simp [mayPush] at ready

/-- A consumer that may pop is in no call. -/
theorem atRest_of_mayPop {pc : Pc ℤ} (ready : mayPop pc = true) : pc.atRest = true := by
  cases pc with
  | idle | returned => rfl
  | _ => simp [mayPop] at ready

/-- A thread makes its next call and returns from it uninterrupted. -/
theorem reaches_call {op : Op ℤ} {todo : Fin P → List ℤ} {q : Queue (Role P C) ℤ}
    {result : Result ℤ} (standing : c.main = .session)
    (nothing : ∀ role, c.owes role = .nothing) (rest : (c.session.core.pcs role).atRest = true)
    (chosen : c.session.client true role = some (op, todo))
    (executed : Reaches (statement role) (c.session.core.q, op.entry) (q, .returned result)) :
    ∃ d, Reaches step c d ∧ d.main = .session ∧ d.session.core.q = q ∧
      d.session.core.pcs = Function.update c.session.core.pcs role (.returned result) ∧
      d.session.todo = todo ∧ d.owes = Function.update c.owes role (owed (.returned result)) ∧
      d.consumerTracker = c.consumerTracker := by
  let began : Config P C := { c with
    session := ⟨⟨c.session.core.q, Function.update c.session.core.pcs role op.entry,
      c.session.core.log ++ [(role, .called op)]⟩, todo⟩ }
  have called : step c (.call role) = some began := by
    rw [step, if_pos ⟨standing, settled_of_nothing nothing role⟩]
    simp [SemaphoreSession.step, chosen, SemaphoreQueue.step, rest, began]
  have entry : owed op.entry = .nothing := by cases op <;> rfl
  have inside : began.session.core.pcs role = op.entry := Function.update_self ..
  have owes : began.owes role = owed (began.session.core.pcs role) := by
    rw [inside, entry]
    exact nothing role
  rw [← inside] at executed
  obtain ⟨log, onward⟩ := reaches_statements (c := began) standing owes executed
  exact ⟨_, (Reaches.single called).trans onward, standing, rfl, Function.update_idem .., rfl,
    rfl, rfl⟩

/-- Nobody is inside a call or has anything to enter in the books, and these items wait. -/
structure Lull (maxSize : ℕ) (waiting : List ℤ) (c : Config P C) : Prop where
  main : c.main = .session
  queue : c.session.core.q = holding maxSize waiting
  producers : ∀ p, mayPush (c.session.core.pcs (.producer p)) = true
  consumers : ∀ k, mayPop (c.session.core.pcs (.consumer k)) = true
  owes : ∀ role, c.owes role = .nothing

/-- A producer enters its push in its book. -/
theorem producer_keepsBooks (standing : c.main = .session) {p : Fin P}
    (owes : c.owes (.producer p) = .record) :
    ∃ d, Reaches step c d ∧ d.main = .session ∧ d.session = c.session ∧
      d.owes = Function.update c.owes (.producer p) .nothing ∧
      d.consumerTracker = c.consumerTracker := by
  have recorded : step c (.keepBooks (.producer p)) = some { c with
      owes := Function.update c.owes (.producer p) .nothing
      producerTracker := c.producerTracker.recordOperation p } := by
    rw [step, if_pos standing]
    simp only [keepBooks, owes]
  exact ⟨_, Reaches.single recorded, standing, rfl, rfl, rfl⟩

/-- A consumer counts its item and enters it in its book. -/
theorem consumer_keepsBooks (standing : c.main = .session) {k : Fin C}
    (owes : c.owes (.consumer k) = .fetchAdd) :
    ∃ d, Reaches step c d ∧ d.main = .session ∧ d.session = c.session ∧
      d.owes = Function.update c.owes (.consumer k) .nothing ∧
      d.consumerTracker = c.consumerTracker.recordOperation k := by
  let counted : Config P C := { c with
    owes := Function.update c.owes (.consumer k) .record
    itemsConsumed := c.itemsConsumed + 1 }
  have first : step c (.keepBooks (.consumer k)) = some counted := by
    rw [step, if_pos standing]
    simp only [keepBooks, owes, counted]
  have next : counted.owes (.consumer k) = .record := Function.update_self ..
  have second : step counted (.keepBooks (.consumer k)) = some { counted with
      owes := Function.update counted.owes (.consumer k) .nothing
      consumerTracker := counted.consumerTracker.recordOperation k } := by
    rw [step, if_pos standing]
    simp only [keepBooks, next]
  exact ⟨_, (Reaches.single first).tail second, standing, rfl, Function.update_idem .., rfl⟩

/-- A producer inserts its next item. -/
theorem lull_push (lull : Lull maxSize waiting c) (room : waiting.length < maxSize) {p : Fin P}
    {rest : List ℤ} (next : c.session.todo p = item :: rest) :
    ∃ d, Reaches step c d ∧ Lull maxSize (waiting ++ [item]) d ∧
      d.session.todo = Function.update c.session.todo p rest ∧
      d.consumerTracker = c.consumerTracker := by
  have ready := lull.producers p
  have chosen : c.session.client true (.producer p) =
      some (.push item, Function.update c.session.todo p rest) := by
    simp [Session.client, ready, next]
  have executed : Reaches (statement (.producer p)) (c.session.core.q, (Op.push item).entry)
      (holding maxSize (waiting ++ [item]), .returned (.pushed item true)) := by
    rw [lull.queue]
    exact push_uninterrupted room
  obtain ⟨b, called, calling, queue, pcs, todo, owing, unchanged⟩ :=
    reaches_call lull.main lull.owes (atRest_of_mayPush ready) chosen executed
  have record : b.owes (.producer p) = .record := by
    rw [owing, Function.update_self]
    rfl
  obtain ⟨d, entered, main, session, owes, consumed⟩ := producer_keepsBooks calling record
  refine ⟨d, called.trans entered, ⟨main, by rw [session, queue], fun p' => ?_, fun k => ?_,
    fun role => ?_⟩, by rw [session, todo], consumed.trans unchanged⟩
  · rw [session, pcs]
    by_cases same : p' = p
    · simp [same, mayPush]
    · simpa [same] using lull.producers p'
  · rw [session, pcs]
    simpa using lull.consumers k
  · rw [owes, owing, Function.update_idem]
    by_cases same : role = .producer p
    · simp [same]
    · simpa [same] using lull.owes role

/-- Any of the consumers takes the next item. -/
theorem lull_pop (lull : Lull maxSize (item :: waiting) c) (room : waiting.length < maxSize)
    (k : Fin C) :
    ∃ d, Reaches step c d ∧ Lull maxSize waiting d ∧ d.session.todo = c.session.todo ∧
      d.consumerTracker = c.consumerTracker.recordOperation k := by
  have ready := lull.consumers k
  have chosen : c.session.client true (.consumer k) = some (.pop, c.session.todo) := by
    simp [Session.client, ready]
  have executed : Reaches (statement (.consumer k)) (c.session.core.q, Op.pop.entry)
      (holding maxSize waiting, .returned (.popped (some item))) := by
    rw [lull.queue]
    exact pop_uninterrupted room
  obtain ⟨b, called, calling, queue, pcs, todo, owing, unchanged⟩ :=
    reaches_call lull.main lull.owes (atRest_of_mayPop ready) chosen executed
  have count : b.owes (.consumer k) = .fetchAdd := by
    rw [owing, Function.update_self]
    rfl
  obtain ⟨d, entered, main, session, owes, consumed⟩ := consumer_keepsBooks calling count
  refine ⟨d, called.trans entered, ⟨main, by rw [session, queue], fun p => ?_, fun k' => ?_,
    fun role => ?_⟩, by rw [session, todo], by rw [consumed, unchanged]⟩
  · rw [session, pcs]
    simpa using lull.producers p
  · rw [session, pcs]
    by_cases same : k' = k
    · simp [same, mayPop]
    · simpa [same] using lull.consumers k'
  · rw [owes, owing, Function.update_idem]
    by_cases same : role = .consumer k
    · simp [same]
    · simpa [same] using lull.owes role

/-- At the start nobody is in a call. -/
theorem lull_init (maxSize : ℕ) (items : Fin P → List ℤ) :
    Lull maxSize [] (Config.init maxSize items : Config P C) where
  main := rfl
  queue := rfl
  producers _ := rfl
  consumers _ := rfl
  owes _ := rfl

/-- The producers and these consumers take turns, one item at a time. -/
theorem lull_turns (capacity : 0 < maxSize) (takers : List (Fin C)) (lull : Lull maxSize [] c)
    (enough : takers.length ≤ ∑ p, (c.session.todo p).length) :
    ∃ d, Reaches step c d ∧ ∀ k, d.consumerTracker.threadCounts k =
      c.consumerTracker.threadCounts k + takers.count k := by
  induction takers generalizing c with
  | nil => exact ⟨c, Reaches.refl c, fun k => rfl⟩
  | cons taker takers inductionHypothesis =>
    have some : ∑ p, (c.session.todo p).length ≠ 0 := by
      rw [List.length_cons] at enough
      omega
    obtain ⟨p, _, left⟩ := Finset.exists_ne_zero_of_sum_ne_zero some
    obtain ⟨item, rest, next⟩ := List.exists_cons_of_length_pos (Nat.pos_of_ne_zero left)
    obtain ⟨b, pushed, waits, todo, unchanged⟩ := lull_push lull capacity next
    obtain ⟨d, popped, again, same, recorded⟩ := lull_pop waits capacity taker
    have fewer := tally_update (fun _ => List.length) c.session.todo p rest
    rw [← todo, ← same, next, List.length_cons] at fewer
    simp only [tally] at fewer
    obtain ⟨e, onward, counted⟩ := inductionHypothesis again (by
      rw [List.length_cons] at enough
      omega)
    refine ⟨e, (pushed.trans popped).trans onward, fun k => ?_⟩
    rw [counted k, recorded, unchanged, VarianceTracker.recordOperation_threadCounts,
      List.count_cons]
    by_cases own : k = taker
    · subst own
      simp only [Function.update_self, beq_self_eq_true, if_true]
      omega
    · simp [Function.update_of_ne own, Ne.symm own]

/-- Every way to share out the items among the consumers is that of some run to the end: once
the items are shared out so, no completion can add to any book, as the sum is fixed. -/
theorem every_share_reached (capacity : 0 < maxSize) (consumers : 0 < C)
    (items : Fin P → List ℤ) (split : Fin C → ℕ)
    (whole : ∑ k, split k = ∑ p, (items p).length) :
    ∃ last : Config P C, Reaches step (Config.init maxSize items) last ∧ last.main = .finished ∧
      ∀ k, last.consumerTracker.threadCounts k = split k := by
  let takers : Multiset (Fin C) := ∑ k, Multiset.replicate (split k) k
  have count : ∀ k, takers.toList.count k = split k := by
    intro k
    simp [takers, ← Multiset.coe_count, Multiset.count_sum', Multiset.count_replicate]
  have length : takers.toList.length = ∑ k, split k := by simp [takers]
  obtain ⟨d, shared, counted⟩ := lull_turns capacity takers.toList (lull_init maxSize items)
    (by rw [length, whole]; exact le_refl _)
  obtain ⟨last, onward, finished⟩ := iteration_completes capacity consumers shared
  have reached := shared.trans onward
  have atLeast : ∀ k, split k ≤ last.consumerTracker.threadCounts k := by
    intro k
    have before : split k ≤ d.consumerTracker.threadCounts k := by
      rw [counted k, count k]
      exact Nat.le_add_left _ _
    exact (consumed_grows (split k) k).reaches before onward
  have total := (finished_complete consumers reached finished).consumed
  have equal := (Finset.sum_eq_sum_iff_of_le fun k _ => atLeast k).mp (whole.trans total.symm)
  exact ⟨last, reached, finished, fun k => (equal k (Finset.mem_univ k)).symm⟩

end Turns

section Quota

variable {quota : ℕ}

/-- Every way to share out as many items as the quotas make. -/
theorem quota_share_reached (consumers : 0 < C) (split : Fin C → ℕ)
    (whole : ∑ k, split k = P * quota) :
    ∃ c : Config P C, Reachable quota c ∧ c.main = .finished ∧
      ∀ k, c.consumerTracker.threadCounts k = split k :=
  every_share_reached (by decide) consumers (items quota) split
    (whole.trans (items_sum quota).symm)

/-- What is published of the consumers may be the coefficient of any such shares. -/
theorem share_published (fl : Fairness.Rounding) {numThreads total : ℕ}
    (started : ¬ Skipped numThreads) (iterates : 0 < total)
    (split : Fin (numConsumers numThreads) → ℕ)
    (whole : ∑ k, split k = numProducers numThreads * quota) :
    Publishes fl numThreads quota total
      ⟨fl.coefficientOfVariation (List.replicate (numProducers numThreads) quota),
        (VarianceTracker.mk split).roundedCoefficient fl⟩ := by
  have consumers := numConsumers_pos started
  obtain ⟨c, reached, finished, shared⟩ := quota_share_reached consumers split whole
  have consumed : c.consumerTracker = ⟨split⟩ := by
    rw [← funext shared]
  have produced := VarianceTracker.roundedCoefficient_of_quota
    (finished_quotas consumers reached finished).1 fl
  have ended := (result_eq_some_iff fl c _).mpr ⟨finished, rfl⟩
  rw [produced, consumed] at ended
  exact ⟨started, _, reaches_passed ⟨c, reached, ended⟩ iterates, rfl⟩

end Quota

end ConcurrencyBench.ProducerConsumerMPMC
