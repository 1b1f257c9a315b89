import ConcurrencyBench.SemaphoreSession

/-!
# Sessions complete and deliver

Every step of a session spends from a budget: a push not yet begun is charged for
its own statements and for the pop its item will allow, so the consumers' loops
are paid for by the items. Sessions are therefore finite, and it remains to see
where one can stop.

In a state where nobody can go on, the token accounts fix both semaphores. With
`close` returned, filled slots remain, so every consumer has gone on until a
false, which only a drained queue gives; a drained queue has all its slots free,
so no producer waits either. Before `close`, a waiting producer means a full
queue, whose filled slots no consumer would leave. This is where the capacity
must be positive and a consumer present.
-/

namespace ConcurrencyBench.SemaphoreSession

open Interleaving SemaphoreQueue

universe v
variable {P C : ℕ} {T : Type v} {joins : Bool} {maxSize : ℕ} {items : Fin P → List T}
  {s : Session P C T}

/-- What a thread that has made no call yet will charge for its first `pop`, or
for its `close`. -/
def opening (maxSize : ℕ) : Role P C → Pc T → ℕ
  | .consumer _, .idle => popCharge
  | .closer, .idle => wakeCost maxSize 0 + 2
  | _, _ => 0

/-- The statements of one `push`, its start included, and the pop its item allows. -/
def pushCharge : ℕ := 25

/-- All a thread's position may still charge. -/
def charge (maxSize : ℕ) (role : Role P C) (pc : Pc T) : ℕ :=
  cost maxSize pc + credit pc + opening maxSize role pc

/-- Steps a session has left at most. -/
def Session.budget (s : Session P C T) : ℕ :=
  tally (charge s.core.q.maxSize) s.core.pcs + popCharge * s.core.q.queue.length +
    pushCharge * tally (fun _ => List.length) s.todo

/-- A producer that may push is charged nothing. -/
theorem charge_of_mayPush (maxSize : ℕ) (p : Fin P) {pc : Pc T} (ready : mayPush pc = true) :
    charge maxSize (.producer p : Role P C) pc = 0 := by
  cases pc with
  | idle => rfl
  | returned result =>
    cases result with
    | pushed item accepted => rfl
    | _ => simp [mayPush] at ready
  | _ => simp [mayPush] at ready

/-- A consumer that may pop is charged for one call. -/
theorem charge_of_mayPop (maxSize : ℕ) (k : Fin C) {pc : Pc T} (ready : mayPop pc = true) :
    charge maxSize (.consumer k : Role P C) pc = popCharge := by
  cases pc with
  | idle => simp [charge, cost, credit, opening]
  | returned result =>
    cases result with
    | popped item => cases item <;> simp_all [mayPop, charge, cost, credit, opening]
    | _ => simp [mayPop] at ready
  | _ => simp [mayPop] at ready

/-- A thread inside a call, or back from one, has opened. -/
theorem opening_of_kind (maxSize : ℕ) (role : Role P C) {pc : Pc T} (begun : pc.kind ≠ none) :
    opening maxSize role pc = 0 := by
  cases pc with
  | idle => exact absurd rfl begun
  | _ => cases role <;> rfl

/-- A session keeps the queue balanced. -/
theorem balanced_session (joins : Bool) (maxSize : ℕ) :
    Preserved (step joins) fun s : Session P C T => Balanced maxSize s.core := by
  intro s label s' balanced taken
  obtain ⟨label', forward⟩ := step_core taken
  exact balanced_preserved maxSize s.core label' s'.core balanced forward

/-- Every step of a session lowers its budget. -/
theorem budget_lowers (joins : Bool) (maxSize : ℕ) :
    Lowers (step joins) (fun s : Session P C T => Balanced maxSize s.core) Session.budget := by
  intro s label s' balanced taken
  cases step_turn taken with
  | push p item rest ready next =>
    have position := tally_update (charge s.core.q.maxSize) s.core.pcs (.producer p)
      (.push .entryShutdown item)
    have list := tally_update (fun _ => List.length) s.todo p rest
    rw [charge_of_mayPush _ p ready] at position
    have spent : charge s.core.q.maxSize (.producer p : Role P C) (.push .entryShutdown item) = 24 :=
      rfl
    simp only [next, List.length_cons] at list
    simp only [Session.budget, pushCharge]
    omega
  | pop k ready =>
    have position := tally_update (charge s.core.q.maxSize) s.core.pcs (.consumer k) (.pop .lock)
    rw [charge_of_mayPop _ k ready] at position
    have spent : charge s.core.q.maxSize (.consumer k : Role P C) (.pop .lock : Pc T) = 12 := rfl
    simp only [Session.budget, popCharge] at position ⊢
    omega
  | close idle joined =>
    have position := tally_update (charge s.core.q.maxSize) s.core.pcs .closer (.close .storeClosed)
    rw [idle] at position
    simp only [charge, cost, credit, opening] at position
    simp only [Session.budget]
    omega
  | go role q pc moved =>
    have spent := (exec_contribution moved).budget (balanced.found role)
    have kind := (exec_contribution moved).kind
    have size := (move_accounts (.exec q pc moved)).maxSize
    have begun : (s.core.pcs role).kind ≠ none := by
      intro none
      cases standing : s.core.pcs role with
      | idle => simp [standing, exec] at moved
      | _ => simp [standing, Pc.kind] at none
    have before := opening_of_kind s.core.q.maxSize role begun
    have after := opening_of_kind s.core.q.maxSize role (kind ▸ begun)
    have position := tally_update (charge s.core.q.maxSize) s.core.pcs role pc
    simp only [charge] at position
    simp only [Session.budget, size]
    omega

/-- Every run of a session is finite: its start fixes a bound for all schedules. -/
theorem schedules_bounded (joins : Bool) (maxSize : ℕ) (items : Fin P → List T)
    {schedule : List (Label P C)}
    (played : run (step joins) (Session.init maxSize items : Session P C T) schedule = some s) :
    schedule.length ≤ (Session.init maxSize items : Session P C T).budget := by
  have spent := (budget_lowers joins maxSize).length_le (balanced_session joins maxSize)
    (balanced_init maxSize) played
  omega

section Stuck

variable (orderly : Orderly items s) (stuck : Stuck (step joins) s)

include stuck in
/-- In a stuck session no call can go on. -/
theorem exec_none_of_stuck (role : Role P C) : exec role s.core.q (s.core.pcs role) = none := by
  have none := stuck (.go role)
  simpa [step, SemaphoreQueue.step] using none

include stuck in
/-- Where nobody can go on, a thread between calls has no next call. -/
theorem client_none_of_stuck (role : Role P C) (rest : (s.core.pcs role).atRest = true) :
    s.client joins role = none := by
  have blocked := stuck (.call role)
  cases chosen : s.client joins role with
  | none => rfl
  | some next => simp [step, chosen, SemaphoreQueue.step, rest] at blocked

include orderly stuck in
/-- A producer that cannot go on has left its loop or waits for a slot. -/
theorem producer_of_stuck (p : Fin P) (waiting : (s.core.pcs (.producer p)).waiting = true) :
    s.producerDone p = true ∨ ∃ item, s.core.pcs (.producer p) = .push .acquire item := by
  have kinds := orderly.kinds (.producer p)
  have client := client_none_of_stuck stuck (.producer p)
  unfold Session.producerDone
  unfold Session.client at client
  cases standing : s.core.pcs (.producer p) with
  | idle => cases list : s.todo p <;> simp_all [Pc.atRest, mayPush]
  | push place item => cases place <;> simp_all [Pc.waiting]
  | returned result =>
    cases result with
    | pushed item accepted =>
      cases accepted <;> cases list : s.todo p <;> simp_all [Pc.atRest, mayPush]
    | _ => simp [standing, Pc.kind, Result.kind, Role.kind] at kinds
  | pop place => simp [standing, Pc.kind, Role.kind] at kinds
  | close place | shutdown place => simp [standing, Pc.waiting] at waiting

include orderly stuck in
/-- A consumer that cannot go on is back with false or waits for an item. -/
theorem consumer_of_stuck (k : Fin C) (waiting : (s.core.pcs (.consumer k)).waiting = true) :
    s.core.pcs (.consumer k) = .returned (.popped none) ∨
      s.core.pcs (.consumer k) = .pop .acquire := by
  have kinds := orderly.kinds (.consumer k)
  have client := client_none_of_stuck stuck (.consumer k)
  unfold Session.client at client
  cases standing : s.core.pcs (.consumer k) with
  | idle => simp_all [Pc.atRest, mayPop]
  | pop place => cases place <;> simp_all [Pc.waiting]
  | returned result =>
    cases result with
    | popped item => cases item <;> simp_all [Pc.atRest, mayPop]
    | _ => simp [standing, Pc.kind, Result.kind, Role.kind] at kinds
  | _ => simp [standing, Pc.kind, Role.kind] at kinds

include orderly stuck in
/-- A closer that cannot go on is back, or still joins a producer. -/
theorem closer_of_stuck (waiting : (s.core.pcs .closer).waiting = true) :
    s.core.pcs .closer = .returned .closed ∨
      (s.core.pcs .closer = .idle ∧ ∃ p, ¬ s.producerDone p = true) := by
  have kinds := orderly.kinds .closer
  have client := client_none_of_stuck stuck .closer
  unfold Session.client at client
  cases standing : s.core.pcs .closer with
  | idle => simp_all [Pc.atRest]
  | close place => simp [standing, Pc.waiting] at waiting
  | returned result =>
    cases result with
    | closed => exact Or.inl rfl
    | _ => simp [standing, Pc.kind, Result.kind, Role.kind] at kinds
  | _ => simp [standing, Pc.kind, Role.kind] at kinds

end Stuck

/-- A consumer back with false has drained the queue, and with nobody able to go on
every slot is then free. -/
theorem slots_of_finished_consumer {c : Config (Role P C) T}
    (reached : SemaphoreQueue.Reachable maxSize c) (waiting : ∀ role, (c.pcs role).waiting = true)
    {k : Fin C} (back : c.pcs (.consumer k) = .returned (.popped none)) :
    c.q.queue = [] ∧ maxSize ≤ c.q.emptySlots := by
  have drained : Drained c := (reachable_decided reached).gave (.consumer k) (by rw [back]; rfl)
  have counts := settled_counts (reachable_balanced reached) waiting
  rw [drained.empty, List.length_nil] at counts
  exact ⟨drained.empty, by omega⟩

/-- No thread of a session is left hanging. -/
theorem done_of_stuck (capacity : 0 < maxSize) (consumers : 0 < C)
    (reached : Reachable joins maxSize items s) (stuck : Stuck (step joins) s) : s.Done := by
  have core := reachable_core reached
  have orderly := reachable_orderly reached
  have blocked := exec_none_of_stuck stuck
  have waiting := all_waiting (reachable_balanced core) blocked
  obtain ⟨slots, tokens⟩ := settled_counts (reachable_balanced core) waiting
  let first : Fin C := ⟨0, consumers⟩
  have taker : 0 < s.core.q.filledSlots →
      ∀ k, s.core.pcs (.consumer k) = .returned (.popped none) := by
    intro token k
    rcases consumer_of_stuck orderly stuck k (waiting _) with back | asleep
    · exact back
    · have none := blocked (.consumer k)
      rw [asleep] at none
      simp [exec, SemaphoreQueue.pop] at none
      omega
  rcases closer_of_stuck orderly stuck (waiting _) with closer | ⟨idle, p, working⟩
  · have closed := orderly.closes closer
    have positive : 0 < (maxSize + 1) * (closes s.core.log + shutdowns s.core.log) :=
      Nat.mul_pos (Nat.succ_pos _) (by omega)
    have consumer := taker (by omega)
    obtain ⟨_, free⟩ := slots_of_finished_consumer core waiting (consumer first)
    refine ⟨fun p => ?_, consumer, closer⟩
    rcases producer_of_stuck orderly stuck p (waiting _) with done | ⟨item, asleep⟩
    · exact done
    · have none := blocked (.producer p)
      rw [asleep] at none
      simp [exec, SemaphoreQueue.push] at none
      omega
  · rcases producer_of_stuck orderly stuck p (waiting _) with done | ⟨item, asleep⟩
    · exact absurd done working
    · have none := blocked (.producer p)
      rw [asleep] at none
      simp [exec, SemaphoreQueue.push] at none
      obtain ⟨_, free⟩ := slots_of_finished_consumer core waiting (taker (by omega) first)
      omega

/-- Whether a producer has left its loop is a matter of its position and its list. -/
theorem producerDone_of_same {s s' : Session P C T} {p : Fin P} (done : s.producerDone p = true)
    (position : s'.core.pcs (.producer p) = s.core.pcs (.producer p))
    (list : s'.todo p = s.todo p) : s'.producerDone p = true := by
  unfold Session.producerDone
  rw [position, list]
  exact done

/-- A producer that is done is in no call. -/
theorem atRest_of_producerDone {p : Fin P} (done : s.producerDone p = true) :
    (s.core.pcs (.producer p)).atRest = true := by
  unfold Session.producerDone at done
  cases standing : s.core.pcs (.producer p) with
  | idle | returned => rfl
  | _ => simp [standing] at done

/-- A producer that is done and was not turned away has pushed everything. -/
theorem todo_of_producerDone {p : Fin P} (done : s.producerDone p = true)
    (ready : (s.core.pcs (.producer p)).rejecting = false) : s.todo p = [] := by
  unfold Session.producerDone at done
  cases standing : s.core.pcs (.producer p) with
  | idle => simpa [standing] using done
  | returned result =>
    cases result with
    | pushed item accepted => cases accepted <;> simp_all [Pc.rejecting]
    | _ => simp [standing] at done
  | _ => simp [standing] at done

/-- Only a push is turned away. -/
theorem push_of_rejecting {pc : Pc T} (rejecting : pc.rejecting = true) :
    pc.kind = some .push := by
  cases pc with
  | push place item => rfl
  | returned result => cases result <;> simp_all [Pc.rejecting, Pc.kind, Result.kind]
  | _ => simp [Pc.rejecting] at rejecting

/-- What is logged as returned has returned. -/
theorem returned_of_observe {pc pc' : Pc T} {result : Result T}
    (logged : .returned result ∈ observe pc pc') : pc' = .returned result := by
  unfold observe at logged
  split at logged <;> simp_all

/-- What holds in addition when the closer joins the producers before its call. -/
structure Joined (s : Session P C T) : Prop where
  accepting : ∀ role, (s.core.pcs role).rejecting = false
  accepted : ∀ role item, (role, Event.returned (.pushed item false)) ∉ s.core.log
  finished : s.core.pcs .closer ≠ .idle → ∀ p, s.producerDone p = true

/-- A producer's statement accepts while no flag is set, and no producer has a
statement left once the closer has begun. -/
theorem joined_go (orderly : Orderly items s) (joined : Joined s) {role : Role P C}
    {q : Queue (Role P C) T} {pc : Pc T}
    (moved : exec role s.core.q (s.core.pcs role) = some (q, pc)) :
    Joined (⟨⟨q, Function.update s.core.pcs role pc,
      s.core.log ++ (observe (s.core.pcs role) pc).map (role, ·)⟩, s.todo⟩ : Session P C T) := by
  have contribution := exec_contribution moved
  have begun : s.core.pcs role ≠ .idle := by
    intro idle
    simp [idle, exec] at moved
  have elsewhere : s.core.pcs .closer ≠ .idle → ∀ p, role ≠ .producer p := by
    rintro started p rfl
    have rest := atRest_of_producerDone (joined.finished started p)
    cases standing : s.core.pcs (.producer p) with
    | idle | returned => simp [standing, exec] at moved
    | _ => simp [standing, Pc.atRest] at rest
  have accepting : pc.rejecting = false := by
    by_cases idle : s.core.pcs .closer = .idle
    · exact contribution.accepts (orderly.closed idle) orderly.shutdown (joined.accepting role)
    · by_contra rejecting
      have kind := push_of_rejecting (by simpa using rejecting)
      rw [contribution.kind] at kind
      cases role with
      | producer p => exact elsewhere idle p rfl
      | consumer | closer => simpa [Role.kind] using orderly.kinds _ _ kind
  refine ⟨?_, fun other item logged => ?_, fun started p => ?_⟩
  · rw [Function.forall_update_iff s.core.pcs fun _ p => p.rejecting = false]
    exact ⟨accepting, fun other _ => joined.accepting other⟩
  · rcases List.mem_append.mp logged with before | now
    · exact joined.accepted other item before
    · obtain ⟨event, member, same⟩ := List.mem_map.mp now
      cases same
      simp [returned_of_observe member, Pc.rejecting] at accepting
  · have idle : s.core.pcs .closer ≠ .idle := by
      by_cases same : role = .closer
      · exact same ▸ begun
      · dsimp only at started
        rwa [Function.update_of_ne (Ne.symm same)] at started
    exact producerDone_of_same (joined.finished idle p)
      (Function.update_of_ne (elsewhere idle p).symm _ _) rfl

/-- Every step of a session that joins keeps its order. -/
theorem joined_step {label : Label P C} {s' : Session P C T} (orderly : Orderly items s)
    (joined : Joined s) (taken : step true s label = some s') : Joined s' := by
  have logged : ∀ {role role' : Role P C} {op : Op T} {item : T},
      (role', Event.returned (.pushed item false)) ∉
        s.core.log ++ [Event.called op].map (role, ·) := by
    intro role role' op item member
    rcases List.mem_append.mp member with before | now
    · exact joined.accepted _ _ before
    · simp at now
  have started : ∀ (role : Role P C) (op : Op T), op.entry.rejecting = false →
      ∀ other, (Function.update s.core.pcs role op.entry other).rejecting = false := by
    intro role op fresh
    rw [Function.forall_update_iff s.core.pcs fun _ p => p.rejecting = false]
    exact ⟨fresh, fun other _ => joined.accepting other⟩
  cases step_turn taken with
  | push p item rest ready next =>
    refine ⟨started (.producer p) (.push item) rfl, fun _ _ => logged, fun begun => ?_⟩
    have done := joined.finished (by simpa using begun) p
    have none := todo_of_producerDone done (joined.accepting _)
    simp [next] at none
  | pop k ready =>
    refine ⟨started (.consumer k) .pop rfl, fun _ _ => logged, fun begun p => ?_⟩
    exact producerDone_of_same (joined.finished (by simpa using begun) p) (by simp) rfl
  | close idle ready =>
    refine ⟨started .closer .close rfl, fun _ _ => logged, fun _ p => ?_⟩
    exact producerDone_of_same (ready rfl p) (by simp) rfl
  | go role q pc moved => exact joined_go orderly joined moved

/-- A session that joins is in order in every reachable state. -/
theorem reachable_joined (reached : Reachable true maxSize items s) : Joined s := by
  have kept := (orderly_preserved (C := C) true items).and fun _ _ _ orderly joined taken =>
    joined_step orderly joined taken
  have start : Joined (Session.init maxSize items : Session P C T) :=
    ⟨fun _ => rfl, by simp [Session.init, Config.init], fun started => absurd rfl started⟩
  exact (kept.reaches ⟨orderly_init maxSize items, start⟩ reached).2

/-- What a consumer's pops have handed out, in order. -/
def Session.takenBy (s : Session P C T) (k : Fin C) : List T :=
  pick Event.handedOut (.consumer k) s.core.log

/-- The items of a producer's pushes that returned true, in order. -/
def Session.acceptedFrom (s : Session P C T) (p : Fin P) : List T :=
  pick Event.accepted (.producer p) s.core.log

/-- The insertions with the threads that made them, in order. -/
def Session.insertions (s : Session P C T) : List (Role P C × T) :=
  tagged Event.inserted s.core.log

/-- A thread of another kind has no events of this kind. -/
theorem pick_of_kind (orderly : Orderly items s) (value : Event T → Option T) (kind : Kind)
    (only : ∀ event, value event ≠ none → event.kind = kind) (role : Role P C)
    (other : role.kind ≠ kind) : pick value role s.core.log = [] := by
  refine pick_eq_nil value role s.core.log fun event logged => ?_
  by_contra some
  exact other ((orderly.events role event logged).symm.trans (only event some))

/-- All insertions are the producers'. -/
theorem inserted_sum (orderly : Orderly items s) :
    (readAll Event.inserted s.core.log : Multiset T) =
      ∑ p, (pick Event.inserted (.producer p) s.core.log : Multiset T) := by
  have only : ∀ event : Event T, event.inserted ≠ none → event.kind = .push := by
    rintro (op | item | item | result) some <;> simp_all [Event.inserted, Event.kind]
  have others := pick_of_kind orderly Event.inserted .push only
  have consumers : ∀ k, pick Event.inserted (.consumer k) s.core.log = [] :=
    fun k => others (.consumer k) (by simp [Role.kind])
  rw [readAll_eq_sum, sum_roles, others .closer (by simp [Role.kind])]
  simp [consumers]

/-- All removals are the consumers'. -/
theorem removed_sum (orderly : Orderly items s) :
    (readAll Event.removed s.core.log : Multiset T) =
      ∑ k, (pick Event.removed (.consumer k) s.core.log : Multiset T) := by
  have only : ∀ event : Event T, event.removed ≠ none → event.kind = .pop := by
    rintro (op | item | item | result) some <;> simp_all [Event.removed, Event.kind]
  have others := pick_of_kind orderly Event.removed .pop only
  have producers : ∀ p, pick Event.removed (.producer p) s.core.log = [] :=
    fun p => others (.producer p) (by simp [Role.kind])
  rw [readAll_eq_sum, sum_roles, others .closer (by simp [Role.kind])]
  simp [producers]

/-- Who is at rest has nothing to acknowledge. -/
theorem unacknowledged_of_atRest {pc : Pc T} (rest : pc.atRest = true) :
    unacknowledged pc = [] := by
  cases pc with
  | idle | returned => rfl
  | _ => simp [Pc.atRest] at rest

section Done

variable (reached : Reachable joins maxSize items s) (done : s.Done)

include reached done in
/-- At the end every insertion of a producer has been acknowledged. -/
theorem inserted_of_done (p : Fin P) :
    pick Event.inserted (.producer p) s.core.log = s.acceptedFrom p := by
  rw [reachable_inserted (reachable_core reached) (.producer p),
    unacknowledged_of_atRest (atRest_of_producerDone (done.producers p)), List.append_nil]
  rfl

include reached done in
/-- At the end every item removed has been handed to its consumer. -/
theorem removed_of_done (k : Fin C) :
    pick Event.removed (.consumer k) s.core.log = s.takenBy k := by
  rw [reachable_removed (reachable_core reached) (.consumer k), done.consumers k]
  exact List.append_nil _

include reached done in
/-- At the end the items removed are the items inserted, in order. -/
theorem received_of_done (consumers : 0 < C) :
    Channel.received (history s.core.log) = Channel.sent (history s.core.log) := by
  have core := reachable_core reached
  have drained : Drained s.core := (reachable_decided core).gave (.consumer ⟨0, consumers⟩)
    (by rw [done.consumers]; rfl)
  have order := reachable_fifo core
  rwa [drained.empty, List.append_nil] at order

include reached done in
/-- At the end the consumers together have received exactly the accepted items. -/
theorem taken_of_done (consumers : 0 < C) :
    ∑ k, (s.takenBy k : Multiset T) = ∑ p, (s.acceptedFrom p : Multiset T) := by
  have orderly := reachable_orderly reached
  calc ∑ k, (s.takenBy k : Multiset T)
      = ∑ k, (pick Event.removed (.consumer k) s.core.log : Multiset T) := by
        simp only [removed_of_done reached done]
    _ = (readAll Event.removed s.core.log : Multiset T) := (removed_sum orderly).symm
    _ = (readAll Event.inserted s.core.log : Multiset T) := by
        rw [← received_history, ← sent_history, received_of_done reached done consumers]
    _ = ∑ p, (pick Event.inserted (.producer p) s.core.log : Multiset T) := inserted_sum orderly
    _ = ∑ p, (s.acceptedFrom p : Multiset T) := by simp only [inserted_of_done reached done]

end Done

/-- When the closer joins the producers first, each producer has inserted its whole
list by the end. -/
theorem lists_of_done (reached : Reachable true maxSize items s) (done : s.Done) (p : Fin P) :
    pick Event.inserted (.producer p) s.core.log = items p := by
  have joined := reachable_joined reached
  have none := todo_of_producerDone (done.producers p) (joined.accepting _)
  have ready : mayPush (s.core.pcs (.producer p)) = true := by
    have accepting := joined.accepting (.producer p)
    have left := done.producers p
    unfold Session.producerDone at left
    cases standing : s.core.pcs (.producer p) with
    | idle => rfl
    | returned result =>
      cases result with
      | pushed item accepted => cases accepted <;> simp_all [Pc.rejecting, mayPush]
      | _ => simp [standing] at left
    | _ => simp [standing] at left
  rw [(reachable_orderly reached).lists p, none, notInserted_of_mayPush ready]
  simp

/-- A session whose closer joins the producers completes and delivers everything,
for any producers' lists, any consumers and any interleaving. Its runs are bounded,
every push returns true, and a state where nobody can go on has every thread back.
By then the consumers have received the producers' items, and the items in the
order of their removal are a merge of the producers' lists. -/
theorem joined_session_delivers (maxSize : ℕ) (items : Fin P → List T) (capacity : 0 < maxSize)
    (consumers : 0 < C) :
    (∃ bound, ∀ schedule (s : Session P C T),
      run (step true) (Session.init maxSize items) schedule = some s → schedule.length ≤ bound) ∧
    ∀ s : Session P C T, Reachable true maxSize items s →
      (∀ role item accepted, (role, Event.returned (.pushed item accepted)) ∈ s.core.log →
        accepted = true) ∧
      (Stuck (step true) s → s.Done) ∧
      (s.Done → ∑ k, (s.takenBy k : Multiset T) = ∑ p, (items p : Multiset T) ∧
        s.insertions.map Prod.snd = Channel.received (history s.core.log) ∧
        ∀ p, (s.insertions.filter (·.1 = .producer p)).map Prod.snd = items p) := by
  refine ⟨⟨_, fun schedule s played => schedules_bounded true maxSize items played⟩,
    fun s reached => ⟨?_, done_of_stuck capacity consumers reached, fun done => ⟨?_, ?_, ?_⟩⟩⟩
  · intro role item accepted logged
    cases accepted with
    | true => rfl
    | false => exact absurd logged ((reachable_joined reached).accepted role item)
  · rw [taken_of_done reached done consumers]
    simp only [← inserted_of_done reached done, lists_of_done reached done]
  · rw [Session.insertions, tagged_values, ← sent_history, received_of_done reached done consumers]
  · intro p
    rw [Session.insertions, tagged_of, lists_of_done reached done]

/-- Two producers with three items, two consumers and one slot. A consumer waits before the
first item is pushed, a producer waits for the slot, and the closer comes last. -/
theorem joined_session_delivers_two : ∃ s : Session 2 2 ℕ,
    Reachable true 1 (fun p => if p = 0 then [7, 8] else [9]) s ∧ s.Done ∧
    s.takenBy 0 = [9, 8] ∧ s.takenBy 1 = [7] ∧
    ∑ k, (s.takenBy k : Multiset ℕ) = {7, 8, 9} := by
  let items : Fin 2 → List ℕ := fun p => if p = 0 then [7, 8] else [9]
  let schedule : List (Label 2 2) :=
    [[.call (.consumer 1)], List.replicate 5 (.go (.consumer 1)),
      [.call (.producer 0)], List.replicate 11 (.go (.producer 0)),
      [.call (.producer 1)], List.replicate 2 (.go (.producer 1)),
      List.replicate 5 (.go (.consumer 1)), List.replicate 9 (.go (.producer 1)),
      [.call (.producer 0)], List.replicate 2 (.go (.producer 0)),
      [.call (.consumer 0)], List.replicate 8 (.go (.consumer 0)),
      List.replicate 9 (.go (.producer 0)), [.call .closer], List.replicate 4 (.go .closer),
      [.call (.consumer 0)], List.replicate 8 (.go (.consumer 0)),
      [.call (.consumer 0)], List.replicate 5 (.go (.consumer 0)),
      [.call (.consumer 1)], List.replicate 5 (.go (.consumer 1))].flatten
  have played : (run (step true) (Session.init 1 items) schedule).map (fun s =>
      (s.producerDone 0 && s.producerDone 1,
        [s.core.pcs (.consumer 0), s.core.pcs (.consumer 1), s.core.pcs .closer],
        [s.takenBy 0, s.takenBy 1])) =
      some (true, [.returned (.popped none), .returned (.popped none), .returned .closed],
        [[9, 8], [7]]) := by
    decide +kernel
  obtain ⟨s, reached, final⟩ := Option.map_eq_some_iff.mp played
  simp only [Prod.mk.injEq, Bool.and_eq_true, List.cons.injEq, and_true] at final
  obtain ⟨⟨first, second⟩, ⟨emptied, drained, closed⟩, most, least⟩ := final
  have done : s.Done :=
    ⟨fun | 0 => first | 1 => second, fun | 0 => emptied | 1 => drained, closed⟩
  have delivered := (joined_session_delivers 1 items (by decide) (by decide)).2 s
    ⟨schedule, reached⟩
  exact ⟨s, ⟨schedule, reached⟩, done, most, least, (delivered.2.2 done).1.trans (by decide)⟩

/-- `close` alone leaves nobody hanging while a consumer drains, whenever the closer
makes its call and however many producers wait for a slot of a full queue then. Runs
are bounded, a state where nobody can go on has every thread back, and by then the
consumers have received exactly the items whose push returned true. -/
theorem close_strands_nobody (maxSize : ℕ) (items : Fin P → List T) (capacity : 0 < maxSize)
    (consumers : 0 < C) :
    (∃ bound, ∀ schedule (s : Session P C T),
      run (step false) (Session.init maxSize items) schedule = some s → schedule.length ≤ bound) ∧
    ∀ s : Session P C T, Reachable false maxSize items s →
      (Stuck (step false) s → s.Done) ∧
      (s.Done → ∑ k, (s.takenBy k : Multiset T) = ∑ p, (s.acceptedFrom p : Multiset T)) :=
  ⟨⟨_, fun _ _ played => schedules_bounded false maxSize items played⟩, fun _ reached =>
    ⟨done_of_stuck capacity consumers reached, fun done => taken_of_done reached done consumers⟩⟩

/-- The producer waits with its second item on a full queue when `close` runs, and
its push is rejected after the consumer has freed a slot. -/
theorem close_strands_nobody_one : ∃ s : Session 1 1 ℕ, Reachable false 1 (fun _ => [7, 8]) s ∧
    s.Done ∧ ∑ k, (s.takenBy k : Multiset ℕ) = {7} := by
  let schedule : List (Label 1 1) :=
    [[.call (.producer 0)], List.replicate 11 (.go (.producer 0)),
      [.call (.producer 0)], List.replicate 2 (.go (.producer 0)),
      [.call .closer], List.replicate 4 (.go .closer),
      [.call (.consumer 0)], List.replicate 8 (.go (.consumer 0)),
      List.replicate 4 (.go (.producer 0)),
      [.call (.consumer 0)], List.replicate 5 (.go (.consumer 0))].flatten
  have played : (run (step false) (Session.init 1 fun _ => [7, 8]) schedule).map
      (fun s => (s.producerDone 0, s.core.pcs (.consumer 0), s.core.pcs .closer,
        s.acceptedFrom 0)) =
        some (true, .returned (.popped none), .returned .closed, [7]) := rfl
  obtain ⟨s, reached, final⟩ := Option.map_eq_some_iff.mp played
  obtain ⟨pushed, popped, closed, accepted⟩ : s.producerDone 0 = true ∧
      s.core.pcs (.consumer 0) = .returned (.popped none) ∧
      s.core.pcs .closer = .returned .closed ∧ s.acceptedFrom 0 = [7] := by simpa using final
  have done : s.Done := ⟨fun | 0 => pushed, fun | 0 => popped, closed⟩
  have delivered := (close_strands_nobody 1 (fun _ => [7, 8]) (by decide) (by decide)).2 s
    ⟨schedule, reached⟩
  exact ⟨s, ⟨schedule, reached⟩, done, by simpa [accepted] using delivered.2 done⟩

end ConcurrencyBench.SemaphoreSession
