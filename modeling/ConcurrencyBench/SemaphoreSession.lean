import ConcurrencyBench.SemaphoreCalls

/-!
# Producer and consumer sessions over a semaphore queue

A session is the queue driven by three kinds of thread: producers that push the
items of their own list and stop at the first false, consumers that pop until
false, and one closer. In the benchmarks the closer joins all producers first;
in the single-producer benchmark the producer makes the call itself after its
loop, which is the same order of steps. Without the join the closer may run at
any moment.

The clients only choose which call a thread at rest makes next, so every session
step is a step of the queue's program and every fact about reachable queue
states holds of sessions. Added here are what the clients know: a producer's
list splits into what it inserted, the item at hand and what is left; each kind
of thread makes its own kind of call; and a budget that every step spends.
-/

namespace ConcurrencyBench.SemaphoreSession

open Interleaving SemaphoreQueue

universe v
variable {P C : ℕ} {T : Type v}

/-- The threads of a session. -/
inductive Role (P C : ℕ)
  | producer (p : Fin P)
  | consumer (k : Fin C)
  | closer
deriving DecidableEq

/-- The threads as a sum of the three groups. -/
def Role.equiv : Role P C ≃ (Fin P ⊕ Fin C) ⊕ Unit where
  toFun
    | .producer p => .inl (.inl p)
    | .consumer k => .inl (.inr k)
    | .closer => .inr ()
  invFun
    | .inl (.inl p) => .producer p
    | .inl (.inr k) => .consumer k
    | .inr () => .closer
  left_inv role := by cases role <;> rfl
  right_inv role := by rcases role with (p | k) | ⟨⟩ <;> rfl

instance : Fintype (Role P C) := Fintype.ofEquiv _ Role.equiv.symm

/-- A sum over all threads is the sum of the three groups' sums. -/
theorem sum_roles {M : Type*} [AddCommMonoid M] (f : Role P C → M) :
    ∑ role, f role = (∑ p, f (.producer p) + ∑ k, f (.consumer k)) + f .closer := by
  rw [← Role.equiv.symm.sum_comp, Fintype.sum_sum_type, Fintype.sum_sum_type]
  have closer : ∑ x, f (Role.equiv.symm (.inr x)) = f .closer := Fintype.sum_unique _
  rw [closer]
  rfl

/-- The queue's program, and for each producer the items it has not yet passed to `push`. -/
structure Session (P C : ℕ) (T : Type v) where
  core : Config (Role P C) T
  todo : Fin P → List T

/-- The threads start with a fresh queue and the producers with their lists. -/
def Session.init (maxSize : ℕ) (items : Fin P → List T) : Session P C T :=
  ⟨Config.init maxSize, items⟩

/-- A producer goes on after a push that returned true. -/
def mayPush : Pc T → Bool
  | .idle | .returned (.pushed _ true) => true
  | _ => false

/-- A consumer goes on after a pop that returned true. -/
def mayPop : Pc T → Bool
  | .idle | .returned (.popped (some _)) => true
  | _ => false

/-- The producer has left its loop: its list is done or a push returned false. -/
def Session.producerDone (s : Session P C T) (p : Fin P) : Bool :=
  match s.core.pcs (.producer p) with
  | .idle | .returned (.pushed _ true) => (s.todo p).isEmpty
  | .returned (.pushed _ false) => true
  | _ => false

/-- The next call of a thread between calls, with the lists it leaves. -/
def Session.client (joins : Bool) (s : Session P C T) :
    Role P C → Option (Op T × (Fin P → List T))
  -- for (...) { if (!queue.push(item)) break; }
  | .producer p =>
    if mayPush (s.core.pcs (.producer p)) then
      match s.todo p with
      | [] => none
      | item :: rest => some (.push item, Function.update s.todo p rest)
    else none
  -- while (queue.pop(item)) {}
  | .consumer k => if mayPop (s.core.pcs (.consumer k)) then some (.pop, s.todo) else none
  -- for (auto& producer : producers) producer.join(); queue.close();
  | .closer =>
    match s.core.pcs .closer with
    | .idle =>
      if joins = true → ∀ p, s.producerDone p = true then some (.close, s.todo) else none
    | _ => none

/-- A schedule lets a thread make its next call or go on with the one it is in. -/
inductive Label (P C : ℕ)
  | call (role : Role P C)
  | go (role : Role P C)

/-- One step of a session. -/
def step (joins : Bool) (s : Session P C T) : Label P C → Option (Session P C T)
  | .call role => (s.client joins role).bind fun (op, todo) =>
      (SemaphoreQueue.step s.core (.call role op)).map fun core => ⟨core, todo⟩
  | .go role => (SemaphoreQueue.step s.core (.go role)).map fun core => ⟨core, s.todo⟩

/-- Every state a session leads to. -/
def Reachable (joins : Bool) (maxSize : ℕ) (items : Fin P → List T) (s : Session P C T) : Prop :=
  Reaches (step joins) (Session.init maxSize items) s

/-- Every thread has returned: the producers from their loops, the consumers with
false, the closer from `close`. -/
structure Session.Done (s : Session P C T) : Prop where
  producers : ∀ p, s.producerDone p = true
  consumers : ∀ k, s.core.pcs (.consumer k) = .returned (.popped none)
  closer : s.core.pcs .closer = .returned .closed

/-- What one step of a session is: a client's next call, or a statement of the
call in progress. -/
inductive Turn (joins : Bool) (s : Session P C T) : Session P C T → Prop
  | push (p : Fin P) (item : T) (rest : List T)
      (ready : mayPush (s.core.pcs (.producer p)) = true) (next : s.todo p = item :: rest) :
      Turn joins s ⟨⟨s.core.q, Function.update s.core.pcs (.producer p) (.push .entryShutdown item),
        s.core.log ++ [Event.called (.push item)].map (.producer p, ·)⟩,
        Function.update s.todo p rest⟩
  | pop (k : Fin C) (ready : mayPop (s.core.pcs (.consumer k)) = true) :
      Turn joins s ⟨⟨s.core.q, Function.update s.core.pcs (.consumer k) (.pop .lock),
        s.core.log ++ [Event.called .pop].map (.consumer k, ·)⟩, s.todo⟩
  | close (idle : s.core.pcs .closer = .idle)
      (joined : joins = true → ∀ p, s.producerDone p = true) :
      Turn joins s ⟨⟨s.core.q, Function.update s.core.pcs .closer (.close .storeClosed),
        s.core.log ++ [Event.called .close].map (.closer, ·)⟩, s.todo⟩
  | go (role : Role P C) (q : Queue (Role P C) T) (pc : Pc T)
      (moved : exec role s.core.q (s.core.pcs role) = some (q, pc)) :
      Turn joins s ⟨⟨q, Function.update s.core.pcs role pc,
        s.core.log ++ (observe (s.core.pcs role) pc).map (role, ·)⟩, s.todo⟩

/-- Every step is a turn. -/
theorem step_turn {joins : Bool} {s s' : Session P C T} {label : Label P C}
    (taken : step joins s label = some s') : Turn joins s s' := by
  cases label with
  | call role =>
    simp only [step, SemaphoreQueue.step, Option.bind_eq_some_iff, Option.map_eq_some_iff,
      Option.ite_none_right_eq_some, Option.some.injEq] at taken
    obtain ⟨⟨op, todo⟩, chosen, core, ⟨_, rfl⟩, rfl⟩ := taken
    cases role with
    | producer p =>
      simp only [Session.client, Option.ite_none_right_eq_some] at chosen
      obtain ⟨ready, chosen⟩ := chosen
      cases next : s.todo p with
      | nil => simp [next] at chosen
      | cons item rest =>
        simp only [next, Option.some.injEq, Prod.mk.injEq] at chosen
        obtain ⟨rfl, rfl⟩ := chosen
        exact .push p item rest ready next
    | consumer k =>
      simp only [Session.client, Option.ite_none_right_eq_some, Option.some.injEq,
        Prod.mk.injEq] at chosen
      obtain ⟨ready, rfl, rfl⟩ := chosen
      exact .pop k ready
    | closer =>
      simp only [Session.client] at chosen
      cases idle : s.core.pcs .closer with
      | idle =>
        simp only [idle, Option.ite_none_right_eq_some, Option.some.injEq, Prod.mk.injEq] at chosen
        obtain ⟨joined, rfl, rfl⟩ := chosen
        exact .close idle joined
      | _ => simp [idle] at chosen
  | go role =>
    simp only [step, SemaphoreQueue.step, Option.map_eq_some_iff] at taken
    obtain ⟨core, ⟨⟨q, pc⟩, moved, rfl⟩, rfl⟩ := taken
    exact .go role q pc moved

/-- Every step of a session is a step of the queue's program. -/
theorem step_core {joins : Bool} {s s' : Session P C T} {label : Label P C}
    (taken : step joins s label = some s') :
    ∃ label', SemaphoreQueue.step s.core label' = some s'.core := by
  cases label with
  | call role =>
    simp only [step, Option.bind_eq_some_iff, Option.map_eq_some_iff] at taken
    obtain ⟨⟨op, todo⟩, _, core, forward, rfl⟩ := taken
    exact ⟨.call role op, forward⟩
  | go role =>
    simp only [step, Option.map_eq_some_iff] at taken
    obtain ⟨core, forward, rfl⟩ := taken
    exact ⟨.go role, forward⟩

/-- A session's queue is a reachable queue. -/
theorem reachable_core {joins : Bool} {maxSize : ℕ} {items : Fin P → List T} {s : Session P C T}
    (reached : Reachable joins maxSize items s) : SemaphoreQueue.Reachable maxSize s.core := by
  refine reaches_map Session.core (fun s label s' taken => ?_) reached
  obtain ⟨label', forward⟩ := step_core taken
  exact Reaches.single forward

/-- What a role calls. -/
def Role.kind : Role P C → Kind
  | .producer _ => .push
  | .consumer _ => .pop
  | .closer => .close

/-- What holds of the threads of a session, joined or not. -/
structure Orderly (items : Fin P → List T) (s : Session P C T) : Prop where
  kinds : ∀ role kind, (s.core.pcs role).kind = some kind → kind = role.kind
  events : ∀ role event, (role, event) ∈ s.core.log → event.kind = role.kind
  lists : ∀ p, items p = pick Event.inserted (.producer p) s.core.log ++
    (notInserted (s.core.pcs (.producer p)) ++ s.todo p)
  shutdown : s.core.q.shutdown = false
  closed : s.core.pcs .closer = .idle → s.core.q.closed = false
  closes : s.core.pcs .closer = .returned .closed → 0 < closes s.core.log

/-- The new session is in order. -/
theorem orderly_init (maxSize : ℕ) (items : Fin P → List T) :
    Orderly items (Session.init maxSize items : Session P C T) where
  kinds := by simp [Session.init, Config.init, Pc.kind]
  events := by simp [Session.init, Config.init]
  lists := by simp [Session.init, Config.init, pick, notInserted]
  shutdown := rfl
  closed := fun _ => rfl
  closes := by simp [Session.init, Config.init]

/-- A thread that takes up or goes on with a call of its kind keeps the kinds. -/
theorem kinds_update {s : Session P C T} {items : Fin P → List T} (orderly : Orderly items s)
    {role : Role P C} {pc : Pc T} (own : pc.kind = some role.kind) :
    ∀ other kind, (Function.update s.core.pcs role pc other).kind = some kind →
      kind = other.kind := by
  rw [Function.forall_update_iff s.core.pcs fun other p =>
    ∀ kind, p.kind = some kind → kind = other.kind]
  refine ⟨fun kind same => ?_, fun other _ => orderly.kinds other⟩
  rw [own] at same
  exact (Option.some.inj same).symm

/-- The events of a role are about what it calls. -/
theorem events_append {s : Session P C T} {items : Fin P → List T} (orderly : Orderly items s)
    {role : Role P C} {events : List (Event T)} (own : ∀ event ∈ events, event.kind = role.kind) :
    ∀ other event, (other, event) ∈ s.core.log ++ events.map (role, ·) →
      event.kind = other.kind := by
  intro other event logged
  rcases List.mem_append.mp logged with before | now
  · exact orderly.events other event before
  · obtain ⟨event', member, same⟩ := List.mem_map.mp now
    cases same
    exact own event member

/-- Between two of its own calls a producer has nothing in hand. -/
theorem notInserted_of_mayPush {pc : Pc T} (ready : mayPush pc = true) : notInserted pc = [] := by
  cases pc with
  | idle => rfl
  | returned result =>
    cases result with
    | pushed item accepted => cases accepted <;> simp_all [mayPush, notInserted]
    | _ => rfl
  | _ => simp [mayPush] at ready

/-- A statement that ends a `close` is logged as one. -/
theorem closes_of_returned {pc : Pc T} {i : Role P C} {q q' : Queue (Role P C) T}
    (moved : exec i q pc = some (q', .returned .closed)) :
    0 < (observe pc (.returned .closed)).countP Event.endsClose := by
  have kind := (exec_contribution moved).kind
  cases pc with
  | close place => simp [observe, Event.endsClose]
  | idle | returned => simp [exec] at moved
  | _ => simp [Pc.kind, Result.kind] at kind

/-- A thread that makes a statement is in a call of its kind. -/
theorem kind_of_exec {items : Fin P → List T} {s : Session P C T} (orderly : Orderly items s)
    {role : Role P C} {q : Queue (Role P C) T} {pc : Pc T}
    (moved : exec role s.core.q (s.core.pcs role) = some (q, pc)) :
    (s.core.pcs role).kind = some role.kind := by
  cases known : (s.core.pcs role).kind with
  | none =>
    cases standing : s.core.pcs role with
    | idle => simp [standing, exec] at moved
    | _ => simp [standing, Pc.kind] at known
  | some kind => rw [orderly.kinds role kind known]

/-- A statement of a call in progress keeps the threads orderly. -/
theorem orderly_go {items : Fin P → List T} {s : Session P C T} (orderly : Orderly items s)
    {role : Role P C} {q : Queue (Role P C) T} {pc : Pc T}
    (moved : exec role s.core.q (s.core.pcs role) = some (q, pc)) :
    Orderly items ⟨⟨q, Function.update s.core.pcs role pc,
      s.core.log ++ (observe (s.core.pcs role) pc).map (role, ·)⟩, s.todo⟩ := by
  have contribution := exec_contribution moved
  have own := kind_of_exec orderly moved
  have noShutdown : (s.core.pcs role).kind ≠ some .shutdown := by
    rw [own]
    cases role <;> simp [Role.kind]
  refine ⟨kinds_update orderly (contribution.kind.trans own),
    events_append orderly fun event member => ?_, fun p => ?_, ?_, fun idle => ?_, fun back => ?_⟩
  · have same := contribution.events event member
    rw [own] at same
    exact (Option.some.inj same).symm
  · by_cases same : role = .producer p
    · subst same
      dsimp only
      rw [pick_self, Function.update_self, orderly.lists p, contribution.items]
      simp
    · dsimp only
      rw [pick_other _ (Ne.symm same), Function.update_of_ne (Ne.symm same)]
      exact orderly.lists p
  · rw [contribution.shutdown noShutdown]
    exact orderly.shutdown
  · by_cases same : role = .closer
    · subst same
      dsimp only at idle
      rw [Function.update_self] at idle
      have kept := contribution.kind
      rw [idle, own] at kept
      simp [Pc.kind] at kept
    · dsimp only at idle ⊢
      rw [Function.update_of_ne (Ne.symm same)] at idle
      have noClose : (s.core.pcs role).kind ≠ some .close := by
        rw [own]
        cases role with
        | closer => exact absurd rfl same
        | _ => simp [Role.kind]
      rw [contribution.closed noClose noShutdown]
      exact orderly.closed idle
  · rw [closes_append]
    by_cases same : role = .closer
    · subst same
      dsimp only at back
      rw [Function.update_self] at back
      subst back
      have ended := closes_of_returned moved
      omega
    · dsimp only at back
      rw [Function.update_of_ne (Ne.symm same)] at back
      have before := orderly.closes back
      omega

/-- Every step of a session keeps its threads orderly: each makes the calls of its
kind, and a producer's list moves item by item from what is left, through the
position in hand, to what is inserted. -/
theorem orderly_preserved (joins : Bool) (items : Fin P → List T) :
    Preserved (step joins) (Orderly (C := C) items) := by
  intro s label s' orderly taken
  cases step_turn taken with
  | push p item rest ready next =>
    refine ⟨kinds_update orderly rfl, events_append orderly (by simp [Event.kind, Op.kind,
      Role.kind]), fun p' => ?_, orderly.shutdown, by simpa using orderly.closed, fun back => ?_⟩
    · by_cases same : p' = p
      · subst same
        dsimp only
        rw [pick_self, Function.update_self, Function.update_self, orderly.lists p', next,
          notInserted_of_mayPush ready]
        simp [Event.inserted, notInserted]
      · dsimp only
        rw [pick_other _ (by simpa using same), Function.update_of_ne (by simpa using same),
          Function.update_of_ne same]
        exact orderly.lists p'
    · rw [closes_append]
      have before := orderly.closes (by simpa using back)
      omega
  | pop k ready =>
    refine ⟨kinds_update orderly rfl, events_append orderly (by simp [Event.kind, Op.kind,
      Role.kind]), fun p => ?_, orderly.shutdown, by simpa using orderly.closed, fun back => ?_⟩
    · dsimp only
      rw [pick_other _ (by simp), Function.update_of_ne (by simp)]
      exact orderly.lists p
    · rw [closes_append]
      have before := orderly.closes (by simpa using back)
      omega
  | close idle joined =>
    refine ⟨kinds_update orderly rfl, events_append orderly (by simp [Event.kind, Op.kind,
      Role.kind]), fun p => ?_, orderly.shutdown, by simp, by simp⟩
    dsimp only
    rw [pick_other _ (by simp), Function.update_of_ne (by simp)]
    exact orderly.lists p
  | go role q pc moved => exact orderly_go orderly moved

/-- The session is in order in every reachable state. -/
theorem reachable_orderly {joins : Bool} {maxSize : ℕ} {items : Fin P → List T}
    {s : Session P C T} (reached : Reachable joins maxSize items s) : Orderly items s :=
  (orderly_preserved joins items).reaches (orderly_init maxSize items) reached

end ConcurrencyBench.SemaphoreSession
