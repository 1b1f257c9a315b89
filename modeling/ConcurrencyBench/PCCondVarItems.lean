import ConcurrencyBench.PCCondVarSession
import ConcurrencyBench.Workloads

/-!
# The items of the condition variable benchmark

A session of `PC_CondVar` comes to its end. A notification wakes one consumer at most, who looks
at the queue and goes back to sleep if it is empty, and a wake-up for no reason costs no more
than that. So a sleeper is counted as if it were awake, and taken off again.

Each producer pushes `N / producers` items, and the benchmark reports `N` items for each
iteration. The two agree where the number of producers divides `N`.
-/

namespace ConcurrencyBench.PCCondVar

open Interleaving

universe u v
variable {ι : Type u} {P C : ℕ} {T : Type v}

/-- The main thread has joined all the others. -/
def Config.finished (c : Config P C T) : Bool :=
  match c.pcs .main with
  | .main .finished => true
  | _ => false

/-- The steps a thread may take before it has returned or sleeps, and those of the consumers it
may wake. -/
def weight (threads : ℕ) : Pc T → ℕ
  | .producer place => match place with
    | .loop left => 16 * left.length + 1
    | .lock _ left => 16 * left.length + 16
    | .push _ left => 16 * left.length + 15
    | .unlock left => 16 * left.length + 8
    | .notifyOne left => 16 * left.length + 7
    | .returned => 0
  | .consumer place => match place with
    | .unlock => 6
    | .lock | .asleep => 5
    | .waitTest => 4
    | .exitTest => 3
    | .front => 2
    | .sleep | .exitUnlock | .pop _ => 1
    | .exited => 0
  | .main place => match place with
    | .joinProducers k => (threads - k) + (6 * threads + 7)
    | .lock => 6 * threads + 6
    | .storeDone => 6 * threads + 5
    | .unlock => 6 * threads + 4
    | .notifyAll => 6 * threads + 3
    | .joinConsumers k => (threads - k) + 1
    | .finished => 0

/-- A move leaves fewer steps, where every item in the queue and every thread awake is paid
for. -/
def Lighter (threads : ℕ) (s : Shared ι T) (pc : Pc T) (s' : Shared ι T) (pc' : Pc T) : Prop :=
  weight threads pc' + 6 * s'.q.length + 5 * s.sleepers.card + 1 ≤
    weight threads pc + 6 * s.q.length + 5 * s'.sleepers.card

section OneMove

variable {returned : Party P C → Bool} {threads : ℕ} {i : ι} {s s' : Shared ι T} {pc pc' : Pc T}

/-- An item pays for its removal, and for the consumer that its notification wakes. -/
theorem prod_lighter {place place' : ProducerAt T} (moved : prod i s place = some (s', place')) :
    Lighter threads s (.producer place) s' (.producer place') := by
  unfold Lighter
  cases place with
  | loop left =>
    cases left <;> obtain ⟨rfl, rfl⟩ := Prod.mk.inj (Option.some.inj moved) <;>
      simp only [weight, List.length_cons] <;> omega
  | lock item left =>
    simp only [prod, Option.map_eq_some_iff, lock_eq_some_iff] at moved
    obtain ⟨_, ⟨_, rfl⟩, same⟩ := moved
    obtain ⟨rfl, rfl⟩ := Prod.mk.inj same
    simp only [weight]
    omega
  | push item left =>
    obtain ⟨rfl, rfl⟩ := Prod.mk.inj (Option.some.inj moved)
    simp only [weight, List.length_append, List.length_singleton]
    omega
  | unlock left =>
    obtain ⟨rfl, rfl⟩ := Prod.mk.inj (Option.some.inj moved)
    simp only [weight, Shared.unlock]
    omega
  | notifyOne | returned => simp [prod] at moved

/-- Whoever falls asleep is no longer counted, and has been awake before. -/
theorem cons_lighter [DecidableEq ι] {place place' : ConsumerAt T}
    (parked : i ∈ s.sleepers → (Pc.consumer place).asleep = true)
    (known : Knows s (.consumer place)) (moved : cons i s place = some (s', place')) :
    Lighter threads s (.consumer place) s' (.consumer place') := by
  unfold Lighter
  cases place with
  | sleep =>
    have awake : i ∉ s.sleepers := fun sleeping => Bool.false_ne_true (parked sleeping)
    obtain ⟨rfl, rfl⟩ := Prod.mk.inj (Option.some.inj moved)
    simp only [weight, Finset.card_insert_of_notMem awake]
    omega
  | pop item =>
    obtain ⟨rest, queue⟩ := known
    obtain ⟨rfl, rfl⟩ := Prod.mk.inj (Option.some.inj moved)
    simp only [weight, queue, List.tail_cons, List.length_cons]
    omega
  | front =>
    obtain ⟨item, rest, queue⟩ := List.exists_cons_of_ne_nil known
    simp only [cons, queue, Option.some.injEq, Prod.mk.injEq] at moved
    obtain ⟨rfl, rfl⟩ := moved
    simp only [weight]
    omega
  | waitTest | exitTest =>
    obtain ⟨rfl, rfl⟩ := Prod.mk.inj (Option.some.inj moved)
    split <;> simp only [weight] <;> omega
  | lock =>
    simp only [cons, Option.map_eq_some_iff, lock_eq_some_iff] at moved
    obtain ⟨_, ⟨_, rfl⟩, same⟩ := moved
    obtain ⟨rfl, rfl⟩ := Prod.mk.inj same
    simp only [weight]
    omega
  | asleep =>
    simp only [cons, Option.ite_none_left_eq_some, Option.map_eq_some_iff, lock_eq_some_iff] at moved
    obtain ⟨_, _, ⟨_, rfl⟩, same⟩ := moved
    obtain ⟨rfl, rfl⟩ := Prod.mk.inj same
    simp only [weight]
    omega
  | unlock | exitUnlock =>
    obtain ⟨rfl, rfl⟩ := Prod.mk.inj (Option.some.inj moved)
    simp only [weight, Shared.unlock]
    omega
  | exited => simp [cons] at moved

/-- The notification of all pays for every thread. -/
theorem finish_lighter {place place' : MainAt} (most : s.sleepers.card ≤ threads)
    (producers : P ≤ threads) (consumers : C ≤ threads)
    (moved : finish P C returned i s place = some (s', place')) :
    Lighter threads s (.main place) s' (.main place') := by
  unfold Lighter
  cases place with
  | joinProducers k | joinConsumers k =>
    simp only [finish] at moved
    split at moved
    next more =>
      obtain ⟨_, moved⟩ := Option.ite_none_right_eq_some.mp moved
      obtain ⟨rfl, rfl⟩ := Prod.mk.inj (Option.some.inj moved)
      simp only [weight]
      omega
    next =>
      obtain ⟨rfl, rfl⟩ := Prod.mk.inj (Option.some.inj moved)
      simp only [weight]
      omega
  | lock =>
    simp only [finish, Option.map_eq_some_iff, lock_eq_some_iff] at moved
    obtain ⟨_, ⟨_, rfl⟩, same⟩ := moved
    obtain ⟨rfl, rfl⟩ := Prod.mk.inj same
    simp only [weight]
    omega
  | storeDone | unlock | notifyAll =>
    obtain ⟨rfl, rfl⟩ := Prod.mk.inj (Option.some.inj moved)
    simp only [weight, Shared.unlock, Finset.card_empty]
    omega
  | finished => simp [finish] at moved

/-- Every statement leaves less to do. -/
theorem exec_lighter [DecidableEq ι] (most : s.sleepers.card ≤ threads) (producers : P ≤ threads)
    (consumers : C ≤ threads) (parked : i ∈ s.sleepers → pc.asleep = true) (known : Knows s pc)
    (moved : exec P C returned i s pc = some (s', pc')) : Lighter threads s pc s' pc' := by
  cases pc with
  | producer place =>
    obtain ⟨⟨_, _⟩, taken, same⟩ := Option.map_eq_some_iff.mp moved
    obtain ⟨rfl, rfl⟩ := Prod.mk.inj same
    exact prod_lighter taken
  | consumer place =>
    obtain ⟨⟨_, _⟩, taken, same⟩ := Option.map_eq_some_iff.mp moved
    obtain ⟨rfl, rfl⟩ := Prod.mk.inj same
    exact cons_lighter parked known taken
  | main place =>
    obtain ⟨⟨_, _⟩, taken, same⟩ := Option.map_eq_some_iff.mp moved
    obtain ⟨rfl, rfl⟩ := Prod.mk.inj same
    exact finish_lighter most producers consumers taken

/-- A notification takes one thread off the wait set at most. -/
theorem notify_lighter [DecidableEq ι] {left : List T} {woken : Option ι} {sleepers : Finset ι}
    (notified : notifyOne s.sleepers woken = some sleepers) :
    Lighter threads s (.producer (.notifyOne left)) { s with sleepers } (.producer (.loop left)) := by
  have fewer := notifyOne_card_le notified
  simp only [Lighter, weight]
  omega

end OneMove

section Run

variable {items : Fin P → List T} {c c' : Config P C T}

/-- The steps the threads have still to take. A sleeper takes none. -/
def remaining (c : Config P C T) : ℕ :=
  tally (fun _ pc => weight (Fintype.card (Party P C)) pc) c.pcs + 6 * c.shared.q.length -
    5 * c.shared.sleepers.card

/-- Every step keeps the session sound. -/
theorem sound_preserved : Preserved step fun c : Config P C T => Sound items c :=
  fun _ _ _ sound taken => sound_step sound taken

/-- There are at least as many parties as producers. -/
theorem producers_le_card : P ≤ Fintype.card (Party P C) := by
  have producers := Fintype.card_le_of_injective (Party.producer : Fin P → Party P C)
    fun _ _ => Party.producer.inj
  rwa [Fintype.card_fin] at producers

/-- There are at least as many parties as consumers. -/
theorem consumers_le_card : C ≤ Fintype.card (Party P C) := by
  have consumers := Fintype.card_le_of_injective (Party.consumer : Fin C → Party P C)
    fun _ _ => Party.consumer.inj
  rwa [Fintype.card_fin] at consumers

/-- What is taken off for the sleepers has been counted. -/
theorem Sound.sleepers_le (sound : Sound items c) :
    5 * c.shared.sleepers.card ≤
      tally (fun _ pc => weight (Fintype.card (Party P C)) pc) c.pcs := by
  refine sound.parked.mul_card_le fun pc asleep => ?_
  cases pc with
  | consumer place => cases place <;> simp [Pc.asleep, weight] at asleep ⊢
  | _ => simp [Pc.asleep] at asleep

/-- A lighter position of one thread leaves fewer steps for all. -/
theorem Sound.lowers (sound : Sound items c) {i : Party P C} {s' : Shared (Party P C) T}
    {pc' : Pc T} {log : List (Party P C × Event T)}
    (after : Sound items ⟨s', Function.update c.pcs i pc', log⟩)
    (lighter : Lighter (Fintype.card (Party P C)) c.shared (c.pcs i) s' pc') :
    remaining ⟨s', Function.update c.pcs i pc', log⟩ + 1 ≤ remaining c := by
  have moved := tally_update (fun _ pc => weight (Fintype.card (Party P C)) pc) c.pcs i pc'
  have counted := sound.sleepers_le
  have countedAfter := after.sleepers_le
  unfold Lighter at lighter
  unfold remaining
  dsimp only at moved countedAfter ⊢
  omega

/-- Every step leaves fewer, other than a wake-up for no reason. -/
theorem Sound.step_lowers (sound : Sound items c) {label : Label P C}
    (taken : step c label = some c') :
    remaining c' + 1 ≤ remaining c + if !label.prompted then 6 else 0 := by
  have after := sound_step sound taken
  cases label with
  | go i =>
    obtain ⟨⟨s', pc'⟩, moved, rfl⟩ := Option.map_eq_some_iff.mp taken
    exact sound.lowers after (exec_lighter (Finset.card_le_univ _) producers_le_card
      consumers_le_card (sound.parked i) (sound.knows i) moved)
  | notify i woken =>
    simp only [step] at taken
    split at taken
    next left standing =>
      obtain ⟨sleepers, notified, rfl⟩ := Option.map_eq_some_iff.mp taken
      exact sound.lowers after (standing ▸ notify_lighter notified)
    next => cases taken
  | spurious i =>
    simp only [step, Option.ite_none_right_eq_some, Option.some.injEq] at taken
    obtain ⟨sleeping, rfl⟩ := taken
    have fewer := Finset.card_erase_add_one sleeping
    have counted := sound.sleepers_le
    simp only [remaining, Label.prompted, Bool.not_false, if_true]
    omega

/-- A sum by producers, consumers and the main thread. -/
theorem sum_parties (f : Party P C → ℕ) :
    ∑ i, f i = ∑ p, f (.producer p) + ∑ k, f (.consumer k) + f .main := by
  have each : Function.Bijective
      (Sum.elim (Sum.elim .producer .consumer) fun _ : Unit => (.main : Party P C)) := by
    constructor
    · rintro ((p | k) | _) ((p' | k') | _) same <;> simp_all
    · rintro (p | k | _)
      · exact ⟨.inl (.inl p), rfl⟩
      · exact ⟨.inl (.inr k), rfl⟩
      · exact ⟨.inr (), rfl⟩
  rw [← each.sum_comp]
  simp only [Fintype.sum_sum_type, Sum.elim_inl, Sum.elim_inr, Fintype.sum_unique]

/-- The producers, the consumers and the main thread. -/
theorem card_parties : Fintype.card (Party P C) = P + C + 1 := by
  have counted := sum_parties (P := P) (C := C) fun _ => 1
  simpa using counted

/-- What there is to do at the start. -/
theorem remaining_init (items : Fin P → List T) :
    remaining (Config.init items : Config P C T) =
      16 * ∑ p, (items p).length + 8 * P + 12 * C + 14 := by
  simp only [remaining, tally, Config.init, sum_parties, start, weight, card_parties,
    Finset.sum_add_distrib, ← Finset.mul_sum, Finset.sum_const, Finset.card_univ,
    Fintype.card_fin, nsmul_eq_mul, Nat.cast_id, List.length_nil, Finset.card_empty, Nat.sub_zero]
  omega

/-- The session is finished once the main thread is. -/
theorem Config.finished_iff : c.finished = true ↔ c.pcs .main = .main .finished := by
  unfold Config.finished
  split
  next standing => simp [standing]
  next other => simpa using other

/-- The main thread comes to its end once every consumer has left its loop. -/
theorem finished_of_exited (sound : Sound items c) (done : c.shared.done = true)
    (exited : ∀ k, c.returned (.consumer k) = true)
    (still : exec P C c.returned .main c.shared (c.pcs .main) = none) : c.finished = true := by
  have stored := sound.stored.mp done
  rw [Config.finished_iff]
  obtain ⟨place, standing⟩ : ∃ place, c.pcs .main = .main place := sound.runs .main
  rw [standing] at stored still ⊢
  cases place with
  | joinProducers | lock | storeDone => simp [Pc.hasStored] at stored
  | unlock | notifyAll => simp [exec, finish] at still
  | joinConsumers k =>
    simp only [exec, finish, exited, implies_true, if_true] at still
    split at still <;> simp at still
  | finished => rfl

/-- Who has returned does nothing more. -/
theorem exec_none_of_ended {s : Shared (Party P C) T} {i : Party P C} {pc : Pc T}
    {returned : Party P C → Bool} (ended : pc.returned = true ∨ pc = .main .finished) :
    exec P C returned i s pc = none := by
  rcases ended with back | rfl
  · cases pc with
    | producer place => cases place <;> simp [Pc.returned, exec, prod] at back ⊢
    | consumer place => cases place <;> simp [Pc.returned, exec, cons] at back ⊢
    | main place => simp [Pc.returned] at back
  · rfl

/-- The session is over exactly if nobody can go on. -/
theorem blocked_iff_finished (positive : 0 < C) (sound : Sound items c) :
    (∀ label, label.prompted = true → step c label = none) ↔ c.finished = true := by
  constructor
  · intro blocked
    have exited := exited_of_blocked sound blocked
    refine finished_of_exited sound (sound.emptied ⟨0, positive⟩ (exited _)).2 exited ?_
    simpa [step] using blocked (.go .main) rfl
  · intro finished
    have standing := Config.finished_iff.mp finished
    have joined := sound.joined .main
    rw [standing] at joined
    have back : ∀ i, (c.pcs i).returned = true ∨ c.pcs i = .main .finished := by
      rintro (p | k | _)
      · exact Or.inl (joined.1 p)
      · exact Or.inl (joined.2 k)
      · exact Or.inr standing
    intro label prompted
    cases label with
    | go i => simp [step, exec_none_of_ended (back i)]
    | notify i woken =>
      simp only [step]
      split
      next left notifying =>
        have ended := back i
        simp [notifying, Pc.returned] at ended
      next => rfl
    | spurious i => cases prompted

/-- What has been pushed has been taken when the main thread has joined all the others. -/
theorem consumed_of_finished (positive : 0 < C) (sound : Sound items c)
    (finished : c.finished = true) : c.shared.q = [] ∧
      ∑ k, (pick Event.removed (.consumer k) c.log : Multiset T) =
        ∑ p, (items p : Multiset T) := by
  have joined := sound.joined .main
  rw [Config.finished_iff.mp finished] at joined
  obtain ⟨empty, done⟩ := sound.emptied ⟨0, positive⟩ (joined.2 _)
  exact ⟨empty, consumed_eq_produced sound (sound.pushed done) empty⟩

/-- A session can be brought to its end. -/
theorem exists_finished (items : Fin P → List T) (positive : 0 < C) :
    ∃ c : Config P C T, Reachable items c ∧ c.finished = true := by
  refine sound_preserved.exists_reaches (fun c => c.finished = true) remaining ?_ (sound_init items)
  intro c sound unfinished
  rw [← blocked_iff_finished positive sound] at unfinished
  push Not at unfinished
  obtain ⟨label, prompted, enabled⟩ := unfinished
  obtain ⟨c', taken⟩ := Option.ne_none_iff_exists'.mp enabled
  have lower := sound.step_lowers taken
  refine ⟨label, c', taken, ?_⟩
  cases label with
  | spurious i => cases prompted
  | _ => exact lower

/-- A session comes to its end, for any numbers of threads, any lists to push and every
interleaving. Its steps are bounded by the items and the threads, but for six with each wake-up
for no reason. Nobody can go on without one exactly if the main thread has joined all the
others, and then the queue is empty and the items taken are those of the producers' lists. -/
theorem session_ends (items : Fin P → List T) (positive : 0 < C) (schedule : List (Label P C))
    (c : Config P C T) (played : run step (Config.init items) schedule = some c) :
    schedule.length ≤ 16 * ∑ p, (items p).length + 8 * P + 12 * C + 14 +
      6 * (schedule.countP fun label => !label.prompted) ∧
    ((∀ label, label.prompted = true → step c label = none) ↔ c.finished = true) ∧
    (c.finished = true → c.shared.q = [] ∧
      ∑ k, (pick Event.removed (.consumer k) c.log : Multiset T) =
        ∑ p, (items p : Multiset T)) := by
  have sound := reachable_sound ⟨schedule, played⟩
  refine ⟨?_, blocked_iff_finished positive sound, consumed_of_finished positive sound⟩
  have bounded := length_le_of_charged sound_preserved remaining (fun label => !label.prompted) 6
    (fun _ _ _ sound taken => sound.step_lowers taken) (sound_init items) played
  rw [remaining_init] at bounded
  exact (Nat.le_add_right _ _).trans bounded

/-- The consumer falls asleep, wakes up for no reason and falls asleep again before the producer
pushes its item. -/
theorem session_ends_one : ∃ c : Config 1 1 ℕ, Reachable (fun _ => [7]) c ∧
    c.finished = true ∧ c.shared.q = [] ∧
    ∑ k, (pick Event.removed (.consumer k) c.log : Multiset ℕ) =
      ∑ _ : Fin 1, ([7] : Multiset ℕ) := by
  let schedule : List (Label 1 1) :=
    [List.replicate 3 (.go (.consumer 0)), [.spurious (.consumer 0)],
      List.replicate 3 (.go (.consumer 0)), List.replicate 4 (.go (.producer 0)),
      [.notify (.producer 0) (some (.consumer 0))], List.replicate 9 (.go (.consumer 0)),
      [.go (.producer 0)], List.replicate 6 (.go .main),
      List.replicate 4 (.go (.consumer 0)), List.replicate 2 (.go .main)].flatten
  have played : (run step (Config.init fun _ => [7]) schedule).map Config.finished = some true := by
    decide +kernel
  obtain ⟨c, reached, finished⟩ := Option.map_eq_some_iff.mp played
  obtain ⟨_, _, ends⟩ := session_ends (fun _ => [7]) Nat.one_pos schedule c reached
  exact ⟨c, ⟨schedule, reached⟩, finished, ends finished⟩

end Run

section Items

variable {producers consumers : ℕ}

/-- How many items the consumers of a session have taken. -/
def consumed (c : Config producers consumers ℤ) : ℕ :=
  ∑ k, (pick Event.removed (.consumer k) c.log).length

/-- `state.SetItemsProcessed(static_cast<int64_t>(state.iterations()) * N);` -/
def itemsProcessed (iterations : ℕ) : ℕ := iterations * 1000000

/-- The division leaves a rest that no producer pushes. -/
theorem consumed_add_rest (positive : 0 < consumers) {c : Config producers consumers ℤ}
    (reached : Reachable (Workloads.items producers) c) (finished : c.finished = true) :
    consumed c + 1000000 % producers = 1000000 := by
  have taken := (consumed_of_finished positive (reachable_sound reached) finished).2
  have counted := congrArg Multiset.card taken
  simp only [Multiset.card_sum, Multiset.coe_card, Workloads.items, Finset.sum_const,
    Finset.card_univ, Fintype.card_fin, Multiset.card_nsmul, List.length_map, List.length_range]
    at counted
  rw [consumed, counted]
  exact Nat.div_add_mod 1000000 producers

/-- After any number of iterations, each run to its end in any interleaving, the benchmark
reports more items than the consumers have taken, by the rest of the division for each
iteration. It reports what they have taken exactly if it has no iterations or the number of
producers divides `N`. -/
theorem items_reported (positive : 0 < consumers) (sessions : List (Config producers consumers ℤ))
    (ended : ∀ c ∈ sessions, Reachable (Workloads.items producers) c ∧ c.finished = true) :
    itemsProcessed sessions.length =
      (sessions.map consumed).sum + sessions.length * (1000000 % producers) ∧
    (itemsProcessed sessions.length = (sessions.map consumed).sum ↔
      sessions = [] ∨ producers ∣ 1000000) := by
  have reported : itemsProcessed sessions.length =
      (sessions.map consumed).sum + sessions.length * (1000000 % producers) := by
    induction sessions with
    | nil => simp [itemsProcessed]
    | cons c rest inductionHypothesis =>
      have first := consumed_add_rest positive (ended c List.mem_cons_self).1
        (ended c List.mem_cons_self).2
      have others := inductionHypothesis fun c member => ended c (List.mem_cons_of_mem _ member)
      unfold itemsProcessed at others ⊢
      simp only [List.length_cons, List.map_cons, List.sum_cons, Nat.add_mul, Nat.one_mul, others]
      omega
  refine ⟨reported, ?_⟩
  rw [reported, Nat.add_eq_left, Nat.mul_eq_zero, List.length_eq_zero_iff, Nat.dvd_iff_mod_eq_zero]

/-- Three producers leave one item of each iteration out. -/
theorem items_reported_three : ∃ c : Config 3 2 ℤ, Reachable (Workloads.items 3) c ∧
    c.finished = true ∧ itemsProcessed 2 = consumed c + consumed c + 2 := by
  obtain ⟨c, reached, finished⟩ := exists_finished (C := 2) (Workloads.items 3) Nat.two_pos
  have twice : ∀ c' ∈ [c, c], Reachable (Workloads.items 3) c' ∧ c'.finished = true := by
    simp [reached, finished]
  have reported := (items_reported Nat.two_pos [c, c] twice).1
  refine ⟨c, reached, finished, reported.trans ?_⟩
  simp

end Items

end ConcurrencyBench.PCCondVar
