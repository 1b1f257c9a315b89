import ConcurrencyBench.SemaphoreCalls

/-!
# One pass through the loop of `pop`

The last flag test of `pop` leads back to the head of `while (true)` when it finds both
flags clear. It is reached only with a filled token taken and the queue found empty.
Every filled token but the wake tokens stands for an item, so the token is a wake token,
and `closed_` has been stored before the first of them.

A note beside the program counts, for each thread's latest call, its passes of the loop
head, its acquisitions of `filled_slots_`, and its statements. The waits for the mutex
and the semaphore are no statements; they have no step.
-/

namespace ConcurrencyBench.SemaphoreQueue

open Interleaving

universe u v
variable {ι : Type u} {T : Type v}

/-- What a call has done so far. -/
structure Work where
  heads : ℕ
  acquires : ℕ
  statements : ℕ
deriving DecidableEq

/-- The thread is at the head of the loop of `pop`. -/
def Pc.atHead : Pc T → Bool
  | .pop .lock => true
  | _ => false

/-- The thread is about to acquire in `pop`. -/
def Pc.atAcquire : Pc T → Bool
  | .pop .acquire => true
  | _ => false

/-- The work with one more statement, executed at this position. -/
def Work.add (work : Work) (pc : Pc T) : Work where
  heads := work.heads + pc.atHead.toNat
  acquires := work.acquires + pc.atAcquire.toNat
  statements := work.statements + 1

/-- Each thread's work on its latest call. A new call begins with none. -/
def noteWork [DecidableEq ι] (c : Config ι T) (label : Label ι T) (works : ι → Work) : ι → Work :=
  match label with
  | .call i _ => Function.update works i ⟨0, 0, 0⟩
  | .go i => Function.update works i ((works i).add (c.pcs i))

/-- The program with the note of each thread's work. -/
def workingStep [DecidableEq ι] : Config ι T × (ι → Work) → Label ι T → Option (Config ι T × (ι → Work)) :=
  annotated step noteWork

/-- The thread is in a `pop` or back from one. -/
def Pc.popping : Pc T → Bool
  | .pop _ | .returned (.popped _) => true
  | _ => false

/-- The acquisition of this pass may still come. -/
def PopAt.mayAcquire : PopAt T → ℕ
  | .lock | .empty | .lockedShutdown | .lockedClosed | .unlock | .acquire => 1
  | _ => 0

/-- The work of a `pop` that has passed its loop head once, and acquires once at most. -/
def Work.Once (work : Work) : Pc T → Prop
  | .pop place => work.heads + (Pc.pop place).atHead.toNat = 1 ∧
      work.acquires + place.mayAcquire ≤ 1 ∧ work.statements + place.cost ≤ 12
  | .returned (.popped _) => work.heads = 1 ∧ work.acquires ≤ 1 ∧ work.statements ≤ 12
  | _ => True

/-- A thread is popping if it is in `pop`. -/
theorem popping_iff (pc : Pc T) : pc.popping = true ↔ pc.kind = some .pop := by
  cases pc with
  | returned result => cases result <;> simp [Pc.popping, Pc.kind, Result.kind]
  | _ => simp [Pc.popping, Pc.kind]

/-- Outside `pop` there is nothing to say. -/
theorem once_of_not_popping {work : Work} {pc : Pc T} (elsewhere : pc.popping = false) :
    work.Once pc := by
  cases pc with
  | pop place => simp [Pc.popping] at elsewhere
  | returned result =>
    cases result with
    | popped item => simp [Pc.popping] at elsewhere
    | _ => trivial
  | _ => trivial

section OneStatement

variable {i : ι} {q q' : Queue ι T} {place place' : PopAt T} {pc' : Pc T} {work : Work}

/-- A statement that goes on in the pass, and not at its head. -/
theorem once_of_later (once : work.Once (.pop place)) (onward : (Pc.pop place').atHead = false)
    (acquires : (Pc.pop place).atAcquire.toNat + place'.mayAcquire ≤ place.mayAcquire)
    (lower : place'.cost < place.cost) : (work.add (.pop place : Pc T)).Once (.pop place') := by
  obtain ⟨heads, acquired, statements⟩ := once
  refine ⟨?_, ?_, ?_⟩
  · rw [onward]
    exact heads
  · simp only [Work.add]
    omega
  · simp only [Work.add]
    omega

/-- A statement that ends the pass. -/
theorem once_of_back (once : work.Once (.pop place)) (result : Option T)
    (acquires : (Pc.pop place).atAcquire.toNat ≤ place.mayAcquire) (lower : 0 < place.cost) :
    (work.add (.pop place : Pc T)).Once (.returned (.popped result)) := by
  obtain ⟨heads, acquired, statements⟩ := once
  refine ⟨heads, ?_, ?_⟩
  · simp only [Work.add]
    omega
  · simp only [Work.add]
    omega

/-- A statement of `pop` goes on in the pass or ends it. Only a flag test that finds both
flags clear after an empty wake-up would begin another. -/
theorem once_exec (found : (Pc.pop place).foundEmpty = true → q.closed = true)
    (once : work.Once (.pop place)) (moved : pop i q place = some (q', pc')) :
    (work.add (.pop place : Pc T)).Once pc' := by
  have lower := pop_cost found moved
  cases place with
  | lock | relock =>
    obtain ⟨_, -, rfl⟩ := lock_map_eq_some_iff.mp moved
    exact once_of_later once rfl le_rfl lower
  | empty | wokenShutdown =>
    rw [pop] at moved
    split at moved <;> obtain ⟨-, rfl⟩ := Prod.mk.inj (Option.some.inj moved) <;>
      exact once_of_later once rfl le_rfl lower
  | lockedShutdown | lockedClosed =>
    rw [pop] at moved
    split at moved <;> obtain ⟨-, rfl⟩ := Prod.mk.inj (Option.some.inj moved)
    · exact once_of_later once rfl (Nat.zero_le _) lower
    · exact once_of_later once rfl le_rfl lower
  | unlock | release | unlockEmpty =>
    obtain ⟨-, rfl⟩ := Prod.mk.inj (Option.some.inj moved)
    exact once_of_later once rfl le_rfl lower
  | unlockFinished | unlockTaken | returnToken =>
    obtain ⟨-, rfl⟩ := Prod.mk.inj (Option.some.inj moved)
    exact once_of_back once _ le_rfl lower
  | acquire =>
    obtain ⟨_, moved⟩ := Option.ite_none_right_eq_some.mp moved
    obtain ⟨-, rfl⟩ := Prod.mk.inj (Option.some.inj moved)
    exact once_of_later once rfl le_rfl lower
  | front =>
    obtain ⟨_, -, rfl⟩ | ⟨_, _, _, -, rfl⟩ := front_cases moved <;>
      exact once_of_later once rfl le_rfl lower
  | wokenClosed =>
    have closed : q.closed = true := found rfl
    rw [pop, closed] at moved
    obtain ⟨-, rfl⟩ := Prod.mk.inj (Option.some.inj moved)
    exact once_of_later once rfl le_rfl lower

end OneStatement

/-- No other statement leads into a `pop`. -/
theorem not_popping_exec {i : ι} {q q' : Queue ι T} {pc pc' : Pc T}
    (elsewhere : pc.popping = false) (moved : exec i q pc = some (q', pc')) :
    pc'.popping = false := by
  rw [Bool.eq_false_iff, ne_eq, popping_iff] at elsewhere ⊢
  rwa [(exec_contribution moved).kind]

/-- A call begins without any work. -/
theorem once_entry (op : Op T) : (⟨0, 0, 0⟩ : Work).Once op.entry := by
  cases op with
  | pop => exact ⟨rfl, le_rfl, le_rfl⟩
  | _ => trivial

/-- Every run of the program has its work noted. -/
theorem exists_works [DecidableEq ι] {maxSize : ℕ} {c : Config ι T}
    (reached : Reaches step (Config.init maxSize) c) :
    ∃ works, Reaches workingStep (Config.init maxSize, fun _ => ⟨0, 0, 0⟩) (c, works) :=
  exists_annotated _ reached

section Run

variable [Fintype ι] [DecidableEq ι] {maxSize : ℕ}

/-- Every step of the program keeps each thread within one pass. -/
theorem once_step {state next : Config ι T × (ι → Work)} {label : Label ι T}
    (balanced : Balanced maxSize state.1) (once : ∀ i, (state.2 i).Once (state.1.pcs i))
    (taken : workingStep state label = some next) : ∀ i, (next.2 i).Once (next.1.pcs i) := by
  obtain ⟨c, works⟩ := state
  obtain ⟨c', works'⟩ := next
  obtain ⟨stepped, noted⟩ := (annotated_eq_some_iff _ _ label).mp taken
  dsimp only at balanced once stepped noted ⊢
  subst noted
  intro j
  cases label with
  | call i op =>
    simp only [step, Option.ite_none_right_eq_some, Option.some.injEq] at stepped
    rw [← stepped.2]
    by_cases mine : j = i
    · subst mine
      simpa [noteWork] using once_entry op
    · simpa [noteWork, Function.update_of_ne mine] using once j
  | go i =>
    obtain ⟨⟨q, pc⟩, moved, rfl⟩ := Option.map_eq_some_iff.mp stepped
    by_cases mine : j = i
    · subst mine
      simp only [noteWork, Function.update_self]
      cases popping : (c.pcs j).popping with
      | false => exact once_of_not_popping (not_popping_exec popping moved)
      | true =>
        have found := balanced.found j
        have before := once j
        cases standing : c.pcs j with
        | pop place =>
          rw [standing] at moved found before
          exact once_exec found before moved
        | returned result => simp [standing, exec] at moved
        | _ => simp [standing, Pc.popping] at popping
    · simpa [noteWork, Function.update_of_ne mine] using once j

/-- In every reachable state the calls have made one pass at most. -/
theorem reachable_once {c : Config ι T} {works : ι → Work}
    (reached : Reaches workingStep (Config.init maxSize, fun _ => ⟨0, 0, 0⟩) (c, works)) :
    ∀ i, (works i).Once (c.pcs i) := by
  have kept : Preserved workingStep fun state : Config ι T × (ι → Work) =>
      Balanced maxSize state.1 ∧ ∀ i, (state.2 i).Once (state.1.pcs i) :=
    (balanced_preserved maxSize).annotated.and fun _ _ _ balanced once taken =>
      once_step balanced once taken
  have start : ∀ i, (⟨0, 0, 0⟩ : Work).Once ((Config.init maxSize : Config ι T).pcs i) :=
    fun _ => trivial
  exact (kept.reaches ⟨balanced_init maxSize, start⟩ reached).2

/-- `pop` never goes round its loop a second time. A consumer that has taken a token and
found the queue empty finds `closed_` set; its last flag test leads to the return of the
token; and each `pop` passes the loop head once, acquires at most once, and executes at
most twelve statements. -/
theorem pop_passes_once (maxSize : ℕ) (c : Config ι T) (works : ι → Work)
    (reached : Reaches workingStep (Config.init maxSize, fun _ => ⟨0, 0, 0⟩) (c, works)) :
    (∀ i, (c.pcs i).foundEmpty = true → c.q.closed = true) ∧
    (∀ i c', c.pcs i = .pop .wokenClosed → step c (.go i) = some c' →
      c'.pcs i = .pop .returnToken) ∧
    (∀ i, (c.pcs i).popping = true →
      (works i).heads ≤ 1 ∧ (works i).acquires ≤ 1 ∧ (works i).statements ≤ 12) := by
  have balanced := reachable_balanced (reaches_of_annotated reached)
  refine ⟨balanced.found, ?_, ?_⟩
  · intro i c' standing taken
    have closed : c.q.closed = true := balanced.found i (by rw [standing]; rfl)
    simp only [step, standing, exec, pop, closed, if_true, Option.map_some,
      Option.some.injEq] at taken
    simp [← taken]
  · intro i popping
    have once := reachable_once reached i
    cases standing : c.pcs i with
    | pop place =>
      rw [standing] at once
      obtain ⟨heads, acquires, statements⟩ := once
      exact ⟨by omega, by omega, by omega⟩
    | returned result =>
      cases result with
      | popped item =>
        rw [standing] at once
        exact ⟨once.1.le, once.2⟩
      | _ => simp [standing, Pc.popping] at popping
    | _ => simp [standing, Pc.popping] at popping

/-- A consumer is about to acquire when the queue is closed. It takes a wake token, finds
the queue empty, and returns the token after twelve statements in all. -/
theorem pop_passes_once_two : ∃ (c : Config (Fin 2) ℕ) (works : Fin 2 → Work),
    c.pcs 0 = .returned (.popped none) ∧ works 0 = ⟨1, 1, 12⟩ ∧ (works 0).acquires ≤ 1 := by
  let schedule : List (Label (Fin 2) ℕ) :=
    [[.call 0 .pop], List.replicate 5 (.go 0), [.call 1 .close], List.replicate 4 (.go 1),
      List.replicate 7 (.go 0)].flatten
  have played : (run workingStep (Config.init 1, fun _ => ⟨0, 0, 0⟩) schedule).map
      (fun state => (state.1.pcs 0, state.2 0)) = some (.returned (.popped none), ⟨1, 1, 12⟩) := rfl
  obtain ⟨⟨c, works⟩, reached, final⟩ := Option.map_eq_some_iff.mp played
  obtain ⟨back, work⟩ := Prod.mk.inj final
  obtain ⟨_, _, bounds⟩ := pop_passes_once 1 c works ⟨schedule, reached⟩
  exact ⟨c, works, back, work, (bounds 0 (by rw [back]; rfl)).2.1⟩

end Run

end ConcurrencyBench.SemaphoreQueue
