import ConcurrencyBench.ContentionWindow
import Mathlib.Algebra.Order.BigOperators.Group.Finset

/-!
# The contention window closes

Nothing keeps the main thread from closing the window, and once it is closed every worker
leaves by itself. The only steps that lead nowhere then are the failed attempts to get a
spinlock. Each other step brings its thread nearer to its end, and as long as the main
thread waits for some worker there is such a step: the worker's own, or that of the thread
that is inside of the lock.
-/

namespace ConcurrencyBench.ContentionWindow

open Interleaving

variable {w n : ℕ}

/-- The step is a failed `test_and_set` of `spinlock::lock`. -/
def spinning (body : CriticalSection) (c : Config w n) : Label n → Bool
  | .main => false
  | .worker i =>
    match body with
    | .spinHot | .spinWithWork => decide (c.pcs i = .enter) && c.shared.lock
    | .mutexHot | .atomic | .spinFairness => false

/-- The steps of the window that are no failed attempts. -/
def settling (body : CriticalSection) : Config w n → Label n → Option (Config w n) :=
  guarded (fun c label => !spinning body c label) (step body)

/-- Which threads have been started and which flags are set. -/
def Opened (c : Config w n) : Prop :=
  match c.main with
  | .start k => (∀ i : Fin n, i.val < k → c.pcs i ≠ .unborn) ∧ c.shared.stop = false
  | .storeStart => (∀ i, c.pcs i ≠ .unborn) ∧ c.shared.stop = false
  | .storeStop => (∀ i, c.pcs i ≠ .unborn) ∧ c.shared.start = true ∧ c.shared.stop = false
  | .join _ | .sum _ _ | .returned _ =>
    (∀ i, c.pcs i ≠ .unborn) ∧ c.shared.start = true ∧ c.shared.stop = true

/-- The steps a worker is from its end when the window is closed. -/
def Pc.left : Pc w → ℕ
  | .returned => 0
  | .loadStop => 1
  | .loadStart | .count => 2
  | .unborn | .leave => 3
  | .work j => 4 + (10 - j)
  | .store _ => 15
  | .load => 16
  | .enter => 17

/-- The steps the main thread is from its end when the window is closed. -/
def Main.left (n : ℕ) : Main w → ℕ
  | .join k => (n - k) + n + 2
  | .sum k _ => (n - k) + 1
  | _ => 0

/-- The steps the main thread is from closing the window. -/
def Main.ahead (n : ℕ) : Main w → ℕ
  | .start k => (n - k) + 3
  | .storeStart => 2
  | .storeStop => 1
  | _ => 0

/-- The statements left to all threads once `stop` is stored. -/
def Config.left (c : Config w n) : ℕ := c.main.left n + tally (fun _ pc => pc.left) c.pcs

section Moves

variable {body : CriticalSection} {i : Fin n} {owner : Option (Fin n)} {s s' : Shared w n}
  {pc pc' : Pc w} {c c' : Config w n}

/-- A worker stores no flag. -/
theorem exec_flags (moved : exec body i s pc = some (s', pc')) :
    s'.start = s.start ∧ s'.stop = s.stop ∧ pc' ≠ .unborn := by
  cases pc with
  | unborn | returned => simp [exec] at moved
  | enter =>
    cases body with
    | mutexHot =>
      simp only [exec, enter, Option.ite_none_right_eq_some, Option.some.injEq,
        Prod.mk.injEq] at moved
      obtain ⟨-, rfl, rfl⟩ := moved
      exact ⟨rfl, rfl, by simp⟩
    | atomic =>
      obtain ⟨rfl, rfl⟩ := Prod.mk.inj (Option.some.inj moved)
      exact ⟨rfl, rfl, by simp⟩
    | spinHot | spinWithWork | spinFairness =>
      obtain ⟨rfl, rfl⟩ := Prod.mk.inj (Option.some.inj moved)
      refine ⟨rfl, rfl, ?_⟩
      split <;> simp
  | leave =>
    obtain ⟨rfl, rfl⟩ := Prod.mk.inj (Option.some.inj moved)
    cases body <;> exact ⟨rfl, rfl, by simp⟩
  | load | count =>
    obtain ⟨rfl, rfl⟩ := Prod.mk.inj (Option.some.inj moved)
    exact ⟨rfl, rfl, by simp⟩
  | loadStart | loadStop | store | work =>
    obtain ⟨rfl, rfl⟩ := Prod.mk.inj (Option.some.inj moved)
    refine ⟨rfl, rfl, ?_⟩
    split <;> simp

/-- In a closed window every step but a failed attempt brings its worker nearer to its end. -/
theorem exec_lowers (start : s.start = true) (stop : s.stop = true)
    (attempts : pc = .enter → s.lock = true → body ≠ .spinHot ∧ body ≠ .spinWithWork)
    (moved : exec body i s pc = some (s', pc')) : pc'.left < pc.left := by
  cases pc with
  | unborn | returned => simp [exec] at moved
  | enter =>
    cases body with
    | mutexHot =>
      simp only [exec, enter, Option.ite_none_right_eq_some, Option.some.injEq,
        Prod.mk.injEq] at moved
      obtain ⟨-, -, rfl⟩ := moved
      simp [Pc.left]
    | atomic =>
      obtain ⟨-, rfl⟩ := Prod.mk.inj (Option.some.inj moved)
      simp [Pc.left]
    | spinHot | spinWithWork =>
      obtain ⟨-, rfl⟩ := Prod.mk.inj (Option.some.inj moved)
      split
      next set => simpa using attempts rfl set
      next => simp [Pc.left]
    | spinFairness =>
      obtain ⟨-, rfl⟩ := Prod.mk.inj (Option.some.inj moved)
      split <;> simp [Pc.left]
  | loadStart =>
    obtain ⟨-, rfl⟩ := Prod.mk.inj (Option.some.inj moved)
    simp [start, Pc.left]
  | loadStop =>
    obtain ⟨-, rfl⟩ := Prod.mk.inj (Option.some.inj moved)
    simp [stop, Pc.left]
  | load | leave | count =>
    obtain ⟨-, rfl⟩ := Prod.mk.inj (Option.some.inj moved)
    simp [Pc.left]
  | store v =>
    obtain ⟨-, rfl⟩ := Prod.mk.inj (Option.some.inj moved)
    split <;> simp [Pc.left]
  | work j =>
    obtain ⟨-, rfl⟩ := Prod.mk.inj (Option.some.inj moved)
    split <;> simp only [Pc.left] <;> omega

/-- A worker that has been started and has not returned is kept from going on by the mutex
only. -/
theorem exec_none (born : pc ≠ .unborn) (running : pc ≠ .returned)
    (blocked : exec body i s pc = none) : pc = .enter ∧ body = .mutexHot ∧ s.mtx ≠ none := by
  cases pc with
  | unborn => exact absurd rfl born
  | returned => exact absurd rfl running
  | enter =>
    cases body with
    | mutexHot =>
      simp only [exec, enter] at blocked
      refine ⟨rfl, rfl, fun free => ?_⟩
      simp [free] at blocked
    | _ => simp [exec, enter] at blocked
  | _ => simp [exec] at blocked

end Moves

section Run

variable {body : CriticalSection} {i : Fin n} {owner : Option (Fin n)} {c c' : Config w n}
  {s' : Shared w n} {pc' : Pc w}

/-- A statement of a worker leaves the window open. -/
theorem Opened.worker (opened : Opened c)
    (moved : exec body i c.shared (c.pcs i) = some (s', pc')) (made : Fin n → ℕ) :
    Opened ⟨s', c.main, Function.update c.pcs i pc', made⟩ := by
  obtain ⟨start, stop, born⟩ := exec_flags moved
  have still : ∀ started : Fin n → Prop, (∀ j, started j → c.pcs j ≠ .unborn) →
      ∀ j, started j → Function.update c.pcs i pc' j ≠ .unborn := by
    intro started before j isStarted
    by_cases same : j = i
    · subst same
      rwa [Function.update_self]
    · rw [Function.update_of_ne same]
      exact before j isStarted
  cases position : c.main with
  | start k =>
    simp only [Opened, position] at opened ⊢
    exact ⟨still _ opened.1, stop ▸ opened.2⟩
  | storeStart =>
    simp only [Opened, position] at opened ⊢
    exact ⟨fun j => still (fun _ => True) (fun j _ => opened.1 j) j trivial, stop ▸ opened.2⟩
  | storeStop | join | sum | returned =>
    simp only [Opened, position] at opened ⊢
    exact ⟨fun j => still (fun _ => True) (fun j _ => opened.1 j) j trivial,
      start ▸ opened.2.1, stop ▸ opened.2.2⟩

/-- A statement of the main thread keeps what is known of the window. -/
theorem Opened.window (opened : Opened c) (moved : window c = some c') : Opened c' := by
  cases position : c.main with
  | start k =>
    simp only [Opened, position] at opened
    simp only [ContentionWindow.window, position, Option.some.injEq] at moved
    subst moved
    split
    next inRange =>
      refine ⟨fun j earlier => ?_, opened.2⟩
      dsimp only
      by_cases same : j = ⟨k, inRange⟩
      · rw [same, Function.update_self]
        simp
      · rw [Function.update_of_ne same]
        refine opened.1 j (lt_of_le_of_ne (Nat.lt_succ_iff.mp earlier) fun last => ?_)
        exact same (Fin.ext last)
    next outOfRange =>
      exact ⟨fun j => opened.1 j (j.isLt.trans_le (not_lt.mp outOfRange)), opened.2⟩
  | storeStart =>
    simp only [Opened, position] at opened
    simp only [ContentionWindow.window, position, Option.some.injEq] at moved
    subst moved
    exact ⟨opened.1, rfl, opened.2⟩
  | storeStop =>
    simp only [Opened, position] at opened
    simp only [ContentionWindow.window, position, Option.some.injEq] at moved
    subst moved
    exact ⟨opened.1, opened.2.1, rfl⟩
  | join k =>
    simp only [Opened, position] at opened
    simp only [ContentionWindow.window, position] at moved
    split at moved
    · simp only [Option.ite_none_right_eq_some, Option.some.injEq] at moved
      obtain ⟨-, rfl⟩ := moved
      exact opened
    · obtain rfl := Option.some.inj moved
      exact opened
  | sum k ops =>
    simp only [Opened, position] at opened
    simp only [ContentionWindow.window, position, Option.some.injEq] at moved
    subst moved
    split <;> exact opened
  | returned => simp [ContentionWindow.window, position] at moved

/-- Every step keeps what is known of the window. -/
theorem opened_preserved : Preserved (step body) fun c : Config w n => Opened c := by
  intro c label c' opened taken
  cases label with
  | main => exact opened.window taken
  | worker i =>
    obtain ⟨⟨s', pc'⟩, moved, rfl⟩ := Option.map_eq_some_iff.mp taken
    exact opened.worker moved _

/-- What is known of the window holds in every reachable state. -/
theorem reachable_opened (reached : Reachable body c) : Opened c := by
  have start : Opened (Config.init : Config w n) :=
    ⟨fun _ before => absurd before (Nat.not_lt_zero _), rfl⟩
  exact opened_preserved.reaches start reached

/-- Until the window is closed the main thread can go on, and is nearer to closing it then. -/
theorem window_opens (opened : Opened c) (unclosed : c.shared.stop = false) :
    ∃ c', window c = some c' ∧ c'.main.ahead n < c.main.ahead n := by
  cases position : c.main with
  | start k =>
    simp only [window, position, Option.some.injEq, exists_eq_left']
    split
    next inRange =>
      simp only [Main.ahead]
      omega
    next =>
      simp only [Main.ahead]
      omega
  | storeStart | storeStop =>
    simp only [window, position, Option.some.injEq, exists_eq_left', Main.ahead]
    omega
  | join | sum | returned =>
    simp only [Opened, position] at opened
    exact absurd (unclosed.symm.trans opened.2.2) Bool.false_ne_true

/-- In a closed window each step of the main thread brings it nearer to its end. -/
theorem window_lowers (opened : Opened c) (closed : c.shared.stop = true)
    (moved : window c = some c') : c'.left < c.left ∧ c'.shared.stop = true := by
  cases position : c.main with
  | start | storeStart | storeStop =>
    simp only [Opened, position] at opened
    simp [closed] at opened
  | join k =>
    simp only [window, position] at moved
    split at moved
    next inRange =>
      simp only [Option.ite_none_right_eq_some, Option.some.injEq] at moved
      obtain ⟨-, rfl⟩ := moved
      refine ⟨?_, closed⟩
      simp only [Config.left, position, Main.left]
      omega
    next =>
      obtain rfl := Option.some.inj moved
      refine ⟨?_, closed⟩
      simp only [Config.left, position, Main.left]
      omega
  | sum k ops =>
    simp only [window, position, Option.some.injEq] at moved
    subst moved
    split
    next inRange =>
      refine ⟨?_, closed⟩
      simp only [Config.left, position, Main.left]
      omega
    next =>
      refine ⟨?_, closed⟩
      simp only [Config.left, position, Main.left]
      omega
  | returned => simp [window, position] at moved

/-- A closed window has been opened before. -/
theorem Opened.started (opened : Opened c) (closed : c.shared.stop = true) :
    c.shared.start = true := by
  cases position : c.main <;> simp only [Opened, position] at opened
  case start | storeStart | storeStop => simp [closed] at opened
  all_goals exact opened.2.1

/-- While the window settles, `stop` stays stored. -/
theorem settling_preserved : Preserved (settling body) fun c : Config w n =>
    Opened c ∧ c.shared.stop = true := by
  rintro c label c' ⟨opened, closed⟩ taken
  obtain ⟨-, taken⟩ := (guarded_eq_some_iff c c' label).mp taken
  refine ⟨opened_preserved c label c' opened taken, ?_⟩
  cases label with
  | main => exact (window_lowers opened closed taken).2
  | worker i =>
    obtain ⟨⟨s', pc'⟩, moved, rfl⟩ := Option.map_eq_some_iff.mp taken
    exact (exec_flags moved).2.1.trans closed

/-- Every step that settles leaves fewer statements. -/
theorem settling_lowers : Lowers (settling body) (fun c : Config w n =>
    Opened c ∧ c.shared.stop = true) Config.left := by
  rintro c label c' ⟨opened, closed⟩ taken
  obtain ⟨quiet, taken⟩ := (guarded_eq_some_iff c c' label).mp taken
  cases label with
  | main => exact (window_lowers opened closed taken).1
  | worker i =>
    obtain ⟨⟨s', pc'⟩, moved, rfl⟩ := Option.map_eq_some_iff.mp taken
    have nearer : pc'.left < (c.pcs i).left := by
      refine exec_lowers (opened.started closed) closed (fun entering set => ?_) moved
      cases body <;> simp_all [spinning]
    have exchanged := tally_update (fun _ pc => pc.left) c.pcs i pc'
    simp only [Config.left]
    omega

/-- Whoever is at some other place than in front of the lock can go on. -/
theorem goes_on (born : c.pcs i ≠ .unborn) (running : c.pcs i ≠ .returned)
    (elsewhere : c.pcs i ≠ .enter) : settling body c (.worker i) ≠ none := by
  have quiet : spinning body c (.worker i) = false := by
    cases body <;> simp [spinning, elsewhere]
  simp only [settling, guarded, quiet, Bool.not_false, if_true, step]
  intro blocked
  rw [Option.map_eq_none_iff] at blocked
  exact elsewhere (exec_none born running blocked).1

/-- Whoever cannot go on in a closed window but by failed attempts is kept from it by the owner
of the lock. -/
theorem kept_by_owner (held : Held body owner c) (born : c.pcs i ≠ .unborn)
    (running : c.pcs i ≠ .returned) (blocked : settling body c (.worker i) = none) :
    owner ≠ none := by
  rintro rfl
  have locked := held.locked
  have quiet : spinning body c (.worker i) = false := by
    cases body <;> simp_all [spinning, Locked]
  simp only [settling, guarded, quiet, Bool.not_false, if_true, step] at blocked
  rw [Option.map_eq_none_iff] at blocked
  obtain ⟨-, rfl, taken⟩ := exec_none born running blocked
  exact taken locked

/-- As long as some worker has not returned, some worker can go on. -/
theorem worker_settles (held : Held body owner c) (born : ∀ j, c.pcs j ≠ .unborn)
    (running : c.pcs i ≠ .returned) : ∃ j, settling body c (.worker j) ≠ none := by
  by_contra stuck
  push Not at stuck
  obtain ⟨j, rfl⟩ := Option.ne_none_iff_exists'.mp
    (kept_by_owner held (born i) running (stuck i))
  have inside : (c.pcs j).inside = true := (held.owned j).mpr rfl
  refine absurd (stuck j) (goes_on (born j) ?_ ?_)
  · intro same
    simp [same, Pc.inside] at inside
  · intro same
    simp [same, Pc.inside] at inside

/-- Only the end of a closed window lets nobody go on. -/
theorem returned_of_stuck (held : Held body owner c) (opened : Opened c)
    (closed : c.shared.stop = true) (stuck : Stuck (settling body) c) :
    ∃ result, c.main = .returned result := by
  have waits : window c = none := by
    have blocked := stuck .main
    simpa only [settling, guarded, spinning, Bool.not_false, if_true, step] using blocked
  cases position : c.main with
  | start | storeStart | storeStop =>
    simp only [Opened, position] at opened
    simp [closed] at opened
  | join k =>
    simp only [Opened, position] at opened
    simp only [window, position] at waits
    split at waits
    next inRange =>
      rw [ite_eq_right_iff] at waits
      have running : c.pcs ⟨k, inRange⟩ ≠ .returned := fun returned => by
        simpa using waits returned
      obtain ⟨j, goes⟩ := worker_settles held opened.1 running
      exact absurd (stuck (.worker j)) goes
    next => simp at waits
  | sum k ops => simp [window, position] at waits
  | returned result => exact ⟨result, rfl⟩

/-- The window always gets closed and its result returned. -/
theorem exists_returned (reached : Reachable body c) :
    ∃ last result, Reaches (step body) c last ∧ last.main = .returned result := by
  have kept : Preserved (step body) fun c : Config w n => Opened c := opened_preserved
  have descends : ∀ c : Config w n, Opened c → ¬ c.shared.stop = true →
      ∃ label c', step body c label = some c' ∧ c'.main.ahead n < c.main.ahead n := by
    intro c opened unclosed
    obtain ⟨c', moved, nearer⟩ := window_opens opened (by simpa using unclosed)
    exact ⟨.main, c', moved, nearer⟩
  obtain ⟨closed, toClosed, stopped⟩ :=
    kept.exists_reaches (fun c => c.shared.stop = true) (fun c => c.main.ahead n) descends
      (reachable_opened reached)
  have reachedClosed : Reachable body closed := reached.trans toClosed
  obtain ⟨last, onward, stuck⟩ := settling_lowers.exists_stuck settling_preserved
    ⟨reachable_opened reachedClosed, stopped⟩
  have reachedLast : Reachable body last := reachedClosed.trans (reaches_of_guarded onward)
  obtain ⟨⟨owner, held⟩, -⟩ := reachable_held reachedLast
  have still := settling_preserved.reaches ⟨reachable_opened reachedClosed, stopped⟩ onward
  obtain ⟨result, returned⟩ := returned_of_stuck held still.1 still.2 stuck
  exact ⟨last, result, toClosed.trans (reaches_of_guarded onward), returned⟩

/-- Nineteen statements are left to each worker at most, and two to the main thread. -/
theorem Config.left_le (c : Config w n) : c.left ≤ 19 * n + 2 := by
  have worker : ∀ pc : Pc w, pc.left ≤ 17 := by
    intro pc
    cases pc <;> simp only [Pc.left] <;> omega
  have workers : tally (fun _ pc => pc.left) c.pcs ≤ n * 17 := by
    have each := Finset.sum_le_card_nsmul Finset.univ (fun i => (c.pcs i).left) 17
      fun i _ => worker (c.pcs i)
    rwa [Finset.card_univ, Fintype.card_fin] at each
  have main : c.main.left n ≤ 2 * n + 2 := by
    cases c.main <;> simp only [Main.left] <;> omega
  simp only [left]
  omega

end Run

/-- The window does not hang. For any number of workers, each of the critical sections and every
interleaving: the main thread can go on until it has closed the window; from then on, until it
has returned, some thread can go on other than by a failed attempt to get the spinlock, and
the threads take at most nineteen such steps for each worker and two more; and from every state
the result can be reached. -/
theorem window_settles (body : CriticalSection) (c : Config w n) (reached : Reachable body c) :
    (c.shared.stop = false → window c ≠ none) ∧
    (c.shared.stop = true → (∀ result, c.main ≠ .returned result) →
      ∃ label, settling body c label ≠ none) ∧
    (c.shared.stop = true → ∀ schedule last, run (settling body) c schedule = some last →
      schedule.length ≤ 19 * n + 2) ∧
    ∃ last result, Reaches (step body) c last ∧ last.main = .returned result := by
  have opened := reachable_opened reached
  obtain ⟨⟨owner, held⟩, -⟩ := reachable_held reached
  refine ⟨?_, ?_, ?_, exists_returned reached⟩
  · intro unclosed
    obtain ⟨c', moved, -⟩ := window_opens opened unclosed
    simp [moved]
  · intro closed unreturned
    by_contra stuck
    push Not at stuck
    obtain ⟨result, returned⟩ := returned_of_stuck held opened closed stuck
    exact unreturned result returned
  · intro closed schedule last played
    have spent := settling_lowers.length_le settling_preserved ⟨opened, closed⟩ played
    have most := c.left_le
    omega

/-- Of two workers one is inside of the spinlock and the other at it when the window is closed. -/
theorem window_settles_two : ∃ c : Config 64 2, Reachable .spinHot c ∧ c.shared.stop = true ∧
    c.pcs 0 = .load ∧ spinning .spinHot c (.worker 1) = true ∧
    ∃ last result, Reaches (step .spinHot) c last ∧ last.main = .returned result := by
  let schedule : List (Label 2) := List.replicate 4 .main ++ List.replicate 3 (.worker 0) ++
    List.replicate 2 (.worker 1) ++ [.main]
  have played : (run (step .spinHot) (Config.init : Config 64 2) schedule).map
      (fun c => (c.shared.stop, decide (c.pcs 0 = .load), spinning .spinHot c (.worker 1))) =
      some (true, true, true) := by
    decide +kernel
  obtain ⟨c, ran, shown⟩ := Option.map_eq_some_iff.mp played
  simp only [Prod.mk.injEq, decide_eq_true_eq] at shown
  obtain ⟨closed, inside, spins⟩ := shown
  exact ⟨c, ⟨schedule, ran⟩, closed, inside, spins,
    (window_settles .spinHot c ⟨schedule, ran⟩).2.2.2⟩

end ConcurrencyBench.ContentionWindow
