import ConcurrencyBench.Fairness
import ConcurrencyBench.Runs
import ConcurrencyBench.Threads
import Mathlib.Algebra.BigOperators.Fin
import Mathlib.Data.BitVec

/-!
# The contention window

`run_contention_window` starts its workers one after the other, opens the window by
storing `start`, closes it by storing `stop`, joins the workers and adds up what each of
them has counted. Between the two stores a worker calls its benchmark's critical section
again and again. Each load, store, `test_and_set` and `fetch_add` of a worker or of the
main thread is one step, and an increment under a lock is a load and a store of its own.
The window is as long as the schedule makes it; pinning a thread has no effect here.

The shared counter, the counts and the sum are `w` bits wide, 64 in the source. What each
worker's critical sections have done to the shared counter is counted without a bound, for
the statements only. The sum is exact because a worker has counted all of its increments but
the one of the section it is just leaving, and a worker that has returned is in none.
-/

namespace ConcurrencyBench.ContentionWindow

open Interleaving

variable {w n : ℕ}

/-- The critical sections of the counter benchmarks. -/
inductive CriticalSection
  | mutexHot | atomic | spinHot | spinWithWork | spinFairness
deriving DecidableEq

/-- The flags and counts of the window, and the variables of the benchmark. -/
structure Shared (w n : ℕ) where
  start : Bool
  stop : Bool
  counts : Fin n → BitVec w
  mtx : Option (Fin n)
  lock : Bool
  counter : BitVec w

/-- The next statement of a worker, with the value loaded where it is still used. -/
inductive Pc (w : ℕ)
  | unborn
  | loadStart | loadStop
  | enter
  | load | store (v : BitVec w) | work (j : ℕ) | leave
  | count
  | returned
deriving DecidableEq

/-- The first statement of the critical section. -/
def enter (body : CriticalSection) (i : Fin n) (s : Shared w n) : Option (Shared w n × Pc w) :=
  match body with
  -- std::lock_guard<std::mutex> lock(mtx);
  | .mutexHot => if s.mtx = none then some ({ s with mtx := some i }, .load) else none
  -- counter.fetch_add(1, Order);
  | .atomic => some ({ s with counter := s.counter + 1 }, .count)
  -- lock.lock();
  | .spinHot | .spinWithWork => some ({ s with lock := true }, if s.lock then .enter else .load)
  -- if (lock.try_lock()) ... return false;
  | .spinFairness => some ({ s with lock := true }, if s.lock then .loadStop else .load)

/-- The last statement of the critical section. -/
def leave (body : CriticalSection) (s : Shared w n) : Shared w n :=
  match body with
  | .mutexHot => { s with mtx := none }
  | .atomic => s
  -- lock.unlock();
  | .spinHot | .spinWithWork | .spinFairness => { s with lock := false }

/-- One statement of a worker. -/
def exec (body : CriticalSection) (i : Fin n) (s : Shared w n) :
    Pc w → Option (Shared w n × Pc w)
  | .unborn | .returned => none
  -- while (!start.load(std::memory_order_acquire))
  | .loadStart => some (s, if s.start then .loadStop else .loadStart)
  -- while (!stop.load(std::memory_order_acquire))
  | .loadStop => some (s, if s.stop then .returned else .enter)
  | .enter => enter body i s
  -- counter.value++;
  | .load => some (s, .store s.counter)
  | .store v => some ({ s with counter := v + 1 },
      if body = .spinWithWork then .work 0 else .leave)
  -- for (int j = 0; j < 10; ++j)
  | .work j => some (s, if j < 10 then .work (j + 1) else .leave)
  | .leave => some (leave body s, .count)
  -- counts[static_cast<size_t>(thread_id)].fetch_add(1, std::memory_order_relaxed);
  | .count => some ({ s with counts := Function.update s.counts i (s.counts i + 1) }, .loadStop)

/-- The step of a position adds one to the shared counter for its thread. -/
def Pc.increments (body : CriticalSection) : Pc w → Bool
  | .store _ => true
  | .enter => body = .atomic
  | _ => false

/-- What the window returns, with the square of the coefficient. -/
structure WindowResult (w : ℕ) where
  ops : BitVec w
  fairnessCv : Option ℚ

/-- The main thread: start the threads, open and close the window, join the threads, add
the counts up. -/
inductive Main (w : ℕ)
  | start (k : ℕ) | storeStart | storeStop | join (k : ℕ)
  | sum (k : ℕ) (ops : BitVec w)
  | returned (result : WindowResult w)

/-- The shared variables, the position of the main thread and of every worker, and the
increments made by each. -/
structure Config (w n : ℕ) where
  shared : Shared w n
  main : Main w
  pcs : Fin n → Pc w
  made : Fin n → ℕ

/-- No worker has been started. -/
def Config.init : Config w n :=
  ⟨⟨false, false, 0, none, false, 0⟩, .start 0, fun _ => .unborn, 0⟩

/-- One statement of the main thread. -/
def window (c : Config w n) : Option (Config w n) :=
  match c.main with
  -- threads.emplace_back([&, thread_id = i] {
  | .start k => some <|
    if inRange : k < n then
      { c with main := .start (k + 1), pcs := Function.update c.pcs ⟨k, inRange⟩ .loadStart }
    else { c with main := .storeStart }
  -- start.store(true, std::memory_order_release);
  | .storeStart => some { c with main := .storeStop, shared := { c.shared with start := true } }
  -- stop.store(true, std::memory_order_release);
  | .storeStop => some { c with main := .join 0, shared := { c.shared with stop := true } }
  -- t.join();
  | .join k =>
    if inRange : k < n then
      if c.pcs ⟨k, inRange⟩ = .returned then some { c with main := .join (k + 1) } else none
    else some { c with main := .sum 0 0 }
  -- result.ops += v;
  | .sum k ops => some <|
    if inRange : k < n then { c with main := .sum (k + 1) (ops + c.shared.counts ⟨k, inRange⟩) }
    else
      let counts := List.ofFn fun i => (c.shared.counts i).toNat
      { c with main := .returned ⟨ops, Fairness.fairnessCv counts⟩ }
  | .returned _ => none

/-- A schedule lets the main thread or one worker go on. -/
inductive Label (n : ℕ)
  | main
  | worker (i : Fin n)

/-- One step of the whole window. -/
def step (body : CriticalSection) (c : Config w n) : Label n → Option (Config w n)
  | .main => window c
  | .worker i => (exec body i c.shared (c.pcs i)).map fun (shared, pc) =>
      ⟨shared, c.main, Function.update c.pcs i pc,
        Function.update c.made i (c.made i + ((c.pcs i).increments body).toNat)⟩

/-- Every state some interleaving leads to. -/
def Reachable (body : CriticalSection) (c : Config w n) : Prop :=
  Reaches (step body) Config.init c

/-- Inside the lock. -/
def Pc.inside : Pc w → Bool
  | .load | .store _ | .work _ | .leave => true
  | _ => false

/-- The increment has been made and is still to be counted. -/
def Pc.uncounted : Pc w → Bool
  | .work _ | .leave | .count => true
  | _ => false

/-- The lock of the benchmark has this owner. -/
def Locked (body : CriticalSection) (owner : Option (Fin n)) (s : Shared w n) : Prop :=
  match body with
  | .mutexHot => s.mtx = owner
  | .atomic => owner = none
  | .spinHot | .spinWithWork | .spinFairness => s.lock = owner.isSome

/-- The lock, the counter and the counts go with an owner. -/
structure Held (body : CriticalSection) (owner : Option (Fin n)) (c : Config w n) : Prop where
  owned : Owned Pc.inside owner c.pcs
  locked : Locked body owner c.shared
  loaded : ∀ i v, c.pcs i = .store v → v = c.shared.counter
  counter : c.shared.counter = ((∑ i, c.made i : ℕ) : BitVec w)
  counted : ∀ i, c.shared.counts i + ((c.pcs i).uncounted.toNat : BitVec w) = c.made i

/-- At the start nobody holds the lock. -/
theorem held_init (body : CriticalSection) : Held body none (Config.init : Config w n) where
  owned i := by simp [Config.init, Pc.inside]
  locked := by cases body <;> rfl
  loaded i v storing := by simp [Config.init] at storing
  counter := by simp only [Config.init, Pi.zero_apply, Finset.sum_const_zero, Nat.cast_zero]
  counted i := by simp [Config.init, Pc.uncounted]

/-- What one move of a worker does, with the owner afterwards. -/
structure Effect (body : CriticalSection) (i : Fin n) (owner : Option (Fin n)) (s : Shared w n)
    (pc : Pc w) (owner' : Option (Fin n)) (s' : Shared w n) (pc' : Pc w) : Prop where
  lock : LockMove Pc.inside i owner pc owner' pc'
  locked : Locked body owner' s'
  loaded : ∀ v, pc' = .store v → v = s'.counter
  quiet : s'.counter = s.counter ∨ pc.inside = true ∨ owner = none
  counter : s'.counter = s.counter + ((pc.increments body).toNat : BitVec w)
  counted : s'.counts i + (pc'.uncounted.toNat : BitVec w) =
    s.counts i + (pc.uncounted.toNat : BitVec w) + ((pc.increments body).toNat : BitVec w)
  others : ∀ j ≠ i, s'.counts j = s.counts j

section OneMove

variable {body : CriticalSection} {i : Fin n} {owner owner' : Option (Fin n)}
  {s s' : Shared w n} {pc pc' : Pc w}

/-- A move that neither increments nor counts. -/
theorem Effect.of_same (lock : LockMove Pc.inside i owner pc owner' pc')
    (locked : Locked body owner' s') (loaded : ∀ v, pc' = .store v → v = s'.counter)
    (counter : s'.counter = s.counter) (counts : s'.counts = s.counts)
    (uncounted : pc'.uncounted = pc.uncounted) (nothing : pc.increments body = false) :
    Effect body i owner s pc owner' s' pc' where
  lock := lock
  locked := locked
  loaded := loaded
  quiet := Or.inl counter
  counter := by simp [counter, nothing]
  counted := by simp [counts, uncounted, nothing]
  others j _ := by rw [counts]

/-- A `test_and_set` makes its thread the owner when there is none, and changes nothing
otherwise. -/
theorem testAndSet_effect {failed : Pc w} (locks : body ≠ .mutexHot ∧ body ≠ .atomic)
    (locked : s.lock = owner.isSome) (elsewhere : failed = .enter ∨ failed = .loadStop) :
    ∃ owner', Effect body i owner s .enter owner' { s with lock := true }
      (if s.lock then failed else .load) := by
  have owned : ∀ j : Fin n, Locked body (some j) { s with lock := true } := by
    intro j
    cases body <;> simp [Locked] at locks ⊢
  have nothing : (Pc.enter : Pc w).increments body = false := by
    simp [Pc.increments, locks.2]
  cases owner with
  | none =>
    have clear : s.lock = false := locked
    refine ⟨some i, ?_⟩
    rw [clear, if_neg Bool.false_ne_true]
    exact Effect.of_same (.acquired _ _ rfl) (owned i) (by simp) rfl rfl rfl nothing
  | some j =>
    have set : s.lock = true := locked
    refine ⟨some j, ?_⟩
    rw [set, if_pos rfl]
    rcases elsewhere with rfl | rfl
    · exact Effect.of_same (.kept _ _ _ rfl) (owned j) (by simp) rfl rfl rfl nothing
    · exact Effect.of_same (.kept _ _ _ rfl) (owned j) (by simp) rfl rfl rfl nothing

/-- Whoever gets the lock becomes the owner; `fetch_add` needs none. -/
theorem enter_effect (locked : Locked body owner s)
    (moved : enter body i s = some (s', pc')) :
    ∃ owner', Effect body i owner s .enter owner' s' pc' := by
  cases body with
  | mutexHot =>
    simp only [enter, Option.ite_none_right_eq_some, Option.some.injEq, Prod.mk.injEq] at moved
    obtain ⟨free, rfl, rfl⟩ := moved
    have nobody : owner = none := locked.symm.trans free
    subst nobody
    exact ⟨some i, Effect.of_same (.acquired _ _ rfl) rfl (by simp) rfl rfl rfl rfl⟩
  | atomic =>
    obtain ⟨rfl, rfl⟩ := Prod.mk.inj (Option.some.inj moved)
    refine ⟨owner, .kept _ _ _ rfl, locked, by simp, Or.inr (Or.inr locked), ?_, ?_, by simp⟩
    · simp [Pc.increments]
    · simp [Pc.increments, Pc.uncounted]
  | spinHot | spinWithWork | spinFairness =>
    obtain ⟨rfl, rfl⟩ := Prod.mk.inj (Option.some.inj moved)
    exact testAndSet_effect (by decide) locked (by simp)

/-- Only the owner unlocks, so there is none afterwards. -/
theorem leave_effect : Effect body i owner s .leave none (leave body s) .count := by
  have locked : Locked body none (leave body s) := by cases body <;> rfl
  have same : (leave body s).counter = s.counter ∧ (leave body s).counts = s.counts := by
    cases body <;> exact ⟨rfl, rfl⟩
  exact Effect.of_same (.released _ _ _ rfl rfl) locked (by simp) same.1 same.2 rfl rfl

/-- What has been loaded under the lock is still the counter when it is stored. -/
theorem store_effect {v : BitVec w} (locked : Locked body owner s) (loaded : v = s.counter) :
    Effect body i owner s (.store v) owner { s with counter := v + 1 }
      (if body = .spinWithWork then .work 0 else .leave) where
  lock := .kept _ _ _ (by split <;> rfl)
  locked := by cases body <;> exact locked
  loaded := by split <;> simp
  quiet := Or.inr (Or.inl rfl)
  counter := by simp [Pc.increments, loaded]
  counted := by split <;> simp [Pc.increments, Pc.uncounted]
  others _ _ := rfl

/-- Counting takes no lock and gives none back. -/
theorem count_effect (locked : Locked body owner s) :
    Effect body i owner s .count owner
      { s with counts := Function.update s.counts i (s.counts i + 1) } .loadStop where
  lock := .kept _ _ _ rfl
  locked := by cases body <;> exact locked
  loaded := by simp
  quiet := Or.inl rfl
  counter := by simp [Pc.increments]
  counted := by simp [Pc.increments, Pc.uncounted]
  others j other := Function.update_of_ne other _ _

/-- Every move of a worker leaves some owner, the one there was or itself. -/
theorem exec_effect (locked : Locked body owner s) (loaded : ∀ v, pc = .store v → v = s.counter)
    (moved : exec body i s pc = some (s', pc')) :
    ∃ owner', Effect body i owner s pc owner' s' pc' := by
  cases pc with
  | unborn | returned => simp [exec] at moved
  | enter => exact enter_effect locked moved
  | store v =>
    obtain ⟨rfl, rfl⟩ := Prod.mk.inj (Option.some.inj moved)
    exact ⟨owner, store_effect locked (loaded v rfl)⟩
  | leave =>
    obtain ⟨rfl, rfl⟩ := Prod.mk.inj (Option.some.inj moved)
    exact ⟨none, leave_effect⟩
  | count =>
    obtain ⟨rfl, rfl⟩ := Prod.mk.inj (Option.some.inj moved)
    exact ⟨owner, count_effect locked⟩
  | load =>
    obtain ⟨rfl, rfl⟩ := Prod.mk.inj (Option.some.inj moved)
    exact ⟨owner, Effect.of_same (.kept _ _ _ rfl) locked (by simp) rfl rfl rfl rfl⟩
  | loadStart | loadStop | work =>
    obtain ⟨rfl, rfl⟩ := Prod.mk.inj (Option.some.inj moved)
    refine ⟨owner, ?_⟩
    split <;> exact Effect.of_same (.kept _ _ _ rfl) locked (by simp) rfl rfl rfl rfl

end OneMove

/-- What the main thread knows of the workers it has started and joined, and of the
counts it has added up. -/
def Knows (c : Config w n) : Prop :=
  match c.main with
  | .start k => ∀ i : Fin n, k ≤ i.val → c.pcs i = .unborn
  | .storeStart | .storeStop => True
  | .join k => ∀ i : Fin n, i.val < k → c.pcs i = .returned
  | .sum k ops => (∀ i, c.pcs i = .returned) ∧ ops = ((List.ofFn c.shared.counts).take k).sum
  | .returned result => (∀ i, c.pcs i = .returned) ∧ result.ops = ∑ i, c.shared.counts i ∧
    result.fairnessCv = Fairness.fairnessCv (List.ofFn fun i => (c.shared.counts i).toNat)

section Run

variable {body : CriticalSection} {i : Fin n} {owner : Option (Fin n)}
  {c c' : Config w n} {s' : Shared w n} {pc' : Pc w}

/-- A worker that moves has been started and has not returned. -/
theorem running (moved : exec body i c.shared (c.pcs i) = some (s', pc')) :
    c.pcs i ≠ .unborn ∧ c.pcs i ≠ .returned := by
  constructor <;> intro same <;> simp [same, exec] at moved

/-- The increments of one worker are part of all. -/
theorem sum_made (made : Fin n → ℕ) (i : Fin n) (gained : ℕ) :
    ∑ j, Function.update made i (made i + gained) j = ∑ j, made j + gained := by
  have exchanged := tally_update (fun _ k => k) made i (made i + gained)
  simp only [tally] at exchanged
  omega

/-- Every statement of a worker keeps the lock with its owner. -/
theorem held_worker (held : Held body owner c)
    (moved : exec body i c.shared (c.pcs i) = some (s', pc')) :
    ∃ owner', Held body owner' ⟨s', c.main, Function.update c.pcs i pc',
      Function.update c.made i (c.made i + ((c.pcs i).increments body).toNat)⟩ := by
  obtain ⟨owner', effect⟩ := exec_effect held.locked (held.loaded i) moved
  refine ⟨owner', held.owned.move effect.lock, effect.locked, ?_, ?_, ?_⟩
  · rw [Function.forall_update_iff c.pcs fun _ p => ∀ v, p = .store v → v = s'.counter]
    refine ⟨effect.loaded, fun j other v storing => ?_⟩
    have inside : (c.pcs j).inside = true := by rw [storing]; rfl
    rcases effect.quiet with same | mine | nobody
    · rw [same]
      exact held.loaded j v storing
    · exact absurd (held.owned.exclusive inside mine) other
    · exact absurd ((held.owned j).mp inside) (by simp [nobody])
  · rw [sum_made, Nat.cast_add, ← held.counter]
    exact effect.counter
  · intro j
    by_cases same : j = i
    · subst same
      simp only [Function.update_self, Nat.cast_add]
      rw [effect.counted, held.counted]
    · simp only [Function.update_of_ne same, effect.others j same]
      exact held.counted j

/-- A statement of a worker changes nothing of what the main thread knows. -/
theorem knows_worker (knows : Knows c)
    (moved : exec body i c.shared (c.pcs i) = some (s', pc')) (made : Fin n → ℕ) :
    Knows ⟨s', c.main, Function.update c.pcs i pc', made⟩ := by
  obtain ⟨born, running⟩ := running moved
  unfold Knows at knows ⊢
  dsimp only
  split at knows
  · exact known_update knows born pc'
  · trivial
  · trivial
  · exact known_update knows running pc'
  · exact absurd (knows.1 i) running
  · exact absurd (knows.1 i) running

/-- The lock and the counts do not depend on the main thread's position and flags. -/
theorem Held.congr {start stop : Bool} {main : Main w} (held : Held body owner c) :
    Held body owner { c with shared := { c.shared with start, stop }, main } where
  owned := held.owned
  locked := by cases body <;> exact held.locked
  loaded := held.loaded
  counter := held.counter
  counted := held.counted

/-- A thread that is started is outside of the lock, with nothing to count. -/
theorem Held.start {main : Main w} (held : Held body owner c) (unborn : c.pcs i = .unborn) :
    Held body owner { c with main, pcs := Function.update c.pcs i .loadStart } where
  owned := held.owned.move (.kept _ _ _ (by rw [unborn]; rfl))
  locked := held.locked
  loaded := by
    rw [Function.forall_update_iff c.pcs fun _ p => ∀ v, p = .store v → v = c.shared.counter]
    exact ⟨by simp, fun j _ => held.loaded j⟩
  counter := held.counter
  counted := by
    rw [Function.forall_update_iff c.pcs fun j p =>
      c.shared.counts j + (p.uncounted.toNat : BitVec w) = c.made j]
    have mine := held.counted i
    rw [unborn] at mine
    exact ⟨mine, fun j _ => held.counted j⟩

/-- Every statement of the main thread keeps the lock with its owner. -/
theorem window_kept (held : Held body owner c) (knows : Knows c) (moved : window c = some c') :
    Held body owner c' ∧ Knows c' := by
  cases position : c.main with
  | start k =>
    simp only [Knows, position] at knows
    simp only [window, position, Option.some.injEq] at moved
    subst moved
    split
    next inRange =>
      exact ⟨held.start (knows ⟨k, inRange⟩ le_rfl), unborn_succ knows inRange .loadStart⟩
    next => exact ⟨held.congr, trivial⟩
  | storeStart =>
    simp only [window, position, Option.some.injEq] at moved
    subst moved
    exact ⟨held.congr, trivial⟩
  | storeStop =>
    simp only [window, position, Option.some.injEq] at moved
    subst moved
    exact ⟨held.congr, fun j behind => absurd behind (Nat.not_lt_zero _)⟩
  | join k =>
    simp only [Knows, position] at knows
    simp only [window, position] at moved
    split at moved
    next inRange =>
      simp only [Option.ite_none_right_eq_some, Option.some.injEq] at moved
      obtain ⟨returned, rfl⟩ := moved
      exact ⟨held.congr, joined_succ knows inRange returned⟩
    next outOfRange =>
      obtain rfl := Option.some.inj moved
      exact ⟨held.congr, joined_all knows outOfRange, by simp⟩
  | sum k ops =>
    simp only [Knows, position] at knows
    simp only [window, position, Option.some.injEq] at moved
    obtain ⟨all, added⟩ := knows
    subst moved
    split
    next inRange =>
      refine ⟨held.congr, all, ?_⟩
      dsimp only
      rw [List.sum_take_succ _ k (by simpa using inRange), ← added, List.getElem_ofFn]
    next outOfRange =>
      refine ⟨held.congr, all, ?_, rfl⟩
      dsimp only
      rw [added, List.take_of_length_le (by simpa using outOfRange), List.sum_ofFn]
  | returned => simp [window, position] at moved

/-- Every step keeps the lock with its owner. -/
theorem step_kept : Preserved (step body) fun c : Config w n =>
    (∃ owner, Held body owner c) ∧ Knows c := by
  rintro c label c' ⟨⟨owner, held⟩, knows⟩ taken
  cases label with
  | main =>
    obtain ⟨held', knows'⟩ := window_kept held knows taken
    exact ⟨⟨owner, held'⟩, knows'⟩
  | worker i =>
    obtain ⟨⟨s', pc'⟩, moved, rfl⟩ := Option.map_eq_some_iff.mp taken
    exact ⟨held_worker held moved, knows_worker knows moved _⟩

/-- The lock is with its owner in every reachable state. -/
theorem reachable_held (reached : Reachable body c) :
    (∃ owner, Held body owner c) ∧ Knows c :=
  step_kept.reaches ⟨⟨none, held_init body⟩, fun _ _ => rfl⟩ reached

/-- The window's count is exact. For any number of workers, any interleaving and each of the
critical sections, once the window has returned its sum is the shared counter, and both are
what all the increments made come to. Each worker has counted the increments it has made,
and the fairness figure is that of these counts. -/
theorem window_exact (body : CriticalSection) (c : Config w n)
    (reached : Reachable body c) (result : WindowResult w)
    (returned : c.main = .returned result) :
    result.ops = c.shared.counter ∧
    result.ops = BitVec.ofNat w (∑ i, c.made i) ∧
    (∀ i, c.shared.counts i = BitVec.ofNat w (c.made i)) ∧
    result.fairnessCv = Fairness.fairnessCv (List.ofFn fun i => c.made i % 2 ^ w) := by
  obtain ⟨⟨_, held⟩, knows⟩ := reachable_held reached
  simp only [Knows, returned] at knows
  obtain ⟨all, ops, fairnessCv⟩ := knows
  have counts : ∀ i, c.shared.counts i = BitVec.ofNat w (c.made i) := by
    intro i
    have counted := held.counted i
    rw [all i] at counted
    simpa [Pc.uncounted] using counted
  have total : result.ops = BitVec.ofNat w (∑ i, c.made i) := by
    rw [ops, ← BitVec.natCast_eq_ofNat, Nat.cast_sum]
    exact Finset.sum_congr rfl fun i _ => counts i
  refine ⟨total.trans held.counter.symm, total, counts, ?_⟩
  rw [fairnessCv]
  congr 2
  funext i
  rw [counts, BitVec.toNat_ofNat]

/-- What the main thread returns. -/
def Main.result : Main w → Option (WindowResult w)
  | .returned result => some result
  | _ => none

/-- Of three workers one increments and is inside when the window is closed, one tries to get
in meanwhile, and one sees the window opened only after it has been closed. -/
theorem window_exact_three : ∃ (c : Config 64 3) (result : WindowResult 64),
    Reachable .spinFairness c ∧ c.main = .returned result ∧
    result.ops = 1 ∧ c.shared.counter = 1 ∧ c.shared.counts 1 = 0 := by
  let opening : List (Label 3) := [.main, .main, .main, .main, .main]
  let inside : List (Label 3) :=
    [.worker 0, .worker 0, .worker 0, .worker 1, .worker 1, .worker 1, .main]
  let closed : List (Label 3) := [.worker 2, .worker 2, .worker 1, .worker 0, .worker 0,
    .worker 0, .worker 0, .worker 0]
  let closing : List (Label 3) := [.main, .main, .main, .main, .main, .main, .main, .main]
  have played : (run (step .spinFairness) (Config.init : Config 64 3)
      (opening ++ inside ++ closed ++ closing)).map
      (fun c => (c.main.result.map WindowResult.ops, c.made 1)) = some (some 1, 0) := by
    decide +kernel
  obtain ⟨c, ran, final⟩ := Option.map_eq_some_iff.mp played
  obtain ⟨sum, made⟩ := Prod.mk.inj final
  obtain ⟨result, shown, ops⟩ := Option.map_eq_some_iff.mp sum
  have returned : c.main = .returned result := by
    cases position : c.main with
    | returned => simpa [position, Main.result] using shown
    | _ => simp [position, Main.result] at shown
  obtain ⟨counter, _, counts, _⟩ := window_exact .spinFairness c ⟨_, ran⟩ result returned
  exact ⟨c, result, ⟨_, ran⟩, returned, ops, counter ▸ ops, by rw [counts, made]; rfl⟩

end Run

end ConcurrencyBench.ContentionWindow
