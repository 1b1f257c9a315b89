import ConcurrencyBench.Runs
import ConcurrencyBench.Threads

/-!
# The spinlock

`spinlock` is one `atomic_flag`. `lock` repeats `test_and_set` until it finds the
flag clear, `try_lock` tries once, and `unlock` clears the flag. Each `test_and_set`,
each `clear` and each access to the counter the lock protects is one step of its
thread. A thread is inside the critical section from the `test_and_set` that found
the flag clear to its `clear`; only there does it call `unlock`. Inside it adds one
to the counter by a load and a store of their own. Every thread makes as many calls
as it likes, of both kinds.

The lock has no owner, but the flag behaves as if it had one: it is set exactly while
it does, and the owner is the thread inside. The sections entered are counted for the
statements only.
-/

namespace ConcurrencyBench.Spinlock

open Interleaving

universe u
variable {ι : Type u}

/-- The member of the lock, and the counter it protects. -/
structure Shared where
  flag : Bool
  counter : ℕ

/-- The next statement of a thread, with the value loaded where it is still used. -/
inductive Pc
  | outside
  | lock | tryLock
  | load | store (v : ℕ) | unlock
deriving DecidableEq

/-- Inside the critical section. -/
def Pc.inside : Pc → Bool
  | .load | .store _ | .unlock => true
  | _ => false

/-- The calls and the critical section between them, one statement at a time. -/
def exec (s : Shared) : Pc → Option (Shared × Pc)
  | .outside => none
  -- while (flag.test_and_set(std::memory_order_acquire))
  | .lock => some ({ s with flag := true }, if s.flag then .lock else .load)
  -- return !flag.test_and_set(std::memory_order_acquire);
  | .tryLock => some ({ s with flag := true }, if s.flag then .outside else .load)
  | .load => some (s, .store s.counter)
  | .store v => some ({ s with counter := v + 1 }, .unlock)
  -- flag.clear(std::memory_order_release);
  | .unlock => some ({ s with flag := false }, .outside)

/-- The step of a position enters the critical section. -/
def Pc.enters (s : Shared) : Pc → Bool
  | .lock | .tryLock => !s.flag
  | _ => false

/-- The lock and the counter, every thread's position, and the sections entered. -/
structure Config (ι : Type u) where
  shared : Shared
  pcs : ι → Pc
  entered : ℕ

/-- The lock is free and everybody outside. -/
def Config.init : Config ι := ⟨⟨false, 0⟩, fun _ => .outside, 0⟩

/-- A schedule lets a thread call `lock` or `try_lock`, or go on. -/
inductive Label (ι : Type u)
  | lock (i : ι)
  | tryLock (i : ι)
  | go (i : ι)

variable [DecidableEq ι]

/-- One step of the whole program. -/
def step (c : Config ι) : Label ι → Option (Config ι)
  | .lock i =>
    if c.pcs i = .outside then some { c with pcs := Function.update c.pcs i .lock } else none
  | .tryLock i =>
    if c.pcs i = .outside then some { c with pcs := Function.update c.pcs i .tryLock } else none
  | .go i => (exec c.shared (c.pcs i)).map fun (shared, pc) =>
      ⟨shared, Function.update c.pcs i pc, c.entered + ((c.pcs i).enters c.shared).toNat⟩

/-- Every state some interleaving leads to. -/
def Reachable (c : Config ι) : Prop := Reaches step Config.init c

/-- What one thread does in one step. The last argument is what the count of
entered sections gains. -/
inductive Move (s : Shared) (pc : Pc) : Shared → Pc → ℕ → Prop
  | call (outside : pc = .outside) (pc' : Pc) (began : pc' = .lock ∨ pc' = .tryLock) :
      Move s pc s pc' 0
  | exec (s' : Shared) (pc' : Pc) (moved : exec s pc = some (s', pc')) :
      Move s pc s' pc' (pc.enters s).toNat

/-- Every step is one thread's move; the other threads stay where they are. -/
theorem step_move {c c' : Config ι} {label : Label ι} (taken : step c label = some c') :
    ∃ i shared pc gained, Move c.shared (c.pcs i) shared pc gained ∧
      c' = ⟨shared, Function.update c.pcs i pc, c.entered + gained⟩ := by
  cases label with
  | lock i =>
    simp only [step, Option.ite_none_right_eq_some, Option.some.injEq] at taken
    exact ⟨i, _, _, 0, .call taken.1 .lock (Or.inl rfl), taken.2.symm⟩
  | tryLock i =>
    simp only [step, Option.ite_none_right_eq_some, Option.some.injEq] at taken
    exact ⟨i, _, _, 0, .call taken.1 .tryLock (Or.inr rfl), taken.2.symm⟩
  | go i =>
    obtain ⟨⟨shared, pc⟩, moved, same⟩ := Option.map_eq_some_iff.mp taken
    exact ⟨i, shared, pc, _, .exec shared pc moved, same.symm⟩

/-- The increment of the section is still to come. -/
def Pc.behind : Pc → ℕ
  | .load | .store _ => 1
  | _ => 0

/-- Outside the section nobody is behind with the count. -/
theorem behind_of_outside {pc : Pc} (outside : pc.inside = false) : pc.behind = 0 := by
  cases pc <;> simp [Pc.inside, Pc.behind] at outside ⊢

omit [DecidableEq ι] in
/-- The increment still to come, if there is an owner. -/
def owed (owner : Option ι) (pcs : ι → Pc) : ℕ := owner.elim 0 fun i => (pcs i).behind

/-- The flag and the counter go with an owner. -/
structure Held (owner : Option ι) (c : Config ι) : Prop where
  owned : Owned Pc.inside owner c.pcs
  flag : c.shared.flag = owner.isSome
  counter : c.shared.counter + owed owner c.pcs = c.entered
  loaded : ∀ i v, c.pcs i = .store v → v = c.shared.counter

omit [DecidableEq ι] in
/-- At the start nobody holds the lock. -/
theorem held_init : Held none (Config.init : Config ι) where
  owned i := by simp [Config.init, Pc.inside]
  flag := rfl
  counter := rfl
  loaded i v storing := by simp [Config.init] at storing

/-- What one move does, with the owner afterwards. -/
structure Effect (i : ι) (owner : Option ι) (s : Shared) (pc : Pc) (owner' : Option ι)
    (s' : Shared) (pc' : Pc) (gained : ℕ) : Prop where
  lock : LockMove Pc.inside i owner pc owner' pc'
  flag : s'.flag = owner'.isSome
  counter : s'.counter + pc'.behind = s.counter + pc.behind + gained
  quiet : s'.counter = s.counter ∨ pc.inside = true
  loaded : ∀ v, pc' = .store v → v = s'.counter

section OneMove

variable {i : ι} {owner : Option ι} {s s' : Shared} {pc pc' : Pc} {gained : ℕ}

omit [DecidableEq ι] in
/-- A `test_and_set` makes its thread the owner when there is none, and changes nothing
otherwise. -/
theorem testAndSet_effect {failed : Pc} (outside : pc.inside = false)
    (elsewhere : failed.inside = false) (flag : s.flag = owner.isSome) :
    ∃ owner', Effect i owner s pc owner' { s with flag := true }
      (if s.flag then failed else .load) (!s.flag).toNat := by
  have before := behind_of_outside outside
  have after := behind_of_outside elsewhere
  cases owner with
  | none =>
    have clear : s.flag = false := flag
    refine ⟨some i, ?_⟩
    rw [clear]
    exact {
      lock := .acquired _ _ rfl
      flag := rfl
      counter := by
        rw [before]
        rfl
      quiet := .inl rfl
      loaded := nofun }
  | some j =>
    have set : s.flag = true := flag
    refine ⟨some j, ?_⟩
    rw [set]
    exact {
      lock := .kept _ _ _ (elsewhere.trans outside.symm)
      flag := rfl
      counter := by
        rw [if_pos rfl, before, after]
        rfl
      quiet := .inl rfl
      loaded := by
        intro v storing
        rw [if_pos rfl] at storing
        rw [storing] at elsewhere
        cases elsewhere }

omit [DecidableEq ι] in
/-- The thread that finds the flag clear becomes the owner, and the thread inside gives
the ownership up with `clear`. -/
theorem move_effect (inside : pc.inside = true ↔ owner = some i) (flag : s.flag = owner.isSome)
    (loaded : ∀ v, pc = .store v → v = s.counter) (moved : Move s pc s' pc' gained) :
    ∃ owner', Effect i owner s pc owner' s' pc' gained := by
  cases moved with
  | call outside pc' began =>
    subst outside
    have waiting : pc'.inside = false ∧ pc'.behind = 0 := by
      rcases began with rfl | rfl <;> exact ⟨rfl, rfl⟩
    exact ⟨owner, {
      lock := .kept _ _ _ waiting.1
      flag := flag
      counter := by
        rw [waiting.2]
        rfl
      quiet := .inl rfl
      loaded := by
        rcases began with rfl | rfl <;> nofun }⟩
  | exec _ _ moved =>
    cases pc with
    | outside => simp [exec] at moved
    | lock =>
      obtain ⟨rfl, rfl⟩ := Prod.mk.inj (Option.some.inj moved)
      exact testAndSet_effect rfl rfl flag
    | tryLock =>
      obtain ⟨rfl, rfl⟩ := Prod.mk.inj (Option.some.inj moved)
      exact testAndSet_effect rfl rfl flag
    | load =>
      obtain ⟨rfl, rfl⟩ := Prod.mk.inj (Option.some.inj moved)
      exact ⟨owner, {
        lock := .kept _ _ _ rfl
        flag := flag
        counter := rfl
        quiet := .inl rfl
        loaded := fun v storing => (Pc.store.inj storing).symm }⟩
    | store v =>
      obtain ⟨rfl, rfl⟩ := Prod.mk.inj (Option.some.inj moved)
      have read : v = s.counter := loaded v rfl
      exact ⟨owner, {
        lock := .kept _ _ _ rfl
        flag := flag
        counter := by
          rw [read]
          rfl
        quiet := .inr rfl
        loaded := nofun }⟩
    | unlock =>
      obtain ⟨rfl, rfl⟩ := Prod.mk.inj (Option.some.inj moved)
      exact ⟨none, {
        lock := .released _ _ _ rfl rfl
        flag := rfl
        counter := rfl
        quiet := .inl rfl
        loaded := nofun }⟩

end OneMove

section Run

variable {c c' : Config ι} {label : Label ι} {owner : Option ι}

/-- Outside of the critical section no increment is to come, so one thread's move
changes the owner's by what it changes its own. -/
theorem owed_move {pcs : ι → Pc} {i : ι} {owner' : Option ι} {pc' : Pc}
    (owned : Owned Pc.inside owner pcs) (lock : LockMove Pc.inside i owner (pcs i) owner' pc') :
    owed owner' (Function.update pcs i pc') + (pcs i).behind = owed owner pcs + pc'.behind := by
  have outside : ∀ {p : ι → Pc} {o : Option ι}, Owned Pc.inside o p → o ≠ some i →
      (p i).behind = 0 := by
    intro p o owned other
    exact behind_of_outside (by simpa using fun inside => other ((owned i).mp inside))
  have owned' := owned.move lock
  have outside' : owner' ≠ some i → pc'.behind = 0 := by
    intro other
    simpa using outside owned' other
  by_cases before : owner = some i
  · by_cases after : owner' = some i
    · simp [owed, before, after, Nat.add_comm]
    · have nobody : owner' = none := by
        cases lock with
        | kept => exact absurd before after
        | acquired => simp at before
        | released => rfl
      simp [owed, before, nobody, outside' after]
  · have idle := outside owned before
    by_cases after : owner' = some i
    · have nobody : owner = none := by
        cases lock with
        | kept => exact absurd after before
        | acquired => rfl
        | released => simp at after
      simp [owed, after, nobody, idle]
    · have idle' := outside' after
      have same : owner' = owner := by
        cases lock with
        | kept => rfl
        | acquired => exact absurd rfl after
        | released _ _ _ inside => exact absurd ((owned i).mp inside) before
      cases owner with
      | none => simp [owed, same, idle, idle']
      | some j =>
        have other : j ≠ i := fun same => before (by rw [same])
        simp [owed, same, Function.update_of_ne other, idle, idle']

/-- One step keeps an owner: the one there was, or the thread that has moved. -/
theorem held_step (held : Held owner c) (taken : step c label = some c') :
    ∃ owner', Held owner' c' := by
  obtain ⟨i, shared, pc, gained, moved, rfl⟩ := step_move taken
  obtain ⟨owner', effect⟩ := move_effect (held.owned i) held.flag (held.loaded i) moved
  have owned := held.owned.move effect.lock
  refine ⟨owner', owned, effect.flag, ?_, ?_⟩
  · have before := held.counter
    have change := effect.counter
    have owed := owed_move held.owned effect.lock
    dsimp only
    omega
  · rw [Function.forall_update_iff c.pcs fun _ p => ∀ v, p = .store v → v = shared.counter]
    refine ⟨effect.loaded, fun j other v storing => ?_⟩
    rcases effect.quiet with same | inside
    · rw [same]
      exact held.loaded j v storing
    · exact absurd (held.owned.exclusive (by simp [storing, Pc.inside]) inside) other

/-- In every reachable state the lock is with its owner. -/
theorem reachable_held (reached : Reachable c) : ∃ owner, Held owner c := by
  have kept : Preserved step fun c : Config ι => ∃ owner, Held owner c :=
    fun _ _ _ ⟨_, held⟩ taken => held_step held taken
  exact kept.reaches ⟨none, held_init⟩ reached

/-- The spinlock excludes and loses no update, for any number of threads, any number
of calls of either kind, and every interleaving of their `test_and_set` and `clear`
steps. At most one thread is inside; the flag is set exactly while one is; a failing
`try_lock` changes nothing; and whenever nobody is inside, the counter is the number
of sections entered. -/
theorem spinlock_excludes (c : Config ι) (reached : Reachable c) :
    (∀ i j, (c.pcs i).inside = true → (c.pcs j).inside = true → i = j) ∧
    (c.shared.flag = true ↔ ∃ i, (c.pcs i).inside = true) ∧
    (∀ i, c.pcs i = .tryLock → c.shared.flag = true →
      step c (.go i) = some { c with pcs := Function.update c.pcs i .outside }) ∧
    ((∀ i, (c.pcs i).inside = false) → c.shared.counter = c.entered) := by
  obtain ⟨owner, owned, flag, counter, _⟩ := reachable_held reached
  refine ⟨fun i j first second => owned.exclusive first second, ?_, fun i trying set => ?_,
    fun outside => ?_⟩
  · rw [flag, Option.isSome_iff_exists]
    exact exists_congr fun i => (owned i).symm
  · have same : ({ c.shared with flag := true } : Shared) = c.shared := by rw [← set]
    simp [step, trying, exec, set, Pc.enters, same]
  · have nobody : owner = none := by
      cases owner with
      | none => rfl
      | some i => simpa [outside i] using (owned i).mpr rfl
    rw [← counter, nobody]
    rfl

/-- One thread is inside by `try_lock` with its increment done, a second fails to get
in by `try_lock`, and a third spins; after the `clear` the counter is right. -/
theorem spinlock_excludes_three : ∃ c : Config (Fin 3), Reachable c ∧ c.entered = 1 ∧
    c.shared.counter = 1 ∧ c.pcs 1 = .lock ∧ c.shared.flag = false := by
  let schedule : List (Label (Fin 3)) :=
    [.tryLock 0, .go 0, .go 0, .lock 1, .go 1, .tryLock 2, .go 2, .go 0, .go 1, .go 0]
  have played : (run step Config.init schedule).map
      (fun c => (c.entered, c.pcs 0, c.pcs 1, c.pcs 2)) =
        some (1, .outside, .lock, .outside) := rfl
  obtain ⟨c, reached, final⟩ := Option.map_eq_some_iff.mp played
  simp only [Prod.mk.injEq] at final
  obtain ⟨entered, first, second, third⟩ := final
  have outside : ∀ i, (c.pcs i).inside = false
    | 0 => by rw [first]; rfl
    | 1 => by rw [second]; rfl
    | 2 => by rw [third]; rfl
  obtain ⟨_, flag, _, counter⟩ := spinlock_excludes c ⟨schedule, reached⟩
  refine ⟨c, ⟨schedule, reached⟩, entered, (counter outside).trans entered, second, ?_⟩
  by_contra set
  obtain ⟨i, inside⟩ := flag.mp (by simpa using set)
  simp [outside i] at inside

end Run

end ConcurrencyBench.Spinlock
