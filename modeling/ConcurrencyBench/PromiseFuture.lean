import ConcurrencyBench.Runs
import ConcurrencyBench.Threads

/-!
# Promises fulfilled by a team of workers

`ManualPromiseFuture` has one promise for each task. Its workers draw task numbers from one
counter, past the last task as well, and fulfil the promise of each number drawn with what
`cpu_work` returns or throws. The main thread starts the workers, joins them and then waits
for one future after the other. Each `fetch_add`, each call of `cpu_work` and each access to
a promise is one step.

Integers are 32 bits wide. A sum that does not fit is undefined in the source; here it is
assumed to wrap around. `cpu_work` is any function; whether its own sums stay in range is
another matter.

Fulfilling a promise again throws. From `set_value` that exception is caught by the handler,
which goes on to `set_exception`, and from `set_exception` it ends the program. An index out
of range has no meaning. Neither happens, because a number that has been drawn has one holder
until its promise is fulfilled.
-/

namespace ConcurrencyBench.PromiseFuture

open Interleaving

universe u
variable {E : Type u} {numTasks T : ℕ}

/-- The sum of two integers of the source. -/
def add (a b : ℤ) : ℤ := Int.bmod (a + b) (2 ^ 32)

/-- What a promise may be fulfilled with besides a value. -/
inductive Exception (E : Type u)
  | thrown (e : E)
  | promiseAlreadySatisfied

/-- What a promise is set to: a value or an exception. -/
abbrev Outcome (E : Type u) := Except (Exception E) ℤ

/-- The counter and the promises, each with its future. -/
structure Shared (E : Type u) (numTasks : ℕ) where
  taskIndex : ℤ
  promises : Fin numTasks → Option (Outcome E)

/-- The next statement of a worker. -/
inductive Pc (E : Type u)
  | unborn
  | fetchAdd
  | test (idx : ℤ)
  | call (idx : ℤ)
  | setValue (idx result : ℤ)
  | setException (idx : ℤ) (e : Exception E)
  | returned
  | terminated
  | undefined

/-- `promises[idx]` -/
def slot (numTasks : ℕ) (idx : ℤ) : Option (Fin numTasks) :=
  if inRange : 0 ≤ idx ∧ idx < numTasks then some ⟨idx.toNat, by omega⟩ else none

/-- A promise has been fulfilled. -/
def Shared.satisfy (s : Shared E numTasks) (k : Fin numTasks) (outcome : Outcome E) :
    Shared E numTasks :=
  { s with promises := Function.update s.promises k (some outcome) }

/-- Fulfil a promise, going on as told where it is fulfilled already. -/
def fulfil (s : Shared E numTasks) (idx : ℤ) (outcome : Outcome E) (already : Pc E) :
    Shared E numTasks × Pc E :=
  match slot numTasks idx with
  | none => (s, .undefined)
  | some k =>
    match s.promises k with
    | none => (s.satisfy k outcome, .fetchAdd)
    | some _ => (s, already)

section Code

variable (cpuWork : ℤ → Except E ℤ) (workSize : ℤ)

/-- One statement of a worker. -/
def exec (s : Shared E numTasks) : Pc E → Option (Shared E numTasks × Pc E)
  | .unborn | .returned | .terminated | .undefined => none
  -- int idx = task_index.fetch_add(1);
  | .fetchAdd => some ({ s with taskIndex := add s.taskIndex 1 }, .test s.taskIndex)
  -- if (idx >= num_tasks) break;
  | .test idx => some (s, if idx ≥ numTasks then .returned else .call idx)
  -- int result = cpu_work(work_size + idx);
  | .call idx => some (s, match cpuWork (add workSize idx) with
    | .ok result => .setValue idx result
    | .error e => .setException idx (.thrown e))
  -- promises[idx].set_value(result);
  | .setValue idx result =>
    some (fulfil s idx (.ok result) (.setException idx .promiseAlreadySatisfied))
  -- promises[idx].set_exception(std::current_exception());
  | .setException idx e => some (fulfil s idx (.error e) .terminated)

/-- The main thread: start the workers, join them, collect the results. -/
inductive Main (E : Type u)
  | start (k : ℕ)
  | join (k : ℕ)
  | collect (k : ℕ) (totalResult : ℤ)
  | finished (outcome : Outcome E)

/-- The shared variables and the position of every thread. -/
structure Config (E : Type u) (numTasks T : ℕ) where
  shared : Shared E numTasks
  main : Main E
  pcs : Fin T → Pc E

/-- No promise is set and no worker started. -/
def Config.init : Config E numTasks T := ⟨⟨0, fun _ => none⟩, .start 0, fun _ => .unborn⟩

/-- One statement of the main thread. -/
def manualPromiseFuture (c : Config E numTasks T) : Option (Config E numTasks T) :=
  match c.main with
  -- workers.emplace_back([&, work_size] {
  | .start k => some <|
    if inRange : k < T then
      { c with main := .start (k + 1), pcs := Function.update c.pcs ⟨k, inRange⟩ .fetchAdd }
    else { c with main := .join 0 }
  -- worker.join();
  | .join k =>
    if inRange : k < T then
      match c.pcs ⟨k, inRange⟩ with
      | .returned => some { c with main := .join (k + 1) }
      | _ => none
    else some { c with main := .collect 0 0 }
  -- total_result += future.get();
  | .collect k totalResult =>
    if inRange : k < numTasks then
      (c.shared.promises ⟨k, inRange⟩).map fun
        | .ok result => { c with main := .collect (k + 1) (add totalResult result) }
        | .error e => { c with main := .finished (.error e) }
    else some { c with main := .finished (.ok totalResult) }
  | .finished _ => none

/-- A schedule lets the main thread or one worker go on. -/
inductive Label (T : ℕ)
  | main
  | worker (i : Fin T)

/-- One step of the whole program. -/
def step (c : Config E numTasks T) : Label T → Option (Config E numTasks T)
  | .main => manualPromiseFuture c
  | .worker i => (exec cpuWork workSize c.shared (c.pcs i)).map fun (shared, pc) =>
      ⟨shared, c.main, Function.update c.pcs i pc⟩

/-- Every state some interleaving leads to. -/
def Reachable (c : Config E numTasks T) : Prop := Reaches (step cpuWork workSize) Config.init c

/-- What the promise of a task is to be fulfilled with. -/
def expected (idx : ℤ) : Outcome E := (cpuWork (add workSize idx)).mapError .thrown

end Code

/-- The sum of the values of a list of outcomes, or the first exception of the list. -/
def total : ℤ → List (Outcome E) → Outcome E
  | sum, [] => .ok sum
  | sum, .ok result :: rest => total (add sum result) rest
  | _, .error e :: _ => .error e

/-- The task number a worker has drawn. -/
def Pc.drawn : Pc E → Option ℤ
  | .test idx | .call idx | .setValue idx _ | .setException idx _ => some idx
  | _ => none

/-- The worker has drawn a number past the last task. -/
def Pc.past (numTasks : ℕ) : Pc E → Bool
  | .test idx => numTasks ≤ idx
  | .returned => true
  | _ => false

/-- The workers that have drawn a number past the last task. -/
def beyond (numTasks : ℕ) (pcs : Fin T → Pc E) : ℕ :=
  tally (fun _ pc => (pc.past numTasks).toNat) pcs

/-- No number is held twice. -/
def Apart (pcs : Fin T → Pc E) : Prop :=
  ∀ i j idx, (pcs i).drawn = some idx → (pcs j).drawn = some idx → i = j

section Meaning

variable (cpuWork : ℤ → Except E ℤ) (workSize : ℤ)

/-- The outcomes the promises are to be fulfilled with. -/
def outcomes (numTasks : ℕ) : List (Outcome E) :=
  List.ofFn fun k : Fin numTasks => expected cpuWork workSize k.val

/-- What a position says of the number drawn. -/
def Right (numTasks : ℕ) : Pc E → Prop
  | .call idx => idx < numTasks
  | .setValue idx result => idx < numTasks ∧ expected cpuWork workSize idx = .ok result
  | .setException idx e => idx < numTasks ∧ expected cpuWork workSize idx = .error e
  | .terminated | .undefined => False
  | _ => True

/-- What the main thread knows of the workers it has started and joined, and of the results
it has collected. -/
def Knows (c : Config E numTasks T) : Prop :=
  match c.main with
  | .start k => ∀ i : Fin T, k ≤ i.val → c.pcs i = .unborn
  | .join k => ∀ i : Fin T, i.val < k → c.pcs i = .returned
  | .collect k totalResult => (∀ i, c.pcs i = .returned) ∧
    total totalResult ((outcomes cpuWork workSize numTasks).drop k) =
      total 0 (outcomes cpuWork workSize numTasks)
  | .finished outcome => (∀ i, c.pcs i = .returned) ∧
    outcome = total 0 (outcomes cpuWork workSize numTasks)

/-- A position agrees with the counter and the promises. -/
structure Agrees (s : Shared E numTasks) (pc : Pc E) : Prop where
  right : Right cpuWork workSize numTasks pc
  drawn : ∀ idx, pc.drawn = some idx → 0 ≤ idx ∧ idx < s.taskIndex
  unset : ∀ k : Fin numTasks, pc.drawn = some (k.val : ℤ) → s.promises k = none
  returned : pc = .returned → numTasks ≤ s.taskIndex

/-- The counter, the numbers drawn and the promises agree. A number drawn has one holder
until its promise is fulfilled. -/
structure Sound (s : Shared E numTasks) (pcs : Fin T → Pc E) : Prop where
  lower : 0 ≤ s.taskIndex
  upper : s.taskIndex ≤ numTasks + beyond numTasks pcs
  agrees : ∀ i, Agrees cpuWork workSize s (pcs i)
  apart : Apart pcs
  fulfilled : ∀ k outcome, s.promises k = some outcome →
    k.val < s.taskIndex ∧ outcome = expected cpuWork workSize k.val
  covered : ∀ k : Fin numTasks, k.val < s.taskIndex →
    s.promises k ≠ none ∨ ∃ i, (pcs i).drawn = some (k.val : ℤ)

/-- What a worker's move is: to draw the next number, to go on with the number it holds, to
stop at a number past the last task, or to fulfil the promise of its number. -/
inductive Move (s : Shared E numTasks) : Pc E → Shared E numTasks → Pc E → Prop
  | draw : Move s .fetchAdd { s with taskIndex := s.taskIndex + 1 } (.test s.taskIndex)
  | keep (pc pc' : Pc E) (same : pc'.drawn = pc.drawn) (past : pc'.past numTasks = pc.past numTasks)
      (running : pc ≠ .returned ∧ pc' ≠ .returned ∧ pc ≠ .unborn)
      (right : Right cpuWork workSize numTasks pc') : Move s pc s pc'
  | stop (idx : ℤ) (beyond : numTasks ≤ idx) : Move s (.test idx) s .returned
  | fulfil (k : Fin numTasks) (pc : Pc E) (holds : pc.drawn = some (k.val : ℤ))
      (within : pc.past numTasks = false) :
      Move s pc (s.satisfy k (expected cpuWork workSize k.val)) .fetchAdd

end Meaning

section OneMove

variable {cpuWork : ℤ → Except E ℤ} {workSize : ℤ} {s s' : Shared E numTasks} {pc pc' : Pc E}

/-- An index in range has a promise of its own. -/
theorem slot_eq {idx : ℤ} (lower : 0 ≤ idx) (upper : idx < numTasks) :
    ∃ k : Fin numTasks, slot numTasks idx = some k ∧ (k.val : ℤ) = idx := by
  refine ⟨⟨idx.toNat, by omega⟩, ?_, Int.toNat_of_nonneg lower⟩
  rw [slot, dif_pos ⟨lower, upper⟩]

/-- The one holder of a number finds its promise open. -/
theorem fulfil_move {idx : ℤ} {outcome : Outcome E} {already : Pc E}
    (holds : pc.drawn = some idx) (within : pc.past numTasks = false) (lower : 0 ≤ idx)
    (upper : idx < numTasks) (right : expected cpuWork workSize idx = outcome)
    (unset : ∀ k : Fin numTasks, pc.drawn = some (k.val : ℤ) → s.promises k = none)
    (moved : fulfil s idx outcome already = (s', pc')) : Move cpuWork workSize s pc s' pc' := by
  obtain ⟨k, found, same⟩ := slot_eq lower upper
  subst same
  simp only [fulfil, found, unset k holds, Prod.mk.injEq] at moved
  obtain ⟨rfl, rfl⟩ := moved
  rw [← right]
  exact .fulfil k pc holds within

/-- A statement of a worker is one of the moves, where its index is its own. -/
theorem exec_move (right : Right cpuWork workSize numTasks pc)
    (lower : ∀ idx, pc.drawn = some idx → 0 ≤ idx)
    (unset : ∀ k : Fin numTasks, pc.drawn = some (k.val : ℤ) → s.promises k = none)
    (fits : pc = .fetchAdd → add s.taskIndex 1 = s.taskIndex + 1)
    (moved : exec cpuWork workSize s pc = some (s', pc')) : Move cpuWork workSize s pc s' pc' := by
  cases pc with
  | unborn | returned | terminated | undefined => simp [exec] at moved
  | fetchAdd =>
    obtain ⟨rfl, rfl⟩ := Prod.mk.inj (Option.some.inj moved)
    rw [fits rfl]
    exact .draw
  | test idx =>
    obtain ⟨rfl, rfl⟩ := Prod.mk.inj (Option.some.inj moved)
    split
    next beyond => exact .stop idx beyond
    next within =>
      exact .keep _ _ rfl (by simpa [Pc.past] using within) (by simp) (not_le.mp within)
  | call idx =>
    obtain ⟨rfl, rfl⟩ := Prod.mk.inj (Option.some.inj moved)
    split
    next result worked =>
      exact .keep _ _ rfl rfl (by simp) ⟨right, by simp [expected, worked, Except.mapError]⟩
    next e threw =>
      exact .keep _ _ rfl rfl (by simp) ⟨right, by simp [expected, threw, Except.mapError]⟩
  | setValue idx result =>
    exact fulfil_move rfl rfl (lower idx rfl) right.1 right.2 unset (Option.some.inj moved)
  | setException idx e =>
    exact fulfil_move rfl rfl (lower idx rfl) right.1 right.2 unset (Option.some.inj moved)

end OneMove

section Worker

variable {cpuWork : ℤ → Except E ℤ} {workSize : ℤ} {s : Shared E numTasks} {pcs : Fin T → Pc E}
  {i : Fin T} {pc' : Pc E}

/-- The workers past the end, after one of them has moved. -/
theorem beyond_update {past : Bool} (same : (pcs i).past numTasks = past) (pc' : Pc E) :
    beyond numTasks (Function.update pcs i pc') + past.toNat =
      beyond numTasks pcs + (pc'.past numTasks).toNat := by
  rw [← same]
  exact tally_update _ pcs i pc'

/-- A thread may go to a position whose number, if it has one, nobody else holds. -/
theorem Apart.update (apart : Apart pcs)
    (free : ∀ j ≠ i, ∀ idx, pc'.drawn = some idx → (pcs j).drawn ≠ some idx) :
    Apart (Function.update pcs i pc') := by
  intro a b idx first second
  by_cases mine : a = i
  · by_cases theirs : b = i
    · rw [mine, theirs]
    · rw [mine, Function.update_self] at first
      rw [Function.update_of_ne theirs] at second
      exact absurd second (free b theirs idx first)
  · rw [Function.update_of_ne mine] at first
    by_cases theirs : b = i
    · rw [theirs, Function.update_self] at second
      exact absurd first (free a mine idx second)
    · rw [Function.update_of_ne theirs] at second
      exact apart a b idx first second

/-- What the workers know holds after one of them has moved. -/
theorem agrees_update {s' : Shared E numTasks} (mine : Agrees cpuWork workSize s' pc')
    (others : ∀ j ≠ i, Agrees cpuWork workSize s' (pcs j)) :
    ∀ j, Agrees cpuWork workSize s' (Function.update pcs i pc' j) :=
  (Function.forall_update_iff pcs fun _ pc => Agrees cpuWork workSize s' pc).mpr ⟨mine, others⟩

/-- The number drawn is new, so nobody else holds it and its promise is open. -/
theorem Sound.draw (sound : Sound cpuWork workSize s pcs) (drawing : pcs i = .fetchAdd) :
    Sound cpuWork workSize { s with taskIndex := s.taskIndex + 1 }
      (Function.update pcs i (.test s.taskIndex)) := by
  have more : s.taskIndex < s.taskIndex + 1 := Int.lt_succ s.taskIndex
  refine ⟨sound.lower.trans more.le, ?_, agrees_update ?_ ?_, ?_, ?_, ?_⟩
  · have upper := sound.upper
    have past : (pcs i).past numTasks = false := by rw [drawing]; rfl
    have counted := beyond_update past (.test s.taskIndex)
    by_cases last : numTasks ≤ s.taskIndex
    · simp only [Pc.past, last, decide_true, Bool.toNat_true, Bool.toNat_false] at counted
      dsimp only
      omega
    · dsimp only
      omega
  · refine ⟨trivial, ?_, ?_, by simp⟩
    · rintro idx ⟨⟩
      exact ⟨sound.lower, more⟩
    · rintro k holds
      by_contra set
      obtain ⟨outcome, set⟩ := Option.ne_none_iff_exists'.mp set
      have same : s.taskIndex = k.val := Option.some.inj holds
      exact absurd (sound.fulfilled k outcome set).1 (by omega)
  · rintro j -
    obtain ⟨right, drawn, unset, returned⟩ := sound.agrees j
    refine ⟨right, fun idx holds => ?_, unset, fun gone => (returned gone).trans more.le⟩
    exact ⟨(drawn idx holds).1, (drawn idx holds).2.trans more⟩
  · apply sound.apart.update
    rintro j - idx ⟨⟩ holds
    exact lt_irrefl _ ((sound.agrees j).drawn _ holds).2
  · intro k outcome set
    obtain ⟨earlier, right⟩ := sound.fulfilled k outcome set
    exact ⟨earlier.trans more, right⟩
  · intro k earlier
    rcases (Int.lt_add_one_iff.mp earlier).lt_or_eq with before | last
    · rcases sound.covered k before with set | ⟨j, holds⟩
      · exact Or.inl set
      · have other : j ≠ i := by
          rintro rfl
          simp [drawing, Pc.drawn] at holds
        exact Or.inr ⟨j, by rwa [Function.update_of_ne other]⟩
    · exact Or.inr ⟨i, by rw [Function.update_self, last]; rfl⟩

/-- The holder of a number goes on with it. -/
theorem Sound.keep (sound : Sound cpuWork workSize s pcs) (same : pc'.drawn = (pcs i).drawn)
    (past : pc'.past numTasks = (pcs i).past numTasks) (running : pc' ≠ .returned)
    (right : Right cpuWork workSize numTasks pc') :
    Sound cpuWork workSize s (Function.update pcs i pc') := by
  refine ⟨sound.lower, ?_, agrees_update ?_ fun j _ => sound.agrees j, ?_, sound.fulfilled, ?_⟩
  · have counted := beyond_update past.symm pc'
    rw [Nat.add_right_cancel counted]
    exact sound.upper
  · have mine := sound.agrees i
    exact ⟨right, same ▸ mine.drawn, same ▸ mine.unset, fun gone => absurd gone running⟩
  · apply sound.apart.update
    intro j other idx mine holds
    exact other (sound.apart j i idx holds (same ▸ mine))
  · intro k earlier
    rcases sound.covered k earlier with set | ⟨j, holds⟩
    · exact Or.inl set
    · refine Or.inr ⟨j, ?_⟩
      by_cases mine : j = i
      · rw [mine, Function.update_self, same, ← mine, holds]
      · rw [Function.update_of_ne mine, holds]

/-- A number past the last task is dropped. -/
theorem Sound.stop {idx : ℤ} (sound : Sound cpuWork workSize s pcs) (testing : pcs i = .test idx)
    (past : numTasks ≤ idx) : Sound cpuWork workSize s (Function.update pcs i .returned) := by
  refine ⟨sound.lower, ?_, agrees_update ?_ fun j _ => sound.agrees j,
    sound.apart.update (by simp [Pc.drawn]), sound.fulfilled, ?_⟩
  · have before : (pcs i).past numTasks = true := by simp [testing, Pc.past, past]
    have counted := beyond_update before .returned
    rw [Nat.add_right_cancel counted]
    exact sound.upper
  · refine ⟨trivial, by simp [Pc.drawn], by simp [Pc.drawn], fun _ => ?_⟩
    exact past.trans ((sound.agrees i).drawn idx (by rw [testing]; rfl)).2.le
  · intro k earlier
    rcases sound.covered k earlier with set | ⟨j, holds⟩
    · exact Or.inl set
    · have other : j ≠ i := by
        rintro rfl
        have same : idx = k.val := by simpa [testing, Pc.drawn] using holds
        exact absurd k.isLt (by omega)
      exact Or.inr ⟨j, by rwa [Function.update_of_ne other]⟩

/-- The one holder of a number fulfils its promise and is free for the next. -/
theorem Sound.satisfy {k : Fin numTasks} (sound : Sound cpuWork workSize s pcs)
    (mine : (pcs i).drawn = some (k.val : ℤ)) (within : (pcs i).past numTasks = false) :
    Sound cpuWork workSize (s.satisfy k (expected cpuWork workSize k.val))
      (Function.update pcs i .fetchAdd) := by
  refine ⟨sound.lower, ?_, agrees_update ?_ ?_, sound.apart.update (by simp [Pc.drawn]), ?_, ?_⟩
  · have counted := beyond_update within .fetchAdd
    rw [Nat.add_right_cancel counted]
    exact sound.upper
  · exact ⟨trivial, by simp [Pc.drawn], by simp [Pc.drawn], by simp⟩
  · intro j other
    obtain ⟨right, drawn, unset, returned⟩ := sound.agrees j
    refine ⟨right, drawn, fun l holds => ?_, returned⟩
    have apart : l ≠ k := by
      rintro rfl
      exact other (sound.apart j i _ holds mine)
    exact (Function.update_of_ne apart _ _).trans (unset l holds)
  · intro l outcome set
    by_cases same : l = k
    · subst same
      have right : expected cpuWork workSize l.val = outcome := by
        simpa [Shared.satisfy] using set
      exact ⟨((sound.agrees i).drawn _ mine).2, right.symm⟩
    · exact sound.fulfilled l outcome ((Function.update_of_ne same _ _).symm.trans set)
  · intro l earlier
    by_cases same : l = k
    · exact Or.inl (by simp [Shared.satisfy, same])
    · rcases sound.covered l earlier with set | ⟨j, holds⟩
      · exact Or.inl (by simpa [Shared.satisfy, Function.update_of_ne same] using set)
      · have other : j ≠ i := by
          rintro rfl
          have equal : (l.val : ℤ) = k.val := Option.some.inj (holds.symm.trans mine)
          exact same (Fin.ext (by omega))
        exact Or.inr ⟨j, by rwa [Function.update_of_ne other]⟩

end Worker

section Run

variable {cpuWork : ℤ → Except E ℤ} {workSize : ℤ} {c c' : Config E numTasks T} {i : Fin T}
  {s s' : Shared E numTasks} {pc' : Pc E}

/-- At the start no index has been drawn. -/
theorem sound_init : Sound cpuWork workSize (⟨0, fun _ => none⟩ : Shared E numTasks)
    (fun _ : Fin T => .unborn) where
  lower := le_rfl
  upper := by simp [beyond, tally, Pc.past]
  agrees _ := ⟨trivial, by simp [Pc.drawn], by simp, by simp⟩
  apart := by simp [Apart, Pc.drawn]
  fulfilled := by simp
  covered k earlier := by
    dsimp only at earlier
    omega

/-- Fewer numbers are drawn than there are tasks and workers, so the counter does not wrap. -/
theorem Sound.fits (sound : Sound cpuWork workSize c.shared c.pcs)
    (inRange : numTasks + T ≤ 2 ^ 31 - 1) (drawing : c.pcs i = .fetchAdd) :
    add c.shared.taskIndex 1 = c.shared.taskIndex + 1 := by
  have lower := sound.lower
  have upper := sound.upper
  have past : (c.pcs i).past numTasks = false := by rw [drawing]; rfl
  have counted := beyond_update past (.returned : Pc E)
  have most : beyond numTasks (Function.update c.pcs i .returned) ≤ T := by
    simpa [beyond] using tally_toNat_le_card (Pc.past numTasks) (Function.update c.pcs i .returned)
  simp only [Pc.past, Bool.toNat_true, Bool.toNat_false] at counted
  rw [add, Int.bmod_eq_of_le] <;> omega

/-- Every statement of a worker keeps the indices apart. -/
theorem sound_worker (inRange : numTasks + T ≤ 2 ^ 31 - 1)
    (sound : Sound cpuWork workSize c.shared c.pcs)
    (moved : exec cpuWork workSize c.shared (c.pcs i) = some (s', pc')) :
    Sound cpuWork workSize s' (Function.update c.pcs i pc') := by
  obtain ⟨right, drawn, unset, _⟩ := sound.agrees i
  have move := exec_move right (fun idx holds => (drawn idx holds).1) unset
    (fun drawing => sound.fits inRange drawing) moved
  generalize position : c.pcs i = pc at move
  cases move with
  | draw => exact sound.draw position
  | keep _ _ same past running right =>
    subst position
    exact sound.keep same past running.2.1 right
  | stop idx beyond => exact sound.stop position beyond
  | fulfil k _ holds within =>
    subst position
    exact sound.satisfy holds within

/-- A worker that moves has been started and has not returned. -/
theorem running (moved : exec cpuWork workSize c.shared (c.pcs i) = some (s', pc')) :
    c.pcs i ≠ .unborn ∧ c.pcs i ≠ .returned := by
  constructor <;> intro same <;> simp [same, exec] at moved

/-- A statement of a worker changes nothing of what the main thread knows. -/
theorem knows_worker (knows : Knows cpuWork workSize c)
    (moved : exec cpuWork workSize c.shared (c.pcs i) = some (s', pc')) :
    Knows cpuWork workSize ⟨s', c.main, Function.update c.pcs i pc'⟩ := by
  obtain ⟨born, running⟩ := running moved
  unfold Knows at knows ⊢
  dsimp only
  split at knows
  · exact known_update knows born pc'
  · exact known_update knows running pc'
  · exact absurd (knows.1 i) running
  · exact absurd (knows.1 i) running

/-- Once every worker has returned, every number has been drawn and nobody holds one. -/
theorem Sound.all_fulfilled (sound : Sound cpuWork workSize c.shared c.pcs) (workers : 0 < T)
    (all : ∀ i, c.pcs i = .returned) (k : Fin numTasks) :
    c.shared.promises k = some (expected cpuWork workSize k.val) := by
  have past := (sound.agrees ⟨0, workers⟩).returned (all _)
  have inRange : (k.val : ℤ) < numTasks := by exact_mod_cast k.isLt
  rcases sound.covered k (inRange.trans_le past) with set | ⟨i, holds⟩
  · obtain ⟨outcome, set⟩ := Option.ne_none_iff_exists'.mp set
    rw [set, (sound.fulfilled k outcome set).2]
  · simp [all i, Pc.drawn] at holds

/-- Every statement of the main thread keeps the indices apart. -/
theorem manualPromiseFuture_kept (workers : 0 < T) (sound : Sound cpuWork workSize c.shared c.pcs)
    (knows : Knows cpuWork workSize c) (moved : manualPromiseFuture c = some c') :
    Sound cpuWork workSize c'.shared c'.pcs ∧ Knows cpuWork workSize c' := by
  cases position : c.main with
  | start k =>
    simp only [Knows, position] at knows
    simp only [manualPromiseFuture, position, Option.some.injEq] at moved
    subst moved
    split
    next inRange =>
      have unborn := knows ⟨k, inRange⟩ le_rfl
      refine ⟨sound.keep (by rw [unborn]; rfl) (by rw [unborn]; rfl) (by simp) trivial, ?_⟩
      exact unborn_succ knows inRange .fetchAdd
    next => exact ⟨sound, fun j behind => absurd behind (Nat.not_lt_zero _)⟩
  | join k =>
    simp only [Knows, position] at knows
    simp only [manualPromiseFuture, position] at moved
    split at moved
    next inRange =>
      split at moved
      next returned =>
        obtain rfl := Option.some.inj moved
        exact ⟨sound, joined_succ knows inRange returned⟩
      next => simp at moved
    next outOfRange =>
      obtain rfl := Option.some.inj moved
      exact ⟨sound, joined_all knows outOfRange, by simp⟩
  | collect k sum =>
    simp only [Knows, position] at knows
    simp only [manualPromiseFuture, position] at moved
    obtain ⟨all, collected⟩ := knows
    split at moved
    next inRange =>
      have length : k < (outcomes cpuWork workSize numTasks).length := by
        simpa [outcomes] using inRange
      rw [List.drop_eq_getElem_cons length] at collected
      have here : (outcomes cpuWork workSize numTasks)[k] = expected cpuWork workSize k := by
        simp [outcomes]
      rw [sound.all_fulfilled workers all, Option.map_some, ← here] at moved
      obtain rfl := Option.some.inj moved
      split
      next result worked =>
        rw [worked] at collected
        exact ⟨sound, all, collected⟩
      next e threw =>
        rw [threw] at collected
        exact ⟨sound, all, collected⟩
    next outOfRange =>
      obtain rfl := Option.some.inj moved
      rw [List.drop_of_length_le (by simpa [outcomes] using outOfRange)] at collected
      exact ⟨sound, all, collected⟩
  | finished => simp [manualPromiseFuture, position] at moved

/-- The indices are apart in every reachable state. -/
theorem reachable_sound (workers : 0 < T) (inRange : numTasks + T ≤ 2 ^ 31 - 1)
    (reached : Reachable cpuWork workSize c) :
    Sound cpuWork workSize c.shared c.pcs ∧ Knows cpuWork workSize c := by
  have kept : Preserved (step cpuWork workSize) fun c : Config E numTasks T =>
      Sound cpuWork workSize c.shared c.pcs ∧ Knows cpuWork workSize c := by
    rintro c label c' ⟨sound, knows⟩ taken
    cases label with
    | main => exact manualPromiseFuture_kept workers sound knows taken
    | worker i =>
      obtain ⟨⟨s', pc'⟩, moved, rfl⟩ := Option.map_eq_some_iff.mp taken
      exact ⟨sound_worker inRange sound moved, knows_worker knows moved⟩
  have first : Knows cpuWork workSize (Config.init : Config E numTasks T) := fun _ _ => rfl
  exact kept.reaches ⟨sound_init, first⟩ reached

/-- A worker is about to fulfil the promise of a number. -/
def Pc.Fulfils (pc : Pc E) (idx : ℤ) : Prop :=
  (∃ result, pc = .setValue idx result) ∨ ∃ e, pc = .setException idx e

/-- Every promise is fulfilled exactly once. For any number of tasks, at least one worker and
every interleaving: a promise about to be fulfilled exists and is open, so no exception ends
the program and no index is out of range; once all workers have returned, the promise of each
task has been fulfilled with what its call of `cpu_work` returns or throws; the main thread
never waits for a future; and the outcome depends on the tasks alone. -/
theorem promises_fulfilled_once (cpuWork : ℤ → Except E ℤ) (workSize : ℤ) (numTasks T : ℕ)
    (workers : 0 < T) (inRange : numTasks + T ≤ 2 ^ 31 - 1) (c : Config E numTasks T)
    (reached : Reachable cpuWork workSize c) :
    (∀ i idx, (c.pcs i).Fulfils idx →
      ∃ k : Fin numTasks, (k.val : ℤ) = idx ∧ c.shared.promises k = none) ∧
    (∀ i, c.pcs i ≠ .terminated ∧ c.pcs i ≠ .undefined) ∧
    ((∀ i, c.pcs i = .returned) →
      ∀ k, c.shared.promises k = some (expected cpuWork workSize k.val)) ∧
    (∀ k totalResult, c.main = .collect k totalResult →
      ∃ c', step cpuWork workSize c .main = some c') ∧
    (∀ outcome, c.main = .finished outcome →
      outcome = total 0 (outcomes cpuWork workSize numTasks)) := by
  obtain ⟨sound, knows⟩ := reachable_sound workers inRange reached
  refine ⟨fun i idx fulfils => ?_, fun i => ?_, sound.all_fulfilled workers, ?_, ?_⟩
  · obtain ⟨right, drawn, unset, _⟩ := sound.agrees i
    have holds : (c.pcs i).drawn = some idx ∧ idx < numTasks := by
      rcases fulfils with ⟨result, same⟩ | ⟨e, same⟩ <;> rw [same] at right ⊢ <;>
        exact ⟨rfl, right.1⟩
    obtain ⟨k, _, same⟩ := slot_eq (drawn idx holds.1).1 holds.2
    exact ⟨k, same, unset k (same ▸ holds.1)⟩
  · have right := (sound.agrees i).right
    constructor <;> intro same <;> rw [same] at right <;> exact right
  · intro k totalResult collecting
    simp only [Knows, collecting] at knows
    by_cases inRange : k < numTasks
    · exact ⟨_, by simp [step, manualPromiseFuture, collecting, inRange,
        sound.all_fulfilled workers knows.1]; rfl⟩
    · exact ⟨_, by simp [step, manualPromiseFuture, collecting, inRange]; rfl⟩
  · intro outcome finished
    simp only [Knows, finished] at knows
    exact knows.2

/-- The main thread has come to its end. -/
def Main.done : Main E → Bool
  | .finished _ => true
  | _ => false

/-- Two workers share two tasks, and the second task is done before the first. -/
theorem promises_fulfilled_once_two : ∃ c : Config Empty 2 2,
    Reachable (fun n => .ok (∑ i ∈ Finset.range n.toNat, (i * i : ℤ))) 2 c ∧
    c.main = .finished (.ok 6) := by
  let squares : ℤ → Except Empty ℤ := fun n => .ok (∑ i ∈ Finset.range n.toNat, (i * i : ℤ))
  let drawing : List (Label 2) := [.main, .main, .main, .worker 0, .worker 1, .worker 0]
  let working : List (Label 2) := [.worker 1, .worker 1, .worker 1, .worker 0, .worker 0]
  let leaving : List (Label 2) := [.worker 1, .worker 1, .worker 0, .worker 0]
  let collecting : List (Label 2) := [.main, .main, .main, .main, .main, .main]
  have played : (run (step squares 2) (Config.init : Config Empty 2 2)
      (drawing ++ working ++ leaving ++ collecting)).map (·.main.done) = some true := by
    decide +kernel
  obtain ⟨c, ran, done⟩ := Option.map_eq_some_iff.mp played
  obtain ⟨_, _, _, _, outcome⟩ :=
    promises_fulfilled_once squares 2 2 2 (by decide) (by decide) c ⟨_, ran⟩
  refine ⟨c, ⟨_, ran⟩, ?_⟩
  cases position : c.main with
  | finished result =>
    rw [outcome result position]
    rfl
  | _ => simp [position, Main.done] at done

end Run

end ConcurrencyBench.PromiseFuture
