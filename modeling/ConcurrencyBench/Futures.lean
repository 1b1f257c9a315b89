import ConcurrencyBench.Runs
import ConcurrencyBench.Threads
import Mathlib.Data.List.Forall2
import Mathlib.Data.List.Nodup

/-!
# Futures that are got once

A program launches tasks one after the other and keeps the future of each. The future of a
task is taken into a later task, which begins by getting it, or stays with the launcher,
which gets it when all tasks have been launched, in an order fixed before, and may wait for
it with a time limit first. A task runs in a thread of its own from its launch on. A
deferred task runs in the thread that gets its future, and not before.

Getting a future waits for its task, returns what the task has returned or throws what it
has thrown, and leaves the future without a state. Getting a future without a state has no
meaning. What the launcher gets is folded in the order in which it is got. A task may draw a
value, so that its outcome is not fixed, and which tasks are done when is left to the
schedule. That every task needs earlier ones only is all that keeps the program from waiting
forever, and that each future has one taker is all that keeps it from an empty one.
-/

namespace Interleaving.Futures

universe u
variable {n : ℕ} {D V E A : Type u}

/-- When a task runs. -/
inductive Launch
  | async
  | deferred

/-- The tasks of a program, who gets the future of each, and what each does with what it
draws and with what it got. -/
structure Plan (n : ℕ) (D V E : Type u) where
  launch : Launch
  /-- The launcher waits with a time limit before it gets a future. -/
  timed : Bool
  needs : Fin n → Option (Fin n)
  work : Fin n → D → Option V → Except E V
  collect : List (Fin n)
  earlier : ∀ i j, needs i = some j → j < i
  apart : ∀ i k j, needs i = some j → needs k = some j → i = k
  once : collect.Nodup
  kept : ∀ i j, needs i = some j → j ∉ collect
  used : ∀ j, j ∈ collect ∨ ∃ i, needs i = some j
  direct : launch = .deferred → ∀ i, needs i = none

/-- The position of a task. -/
inductive Task (n : ℕ) (V E : Type u)
  | unlaunched
  | deferred
  | getting (j : Fin n)
  | working (previous : Option V)
  | done (outcome : Except E V)
  | undefined

/-- The position of the launcher, with what it has folded. -/
inductive Launcher (n : ℕ) (A : Type u)
  | launch (k : ℕ)
  | collect (rest : List (Fin n)) (folded : A)
  | get (i : Fin n) (ready : Bool) (rest : List (Fin n)) (folded : A)
  | finished (folded : A)
  | undefined

/-- The tasks, which futures have a state, and the launcher. -/
structure Config (n : ℕ) (V E A : Type u) where
  tasks : Fin n → Task n V E
  valid : Fin n → Bool
  main : Launcher n A

/-- Nothing has been launched. -/
def Config.init : Config n V E A := ⟨fun _ => .unlaunched, fun _ => false, .launch 0⟩

/-- A schedule lets the launcher go on, lets its time limit pass, or lets a task go on, with
the value it draws. -/
inductive Label (n : ℕ) (D : Type u)
  | main
  | timeout
  | task (i : Fin n) (draw : D)

/-- The task has set its future. -/
def Task.isDone : Task n V E → Bool
  | .done _ => true
  | _ => false

/-- The launcher has collected everything. -/
def Launcher.isFinished : Launcher n A → Bool
  | .finished _ => true
  | _ => false

namespace Plan

variable (P : Plan n D V E)

/-- What a task is when it has been launched. -/
def start (i : Fin n) : Task n V E :=
  match P.launch with
  | .deferred => .deferred
  | .async =>
    match P.needs i with
    | none => .working none
    | some j => .getting j

section Code

variable (fold : A → Bool → Except E V → A) (first : A)

/-- The launcher gets the future of a task. A deferred task starts to run. -/
def get (c : Config n V E A) (i : Fin n) (ready : Bool) (rest : List (Fin n)) (folded : A) :
    Option (Config n V E A) :=
  if c.valid i then
    match c.tasks i with
    | .deferred => some { c with tasks := Function.update c.tasks i (.working none) }
    | .done outcome => some
        { c with
          valid := Function.update c.valid i false,
          main := .collect rest (fold folded ready outcome) }
    | _ => none
  else some { c with main := .undefined }

/-- One statement of the launcher. -/
def launcher (c : Config n V E A) : Option (Config n V E A) :=
  match c.main with
  | .launch k => some <|
    if inRange : k < n then
      { tasks := Function.update c.tasks ⟨k, inRange⟩ (P.start ⟨k, inRange⟩)
        valid := Function.update c.valid ⟨k, inRange⟩ true
        main := .launch (k + 1) }
    else { c with main := .collect P.collect first }
  | .collect [] folded => some { c with main := .finished folded }
  | .collect (i :: rest) folded =>
    if P.timed then
      if (c.tasks i).isDone then some { c with main := .get i true rest folded } else none
    else some { c with main := .get i false rest folded }
  | .get i ready rest folded => get fold c i ready rest folded
  | .finished _ | .undefined => none

/-- The time limit of the launcher passes while the task is not done. -/
def timeout (c : Config n V E A) : Option (Config n V E A) :=
  match c.main with
  | .collect (i :: rest) folded =>
    if P.timed ∧ (c.tasks i).isDone = false then some { c with main := .get i false rest folded }
    else none
  | _ => none

/-- One statement of a task. -/
def task (c : Config n V E A) (i : Fin n) (draw : D) : Option (Config n V E A) :=
  match c.tasks i with
  | .getting j =>
    if c.valid j then
      match c.tasks j with
      | .done (.ok v) => some
          { c with
            tasks := Function.update c.tasks i (.working (some v)),
            valid := Function.update c.valid j false }
      | .done (.error e) => some
          { c with
            tasks := Function.update c.tasks i (.done (.error e)),
            valid := Function.update c.valid j false }
      | _ => none
    else some { c with tasks := Function.update c.tasks i .undefined }
  | .working previous =>
    some { c with tasks := Function.update c.tasks i (.done (P.work i draw previous)) }
  | _ => none

/-- One step of the program. -/
def step (c : Config n V E A) : Label n D → Option (Config n V E A)
  | .main => P.launcher fold first c
  | .timeout => P.timeout c
  | .task i draw => P.task c i draw

/-- Every state some interleaving leads to. -/
def Reachable (c : Config n V E A) : Prop := Reaches (P.step fold first) Config.init c

end Code

/-- What a task may yield: it works on what it draws and on what the task it needs has
yielded, and an exception goes through it. -/
inductive Yields : Fin n → Except E V → Prop
  | direct (i : Fin n) (draw : D) (alone : P.needs i = none) : Yields i (P.work i draw none)
  | after (i j : Fin n) (draw : D) (v : V) (needs : P.needs i = some j)
      (before : Yields j (.ok v)) : Yields i (P.work i draw (some v))
  | through (i j : Fin n) (e : E) (needs : P.needs i = some j)
      (before : Yields j (.error e)) : Yields i (.error e)

/-- What a task may work on. -/
def Gets (i : Fin n) : Option V → Prop
  | none => P.needs i = none
  | some v => ∃ j, P.needs i = some j ∧ P.Yields j (.ok v)

end Plan

/-- The tasks not launched yet. -/
def Launcher.ahead : Launcher n A → Fin n → Prop
  | .launch k, i => k ≤ i.val
  | _, _ => False

/-- The task has not got the future it needs. -/
def Task.wants : Task n V E → Bool
  | .unlaunched | .getting _ => true
  | _ => false

namespace Plan

variable (P : Plan n D V E)

/-- The futures the launcher has still to get. -/
def left : Launcher n A → List (Fin n)
  | .launch _ => P.collect
  | .collect rest _ => rest
  | .get i _ rest _ => i :: rest
  | .finished _ | .undefined => []

/-- Somebody has still to get the future of a task. -/
def Awaited (c : Config n V E A) (j : Fin n) : Prop :=
  j ∈ P.left c.main ∨ ∃ i, P.needs i = some j ∧ (c.tasks i).wants = true

/-- What the position of a task says. -/
def Fits (i : Fin n) : Task n V E → Prop
  | .unlaunched => True
  | .deferred => P.launch = .deferred
  | .getting j => P.needs i = some j
  | .working previous => P.Gets i previous
  | .done outcome => P.Yields i outcome
  | .undefined => False

section Folds

variable (fold : A → Bool → Except E V → A) (first : A)

/-- What has been folded is what the futures before the rest have yielded. -/
def Collected (rest : List (Fin n)) (folded : A) : Prop :=
  ∃ (taken : List (Fin n)) (results : List (Bool × Except E V)), P.collect = taken ++ rest ∧
    List.Forall₂ (fun i result => P.Yields i result.2) taken results ∧
    folded = results.foldl (fun a result => fold a result.1 result.2) first

/-- What the position of the launcher says. -/
def Folded : Launcher n A → Prop
  | .launch _ => True
  | .collect rest folded => P.Collected fold first rest folded
  | .get i _ rest folded => P.Collected fold first (i :: rest) folded
  | .finished folded => P.Collected fold first [] folded
  | .undefined => False

/-- A future has a state from the launch of its task on until it is got, and it is got once.
A future that has been got belongs to a task that is done. A deferred task runs only while
its future is being got. -/
structure Sound (c : Config n V E A) : Prop where
  fits : ∀ i, P.Fits i (c.tasks i)
  launched : ∀ i, c.tasks i = .unlaunched ↔ c.main.ahead i
  valid : ∀ j, c.valid j = true ↔ ¬ c.main.ahead j ∧ P.Awaited c j
  emptied : ∀ j, c.valid j = false → c.main.ahead j ∨ (c.tasks j).isDone = true
  lazy : P.launch = .deferred → ∀ i previous, c.tasks i = .working previous →
    ∃ ready rest folded, c.main = .get i ready rest folded
  folded : P.Folded fold first c.main

end Folds

end Plan

section OneStep

variable {P : Plan n D V E} {fold : A → Bool → Except E V → A} {first : A}
  {c c' : Config n V E A} {i j : Fin n} {draw : D}

/-- Tasks are launched in their order. -/
theorem ahead_of_lt {main : Launcher n A} (before : j < i) (launched : ¬ main.ahead i) :
    ¬ main.ahead j := by
  cases main with
  | launch k => exact fun ahead => launched (le_trans ahead before.le)
  | _ => exact id

/-- At the start there is nothing to know. -/
theorem sound_init : P.Sound fold first (Config.init : Config n V E A) where
  fits _ := trivial
  launched i := by simp [Config.init, Launcher.ahead]
  valid j := by simp [Config.init, Launcher.ahead]
  emptied j _ := Or.inl (Nat.zero_le _)
  lazy _ i previous working := by simp [Config.init] at working
  folded := trivial

/-- What is left to get is the end of what there is to get. -/
theorem left_suffix {main : Launcher n A} (folded : P.Folded fold first main) :
    P.left main <:+ P.collect := by
  cases main with
  | launch => exact List.suffix_refl _
  | collect | get | finished =>
    obtain ⟨taken, _, whole, _⟩ := folded
    exact ⟨taken, whole.symm⟩
  | undefined => exact List.nil_suffix

/-- A task begins as its launch policy has it. -/
theorem fits_start (i : Fin n) : P.Fits i (P.start i) := by
  unfold Plan.start
  split
  next deferred => exact deferred
  next =>
    split
    next alone => exact alone
    next j needs => exact needs

/-- A task that needs another has not got its future when it has been launched. -/
theorem start_wants (needs : P.needs i = some j) : (P.start i).wants = true := by
  unfold Plan.start
  split
  next deferred => simp [P.direct deferred i] at needs
  next => simp [needs, Task.wants]

/-- A task that begins has been launched. -/
theorem start_launched (i : Fin n) : P.start i ≠ .unlaunched := by
  unfold Plan.start
  split <;> [simp; split <;> simp]

/-- The launcher moves between two positions with the same futures left. -/
theorem Plan.Sound.main {main : Launcher n A} (sound : P.Sound fold first c)
    (ahead : ∀ i, main.ahead i ↔ c.main.ahead i) (left : P.left main = P.left c.main)
    (lazy : P.launch = .deferred → ∀ i previous, c.tasks i = .working previous →
      ∃ ready rest folded, main = .get i ready rest folded)
    (folded : P.Folded fold first main) : P.Sound fold first { c with main } := by
  refine ⟨sound.fits, fun i => (sound.launched i).trans (ahead i).symm, fun j => ?_, ?_, lazy,
    folded⟩
  · simp only [sound.valid j, ahead, Plan.Awaited, left]
  · intro j empty
    rw [ahead]
    exact sound.emptied j empty

/-- A launched task that is not done has a future with a state. -/
theorem Plan.Sound.valid_of_running (sound : P.Sound fold first c) (launched : ¬ c.main.ahead j)
    (running : (c.tasks j).isDone = false) : c.valid j = true := by
  by_contra empty
  have done := (sound.emptied j (Bool.eq_false_iff.mpr empty)).resolve_left launched
  simp [running] at done

/-- The next task is launched. -/
theorem Plan.Sound.launch {k : ℕ} (sound : P.Sound fold first c) (launching : c.main = .launch k)
    (inRange : k < n) :
    P.Sound fold first
      { tasks := Function.update c.tasks ⟨k, inRange⟩ (P.start ⟨k, inRange⟩)
        valid := Function.update c.valid ⟨k, inRange⟩ true
        main := .launch (k + 1) } := by
  have ahead : ∀ i : Fin n, (Launcher.launch (k + 1) : Launcher n A).ahead i ↔
      c.main.ahead i ∧ i ≠ ⟨k, inRange⟩ := by
    intro i
    rw [launching, ne_eq, Fin.ext_iff]
    simp only [Launcher.ahead]
    omega
  have awaited : ∀ j, (∃ i, P.needs i = some j ∧
      (Function.update c.tasks ⟨k, inRange⟩ (P.start ⟨k, inRange⟩) i).wants = true) ↔
      ∃ i, P.needs i = some j ∧ (c.tasks i).wants = true := by
    intro j
    refine exists_congr fun i => and_congr_right fun needs => ?_
    by_cases same : i = ⟨k, inRange⟩
    · have unlaunched := (sound.launched i).mpr (by rw [launching, same]; exact le_rfl)
      rw [same, Function.update_self, ← same, start_wants needs, unlaunched]
      rfl
    · rw [Function.update_of_ne same]
  refine ⟨?_, ?_, ?_, ?_, ?_, trivial⟩
  · exact (Function.forall_update_iff c.tasks P.Fits).mpr ⟨fits_start _, fun i _ => sound.fits i⟩
  · intro i
    dsimp only
    rw [ahead]
    by_cases same : i = ⟨k, inRange⟩
    · simp [same, start_launched]
    · rw [Function.update_of_ne same, sound.launched i]
      simp [same]
  · intro j
    dsimp only
    rw [ahead, Plan.Awaited, awaited]
    by_cases same : j = ⟨k, inRange⟩
    · -- its taker is the launcher or a later task
      have taken : j ∈ P.collect ∨ ∃ i, P.needs i = some j ∧ (c.tasks i).wants = true := by
        refine (P.used j).imp_right ?_
        rintro ⟨i, needs⟩
        have later : k < i.val := by simpa [same, Fin.lt_def] using P.earlier i j needs
        have unlaunched := (sound.launched i).mpr (by rw [launching]; exact later.le)
        exact ⟨i, needs, by rw [unlaunched]; rfl⟩
      rw [same, Function.update_self, ← same]
      exact ⟨fun _ => ⟨fun before => before.2 rfl, taken⟩, fun _ => rfl⟩
    · rw [Function.update_of_ne same, sound.valid j, Plan.Awaited, launching]
      simp [same, Plan.left]
  · intro j empty
    dsimp only at empty ⊢
    by_cases same : j = ⟨k, inRange⟩
    · simp [same] at empty
    · rw [Function.update_of_ne same] at empty ⊢
      rw [ahead]
      exact (sound.emptied j empty).imp_left fun behind => ⟨behind, same⟩
  · intro deferred i previous working
    dsimp only at working
    by_cases same : i = ⟨k, inRange⟩
    · simp [same, Plan.start, deferred] at working
    · rw [Function.update_of_ne same] at working
      obtain ⟨_, _, _, getting⟩ := sound.lazy deferred i previous working
      simp [launching] at getting

/-- A task that needs no other, or has got what it needs, goes on. -/
theorem Plan.Sound.progress {t : Task n V E} (sound : P.Sound fold first c)
    (before : (c.tasks i).wants = false) (running : (c.tasks i).isDone = false)
    (after : t.wants = false) (fits : P.Fits i t)
    (lazy : P.launch = .deferred → ∀ previous, t = .working previous →
      ∃ ready rest folded, c.main = .get i ready rest folded) :
    P.Sound fold first { c with tasks := Function.update c.tasks i t } := by
  have launched : ¬ c.main.ahead i := by
    rw [← sound.launched i]
    intro unlaunched
    simp [unlaunched, Task.wants] at before
  have wants : ∀ k, (Function.update c.tasks i t k).wants = (c.tasks k).wants := by
    intro k
    by_cases same : k = i
    · rw [same, Function.update_self, before, after]
    · rw [Function.update_of_ne same]
  refine ⟨?_, ?_, ?_, ?_, ?_, sound.folded⟩
  · exact (Function.forall_update_iff c.tasks P.Fits).mpr ⟨fits, fun k _ => sound.fits k⟩
  · intro k
    dsimp only
    by_cases same : k = i
    · rw [same, Function.update_self]
      refine ⟨fun unlaunched => ?_, fun ahead => absurd ahead launched⟩
      simp [unlaunched, Task.wants] at after
    · rw [Function.update_of_ne same]
      exact sound.launched k
  · intro j
    simp only [sound.valid j, Plan.Awaited, wants]
  · intro j empty
    dsimp only
    by_cases same : j = i
    · subst same
      have valid := sound.valid_of_running launched running
      dsimp only at empty
      rw [valid] at empty
      cases empty
    · rw [Function.update_of_ne same]
      exact sound.emptied j empty
  · intro deferred k previous working
    dsimp only at working ⊢
    by_cases same : k = i
    · rw [same, Function.update_self] at working
      rw [same]
      exact lazy deferred previous working
    · rw [Function.update_of_ne same] at working
      exact sound.lazy deferred k previous working

/-- A task gets the future it needs, and nobody else is to get it. -/
theorem Plan.Sound.receive {t : Task n V E} (sound : P.Sound fold first c)
    (getting : c.tasks i = .getting j) (done : (c.tasks j).isDone = true)
    (after : t.wants = false) (fits : P.Fits i t) :
    P.Sound fold first
      { c with
        tasks := Function.update c.tasks i t,
        valid := Function.update c.valid j false } := by
  have needs : P.needs i = some j := by
    have mine := sound.fits i
    rwa [getting] at mine
  have async : P.launch ≠ .deferred := fun deferred => by simp [P.direct deferred i] at needs
  have other : j ≠ i := (P.earlier i j needs).ne
  have launched : ∀ k, Function.update c.tasks i t k = .unlaunched ↔ c.tasks k = .unlaunched := by
    intro k
    by_cases same : k = i
    · rw [same, Function.update_self, getting]
      refine ⟨fun unlaunched => ?_, fun unlaunched => ?_⟩
      · simp [unlaunched, Task.wants] at after
      · cases unlaunched
    · rw [Function.update_of_ne same]
  refine ⟨?_, ?_, ?_, ?_, fun deferred => absurd deferred async, sound.folded⟩
  · exact (Function.forall_update_iff c.tasks P.Fits).mpr ⟨fits, fun k _ => sound.fits k⟩
  · intro k
    exact (launched k).trans (sound.launched k)
  · intro k
    dsimp only
    by_cases same : k = j
    · rw [same, Function.update_self]
      refine ⟨nofun, ?_⟩
      rintro ⟨_, left | ⟨taker, takes, wants⟩⟩
      · exact absurd ((left_suffix sound.folded).subset left) (P.kept i j needs)
      · rw [P.apart taker i j takes needs] at wants
        dsimp only at wants
        rw [Function.update_self, after] at wants
        cases wants
    · rw [Function.update_of_ne same, sound.valid k]
      refine and_congr_right fun _ => or_congr_right (exists_congr fun taker => ?_)
      refine and_congr_right fun takes => ?_
      have apart : taker ≠ i := by
        rintro rfl
        exact same (Option.some.inj (takes.symm.trans needs))
      dsimp only
      rw [Function.update_of_ne apart]
  · intro k empty
    dsimp only at empty ⊢
    by_cases same : k = j
    · rw [same, Function.update_of_ne other]
      exact Or.inr done
    · rw [Function.update_of_ne same] at empty
      refine (sound.emptied k empty).imp_right fun finished => ?_
      have apart : k ≠ i := by
        rintro rfl
        simp [getting, Task.isDone] at finished
      rwa [Function.update_of_ne apart]

/-- The launcher gets a future, and nobody else is to get it. -/
theorem Plan.Sound.take {ready : Bool} {rest : List (Fin n)} {folded : A} {outcome : Except E V}
    (sound : P.Sound fold first c) (taking : c.main = .get i ready rest folded)
    (done : c.tasks i = .done outcome) :
    P.Sound fold first
      { c with
        valid := Function.update c.valid i false,
        main := .collect rest (fold folded ready outcome) } := by
  have collected := sound.folded
  rw [taking] at collected
  have left : P.left c.main = i :: rest := by rw [taking]; rfl
  have distinct : (i :: rest).Nodup := left ▸ P.once.sublist (left_suffix sound.folded).sublist
  refine ⟨sound.fits, fun k => (sound.launched k).trans (by rw [taking]; rfl), ?_, ?_, ?_, ?_⟩
  · intro k
    dsimp only
    by_cases same : k = i
    · rw [same, Function.update_self]
      refine ⟨nofun, ?_⟩
      rintro ⟨_, left | ⟨taker, takes, _⟩⟩
      · exact absurd left (List.nodup_cons.mp distinct).1
      · have mine : i ∈ P.left c.main := by simp [left]
        exact absurd ((left_suffix sound.folded).subset mine) (P.kept taker i takes)
    · rw [Function.update_of_ne same, sound.valid k]
      simp [Plan.Awaited, taking, Plan.left, Launcher.ahead, same]
  · intro k empty
    dsimp only at empty ⊢
    by_cases same : k = i
    · exact Or.inr (by rw [same, done]; rfl)
    · rw [Function.update_of_ne same] at empty
      exact (sound.emptied k empty).imp_left fun ahead => by rwa [taking] at ahead
  · intro deferred k previous working
    obtain ⟨_, _, _, getting⟩ := sound.lazy deferred k previous working
    obtain ⟨rfl, _⟩ := Launcher.get.inj (getting.symm.trans taking)
    cases done.symm.trans working
  · obtain ⟨taken, results, whole, yields, rfl⟩ := collected
    refine ⟨taken ++ [i], results ++ [(ready, outcome)], by simp [whole], ?_, by simp⟩
    refine List.rel_append yields (List.forall₂_cons.mpr ⟨?_, .nil⟩)
    have mine := sound.fits i
    rwa [done] at mine

/-- The future the launcher is getting has a state. -/
theorem Plan.Sound.valid_of_get {ready : Bool} {rest : List (Fin n)} {folded : A}
    (sound : P.Sound fold first c) (getting : c.main = .get i ready rest folded) :
    c.valid i = true := by
  rw [sound.valid, Plan.Awaited, getting]
  exact ⟨id, Or.inl (List.mem_cons_self ..)⟩

/-- The future a task is getting has a state, and its task has been launched. -/
theorem Plan.Sound.valid_of_getting (sound : P.Sound fold first c)
    (getting : c.tasks i = .getting j) : ¬ c.main.ahead j ∧ c.valid j = true := by
  have needs : P.needs i = some j := by
    have mine := sound.fits i
    rwa [getting] at mine
  have launched : ¬ c.main.ahead i := by
    rw [← sound.launched, getting]
    simp
  have earlier := ahead_of_lt (P.earlier i j needs) launched
  exact ⟨earlier, (sound.valid j).mpr ⟨earlier, Or.inr ⟨i, needs, by rw [getting]; rfl⟩⟩⟩

/-- No deferred task runs while no future is being got. -/
theorem Plan.Sound.idle (sound : P.Sound fold first c)
    (elsewhere : ∀ i ready rest folded, c.main ≠ .get i ready rest folded) (main : Launcher n A) :
    P.launch = .deferred → ∀ i previous, c.tasks i = .working previous →
      ∃ ready rest folded, main = .get i ready rest folded := by
  intro deferred i previous working
  obtain ⟨ready, rest, folded, getting⟩ := sound.lazy deferred i previous working
  exact absurd getting (elsewhere i ready rest folded)

/-- The launcher turns to the next future. -/
theorem Plan.Sound.choose {ready : Bool} {rest : List (Fin n)} {folded : A}
    (sound : P.Sound fold first c) (choosing : c.main = .collect (i :: rest) folded) :
    P.Sound fold first { c with main := .get i ready rest folded } := by
  refine sound.main (fun _ => by rw [choosing]; rfl) (by rw [choosing]; rfl)
    (sound.idle (by simp [choosing]) _) ?_
  have collected := sound.folded
  rwa [choosing] at collected

/-- Every statement of the launcher keeps what is known. -/
theorem launcher_sound (sound : P.Sound fold first c) (moved : P.launcher fold first c = some c') :
    P.Sound fold first c' := by
  cases position : c.main with
  | launch k =>
    simp only [Plan.launcher, position, Option.some.injEq] at moved
    subst moved
    split
    next inRange => exact sound.launch position inRange
    next outOfRange =>
      refine sound.main (fun i => ?_) (by rw [position]; rfl)
        (sound.idle (by simp [position]) _) ⟨[], [], rfl, .nil, rfl⟩
      simp only [position, Launcher.ahead, false_iff]
      omega
  | collect rest folded =>
    cases rest with
    | nil =>
      simp only [Plan.launcher, position, Option.some.injEq] at moved
      subst moved
      refine sound.main (fun _ => by rw [position]; rfl) (by rw [position]; rfl)
        (sound.idle (by simp [position]) _) ?_
      have collected := sound.folded
      rwa [position] at collected
    | cons i rest =>
      simp only [Plan.launcher, position] at moved
      split at moved
      next =>
        obtain ⟨_, same⟩ := Option.ite_none_right_eq_some.mp moved
        cases same
        exact sound.choose position
      next =>
        cases moved
        exact sound.choose position
  | get i ready rest folded =>
    simp only [Plan.launcher, position, Plan.get, sound.valid_of_get position, if_true] at moved
    split at moved
    next deferred =>
      cases moved
      have lazily : P.launch = .deferred := by
        have mine := sound.fits i
        rwa [deferred] at mine
      have fits : P.Fits i (.working none) := P.direct lazily i
      have running := sound.progress (by rw [deferred]; rfl) (by rw [deferred]; rfl) rfl fits
        fun _ _ _ => ⟨ready, rest, folded, position⟩
      rwa [position] at running
    next outcome done =>
      cases moved
      exact sound.take position done
    next => cases moved
  | finished => simp [Plan.launcher, position] at moved
  | undefined => simp [Plan.launcher, position] at moved

/-- A wait that times out keeps what is known. -/
theorem timeout_sound (sound : P.Sound fold first c) (moved : P.timeout c = some c') :
    P.Sound fold first c' := by
  unfold Plan.timeout at moved
  split at moved
  next i rest folded choosing =>
    obtain ⟨_, same⟩ := Option.ite_none_right_eq_some.mp moved
    cases same
    exact sound.choose choosing
  next => cases moved

/-- Every statement of a task keeps what is known. -/
theorem task_sound (sound : P.Sound fold first c) (moved : P.task c i draw = some c') :
    P.Sound fold first c' := by
  have mine := sound.fits i
  cases position : c.tasks i with
  | getting j =>
    rw [position] at mine
    have needs : P.needs i = some j := mine
    simp only [Plan.task, position, (sound.valid_of_getting position).2, if_true] at moved
    have theirs := sound.fits j
    split at moved
    next v done =>
      cases moved
      rw [done] at theirs
      exact sound.receive position (by rw [done]; rfl) rfl ⟨j, needs, theirs⟩
    next e done =>
      cases moved
      rw [done] at theirs
      exact sound.receive position (by rw [done]; rfl) rfl (.through i j e needs theirs)
    next => cases moved
  | working previous =>
    rw [position] at mine
    simp only [Plan.task, position, Option.some.injEq] at moved
    subst moved
    refine sound.progress (by rw [position]; rfl) (by rw [position]; rfl) rfl ?_ (by simp)
    cases previous with
    | none => exact .direct i draw mine
    | some v =>
      obtain ⟨j, needs, before⟩ := mine
      exact .after i j draw v needs before
  | unlaunched | deferred | done | undefined => simp [Plan.task, position] at moved

/-- Every step keeps what is known. -/
theorem step_sound : Preserved (P.step fold first) (P.Sound fold first) := by
  rintro c label c' sound taken
  cases label with
  | main => exact launcher_sound sound taken
  | timeout => exact timeout_sound sound taken
  | task i draw => exact task_sound sound taken

/-- What is known holds in every reachable state. -/
theorem reachable_sound (reached : P.Reachable fold first c) : P.Sound fold first c :=
  step_sound.reaches sound_init reached

end OneStep

section Progress

variable {P : Plan n D V E} {fold : A → Bool → Except E V → A} {first : A}
  {c c' : Config n V E A}

/-- A launched task that is neither deferred nor done can go on or waits, in the end, for one
that can. The induction is on the task, since tasks need earlier ones only. -/
theorem Plan.Sound.task_goes (sound : P.Sound fold first c) (draw : D) (i : Fin n)
    (launched : ¬ c.main.ahead i) (undeferred : c.tasks i ≠ .deferred)
    (running : (c.tasks i).isDone = false) : ∃ k, P.task c k draw ≠ none := by
  induction i using WellFoundedLT.induction with
  | ind i inductionHypothesis =>
    have mine := sound.fits i
    cases position : c.tasks i with
    | unlaunched => exact absurd ((sound.launched i).mp position) launched
    | deferred => exact absurd position undeferred
    | getting j =>
      rw [position] at mine
      have needs : P.needs i = some j := mine
      obtain ⟨launchedToo, valid⟩ := sound.valid_of_getting position
      cases waiting : (c.tasks j).isDone with
      | true =>
        refine ⟨i, ?_⟩
        cases theirs : c.tasks j with
        | done outcome => cases outcome <;> simp [Plan.task, position, valid, theirs]
        | _ => simp [theirs, Task.isDone] at waiting
      | false =>
        refine inductionHypothesis j (P.earlier i j needs) launchedToo (fun deferred => ?_) waiting
        have lazily : P.launch = .deferred := by
          have theirs := sound.fits j
          rwa [deferred] at theirs
        simp [P.direct lazily i] at needs
    | working previous => exact ⟨i, by simp [Plan.task, position]⟩
    | done outcome => simp [position, Task.isDone] at running
    | undefined =>
      rw [position] at mine
      exact mine.elim

/-- Some step can be taken until the launcher has finished. -/
theorem Plan.Sound.goes (sound : P.Sound fold first c) (draw : D)
    (unfinished : ∀ folded, c.main ≠ .finished folded) :
    ∃ label, P.step fold first c label ≠ none := by
  cases position : c.main with
  | launch k => exact ⟨.main, by simp [Plan.step, Plan.launcher, position]⟩
  | collect rest folded =>
    cases rest with
    | nil => exact ⟨.main, by simp [Plan.step, Plan.launcher, position]⟩
    | cons i rest =>
      cases timed : P.timed with
      | false => exact ⟨.main, by simp [Plan.step, Plan.launcher, position, timed]⟩
      | true =>
        cases done : (c.tasks i).isDone with
        | false => exact ⟨.timeout, by simp [Plan.step, Plan.timeout, position, timed, done]⟩
        | true => exact ⟨.main, by simp [Plan.step, Plan.launcher, position, timed, done]⟩
  | get i ready rest folded =>
    have valid := sound.valid_of_get position
    by_cases deferred : c.tasks i = .deferred
    · exact ⟨.main, by simp [Plan.step, Plan.launcher, Plan.get, position, valid, deferred]⟩
    · cases done : (c.tasks i).isDone with
      | false =>
        have launched : ¬ c.main.ahead i := by rw [position]; exact id
        obtain ⟨k, goes⟩ := sound.task_goes draw i launched deferred done
        exact ⟨.task k draw, goes⟩
      | true =>
        refine ⟨.main, ?_⟩
        cases theirs : c.tasks i with
        | done outcome => simp [Plan.step, Plan.launcher, Plan.get, position, valid, theirs]
        | _ => simp [theirs, Task.isDone] at done
  | finished folded => exact absurd position (unfinished folded)
  | undefined =>
    have folded := sound.folded
    rw [position] at folded
    exact folded.elim

/-- The steps a task has still to take. -/
def Task.remaining : Task n V E → ℕ
  | .unlaunched => 4
  | .deferred => 3
  | .getting _ => 2
  | .working _ => 1
  | .done _ | .undefined => 0

/-- The steps the launcher has still to take. -/
def Plan.launcherRemaining (P : Plan n D V E) : Launcher n A → ℕ
  | .launch k => (n - k) + 2 * P.collect.length + 2
  | .collect rest _ => 2 * rest.length + 1
  | .get _ _ rest _ => 2 * rest.length + 2
  | .finished _ | .undefined => 0

/-- No run takes more steps than this. -/
def Plan.remaining (P : Plan n D V E) (c : Config n V E A) : ℕ :=
  tally (fun _ t => t.remaining) c.tasks + P.launcherRemaining c.main

/-- A task has three statements at most. -/
theorem start_remaining (i : Fin n) : (P.start i).remaining ≤ 3 := by
  unfold Plan.start
  split
  · exact le_rfl
  · split <;> simp [Task.remaining]

/-- A task that moves has fewer steps left. -/
theorem remaining_update {i : Fin n} {t : Task n V E} {valid : Fin n → Bool}
    {main : Launcher n A} (fewer : t.remaining < (c.tasks i).remaining)
    (same : P.launcherRemaining main ≤ P.launcherRemaining c.main) :
    P.remaining ⟨Function.update c.tasks i t, valid, main⟩ < P.remaining c := by
  have counted := tally_update (fun _ t => t.remaining) c.tasks i t
  unfold Plan.remaining
  dsimp only at counted ⊢
  omega

/-- Every statement of the launcher leaves fewer. -/
theorem launcher_lowers (sound : P.Sound fold first c)
    (moved : P.launcher fold first c = some c') : P.remaining c' < P.remaining c := by
  have elsewhere : ∀ main : Launcher n A, P.launcherRemaining main < P.launcherRemaining c.main →
      ∀ valid, P.remaining ⟨c.tasks, valid, main⟩ < P.remaining c :=
    fun _ fewer _ => Nat.add_lt_add_left fewer _
  cases position : c.main with
  | launch k =>
    simp only [Plan.launcher, position, Option.some.injEq] at moved
    subst moved
    split
    next inRange =>
      have unlaunched := (sound.launched ⟨k, inRange⟩).mpr (by rw [position]; exact le_rfl)
      apply remaining_update
      · rw [unlaunched]
        exact Nat.lt_succ_of_le (start_remaining _)
      · rw [position]
        dsimp only [Plan.launcherRemaining]
        omega
    next =>
      apply elsewhere
      rw [position]
      dsimp only [Plan.launcherRemaining]
      omega
  | collect rest folded =>
    cases rest with
    | nil =>
      simp only [Plan.launcher, position, Option.some.injEq] at moved
      subst moved
      exact elsewhere _ (by rw [position]; exact Nat.one_pos) _
    | cons i rest =>
      have fewer : ∀ ready, P.launcherRemaining (.get i ready rest folded) <
          P.launcherRemaining c.main := by
        intro ready
        rw [position]
        simp only [Plan.launcherRemaining, List.length_cons]
        omega
      simp only [Plan.launcher, position] at moved
      split at moved
      next =>
        obtain ⟨_, same⟩ := Option.ite_none_right_eq_some.mp moved
        cases same
        exact elsewhere _ (fewer true) _
      next =>
        cases moved
        exact elsewhere _ (fewer false) _
  | get i ready rest folded =>
    simp only [Plan.launcher, position, Plan.get, sound.valid_of_get position, if_true] at moved
    split at moved
    next deferred =>
      cases moved
      exact remaining_update (by rw [deferred]; exact (by decide : 1 < 3)) (by rw [position])
    next outcome done =>
      cases moved
      exact elsewhere _ (by rw [position]; exact Nat.lt_succ_self _) _
    next => cases moved
  | finished | undefined => simp [Plan.launcher, position] at moved

/-- Every statement of a task leaves fewer. -/
theorem task_lowers {i : Fin n} {draw : D} (sound : P.Sound fold first c)
    (moved : P.task c i draw = some c') : P.remaining c' < P.remaining c := by
  cases position : c.tasks i with
  | getting j =>
    simp only [Plan.task, position, (sound.valid_of_getting position).2, if_true] at moved
    split at moved
    · cases moved
      exact remaining_update (by rw [position]; exact Nat.one_lt_two) le_rfl
    · cases moved
      exact remaining_update (by rw [position]; exact Nat.two_pos) le_rfl
    · cases moved
  | working previous =>
    simp only [Plan.task, position, Option.some.injEq] at moved
    subst moved
    exact remaining_update (by rw [position]; exact Nat.one_pos) le_rfl
  | unlaunched | deferred | done | undefined => simp [Plan.task, position] at moved

/-- Every step leaves fewer statements. -/
theorem step_lowers : Lowers (P.step fold first) (P.Sound fold first) P.remaining := by
  rintro c label c' sound taken
  cases label with
  | main => exact launcher_lowers sound taken
  | timeout =>
    simp only [Plan.step, Plan.timeout] at taken
    split at taken
    next i rest folded position =>
      obtain ⟨_, same⟩ := Option.ite_none_right_eq_some.mp taken
      cases same
      refine Nat.add_lt_add_left ?_ _
      rw [position]
      simp only [Plan.launcherRemaining, List.length_cons]
      omega
    next => cases taken
  | task i draw => exact task_lowers sound taken

/-- When the launcher has finished, every task is done and every future has been got. The
induction is on the task from the last one down, since the taker of a future comes later. -/
theorem Plan.Sound.all_got {folded : A} (sound : P.Sound fold first c)
    (finished : c.main = .finished folded) (i : Fin n) :
    (c.tasks i).isDone = true ∧ c.valid i = false := by
  induction i using WellFoundedGT.induction with
  | ind i inductionHypothesis =>
    have launched : ¬ c.main.ahead i := by rw [finished]; exact id
    have empty : c.valid i = false := by
      rw [← Bool.not_eq_true, sound.valid i]
      rintro ⟨_, left | ⟨k, needs, wants⟩⟩
      · simp [finished, Plan.left] at left
      · have done := (inductionHypothesis k (P.earlier k i needs)).1
        cases position : c.tasks k <;> simp [position, Task.wants, Task.isDone] at wants done
    exact ⟨(sound.emptied i empty).resolve_left launched, empty⟩

/-- Nothing without a state is got. -/
theorem Plan.Sound.defined (sound : P.Sound fold first c) :
    c.main ≠ .undefined ∧ ∀ i, c.tasks i ≠ .undefined := by
  constructor
  · intro undefined
    have folded := sound.folded
    rw [undefined] at folded
    exact folded
  · intro i undefined
    have fits := sound.fits i
    rw [undefined] at fits
    exact fits

/-- A task that works, or has worked, comes after the task it needs. -/
theorem Plan.Sound.before {i j : Fin n} (sound : P.Sound fold first c) (needs : P.needs i = some j)
    (got : (c.tasks i).wants = false) : (c.tasks j).isDone = true := by
  have launched : ¬ c.main.ahead i := by
    rw [← sound.launched i]
    intro unlaunched
    simp [unlaunched, Task.wants] at got
  have earlier := ahead_of_lt (P.earlier i j needs) launched
  have empty : c.valid j = false := by
    rw [← Bool.not_eq_true, sound.valid j]
    rintro ⟨_, left | ⟨taker, takes, wants⟩⟩
    · exact absurd ((left_suffix sound.folded).subset left) (P.kept i j needs)
    · rw [P.apart taker i j takes needs, got] at wants
      cases wants
  exact (sound.emptied j empty).resolve_left earlier

/-- What has been folded when the launcher has finished. -/
theorem Plan.Sound.collected {folded : A} (sound : P.Sound fold first c)
    (finished : c.main = .finished folded) : P.Collected fold first [] folded := by
  have collected := sound.folded
  rwa [finished] at collected

/-- From every state, the launcher can be brought to its end. -/
theorem Plan.Sound.finishes [Nonempty D] (sound : P.Sound fold first c) :
    ∃ last folded, Reaches (P.step fold first) c last ∧ last.main = .finished folded := by
  obtain ⟨last, onward, stuck⟩ := step_lowers.exists_stuck step_sound sound
  have final := step_sound.reaches sound onward
  by_contra unfinished
  push Not at unfinished
  obtain ⟨draw⟩ := ‹Nonempty D›
  obtain ⟨label, goes⟩ := final.goes draw fun folded => unfinished last folded onward
  exact goes (stuck label)

/-- The statements of all tasks and of the launcher. -/
theorem remaining_init : P.remaining (Config.init : Config n V E A) =
    5 * n + 2 * P.collect.length + 2 := by
  simp [Plan.remaining, Config.init, tally, Task.remaining, Plan.launcherRemaining]
  omega

/-- No run is longer than the work there is. -/
theorem length_le {schedule : List (Label n D)}
    (played : run (P.step fold first) Config.init schedule = some c) :
    schedule.length ≤ 5 * n + 2 * P.collect.length + 2 := by
  have spent := step_lowers.length_le step_sound sound_init played
  rw [remaining_init] at spent
  omega

end Progress

section Outcomes

variable {P : Plan n D V E} {fold : A → Bool → Except E V → A} {first folded : A}

/-- Where each task has one outcome and the launcher does not look at its clock, what it
folds depends on no schedule. -/
theorem Plan.Collected.eq_foldl {outcome : Fin n → Except E V} {plain : A → Except E V → A}
    (collected : P.Collected fold first [] folded)
    (known : ∀ i result, P.Yields i result → result = outcome i)
    (blind : ∀ a ready result, fold a ready result = plain a result) :
    folded = P.collect.foldl (fun a i => plain a (outcome i)) first := by
  obtain ⟨taken, results, whole, yields, rfl⟩ := collected
  rw [whole, List.append_nil]
  clear whole
  induction yields generalizing first with
  | nil => rfl
  | cons head _ inductionHypothesis =>
    rw [List.foldl_cons, List.foldl_cons, blind, known _ _ head]
    exact inductionHypothesis

/-- Where no task needs another, there is one draw of each task behind what has been
folded. -/
theorem Plan.Collected.exists_draws [Inhabited D] (alone : ∀ i, P.needs i = none)
    (collected : P.Collected fold first [] folded) :
    ∃ (draws : Fin n → D) (results : List (Bool × Except E V)),
      results.map Prod.snd = P.collect.map (fun i => P.work i (draws i) none) ∧
      folded = results.foldl (fun a result => fold a result.1 result.2) first := by
  obtain ⟨taken, results, whole, yields, rfl⟩ := collected
  rw [List.append_nil] at whole
  have once := P.once
  rw [whole] at once ⊢
  clear whole
  suffices drawn : ∃ draws : Fin n → D,
      results.map Prod.snd = taken.map fun i => P.work i (draws i) none by
    obtain ⟨draws, same⟩ := drawn
    exact ⟨draws, results, same, rfl⟩
  induction yields with
  | nil => exact ⟨fun _ => default, rfl⟩
  | @cons i result taken results head _ inductionHypothesis =>
    obtain ⟨fresh, once⟩ := List.nodup_cons.mp once
    obtain ⟨draws, same⟩ := inductionHypothesis once
    obtain ⟨draw, drawn⟩ : ∃ draw, result.2 = P.work i draw none := by
      generalize result.2 = outcome at head
      cases head with
      | direct _ draw _ => exact ⟨draw, rfl⟩
      | after _ j _ _ needs _ => simp [alone i] at needs
      | through _ j _ needs _ => simp [alone i] at needs
    refine ⟨Function.update draws i draw, ?_⟩
    rw [List.map_cons, List.map_cons, Function.update_self, same, drawn]
    refine congrArg _ (List.map_congr_left fun k member => ?_)
    rw [Function.update_of_ne]
    rintro rfl
    exact fresh member

end Outcomes

end Interleaving.Futures
