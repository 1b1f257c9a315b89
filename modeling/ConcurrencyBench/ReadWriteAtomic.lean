import ConcurrencyBench.ReadWriteData

/-!
# The calls of the reader-writer data take effect at once

What the two copies are for is said by one map each, of which a call reads a key, writes a
key or counts the keys. The program does as well: it has the histories of the atomic object
with these two maps and no others, although its calls hold a mutex for several statements
and readers are in their statements together.

A read takes effect when it reads the element or finds none, a count when it counts, and a
write when it looks for its element. From there to its assignment the map of the copy is
behind the atomic one by the value still to be assigned; nobody else is at the map then.
The other way round, every step of the atomic object is a call from its lock to its unlock.

The map does not say which lock guards it. So a client of one copy has the histories that it
has with the other: the two benchmarks that are compared do the same work.
-/

namespace ConcurrencyBench.ReadWriteData

open Interleaving

universe u
variable {ι : Type u}

/-- What a call is to do to the maps, and to return. -/
def apply (call : Call) (maps : Copy → Data) : (Copy → Data) × Option ℤ :=
  match call.operation with
  | .read key => (maps, some (((maps call.copy).lookup key).getD (-1)))
  | .write key value => (Function.update maps call.copy ((maps call.copy).insert key value), none)
  | .size => (maps, some (maps call.copy).keys.card)

/-- Whether the call a thread is in has taken effect. -/
def Pc.stage : Pc → Stage Call (Option ℤ)
  | .outside => .idle
  | .lock call | .first call | .second call _ => .pending call
  | .assign call _ _ => .answered call none
  | .unlock call result | .answer call result => .answered call result

/-- About to assign to an element of the copy. -/
def Pc.assigns (copy : Copy) : Pc → Bool
  | .assign call _ _ => decide (call.copy = copy)
  | _ => false

/-- The maps of the program are the atomic ones, up to the values still to be assigned. -/
structure Agrees (maps data : Copy → Data) (pcs : ι → Pc) : Prop where
  quiet : ∀ copy, (∀ i, (pcs i).assigns copy = false) → maps copy = data copy
  ahead : ∀ i call key value, pcs i = .assign call key value →
    maps call.copy = (data call.copy).insert key value

variable [DecidableEq ι]

section Maps

variable {maps data : Copy → Data} {pcs : ι → Pc} {i : ι} {call : Call} {key value : ℤ}

/-- Nothing was to be assigned to a copy if nothing is after a thread has moved that had
nothing to assign. -/
theorem quiet_before {copy : Copy} {pc' : Pc} (before : (pcs i).assigns copy = false)
    (quiet : ∀ j, (Function.update pcs i pc' j).assigns copy = false) (j : ι) :
    (pcs j).assigns copy = false := by
  by_cases mine : j = i
  · rw [mine]
    exact before
  · have there := quiet j
    rwa [Function.update_of_ne mine] at there

/-- A statement that leaves the maps alone, before and after which nothing is to be assigned. -/
theorem Agrees.move {pc' : Pc} (agrees : Agrees maps data pcs)
    (before : ∀ copy, (pcs i).assigns copy = false) (after : ∀ copy, pc'.assigns copy = false) :
    Agrees maps data (Function.update pcs i pc') := by
  constructor
  · intro copy quiet
    exact agrees.quiet copy (quiet_before (before copy) quiet)
  · rw [Function.forall_update_iff pcs fun _ pc => ∀ call key value, pc = .assign call key value →
      maps call.copy = (data call.copy).insert key value]
    refine ⟨fun call key value same => ?_, fun j _ => agrees.ahead j⟩
    have idle := after call.copy
    simp [same, Pc.assigns] at idle

/-- A write that looks for its element while nothing is to be assigned to its copy. -/
theorem Agrees.write (agrees : Agrees maps data pcs)
    (before : ∀ copy, (pcs i).assigns copy = false)
    (quiet : ∀ j, (pcs j).assigns call.copy = false) :
    Agrees (Function.update maps call.copy ((maps call.copy).insert key value))
      (Function.update data call.copy (index (data call.copy) key))
      (Function.update pcs i (.assign call key value)) := by
  have here := agrees.quiet call.copy quiet
  constructor
  · intro copy none
    have other : copy ≠ call.copy := by
      rintro rfl
      simpa [Pc.assigns] using none i
    rw [Function.update_of_ne other, Function.update_of_ne other]
    exact agrees.quiet copy (quiet_before (before copy) none)
  · rw [Function.forall_update_iff pcs fun _ pc => ∀ call' key' value',
      pc = .assign call' key' value' →
        Function.update maps call.copy ((maps call.copy).insert key value) call'.copy =
          (Function.update data call.copy (index (data call.copy) key) call'.copy).insert key' value']
    refine ⟨fun call' key' value' same => ?_, fun j _ call' key' value' standing => ?_⟩
    · obtain ⟨rfl, rfl, rfl⟩ := Pc.assign.inj same
      rw [Function.update_self, Function.update_self, here, insert_index]
    · have other : call'.copy ≠ call.copy := by
        intro same
        have assigning := quiet j
        simp [standing, Pc.assigns, same] at assigning
      rw [Function.update_of_ne other, Function.update_of_ne other]
      exact agrees.ahead j call' key' value' standing

/-- The assignment itself, by the only thread that has one for its copy. -/
theorem Agrees.assign {result : Option ℤ} (agrees : Agrees maps data pcs)
    (standing : pcs i = .assign call key value)
    (alone : ∀ j, (pcs j).assigns call.copy = true → j = i) :
    Agrees maps (Function.update data call.copy ((data call.copy).insert key value))
      (Function.update pcs i (.unlock call result)) := by
  have here := agrees.ahead i call key value standing
  constructor
  · intro copy none
    by_cases mine : copy = call.copy
    · subst mine
      rw [Function.update_self, here]
    · rw [Function.update_of_ne mine]
      refine agrees.quiet copy (quiet_before ?_ none)
      simp [standing, Pc.assigns, Ne.symm mine]
  · rw [Function.forall_update_iff pcs fun _ pc => ∀ call' key' value',
      pc = .assign call' key' value' → maps call'.copy =
        (Function.update data call.copy ((data call.copy).insert key value) call'.copy).insert
          key' value']
    refine ⟨by simp, fun j mine call' key' value' assigning => ?_⟩
    have other : call'.copy ≠ call.copy := by
      intro same
      exact mine (alone j (by simp [assigning, Pc.assigns, same]))
    rw [Function.update_of_ne other]
    exact agrees.ahead j call' key' value' assigning

end Maps

section Simulation

variable [Fintype ι]

/-- The atomic object that a state of the program stands for. -/
structure Matches (c : Config ι) (a : Atomic ι (Copy → Data) Call (Option ℤ)) : Prop where
  sound : Sound c
  stages : ∀ i, a.stages i = (c.pcs i).stage
  history : a.history = c.log
  agrees : Agrees a.state c.members.data c.pcs

variable {c : Config ι} {a : Atomic ι (Copy → Data) Call (Option ℤ)} {i : ι} {s' : Members}
  {pc' : Pc}

omit [DecidableEq ι] in
/-- At first both have the initial values. -/
theorem matches_init (initialSize : ℕ) :
    Matches (Config.init initialSize : Config ι)
      (Atomic.init fun _ => initialData initialSize) where
  sound := sound_init initialSize
  stages _ := rfl
  history := rfl
  agrees := ⟨fun _ _ => rfl, by simp [Config.init]⟩

omit [DecidableEq ι] in
/-- The thread at a map of a copy is alone there with an assignment to it. -/
theorem Matches.alone (same : Matches c a) {copy : Copy}
    (here : (c.pcs i).holds copy ≠ none) {j : ι} (assigning : (c.pcs j).assigns copy = true) :
    j = i := by
  have modifying : (c.pcs j).modifies copy = true := by
    cases standing : c.pcs j <;> simp_all [Pc.assigns, Pc.modifies]
  exact (same.sound.governed copy).alone (holds_of_modifies (same.sound.valid j) modifying) here

omit [DecidableEq ι] in
/-- A thread at the map of its copy that has nothing to assign sees the atomic map. -/
theorem Matches.quiet (same : Matches c a) {copy : Copy} (here : (c.pcs i).holds copy ≠ none)
    (idle : (c.pcs i).assigns copy = false) (j : ι) : (c.pcs j).assigns copy = false := by
  by_contra assigning
  have mine := same.alone here (Bool.not_eq_false _ ▸ assigning)
  rw [mine, idle] at assigning
  exact assigning rfl

/-- A statement that takes no effect leaves the stages. -/
theorem stages_of_same (same : Matches c a) (stage : pc'.stage = (c.pcs i).stage) (j : ι) :
    a.stages j = (Function.update c.pcs i pc' j).stage := by
  by_cases mine : j = i
  · rw [mine, Function.update_self, stage]
    exact same.stages i
  · rw [Function.update_of_ne mine]
    exact same.stages j

/-- A statement that takes effect moves the thread's stage. -/
theorem stages_of_update (same : Matches c a) {stage : Stage Call (Option ℤ)}
    (now : stage = pc'.stage) (j : ι) :
    Function.update a.stages i stage j = (Function.update c.pcs i pc' j).stage := by
  by_cases mine : j = i
  · rw [mine, Function.update_self, Function.update_self, now]
  · rw [Function.update_of_ne mine, Function.update_of_ne mine]
    exact same.stages j

/-- A statement before or after the effect of its call, which the object does not see. -/
theorem Matches.hidden (same : Matches c a) (moved : exec c.members (c.pcs i) = some (s', pc'))
    (silent : observe i (c.pcs i) = []) (stage : pc'.stage = (c.pcs i).stage)
    (agrees : Agrees a.state s'.data (Function.update c.pcs i pc')) :
    ∃ a', Reaches (Atomic.step apply) a a' ∧
      Matches ⟨s', Function.update c.pcs i pc', c.log ++ observe i (c.pcs i)⟩ a' := by
  refine ⟨a, Reaches.refl a, sound_go same.sound moved _, stages_of_same same stage, ?_, agrees⟩
  rw [silent, List.append_nil]
  exact same.history

/-- A statement in which its call takes effect. -/
theorem Matches.effect (same : Matches c a) (moved : exec c.members (c.pcs i) = some (s', pc'))
    (silent : observe i (c.pcs i) = []) {call : Call} (pending : (c.pcs i).stage = .pending call)
    (answered : Stage.answered call (apply call a.state).2 = pc'.stage)
    (agrees : Agrees (apply call a.state).1 s'.data (Function.update c.pcs i pc')) :
    ∃ a', Reaches (Atomic.step apply) a a' ∧
      Matches ⟨s', Function.update c.pcs i pc', c.log ++ observe i (c.pcs i)⟩ a' := by
  have waiting : a.stages i = .pending call := (same.stages i).trans pending
  refine ⟨_, (Atomic.Move.effect call waiting).reaches, sound_go same.sound moved _,
    stages_of_update same answered, ?_, agrees⟩
  rw [silent, List.append_nil]
  exact same.history

/-- Only one statement assigns. -/
theorem assigns_none {pc : Pc} (elsewhere : ∀ call key value, pc ≠ .assign call key value)
    (copy : Copy) : pc.assigns copy = false := by
  cases pc with
  | assign call key value => exact absurd rfl (elsewhere call key value)
  | _ => rfl

/-- The first statement under the lock: a read that finds no element, a count and a write
take effect. -/
theorem Matches.first (same : Matches c a) {call : Call} (standing : c.pcs i = .first call)
    (moved : exec c.members (c.pcs i) = some (s', pc')) :
    ∃ a', Reaches (Atomic.step apply) a a' ∧
      Matches ⟨s', Function.update c.pcs i pc', c.log ++ observe i (c.pcs i)⟩ a' := by
  have idle : ∀ copy, (c.pcs i).assigns copy = false := assigns_none (by simp [standing])
  have quiet : ∀ j, (c.pcs j).assigns call.copy = false :=
    same.quiet (by simp [standing, Pc.holds]) (idle call.copy)
  have here := same.agrees.quiet call.copy quiet
  have silent : observe i (c.pcs i) = [] := by rw [standing]; rfl
  have pending : (c.pcs i).stage = .pending call := by rw [standing]; rfl
  have plain := moved
  rw [standing] at plain
  cases operation : call.operation with
  | read key =>
    simp only [exec, operation, Option.some.injEq, Prod.mk.injEq] at plain
    obtain ⟨rfl, rfl⟩ := plain
    by_cases found : key ∈ c.members.data call.copy
    · rw [if_pos found] at moved ⊢
      exact same.hidden moved silent pending.symm (same.agrees.move idle (assigns_none (by simp)))
    · rw [if_neg found] at moved ⊢
      refine same.effect moved silent pending ?_ ?_
      · simp [apply, operation, here, Finmap.lookup_eq_none.mpr found, Pc.stage]
      · simp only [apply, operation]
        exact same.agrees.move idle (assigns_none (by simp))
  | write key value =>
    simp only [exec, operation, Option.some.injEq, Prod.mk.injEq] at plain
    obtain ⟨rfl, rfl⟩ := plain
    refine same.effect moved silent pending ?_ ?_
    · simp [apply, operation, Pc.stage]
    · simp only [apply, operation]
      exact same.agrees.write idle quiet
  | size =>
    simp only [exec, operation, Option.some.injEq, Prod.mk.injEq] at plain
    obtain ⟨rfl, rfl⟩ := plain
    refine same.effect moved silent pending ?_ ?_
    · simp [apply, operation, here, Pc.stage]
    · simp only [apply, operation]
      exact same.agrees.move idle (assigns_none (by simp))

/-- Every statement is at most one step of the atomic object. -/
theorem Matches.go (same : Matches c a) (moved : exec c.members (c.pcs i) = some (s', pc')) :
    ∃ a', Reaches (Atomic.step apply) a a' ∧
      Matches ⟨s', Function.update c.pcs i pc', c.log ++ observe i (c.pcs i)⟩ a' := by
  have plain := moved
  cases standing : c.pcs i with
  | outside => simp [standing, exec] at moved
  | first call =>
    rw [← standing]
    exact same.first standing moved
  | lock call =>
    rw [← standing]
    rw [standing] at plain
    obtain ⟨mtx, _, made⟩ := Option.map_eq_some_iff.mp plain
    obtain ⟨rfl, rfl⟩ := Prod.mk.inj made
    exact same.hidden moved (by rw [standing]; rfl) (by rw [standing]; rfl)
      (same.agrees.move (assigns_none (by simp [standing])) (assigns_none (by simp)))
  | second call key =>
    have idle : ∀ copy, (c.pcs i).assigns copy = false := assigns_none (by simp [standing])
    have quiet : ∀ j, (c.pcs j).assigns call.copy = false :=
      same.quiet (by simp [standing, Pc.holds]) (idle call.copy)
    have here := same.agrees.quiet call.copy quiet
    have valid := same.sound.valid i
    rw [standing] at plain valid
    obtain ⟨value, held, made⟩ := Option.map_eq_some_iff.mp plain
    obtain ⟨rfl, rfl⟩ := Prod.mk.inj made
    have reads : call.operation = .read key := valid.1
    rw [← standing]
    refine same.effect moved (by rw [standing]; rfl) (by rw [standing]; rfl) ?_ ?_
    · simp [apply, reads, here, held, Pc.stage]
    · simp only [apply, reads]
      exact same.agrees.move idle (assigns_none (by simp))
  | assign call key value =>
    rw [← standing]
    rw [standing] at plain
    obtain ⟨rfl, rfl⟩ := Prod.mk.inj (Option.some.inj plain)
    refine same.hidden moved (by rw [standing]; rfl) (by rw [standing]; rfl) ?_
    refine same.agrees.assign standing fun j assigning => ?_
    exact same.alone (by simp [standing, Pc.holds]) assigning
  | unlock call result =>
    rw [← standing]
    rw [standing] at plain
    obtain ⟨rfl, rfl⟩ := Prod.mk.inj (Option.some.inj plain)
    exact same.hidden moved (by rw [standing]; rfl) (by rw [standing]; rfl)
      (same.agrees.move (assigns_none (by simp [standing])) (assigns_none (by simp)))
  | answer call result =>
    have ready : a.stages i = .answered call result := by
      rw [same.stages i, standing]
      rfl
    rw [standing] at plain
    obtain ⟨rfl, rfl⟩ := Prod.mk.inj (Option.some.inj plain)
    refine ⟨_, (Atomic.Move.answer call result ready).reaches, sound_go same.sound moved _,
      stages_of_update same rfl, ?_, ?_⟩
    · simp only [observe, same.history]
    · exact same.agrees.move (assigns_none (by simp [standing])) (assigns_none (by simp))

/-- Every step of the implementation is matched by steps of the atomic map. -/
theorem matches_step (c : Config ι) (a : Atomic ι (Copy → Data) Call (Option ℤ)) (label : Label ι)
    (c' : Config ι) (same : Matches c a) (taken : step c label = some c') :
    ∃ a', Reaches (Atomic.step apply) a a' ∧ Matches c' a' := by
  cases label with
  | call i call =>
    simp only [step, Option.ite_none_right_eq_some, Option.some.injEq] at taken
    obtain ⟨outside, rfl⟩ := taken
    have idle : a.stages i = .idle := by
      rw [same.stages i, outside]
      rfl
    refine ⟨_, (Atomic.Move.call call idle).reaches, sound_call same.sound outside _,
      stages_of_update same rfl, ?_, ?_⟩
    · simp only [same.history]
    · exact same.agrees.move (assigns_none (by simp [outside])) (assigns_none (by simp))
  | go i =>
    obtain ⟨⟨s', pc'⟩, moved, rfl⟩ := Option.map_eq_some_iff.mp taken
    exact same.go moved

end Simulation

section Whole

variable {pcs : ι → Pc} {log : List (Exchange ι Call (Option ℤ))} {i : ι} {s s' : Members}
  {pc pc' : Pc}

/-- One thread's statement, which nobody sees. -/
theorem reaches_go (moved : exec s pc = some (s', pc')) (silent : observe i pc = []) :
    Reaches step ⟨s, Function.update pcs i pc, log⟩ ⟨s', Function.update pcs i pc', log⟩ :=
  ⟨[.go i], by simp [run, step, moved, silent]⟩

/-- A call that holds its lock does what it is to do if it is left to itself. -/
theorem reaches_unlock (call : Call) (mtx : Copy → SharedMutex) (maps : Copy → Data) :
    Reaches step ⟨⟨mtx, maps⟩, Function.update pcs i (.first call), log⟩
      ⟨⟨mtx, (apply call maps).1⟩, Function.update pcs i (.unlock call (apply call maps).2),
        log⟩ := by
  cases operation : call.operation with
  | read key =>
    by_cases found : key ∈ maps call.copy
    · obtain ⟨value, held⟩ := Finmap.mem_iff.mp found
      have finds : exec ⟨mtx, maps⟩ (.first call) = some (⟨mtx, maps⟩, .second call key) := by
        simp [exec, operation, found]
      have reads : exec ⟨mtx, maps⟩ (.second call key) =
          some (⟨mtx, maps⟩, .unlock call (some value)) := by
        simp [exec, held]
      have done : Reaches step ⟨⟨mtx, maps⟩, Function.update pcs i (.first call), log⟩
          ⟨⟨mtx, maps⟩, Function.update pcs i (.unlock call (some value)), log⟩ :=
        (reaches_go finds rfl).trans (reaches_go reads rfl)
      simpa [apply, operation, held] using done
    · have misses : exec ⟨mtx, maps⟩ (.first call) =
          some (⟨mtx, maps⟩, .unlock call (some (-1))) := by
        simp [exec, operation, found]
      have none := Finmap.lookup_eq_none.mpr found
      simp only [apply, operation, none]
      exact reaches_go misses rfl
  | write key value =>
    have finds : exec ⟨mtx, maps⟩ (.first call) =
        some (⟨mtx, Function.update maps call.copy (index (maps call.copy) key)⟩,
          .assign call key value) := by
      simp [exec, operation]
    have assigns : exec ⟨mtx, Function.update maps call.copy (index (maps call.copy) key)⟩
        (.assign call key value) =
        some (⟨mtx, Function.update maps call.copy ((maps call.copy).insert key value)⟩,
          .unlock call none) := by
      simp [exec, insert_index]
    simp only [apply, operation]
    exact (reaches_go finds rfl).trans (reaches_go assigns rfl)
  | size =>
    have counts : exec ⟨mtx, maps⟩ (.first call) =
        some (⟨mtx, maps⟩, .unlock call (some (maps call.copy).keys.card)) := by
      simp [exec, operation]
    simp only [apply, operation]
    exact reaches_go counts rfl

/-- Where a thread is that has just begun a call, or is about to return from one. -/
def resting : Stage Call (Option ℤ) → Pc
  | .idle => .outside
  | .pending call => .lock call
  | .answered call result => .answer call result

/-- The state of the program in which nobody holds a mutex. -/
def unlocked (a : Atomic ι (Copy → Data) Call (Option ℤ)) : Config ι :=
  ⟨⟨fun _ => .free, a.state⟩, fun i => resting (a.stages i), a.history⟩

/-- Which threads rest changes with the stage that changes. -/
theorem unlocked_update (a : Atomic ι (Copy → Data) Call (Option ℤ)) (i : ι)
    (stage : Stage Call (Option ℤ)) :
    (fun j => resting (Function.update a.stages i stage j)) =
      Function.update (fun j => resting (a.stages j)) i (resting stage) := by
  funext j
  by_cases mine : j = i
  · rw [mine, Function.update_self, Function.update_self]
  · rw [Function.update_of_ne mine, Function.update_of_ne mine]

/-- The effect of a call is the call from its lock to its unlock. -/
theorem reaches_effect (a : Atomic ι (Copy → Data) Call (Option ℤ)) {call : Call}
    (pending : a.stages i = .pending call) :
    Reaches step (unlocked a) (unlocked { a with
      state := (apply call a.state).1
      stages := Function.update a.stages i (.answered call (apply call a.state).2) }) := by
  obtain ⟨mtx, granted⟩ := SharedMutex.acquire_free call.hold
  have start : unlocked a = ⟨⟨fun _ => .free, a.state⟩,
      Function.update (fun j => resting (a.stages j)) i (.lock call), a.history⟩ := by
    have here : resting (a.stages i) = .lock call := by rw [pending]; rfl
    rw [← here, Function.update_eq_self]
    rfl
  have locks : exec ⟨fun _ => .free, a.state⟩ (.lock call) =
      some (⟨Function.update (fun _ => .free) call.copy mtx, a.state⟩, .first call) := by
    simp [exec, granted]
  have unlocks : exec ⟨Function.update (fun _ => .free) call.copy mtx, (apply call a.state).1⟩
      (.unlock call (apply call a.state).2) =
      some (⟨fun _ => .free, (apply call a.state).1⟩, .answer call (apply call a.state).2) := by
    simp [exec, SharedMutex.release_acquire granted]
  rw [start]
  simp only [unlocked, unlocked_update]
  exact ((reaches_go locks rfl).trans (reaches_unlock call _ a.state)).trans
    (reaches_go unlocks rfl)

/-- Every step of the atomic object is some of the program's. -/
theorem unlocked_step (a : Atomic ι (Copy → Data) Call (Option ℤ)) (label : Atomic.Label ι Call)
    (a' : Atomic ι (Copy → Data) Call (Option ℤ)) (taken : Atomic.step apply a label = some a') :
    Reaches step (unlocked a) (unlocked a') := by
  obtain ⟨i, moved⟩ := Atomic.step_move taken
  cases moved with
  | call call idle =>
    have outside : (unlocked a).pcs i = .outside := by simp [unlocked, idle, resting]
    have called : step (unlocked a) (.call i call) = some (unlocked { a with
        stages := Function.update a.stages i (.pending call)
        history := a.history ++ [.called i call] }) := by
      rw [step, if_pos outside]
      simp only [unlocked, unlocked_update]
      rfl
    exact Reaches.single called
  | effect call pending => exact reaches_effect a pending
  | answer call result answered =>
    have standing : (unlocked a).pcs i = .answer call result := by
      simp [unlocked, answered, resting]
    have returned : step (unlocked a) (.go i) = some (unlocked { a with
        stages := Function.update a.stages i .idle
        history := a.history ++ [.returned i call result] }) := by
      rw [step, standing]
      simp only [exec, Option.map_some, unlocked, unlocked_update]
      rfl
    exact Reaches.single returned

end Whole

/-- Some interleaving of the program's statements has this history. -/
def History (initialSize : ℕ) (history : List (Exchange ι Call (Option ℤ))) : Prop :=
  ∃ c : Config ι, Reachable initialSize c ∧ c.log = history

/-- No history of the program is foreign to the atomic object. -/
theorem atomic_of_history [Fintype ι] {initialSize : ℕ}
    {history : List (Exchange ι Call (Option ℤ))} (seen : History initialSize history) :
    Atomic.History apply (fun _ => initialData initialSize) history := by
  obtain ⟨c, reached, rfl⟩ := seen
  obtain ⟨a, onward, same⟩ := simulated Matches (matches_init initialSize) matches_step reached
  exact ⟨a, onward, same.history⟩

/-- The program has every history of the atomic object. -/
theorem history_of_atomic {initialSize : ℕ} {history : List (Exchange ι Call (Option ℤ))}
    (atomic : Atomic.History apply (fun _ => initialData initialSize) history) :
    History initialSize history := by
  obtain ⟨a, reached, rfl⟩ := atomic
  exact ⟨unlocked a, reaches_map unlocked unlocked_step reached, rfl⟩

/-- The reader-writer data is linearizable, and loses nothing by it. For any number of threads
and any calls of both copies, what the threads can see, call by call and return by return, is
exactly what they can see of an object whose calls take effect at once, each between its call
and its return. -/
theorem history_iff_atomic [Fintype ι] (initialSize : ℕ)
    (history : List (Exchange ι Call (Option ℤ))) :
    History initialSize history ↔
      Atomic.History apply (fun _ => initialData initialSize) history :=
  ⟨atomic_of_history, history_of_atomic⟩

section Copies

/-- What a client of one copy asks for. -/
inductive Use
  | read (key : ℤ)
  | write (key value : ℤ)
deriving DecidableEq

/-- The call that asks for it of a copy. -/
def Use.call : Copy → Use → Call
  | .shared, .read key => .sharedRead key
  | .shared, .write key value => .sharedWrite key value
  | .exclusive, .read key => .exclusiveRead key
  | .exclusive, .write key value => .exclusiveWrite key value

/-- What the client is to see: one map. -/
def applyUse : Use → Data → Data × Option ℤ
  | .read key, map => (map, some ((map.lookup key).getD (-1)))
  | .write key value, map => (map.insert key value, none)

/-- Different uses are different calls. -/
theorem use_call_injective (copy : Copy) : Function.Injective (Use.call copy) := by
  intro first second same
  cases copy <;> cases first <;> cases second <;> simp_all [Use.call]

/-- A use has the same effect on its copy as its call. -/
theorem apply_use (copy : Copy) (use : Use) (maps : Copy → Data) :
    applyUse use (maps copy) =
      ((apply (use.call copy) maps).1 copy, (apply (use.call copy) maps).2) := by
  cases copy <;> cases use <;>
    simp [applyUse, apply, Use.call, Call.operation, Call.copy]

/-- The histories of the clients of one copy are those of one map. -/
theorem history_use_iff [Fintype ι] (initialSize : ℕ) (copy : Copy)
    (history : List (Exchange ι Use (Option ℤ))) :
    History initialSize (history.map (Exchange.map (Use.call copy))) ↔
      Atomic.History applyUse (initialData initialSize) history := by
  have renamed := history_map_iff (use_call_injective copy) (apply_use copy)
    (fun _ => initialData initialSize) history
  exact ⟨fun seen => renamed.mp (atomic_of_history seen),
    fun atomic => history_of_atomic (renamed.mpr atomic)⟩

/-- Sharing the lock among readers changes nothing that a client can see. Threads that read and
write only the copy with the `shared_mutex` have exactly the histories that they have with
the copy under the `mutex`: the same calls, in the same order, with the same results. -/
theorem copies_indistinguishable [Fintype ι] (initialSize : ℕ)
    (history : List (Exchange ι Use (Option ℤ))) :
    History initialSize (history.map (Exchange.map (Use.call .shared))) ↔
      History initialSize (history.map (Exchange.map (Use.call .exclusive))) :=
  (history_use_iff initialSize .shared history).trans
    (history_use_iff initialSize .exclusive history).symm

end Copies

end ConcurrencyBench.ReadWriteData
