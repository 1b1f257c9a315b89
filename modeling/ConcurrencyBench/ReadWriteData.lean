import ConcurrencyBench.AtomicObjects
import ConcurrencyBench.SharedMutexes
import Mathlib.Algebra.Group.Action.Defs
import Mathlib.Data.Finmap

/-!
# The data of the reader-writer benchmarks, step by step

`ReadWriteData` keeps two copies of one map. Calls of the first take a `shared_mutex`,
readers together and writers alone; calls of the second take a `mutex`, which here is a
shared mutex that nobody shares. Both begin with the same entries. A key that is missing
reads as -1.

Under its lock a call goes through its statements one at a time. Reading is finding the
element and, if there is one, reading what it holds. Writing is finding the element, which
is put there with 0 if it is missing, and assigning to it. So a thread that looked at the
map while another writes could see an element that nobody has written.

Every thread makes as many calls as it likes, of both copies. What it calls and what is
returned is logged; no step reads the log. Keys and values are integers, as the benchmarks'
are far inside of the range of `int`.
-/

namespace ConcurrencyBench.ReadWriteData

open Interleaving

universe u
variable {ι : Type u}

/-- `shared_data_` and `exclusive_data_` -/
inductive Copy
  | shared
  | exclusive
deriving DecidableEq

/-- `std::unordered_map<int, int>` -/
abbrev Data := Finmap fun _ : ℤ => ℤ

/-- `initialize`, which no definition can be called here -/
def initialData (size : ℕ) : Data :=
  (List.range size).foldl (fun data (i : ℕ) => data.insert (i : ℤ) ((i * 2 : ℕ) : ℤ)) ∅

/-- `operator[]` finds the element of the key, or puts one there. -/
def index (data : Data) (key : ℤ) : Data := if key ∈ data then data else data.insert key 0

/-- The calls of the public functions. -/
inductive Call
  | sharedRead (key : ℤ)
  | sharedWrite (key value : ℤ)
  | exclusiveRead (key : ℤ)
  | exclusiveWrite (key value : ℤ)
  | size
deriving DecidableEq

/-- What a call does to its copy. -/
inductive Operation
  | read (key : ℤ)
  | write (key value : ℤ)
  | size
deriving DecidableEq

/-- What a call does, whichever lock it takes. -/
def Call.operation : Call → Operation
  | .sharedRead key | .exclusiveRead key => .read key
  | .sharedWrite key value | .exclusiveWrite key value => .write key value
  | .size => .size

/-- The copy that a call works on. -/
def Call.copy : Call → Copy
  | .sharedRead _ | .sharedWrite _ _ | .size => .shared
  | .exclusiveRead _ | .exclusiveWrite _ _ => .exclusive

/-- How a call holds the mutex of its copy. -/
def Call.hold : Call → Hold
  -- std::shared_lock<std::shared_mutex> lock(shared_mtx_);
  | .sharedRead _ | .size => .shared
  -- std::unique_lock<std::shared_mutex> lock(shared_mtx_);
  | .sharedWrite _ _ => .exclusive
  -- std::lock_guard<std::mutex> lock(exclusive_mtx_);
  | .exclusiveRead _ | .exclusiveWrite _ _ => .exclusive

/-- The mutex and the map of each copy. -/
structure Members where
  mtx : Copy → SharedMutex
  data : Copy → Data

/-- The constructor: free locks and equal copies. -/
def Members.make (initialSize : ℕ) : Members := ⟨fun _ => .free, fun _ => initialData initialSize⟩

/-- The next statement of a thread. -/
inductive Pc
  | outside
  | lock (call : Call)
  | first (call : Call)
  | second (call : Call) (key : ℤ)
  | assign (call : Call) (key value : ℤ)
  | unlock (call : Call) (result : Option ℤ)
  | answer (call : Call) (result : Option ℤ)
deriving DecidableEq

/-- The calls, one statement at a time. -/
def exec (s : Members) : Pc → Option (Members × Pc)
  | .outside => none
  | .lock call => ((s.mtx call.copy).acquire call.hold).map fun mtx =>
      ({ s with mtx := Function.update s.mtx call.copy mtx }, .first call)
  | .first call =>
    match call.operation with
    -- auto it = data.find(key); return it != data.end() ? it->second : -1;
    | .read key =>
      some (s, if key ∈ s.data call.copy then .second call key else .unlock call (some (-1)))
    -- data[key] = value;
    | .write key value =>
      some ({ s with data := Function.update s.data call.copy (index (s.data call.copy) key) },
        .assign call key value)
    -- return data.size();
    | .size => some (s, .unlock call (some (s.data call.copy).keys.card))
  | .second call key => ((s.data call.copy).lookup key).map fun value =>
      (s, .unlock call (some value))
  | .assign call key value =>
    some ({ s with
      data := Function.update s.data call.copy ((s.data call.copy).insert key value) },
      .unlock call none)
  | .unlock call result =>
    some ({ s with
      mtx := Function.update s.mtx call.copy ((s.mtx call.copy).release call.hold) },
      .answer call result)
  | .answer _ _ => some (s, .outside)

/-- What the return from a call is seen as. -/
def observe (i : ι) : Pc → List (Exchange ι Call (Option ℤ))
  | .answer call result => [.returned i call result]
  | _ => []

/-- The object, every thread's position, and the log. -/
structure Config (ι : Type u) where
  members : Members
  pcs : ι → Pc
  log : List (Exchange ι Call (Option ℤ))

/-- Nobody has called anything yet. -/
def Config.init (initialSize : ℕ) : Config ι := ⟨.make initialSize, fun _ => .outside, []⟩

/-- A schedule lets a thread make a call, or go on. -/
inductive Label (ι : Type u)
  | call (i : ι) (call : Call)
  | go (i : ι)

variable [DecidableEq ι]

/-- One step of the whole program. -/
def step (c : Config ι) : Label ι → Option (Config ι)
  | .call i call =>
    if c.pcs i = .outside then
      some { c with
        pcs := Function.update c.pcs i (.lock call)
        log := c.log ++ [.called i call] }
    else none
  | .go i => (exec c.members (c.pcs i)).map fun (members, pc) =>
      ⟨members, Function.update c.pcs i pc, c.log ++ observe i (c.pcs i)⟩

/-- Every state some interleaving leads to. -/
def Reachable (initialSize : ℕ) (c : Config ι) : Prop := Reaches step (Config.init initialSize) c

/-- What a thread holds of the mutex of a copy. -/
def Pc.holds (copy : Copy) : Pc → Option Hold
  | .first call | .second call _ | .assign call _ _ | .unlock call _ =>
    if call.copy = copy then some call.hold else none
  | _ => none

/-- An element found is still there, and assigned to by calls that write. -/
def Pc.Valid (data : Copy → Data) : Pc → Prop
  | .second call key => call.operation = .read key ∧ key ∈ data call.copy
  | .assign call key value => call.operation = .write key value ∧ key ∈ data call.copy
  | _ => True

/-- No element is ever removed. -/
def Grows (data data' : Copy → Data) : Prop := ∀ copy key, key ∈ data copy → key ∈ data' copy

/-- `operator[]` has its key afterwards. -/
theorem mem_index (data : Data) (key : ℤ) : key ∈ index data key := by
  unfold index
  split
  next found => exact found
  next => exact Finmap.mem_insert.mpr (Or.inl rfl)

/-- `operator[]` keeps the keys there are. -/
theorem mem_index_of_mem {data : Data} {key other : ℤ} (member : other ∈ data) :
    other ∈ index data key := by
  unfold index
  split
  next => exact member
  next => exact Finmap.mem_insert.mpr (Or.inr member)

/-- Writing to an element that has been put there is writing to the key. -/
theorem insert_index (data : Data) (key value : ℤ) :
    (index data key).insert key value = data.insert key value := by
  unfold index
  split
  next => rfl
  next => exact Finmap.insert_insert data

/-- A copy that keeps its keys may be put in the place of the old one. -/
theorem grows_update {data : Copy → Data} {copy : Copy} {next : Data}
    (grows : ∀ key, key ∈ data copy → key ∈ next) : Grows data (Function.update data copy next) := by
  intro other key member
  by_cases same : other = copy
  · subst same
    rw [Function.update_self]
    exact grows key member
  · rw [Function.update_of_ne same]
    exact member

/-- What a thread knows of the keys stays right as they grow. -/
theorem Pc.Valid.grow {data data' : Copy → Data} {pc : Pc} (valid : pc.Valid data)
    (grows : Grows data data') : pc.Valid data' := by
  cases pc with
  | second call key => exact ⟨valid.1, grows _ _ valid.2⟩
  | assign call key value => exact ⟨valid.1, grows _ _ valid.2⟩
  | _ => trivial

/-- What a statement does. -/
structure Effect (s : Members) (pc : Pc) (s' : Members) (pc' : Pc) : Prop where
  holds : ∀ copy, HoldMove (Pc.holds copy) (s.mtx copy) pc (s'.mtx copy) pc'
  grows : Grows s.data s'.data
  valid : pc'.Valid s'.data

section OneMove

variable {s s' : Members} {pc pc' : Pc}

/-- A statement that leaves the mutexes alone. -/
theorem holds_kept (same : ∀ copy, pc'.holds copy = pc.holds copy) (mtx : s'.mtx = s.mtx)
    (copy : Copy) : HoldMove (Pc.holds copy) (s.mtx copy) pc (s'.mtx copy) pc' := by
  rw [mtx]
  exact .kept pc' (same copy)

/-- Taking a lock has its effect. -/
theorem lock_effect {call : Call} (moved : exec s (.lock call) = some (s', pc')) :
    Effect s (.lock call) s' pc' := by
  obtain ⟨mtx, granted, same⟩ := Option.map_eq_some_iff.mp moved
  obtain ⟨rfl, rfl⟩ := Prod.mk.inj same
  refine ⟨fun copy => ?_, fun _ _ member => member, trivial⟩
  dsimp only
  by_cases mine : copy = call.copy
  · subst mine
    rw [Function.update_self]
    exact .acquired mtx _ call.hold rfl granted (by simp [Pc.holds])
  · rw [Function.update_of_ne mine]
    exact .kept _ (by simp [Pc.holds, Ne.symm mine])

/-- Giving a lock back has its effect. -/
theorem unlock_effect {call : Call} {result : Option ℤ}
    (moved : exec s (.unlock call result) = some (s', pc')) :
    Effect s (.unlock call result) s' pc' := by
  obtain ⟨rfl, rfl⟩ := Prod.mk.inj (Option.some.inj moved)
  refine ⟨fun copy => ?_, fun _ _ member => member, trivial⟩
  dsimp only
  by_cases mine : copy = call.copy
  · subst mine
    rw [Function.update_self]
    exact .released _ call.hold (by simp [Pc.holds]) rfl
  · rw [Function.update_of_ne mine]
    exact .kept _ (by simp [Pc.holds, Ne.symm mine])

/-- The first statement under a lock has its effect. -/
theorem first_effect {call : Call} (moved : exec s (.first call) = some (s', pc')) :
    Effect s (.first call) s' pc' := by
  cases operation : call.operation with
  | read key =>
    simp only [exec, operation, Option.some.injEq, Prod.mk.injEq] at moved
    obtain ⟨rfl, rfl⟩ := moved
    by_cases found : key ∈ s.data call.copy
    · rw [if_pos found]
      exact ⟨holds_kept (fun _ => rfl) rfl, fun _ _ member => member, operation, found⟩
    · rw [if_neg found]
      exact ⟨holds_kept (fun _ => rfl) rfl, fun _ _ member => member, trivial⟩
  | write key value =>
    simp only [exec, operation, Option.some.injEq, Prod.mk.injEq] at moved
    obtain ⟨rfl, rfl⟩ := moved
    refine ⟨holds_kept (fun _ => rfl) rfl, grows_update fun _ => mem_index_of_mem, operation, ?_⟩
    dsimp only
    rw [Function.update_self]
    exact mem_index _ key
  | size =>
    simp only [exec, operation, Option.some.injEq, Prod.mk.injEq] at moved
    obtain ⟨rfl, rfl⟩ := moved
    exact ⟨holds_kept (fun _ => rfl) rfl, fun _ _ member => member, trivial⟩

/-- Every statement has its effect. -/
theorem exec_effect (moved : exec s pc = some (s', pc')) : Effect s pc s' pc' := by
  cases pc with
  | outside => simp [exec] at moved
  | lock call => exact lock_effect moved
  | first call => exact first_effect moved
  | second call key =>
    obtain ⟨value, _, same⟩ := Option.map_eq_some_iff.mp moved
    obtain ⟨rfl, rfl⟩ := Prod.mk.inj same
    exact ⟨holds_kept (fun _ => rfl) rfl, fun _ _ member => member, trivial⟩
  | assign call key value =>
    obtain ⟨rfl, rfl⟩ := Prod.mk.inj (Option.some.inj moved)
    exact ⟨holds_kept (fun _ => rfl) rfl,
      grows_update fun _ member => Finmap.mem_insert.mpr (Or.inr member), trivial⟩
  | unlock call result => exact unlock_effect moved
  | answer call result =>
    obtain ⟨rfl, rfl⟩ := Prod.mk.inj (Option.some.inj moved)
    exact ⟨holds_kept (fun _ => rfl) rfl, fun _ _ member => member, trivial⟩

end OneMove

section Run

variable [Fintype ι] {c c' : Config ι} {label : Label ι}

/-- Each mutex shows who holds it, and no element found goes away. -/
structure Sound (c : Config ι) : Prop where
  governed : ∀ copy, Governed (Pc.holds copy) (c.members.mtx copy) c.pcs
  valid : ∀ i, (c.pcs i).Valid c.members.data

omit [DecidableEq ι] in
/-- New members are sound. -/
theorem sound_init (initialSize : ℕ) : Sound (Config.init initialSize : Config ι) where
  governed _ := governed_free fun _ => rfl
  valid _ := trivial

/-- A statement of a thread keeps the members sound. -/
theorem sound_go {i : ι} {s' : Members} {pc' : Pc} (sound : Sound c)
    (moved : exec c.members (c.pcs i) = some (s', pc'))
    (log : List (Exchange ι Call (Option ℤ))) :
    Sound ⟨s', Function.update c.pcs i pc', log⟩ := by
  have effect := exec_effect moved
  constructor
  · exact fun copy => (sound.governed copy).move (effect.holds copy)
  · dsimp only
    rw [Function.forall_update_iff c.pcs fun _ pc => pc.Valid s'.data]
    exact ⟨effect.valid, fun j _ => (sound.valid j).grow effect.grows⟩

/-- A call keeps the members sound, as it has not taken a lock yet. -/
theorem sound_call {i : ι} {call : Call} (sound : Sound c) (outside : c.pcs i = .outside)
    (log : List (Exchange ι Call (Option ℤ))) :
    Sound { c with pcs := Function.update c.pcs i (.lock call), log } := by
  constructor
  · intro copy
    exact (sound.governed copy).move (.kept _ (by rw [outside]; rfl))
  · dsimp only
    rw [Function.forall_update_iff c.pcs fun _ pc => pc.Valid c.members.data]
    exact ⟨trivial, fun j _ => sound.valid j⟩

/-- Every step keeps the members sound. -/
theorem sound_preserved : Preserved step (Sound : Config ι → Prop) := by
  intro c label c' sound taken
  cases label with
  | call i call =>
    simp only [step, Option.ite_none_right_eq_some, Option.some.injEq] at taken
    obtain ⟨outside, rfl⟩ := taken
    exact sound_call sound outside _
  | go i =>
    obtain ⟨⟨s', pc'⟩, moved, rfl⟩ := Option.map_eq_some_iff.mp taken
    exact sound_go sound moved _

/-- The members are sound in every reachable state. -/
theorem reachable_sound {initialSize : ℕ} (reached : Reachable initialSize c) : Sound c :=
  sound_preserved.reaches (sound_init initialSize) reached

/-- The next statement reads or changes the map of a copy. -/
def Pc.accesses (copy : Copy) : Pc → Bool
  | .first call | .second call _ | .assign call _ _ => decide (call.copy = copy)
  | _ => false

/-- The next statement may put an element into the map of a copy, or change one. -/
def Pc.modifies (copy : Copy) : Pc → Bool
  | .first call =>
    match call.operation with
    | .write _ _ => decide (call.copy = copy)
    | _ => false
  | .assign call _ _ => decide (call.copy = copy)
  | _ => false

/-- Who is about to access a copy holds its lock. -/
theorem holds_of_accesses {copy : Copy} {pc : Pc} (accessing : pc.accesses copy = true) :
    pc.holds copy ≠ none := by
  cases pc <;> simp_all [Pc.accesses, Pc.holds]

/-- Calls that write have their mutex to themselves. -/
theorem hold_of_write {call : Call} {key value : ℤ} (writes : call.operation = .write key value) :
    call.hold = .exclusive := by
  cases call <;> simp_all [Call.operation, Call.hold]

/-- Who is about to change a copy holds its lock alone. -/
theorem holds_of_modifies {data : Copy → Data} {copy : Copy} {pc : Pc} (valid : pc.Valid data)
    (modifying : pc.modifies copy = true) : pc.holds copy = some .exclusive := by
  cases pc with
  | first call =>
    cases operation : call.operation with
    | write key value =>
      simp only [Pc.modifies, operation, decide_eq_true_eq] at modifying
      simp [Pc.holds, modifying, hold_of_write operation]
    | _ => simp [Pc.modifies, operation] at modifying
  | assign call key value =>
    simp only [Pc.modifies, decide_eq_true_eq] at modifying
    simp [Pc.holds, modifying, hold_of_write valid.1]
  | _ => simp [Pc.modifies] at modifying

/-- The threads go on with their calls and make no more. -/
def going (c : Config ι) (i : ι) : Option (Config ι) := step c (.go i)

/-- The statements left of a call. -/
def Pc.left : Pc → ℕ
  | .outside => 0
  | .answer _ _ => 1
  | .unlock _ _ => 2
  | .second _ _ | .assign _ _ _ => 3
  | .first _ => 4
  | .lock _ => 5

/-- Every statement leaves fewer to be executed. -/
theorem exec_left {s s' : Members} {pc pc' : Pc} (moved : exec s pc = some (s', pc')) :
    pc'.left < pc.left := by
  cases pc with
  | outside => simp [exec] at moved
  | lock call =>
    obtain ⟨mtx, _, same⟩ := Option.map_eq_some_iff.mp moved
    obtain ⟨_, rfl⟩ := Prod.mk.inj same
    simp [Pc.left]
  | first call =>
    cases operation : call.operation with
    | read key =>
      simp only [exec, operation, Option.some.injEq, Prod.mk.injEq] at moved
      obtain ⟨_, rfl⟩ := moved
      split <;> simp [Pc.left]
    | _ =>
      simp only [exec, operation, Option.some.injEq, Prod.mk.injEq] at moved
      obtain ⟨_, rfl⟩ := moved
      simp [Pc.left]
  | second call key =>
    obtain ⟨value, _, same⟩ := Option.map_eq_some_iff.mp moved
    obtain ⟨_, rfl⟩ := Prod.mk.inj same
    simp [Pc.left]
  | _ =>
    obtain ⟨_, rfl⟩ := Prod.mk.inj (Option.some.inj moved)
    simp [Pc.left]

/-- The statements left of all calls. -/
def left (c : Config ι) : ℕ := tally (fun _ => Pc.left) c.pcs

/-- The statements left to all threads become fewer with each step. -/
theorem left_lowers : Lowers (going (ι := ι)) Sound left := by
  intro c i c' _ taken
  obtain ⟨⟨s', pc'⟩, moved, rfl⟩ := Option.map_eq_some_iff.mp taken
  have exchanged := tally_update (fun _ => Pc.left) c.pcs i pc'
  have fewer := exec_left moved
  simp only [left]
  omega

/-- Going on keeps the members sound. -/
theorem going_sound : Preserved (going (ι := ι)) Sound :=
  fun c i c' sound taken => sound_preserved c (.go i) c' sound taken

/-- A thread in a call that cannot go on waits for a mutex that somebody holds. -/
theorem waits_of_stuck {i : ι} (sound : Sound c) (stuck : step c (.go i) = none) :
    c.pcs i = .outside ∨ ∃ call, c.pcs i = .lock call ∧ c.members.mtx call.copy ≠ .free := by
  have blocked : exec c.members (c.pcs i) = none := Option.map_eq_none_iff.mp stuck
  cases standing : c.pcs i with
  | outside => exact Or.inl rfl
  | lock call =>
    refine Or.inr ⟨call, rfl, fun free => ?_⟩
    obtain ⟨mtx, granted⟩ := SharedMutex.acquire_free call.hold
    rw [← free] at granted
    simp [standing, exec, granted] at blocked
  | first call =>
    cases operation : call.operation <;> simp [standing, exec, operation] at blocked
  | second call key =>
    have valid := sound.valid i
    simp only [standing, Pc.Valid] at valid
    simp only [standing, exec, Option.map_eq_none_iff, Finmap.lookup_eq_none] at blocked
    exact absurd valid.2 blocked
  | _ => simp [standing, exec] at blocked

/-- If no thread can go on, none is in a call. -/
theorem outside_of_stuck (sound : Sound c) (stuck : Stuck going c) (i : ι) :
    c.pcs i = .outside := by
  have nobody : ∀ copy j, (c.pcs j).holds copy = none := by
    intro copy j
    rcases waits_of_stuck sound (stuck j) with outside | ⟨call, waiting, _⟩
    · rw [outside]; rfl
    · rw [waiting]; rfl
  rcases waits_of_stuck sound (stuck i) with outside | ⟨call, _, held⟩
  · exact outside
  · exact absurd ((sound.governed call.copy).free_of_nobody (nobody call.copy)) held

/-- No map is changed while another thread is at it, and no call is kept from returning. For
any number of threads, any calls of both copies and every interleaving: a thread about to
change the map of a copy is the only one about to read or change it; while some thread is in
a call, some thread can go on; the threads go on for at most five statements each before all
calls made so far have returned, and they can get there. -/
theorem calls_race_free_and_return (initialSize : ℕ) (c : Config ι)
    (reached : Reachable initialSize c) :
    (∀ i j copy, (c.pcs i).modifies copy = true → (c.pcs j).accesses copy = true → i = j) ∧
    ((∃ i, c.pcs i ≠ .outside) → ∃ i, going c i ≠ none) ∧
    (∀ schedule last, run going c schedule = some last →
      schedule.length ≤ 5 * Fintype.card ι) ∧
    ∃ last, Reaches going c last ∧ ∀ i, last.pcs i = .outside := by
  have sound := reachable_sound reached
  refine ⟨fun i j copy modifying accessing => ?_, fun ⟨i, inside⟩ => ?_, fun schedule last played => ?_,
    ?_⟩
  · exact (sound.governed copy).alone (holds_of_modifies (sound.valid i) modifying)
      (holds_of_accesses accessing)
  · by_contra none
    have stuck : Stuck going c := fun j => by
      by_contra enabled
      exact none ⟨j, enabled⟩
    exact inside (outside_of_stuck sound stuck i)
  · have spent := left_lowers.length_le going_sound sound played
    have few : left c ≤ ∑ _i : ι, 5 := by
      refine Finset.sum_le_sum fun i _ => ?_
      cases c.pcs i <;> simp [Pc.left]
    rw [Finset.sum_const, Finset.card_univ, smul_eq_mul] at few
    omega
  · obtain ⟨last, onward, stuck⟩ := left_lowers.exists_stuck going_sound sound
    have final : Sound last := going_sound.reaches sound onward
    exact ⟨last, onward, outside_of_stuck final stuck⟩

/-- One thread is reading the shared copy, another waits to write it. -/
theorem calls_race_free_and_return_two : ∃ c : Config (Fin 2), Reachable 2 c ∧
    c.pcs 0 = .second (.sharedRead 1) 1 ∧ c.pcs 1 = .lock (.sharedWrite 1 7) ∧
    step c (.go 1) = none ∧ ∃ i, going c i ≠ none := by
  have played : (run step (Config.init 2 : Config (Fin 2))
      [.call 0 (.sharedRead 1), .go 0, .call 1 (.sharedWrite 1 7), .go 0]).map
      (fun c => (c.pcs 0, c.pcs 1, (step c (.go 1)).isNone)) =
      some (.second (.sharedRead 1) 1, .lock (.sharedWrite 1 7), true) := by
    decide +kernel
  obtain ⟨c, reached, final⟩ := Option.map_eq_some_iff.mp played
  obtain ⟨reading, rest⟩ := Prod.mk.inj final
  obtain ⟨waiting, blocked⟩ := Prod.mk.inj rest
  obtain ⟨_, goes, _⟩ := calls_race_free_and_return 2 c ⟨_, reached⟩
  exact ⟨c, ⟨_, reached⟩, reading, waiting, Option.isNone_iff_eq_none.mp blocked,
    goes ⟨0, by rw [reading]; simp⟩⟩

end Run

end ConcurrencyBench.ReadWriteData
