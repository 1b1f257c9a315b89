import ConcurrencyBench.TimerSession

/-!
# The timer service resumes each handle once, and not early

The worker reads the top of the heap, compares it with the clock and removes it in one
critical section, so the entry it removes is still on top and due. Between removing
an entry and resuming its handle nothing else happens to it. So each entry scheduled
is on its way to the heap, in the heap, in the worker's hands, or resumed.

The worker returns with the flag set and the heap empty. If no other thread's call
overlaps the destructor, nobody is in a call of `schedule` by then, and nobody begins
one. All that has been scheduled has been resumed.
-/

namespace ConcurrencyBench.TimerSession

open Interleaving TimerService

universe u v
variable {ι : Type u} {H : Type v}

/-- Inside a block under the mutex. -/
def Pc.locked : Pc H → Bool
  | .elsewhere => false
  | .calling _ place => match place with
    | .push _ | .unlock => true
    | _ => false
  | .destructor place => match place with
    | .storeStop | .unlock => true
    | _ => false
  | .worker _ place => match place with
    | .lock | .exited | .asleep | .asleepUntil _ | .resume _ => false
    | _ => true

/-- The entry a thread has in hand: on its way to the heap, or taken out to be resumed. -/
def Pc.carried : Pc H → Option (Entry H)
  | .calling handle place => match place with
    | .lock due | .push due => some ⟨due, handle⟩
    | _ => none
  | .worker entry place => match place with
    | .unlock handle | .resume handle => entry.map fun entry => ⟨entry.when, handle⟩
    | _ => none
  | _ => none

/-- The thread is in the destructor. -/
def Pc.destroying : Pc H → Bool
  | .destructor _ => true
  | _ => false

/-- The worker has exited once it is at its end. -/
theorem exited_iff {pc : Pc H} : pc.exited = true ↔ ∃ copy, pc = .worker copy .exited := by
  cases pc with
  | worker copy place => cases place <;> simp [Pc.exited]
  | _ => simp [Pc.exited]

/-- A position belongs to its thread. -/
def Party.Runs : Party ι → Pc H → Prop
  | .main, .worker _ _ => False
  | .timer, .destructor _ => False
  | .other _, .worker _ _ => False
  | .other _, .destructor _ => False
  | _, _ => True

/-- What the worker has seen of the heap, the flag and the clock. -/
def Knows (now : ℤ) (s : Timers ι H) : Pc H → Prop
  | .worker entry place => match place with
    | .exitUnlock => s.stop = true ∧ s.heap = []
    | .dueTest top => entry = some top ∧ s.IsTop top
    | .pop top => entry = some top ∧ s.IsTop top ∧ top.when ≤ now
    | .unlock handle | .resume handle => ∃ top, entry = some top ∧ top.handle = handle ∧ top.when ≤ now
    | _ => True
  | _ => True

/-- The entry of a call, with the deadline of the clock value it has read and its delay. -/
def Event.due : Event H → Option (Entry H)
  | .scheduled handle time delay => some ⟨deadline time delay, handle⟩
  | _ => none

/-- The entry of a resumption. -/
def Event.fired : Event H → Option (Entry H)
  | .resumed entry _ => some entry
  | _ => none

/-- What one move does to the mutex, the heap, the flag, and the account of each entry. -/
structure Effect [DecidableEq H] (i : ι) (now : ℤ) (s : Timers ι H) (pc : Pc H) (s' : Timers ι H)
    (pc' : Pc H) (events : List (Event H)) : Prop where
  lock : LockMove Pc.locked i s.mu pc s'.mu pc'
  knows : Knows now s' pc'
  heap : s'.heap = s.heap ∨ (∃ handle due, pc = .calling handle (.push due)) ∨
    ∃ entry top, pc = .worker entry (.pop top)
  stop : s'.stop = s.stop ∨ s'.stop = true ∧ pc = .destructor .storeStop
  destroying : pc.destroying = true → pc'.destroying = true
  begins : pc'.destroying = true → pc.destroying = true ∨ pc = .elsewhere
  exits : pc'.exited = true → ∃ entry, pc = .worker entry .exitUnlock
  timely : ∀ entry time, .resumed entry time ∈ events → entry.when ≤ time
  account : ∀ e, (events.filterMap Event.fired).count e + s'.heap.count e +
      (if pc'.carried = some e then 1 else 0) =
    (events.filterMap Event.due).count e + s.heap.count e + (if pc.carried = some e then 1 else 0)

section OneMove

variable [DecidableEq H] {exited : Bool} {i : Party ι} {now : ℤ} {s s' : Timers (Party ι) H}

/-- A statement that leaves the heap, the flag and what its thread has in hand as they are,
and is not recorded. -/
theorem still_effect {pc pc' : Pc H} {owner : Option (Party ι)} {asleep : Bool}
    (lock : LockMove Pc.locked i s.mu pc owner pc')
    (knows : Knows now { s with mu := owner, asleep } pc')
    (destroying : pc'.destroying = pc.destroying)
    (exits : pc'.exited = true → ∃ entry, pc = .worker entry .exitUnlock)
    (carried : pc'.carried = pc.carried) :
    Effect i now s pc { s with mu := owner, asleep } pc' [] where
  lock := lock
  knows := knows
  heap := .inl rfl
  stop := .inl rfl
  destroying inside := destroying.trans inside
  begins inside := .inl (destroying.symm.trans inside)
  exits := exits
  timely := nofun
  account e := by
    rw [carried]
    rfl

/-- Every statement of `schedule` has its effect. -/
theorem calling_effect {handle : H} {place : ScheduleAt} {next : Option ScheduleAt}
    (moved : schedule i now handle s place = some (s', next)) :
    Effect i now s (.calling handle place) s' (next.elim .elsewhere (.calling handle))
      (observe now (.calling handle place)) := by
  cases place with
  | readClock delay =>
    obtain ⟨rfl, rfl⟩ := Prod.mk.inj (Option.some.inj moved)
    exact {
      lock := .kept _ _ _ rfl
      knows := trivial
      heap := .inl rfl
      stop := .inl rfl
      destroying := nofun
      begins := nofun
      exits := nofun
      timely := fun _ _ member => nomatch List.mem_singleton.mp member
      account := fun e => by
        have recorded : (observe now (.calling handle (.readClock delay))).filterMap Event.due =
            [⟨deadline now delay, handle⟩] := rfl
        have silent : (observe now (.calling handle (.readClock delay))).filterMap Event.fired =
            [] := rfl
        rw [recorded, silent]
        simp [Pc.carried, List.count_singleton, Nat.add_comm] }
  | lock due =>
    obtain ⟨free, rfl, rfl⟩ := lock_map_eq_some_iff.mp moved
    refine still_effect ?_ trivial rfl nofun rfl
    rw [free]
    exact .acquired _ _ rfl
  | push due =>
    obtain ⟨rfl, rfl⟩ := Prod.mk.inj (Option.some.inj moved)
    exact {
      lock := .kept _ _ _ rfl
      knows := trivial
      heap := .inr (.inl ⟨handle, due, rfl⟩)
      stop := .inl rfl
      destroying := nofun
      begins := nofun
      exits := nofun
      timely := nofun
      account := fun e => by simp [observe, Pc.carried, List.count_cons] }
  | unlock =>
    obtain ⟨rfl, rfl⟩ := Prod.mk.inj (Option.some.inj moved)
    exact still_effect (.released _ _ _ rfl rfl) trivial rfl nofun rfl
  | notifyOne =>
    obtain ⟨rfl, rfl⟩ := Prod.mk.inj (Option.some.inj moved)
    exact still_effect (.kept _ _ _ rfl) trivial rfl nofun rfl

/-- Every statement of the destructor has its effect. -/
theorem destructor_effect {place place' : DestructorAt}
    (moved : destroy i exited s place = some (s', place')) :
    Effect i now s (.destructor place : Pc H) s' (.destructor place') [] := by
  cases place with
  | lock =>
    obtain ⟨free, rfl, rfl⟩ := lock_map_eq_some_iff.mp moved
    refine still_effect ?_ trivial rfl nofun rfl
    rw [free]
    exact .acquired _ _ rfl
  | storeStop =>
    obtain ⟨rfl, rfl⟩ := Prod.mk.inj (Option.some.inj moved)
    exact {
      lock := .kept _ _ _ rfl
      knows := trivial
      heap := .inl rfl
      stop := .inr ⟨rfl, rfl⟩
      destroying := fun _ => rfl
      begins := fun _ => .inl rfl
      exits := nofun
      timely := nofun
      account := fun _ => rfl }
  | unlock =>
    obtain ⟨rfl, rfl⟩ := Prod.mk.inj (Option.some.inj moved)
    exact still_effect (.released _ _ _ rfl rfl) trivial rfl nofun rfl
  | notifyAll =>
    obtain ⟨rfl, rfl⟩ := Prod.mk.inj (Option.some.inj moved)
    exact still_effect (.kept _ _ _ rfl) trivial rfl nofun rfl
  | join =>
    obtain ⟨_, moved⟩ := Option.ite_none_right_eq_some.mp moved
    obtain ⟨rfl, rfl⟩ := Prod.mk.inj (Option.some.inj moved)
    exact still_effect (.kept _ _ _ rfl) trivial rfl nofun rfl
  | done => cases moved

/-- Removing the copied entry takes it from the heap into the worker's hands. -/
theorem pop_effect {entry : Option (Entry H)} {top : Entry H}
    (known : Knows now s (.worker entry (.pop top))) :
    Effect i now s (.worker entry (.pop top)) { s with heap := s.heap.erase top }
      (.worker entry (.unlock top.handle)) [] where
  lock := .kept _ _ _ rfl
  knows := ⟨top, known.1, rfl, known.2.2⟩
  heap := .inr (.inr ⟨entry, top, rfl⟩)
  stop := .inl rfl
  destroying := nofun
  begins := nofun
  exits := nofun
  timely := nofun
  account e := by
    obtain ⟨rfl, ⟨member, _⟩, due⟩ := known
    have carried : (Pc.worker (some top) (.unlock top.handle)).carried = some top := rfl
    have before : (Pc.worker (some top) (.pop top)).carried = none := rfl
    have taken := (List.perm_cons_erase member).count_eq e
    rw [List.count_cons] at taken
    rw [carried, before]
    by_cases same : top = e <;> simp [same] at taken ⊢ <;> omega

/-- Every statement of the worker has its effect. -/
theorem worker_effect {entry : Option (Entry H)} {place place' : WorkerAt H}
    (known : Knows now s (.worker entry place)) (moved : run i now s place = some (s', place')) :
    Effect i now s (.worker entry place) s' (.worker entry place') [] := by
  cases place with
  | lock =>
    obtain ⟨free, rfl, rfl⟩ := lock_map_eq_some_iff.mp moved
    refine still_effect ?_ trivial rfl nofun rfl
    rw [free]
    exact .acquired _ _ rfl
  | exitTest =>
    obtain ⟨rfl, next⟩ := Prod.mk.inj (Option.some.inj moved)
    obtain ⟨both, rfl⟩ | ⟨_, rfl⟩ := ite_eq_iff.mp next
    · rw [Bool.and_eq_true, List.isEmpty_iff] at both
      exact still_effect (.kept _ _ _ rfl) both rfl nofun rfl
    · exact still_effect (.kept _ _ _ rfl) trivial rfl nofun rfl
  | exitUnlock =>
    obtain ⟨rfl, rfl⟩ := Prod.mk.inj (Option.some.inj moved)
    exact still_effect (.released _ _ _ rfl rfl) trivial rfl (fun _ => ⟨entry, rfl⟩) rfl
  | emptyTest | waitTest =>
    obtain ⟨rfl, next⟩ := Prod.mk.inj (Option.some.inj moved)
    obtain ⟨_, rfl⟩ | ⟨_, rfl⟩ := ite_eq_iff.mp next <;>
      exact still_effect (.kept _ _ _ rfl) trivial rfl nofun rfl
  | sleep | sleepUntil =>
    obtain ⟨rfl, rfl⟩ := Prod.mk.inj (Option.some.inj moved)
    exact still_effect (.released _ _ _ rfl rfl) trivial rfl nofun rfl
  | asleep | asleepUntil =>
    obtain ⟨_, moved⟩ := Option.ite_none_left_eq_some.mp moved
    obtain ⟨free, rfl, rfl⟩ := lock_map_eq_some_iff.mp moved
    refine still_effect ?_ trivial rfl nofun rfl
    rw [free]
    exact .acquired _ _ rfl
  | dueTest top =>
    obtain ⟨rfl, next⟩ := Prod.mk.inj (Option.some.inj moved)
    obtain ⟨_, rfl⟩ | ⟨due, rfl⟩ := ite_eq_iff.mp next
    · exact still_effect (.kept _ _ _ rfl) trivial rfl nofun rfl
    · exact still_effect (.kept _ _ _ rfl) ⟨known.1, known.2, Int.not_lt.mp due⟩ rfl nofun rfl
  | pop top =>
    obtain ⟨rfl, rfl⟩ := Prod.mk.inj (Option.some.inj moved)
    exact pop_effect known
  | unlock handle =>
    obtain ⟨rfl, rfl⟩ := Prod.mk.inj (Option.some.inj moved)
    exact still_effect (.released _ _ _ rfl rfl) known rfl nofun rfl
  | exited | top | resume => cases moved

/-- Resuming a handle is recorded and takes its entry out of the worker's hands. -/
theorem resume_effect {entry : Option (Entry H)} {handle : H}
    (known : Knows now s (.worker entry (.resume handle))) :
    Effect i now s (.worker entry (.resume handle)) s .elsewhere
      (observe now (.worker entry (.resume handle))) := by
  obtain ⟨top, rfl, rfl, due⟩ := known
  exact {
    lock := .kept _ _ _ rfl
    knows := trivial
    heap := .inl rfl
    stop := .inl rfl
    destroying := nofun
    begins := nofun
    exits := nofun
    timely := fun _ _ member => by
      obtain ⟨rfl, rfl⟩ := Event.resumed.inj (List.mem_singleton.mp member)
      exact due
    account := fun e => by
      have recorded : (observe now (.worker (some top) (.resume top.handle))).filterMap
          Event.fired = [top] := rfl
      have silent : (observe now (.worker (some top) (.resume top.handle))).filterMap Event.due =
          [] := rfl
      have inHand : (Pc.worker (some top) (.resume top.handle)).carried = some top := rfl
      rw [recorded, silent, inHand]
      simp [Pc.carried, List.count_singleton, Nat.add_comm] }

/-- Every statement has its effect. -/
theorem exec_effect {pc pc' : Pc H} (known : Knows now s pc)
    (moved : exec exited i now s pc = some (s', pc')) :
    Effect i now s pc s' pc' (observe now pc) := by
  cases pc with
  | elsewhere =>
    cases i with
    | main =>
      obtain ⟨rfl, rfl⟩ := Prod.mk.inj (Option.some.inj moved)
      exact {
        lock := .kept _ _ _ rfl
        knows := trivial
        heap := .inl rfl
        stop := .inl rfl
        destroying := nofun
        begins := fun _ => .inr rfl
        exits := nofun
        timely := nofun
        account := fun _ => rfl }
    | timer =>
      obtain ⟨rfl, rfl⟩ := Prod.mk.inj (Option.some.inj moved)
      exact still_effect (.kept _ _ _ rfl) trivial rfl nofun rfl
    | other => cases moved
  | calling handle place =>
    obtain ⟨⟨_, _⟩, taken, same⟩ := Option.map_eq_some_iff.mp moved
    obtain ⟨rfl, rfl⟩ := Prod.mk.inj same
    exact calling_effect taken
  | destructor place =>
    obtain ⟨⟨_, _⟩, taken, same⟩ := Option.map_eq_some_iff.mp moved
    obtain ⟨rfl, rfl⟩ := Prod.mk.inj same
    exact destructor_effect taken
  | worker entry place =>
    rcases exec_worker_cases moved with ⟨handle, rfl, rfl, rfl⟩ | ⟨place', ran, rfl, silent⟩
    · exact resume_effect known
    · rw [silent]
      exact worker_effect known ran

/-- Every move of a thread has its effect. -/
theorem move_effect {pc pc' : Pc H} {events : List (Event H)} (known : Knows now s pc)
    (moved : Move exited i now s pc s' pc' events) : Effect i now s pc s' pc' events := by
  cases moved with
  | call outside handle delay =>
    subst outside
    exact still_effect (.kept _ _ _ rfl) trivial rfl nofun rfl
  | exec _ _ moved => exact exec_effect known moved
  | top worker before standing entry top =>
    subst standing
    exact still_effect (.kept _ _ _ rfl) ⟨rfl, top⟩ rfl nofun rfl

omit [DecidableEq H] in
/-- Every thread may be in `schedule`. -/
theorem runs_calling (i : Party ι) (handle : H) (place : ScheduleAt) :
    i.Runs (.calling handle place) := by
  cases i <;> trivial

/-- A thread that moves stays in its own code. -/
theorem move_runs {pc pc' : Pc H} {events : List (Event H)} (runs : i.Runs pc)
    (moved : Move exited i now s pc s' pc' events) : i.Runs pc' := by
  cases moved with
  | call => exact runs_calling i _ _
  | exec _ _ moved =>
    cases pc with
    | elsewhere => cases i <;> simp [exec] at moved <;> (rw [← moved.2]; trivial)
    | calling handle place =>
      obtain ⟨⟨_, next⟩, _, same⟩ := Option.map_eq_some_iff.mp moved
      obtain ⟨rfl, rfl⟩ := Prod.mk.inj same
      cases next with
      | none => cases i <;> trivial
      | some place => exact runs_calling i handle place
    | destructor place =>
      obtain ⟨⟨_, _⟩, _, same⟩ := Option.map_eq_some_iff.mp moved
      obtain ⟨rfl, rfl⟩ := Prod.mk.inj same
      cases i <;> trivial
    | worker entry place =>
      cases i with
      | timer =>
        rcases exec_worker_cases moved with ⟨_, _, _, rfl⟩ | ⟨_, _, rfl, _⟩ <;> trivial
      | _ => exact runs.elim
  | top worker =>
    subst worker
    trivial

end OneMove

/-- What is on top depends on the heap only. -/
theorem isTop_congr {s s' : Timers ι H} {entry : Entry H} (heap : s'.heap = s.heap)
    (top : s.IsTop entry) : s'.IsTop entry := by
  rw [Timers.IsTop, heap]
  exact top

/-- A thread keeps what it knows while the heap is left alone, and while it is outside the mutex. -/
theorem Knows.kept {now now' : ℤ} {s s' : Timers ι H} {pc : Pc H} (known : Knows now s pc)
    (later : now ≤ now')
    (quiet : (s'.heap = s.heap ∧ (s.stop = true → s'.stop = true)) ∨ pc.locked = false) :
    Knows now' s' pc := by
  cases pc with
  | worker entry place =>
    cases place with
    | unlock handle | resume handle =>
      obtain ⟨top, copied, same, due⟩ := known
      exact ⟨top, copied, same, due.trans later⟩
    | exitUnlock =>
      obtain ⟨heap, stop⟩ := quiet.resolve_right nofun
      exact ⟨stop known.1, heap.trans known.2⟩
    | dueTest top =>
      obtain ⟨heap, _⟩ := quiet.resolve_right nofun
      exact ⟨known.1, isTop_congr heap known.2⟩
    | pop top =>
      obtain ⟨heap, _⟩ := quiet.resolve_right nofun
      exact ⟨known.1, isTop_congr heap known.2.1, known.2.2.trans later⟩
    | _ => trivial
  | _ => trivial

section Run

variable [Fintype ι] [DecidableEq ι] [DecidableEq H]

/-- Whether a thread carries the entry. -/
def carries (e : Entry H) (_ : Party ι) (pc : Pc H) : ℕ := if pc.carried = some e then 1 else 0

/-- Everything a session keeps. -/
structure Sound (c : Config ι H) : Prop where
  mutex : Owned Pc.locked c.timers.mu c.pcs
  runs : ∀ i : Party ι, i.Runs (c.pcs i)
  knows : ∀ i, Knows c.now c.timers (c.pcs i)
  stopper : c.timers.stop = true → (c.pcs .main).destroying = true
  timely : ∀ entry time, .resumed entry time ∈ c.log → entry.when ≤ time
  account : ∀ e, (c.log.filterMap Event.fired).count e + c.timers.heap.count e +
    tally (carries e) c.pcs = (c.log.filterMap Event.due).count e

omit [DecidableEq ι] in
/-- The new service is sound. -/
theorem sound_init : Sound (Config.init : Config ι H) where
  mutex i := by cases i <;> simp [Config.init, Timers.make, Pc.locked]
  runs i := by cases i <;> trivial
  knows i := by cases i <;> trivial
  stopper := by simp [Config.init, Timers.make]
  timely := by simp [Config.init]
  account e := by
    have nothing : tally (carries e) (Config.init : Config ι H).pcs = 0 := by
      rw [tally_eq_zero_iff]
      intro i
      cases i <;> rfl
    rw [nothing]
    rfl

omit [DecidableEq ι] in
/-- While one thread holds the mutex, the others are outside. -/
theorem Sound.outside {c : Config ι H} (sound : Sound c)
    {i j : Party ι} (other : j ≠ i) (inside : (c.pcs i).locked = true) :
    (c.pcs j).locked = false := by
  by_contra held
  exact other (sound.mutex.exclusive (by simpa using held) inside)

/-- Every step keeps the service sound. -/
theorem sound_preserved : Preserved step (Sound : Config ι H → Prop) := by
  intro c label c' sound taken
  rcases step_cases taken with ⟨i, timers, pc, events, moved, rfl⟩ | ⟨now, asleep, later, _, rfl⟩
  · have effect := move_effect (sound.knows i) moved
    constructor
    case mutex => exact sound.mutex.move effect.lock
    case runs =>
      dsimp only
      rw [Function.forall_update_iff c.pcs fun i p => i.Runs p]
      exact ⟨move_runs (sound.runs i) moved, fun j _ => sound.runs j⟩
    case knows =>
      dsimp only
      rw [Function.forall_update_iff c.pcs fun _ p => Knows c.now timers p]
      refine ⟨effect.knows, fun j other => (sound.knows j).kept le_rfl ?_⟩
      rcases effect.heap with same | ⟨_, _, pushing⟩ | ⟨_, _, popping⟩
      · refine .inl ⟨same, fun stop => ?_⟩
        rcases effect.stop with unchanged | ⟨set, _⟩
        · rw [unchanged, stop]
        · exact set
      · exact .inr (sound.outside other (by simp [pushing, Pc.locked]))
      · exact .inr (sound.outside other (by simp [popping, Pc.locked]))
    case stopper =>
      intro stop
      have before : (c.pcs .main).destroying = true := by
        rcases effect.stop with unchanged | ⟨_, storing⟩
        · exact sound.stopper (unchanged ▸ stop)
        · have runs := sound.runs i
          cases i <;> simp_all [Party.Runs, Pc.destroying]
      by_cases mine : Party.main = i
      · subst mine
        simpa using effect.destroying before
      · simpa [Function.update_of_ne mine] using before
    case timely =>
      intro entry time member
      rcases List.mem_append.mp member with earlier | now
      · exact sound.timely entry time earlier
      · exact effect.timely entry time now
    case account =>
      intro e
      have before := sound.account e
      have change := effect.account e
      have exchanged := tally_update (carries e) c.pcs i pc
      simp only [List.filterMap_append, List.count_append, carries] at before change exchanged ⊢
      omega
  · refine ⟨sound.mutex, sound.runs, fun i => (sound.knows i).kept later (.inl ⟨rfl, id⟩),
      sound.stopper, sound.timely, sound.account⟩

omit [Fintype ι] [DecidableEq ι] [DecidableEq H] in
/-- The thread is in no function of the service. -/
def Pc.outside : Pc H → Bool
  | .elsewhere => true
  | _ => false

/-- The step keeps other threads' calls of `schedule` apart from the destructor: they do
not begin one after it has started, and are not in one when it starts. -/
def undisturbed (c : Config ι H) : Label ι H → Bool
  | .call (.other _) _ _ => !(c.pcs .main).destroying
  | .go .main => !(c.pcs .main).outside || decide (∀ j, (c.pcs (.other j)).outside = true)
  | _ => true

/-- Nobody but the worker schedules once the destructor has started, and the heap stays
empty once the worker has returned. -/
structure Drained (c : Config ι H) : Prop where
  alone : (c.pcs .main).destroying = true → ∀ j, (c.pcs (.other j)).outside = true
  empty : (c.pcs .timer).exited = true → c.timers.stop = true ∧ c.timers.heap = []

omit [Fintype ι] [DecidableEq ι] [DecidableEq H] in
/-- The new service has not been stopped. -/
theorem drained_init : Drained (Config.init : Config ι H) where
  alone destroying := by simp [Config.init, Pc.destroying] at destroying
  empty exited := by simp [Config.init, Pc.exited] at exited

/-- The destructor starts with the other threads elsewhere, and they stay there. -/
theorem alone_step {c c' : Config ι H} {label : Label ι H} (sound : Sound c) (drained : Drained c)
    (accepted : undisturbed c label = true) (taken : step c label = some c')
    (destroying : (c'.pcs .main).destroying = true) (j : ι) :
    (c'.pcs (.other j)).outside = true := by
  cases label with
  | call i handle delay =>
    simp only [step] at taken
    split at taken
    · obtain rfl := Option.some.inj taken
      cases i with
      | main => simp [Pc.destroying] at destroying
      | timer => simpa using drained.alone (by simpa using destroying) j
      | other k =>
        simp only [undisturbed, Bool.not_eq_true'] at accepted
        simp [accepted] at destroying
    · contradiction
  | go i =>
    obtain ⟨⟨timers, pc⟩, moved, rfl⟩ := Option.map_eq_some_iff.mp taken
    cases i with
    | main =>
      have effect := exec_effect (sound.knows .main) moved
      have alone : (c.pcs (.other j)).outside = true := by
        rcases effect.begins (by simpa using destroying) with before | starting
        · exact drained.alone before j
        · have outside : (c.pcs .main).outside = true := by rw [starting]; rfl
          simp only [undisturbed, outside, Bool.not_true, Bool.false_or] at accepted
          exact of_decide_eq_true accepted j
      simpa using alone
    | timer => simpa using drained.alone (by simpa using destroying) j
    | other k =>
      have alone := drained.alone (by simpa using destroying)
      have outside := alone k
      cases standing : c.pcs (.other k) with
      | elsewhere => simp [standing, exec] at moved
      | _ => simp [standing, Pc.outside] at outside
  | top entry =>
    simp only [step] at taken
    split at taken
    · simp only [Option.ite_none_right_eq_some, Option.some.injEq] at taken
      obtain ⟨_, rfl⟩ := taken
      simpa using drained.alone (by simpa using destroying) j
    · contradiction
  | wake =>
    simp only [step, Option.ite_none_right_eq_some, Option.some.injEq] at taken
    obtain ⟨_, rfl⟩ := taken
    exact drained.alone destroying j
  | tick d =>
    obtain rfl := Option.some.inj taken
    exact drained.alone destroying j

/-- The worker returns with the flag set and the heap empty, and nobody is left to push. -/
theorem empty_step {c c' : Config ι H} {label : Label ι H} (sound : Sound c) (drained : Drained c)
    (taken : step c label = some c') (exited : (c'.pcs .timer).exited = true) :
    c'.timers.stop = true ∧ c'.timers.heap = [] := by
  rcases step_cases taken with ⟨i, timers, pc, events, moved, rfl⟩ | ⟨now, asleep, _, _, rfl⟩
  · have effect := move_effect (sound.knows i) moved
    have before : c.timers.stop = true ∧ c.timers.heap = [] ∧
        ∀ handle due, c.pcs i ≠ .calling handle (.push due) := by
      by_cases mine : Party.timer = i
      · subst mine
        obtain ⟨entry, standing⟩ := effect.exits (by simpa using exited)
        have known := sound.knows .timer
        rw [standing] at known
        exact ⟨known.1, known.2, by simp [standing]⟩
      · obtain ⟨stop, empty⟩ := drained.empty (by simpa [Function.update_of_ne mine] using exited)
        refine ⟨stop, empty, fun handle due pushing => ?_⟩
        cases i with
        | main =>
          have destroying := sound.stopper stop
          simp [pushing, Pc.destroying] at destroying
        | timer => exact mine rfl
        | other j =>
          have outside := drained.alone (sound.stopper stop) j
          simp [pushing, Pc.outside] at outside
    obtain ⟨stop, empty, unpushed⟩ := before
    refine ⟨?_, ?_⟩
    · rcases effect.stop with same | ⟨set, _⟩
      · exact same.trans stop
      · exact set
    · rcases effect.heap with same | ⟨handle, due, pushing⟩ | ⟨entry, top, popping⟩
      · exact same.trans empty
      · exact absurd pushing (unpushed handle due)
      · have known := sound.knows i
        rw [popping] at known
        have member := known.2.1.1
        simp [empty] at member
  · exact drained.empty exited

/-- The service is sound in every reachable state, and drained once the worker has returned. -/
theorem reachable_drained {c : Config ι H}
    (reached : Reaches (guarded undisturbed step) Config.init c) : Sound c ∧ Drained c := by
  have kept : Preserved (guarded undisturbed step) fun c : Config ι H => Sound c ∧ Drained c := by
    refine sound_preserved.guarded.and fun c label c' sound drained taken => ?_
    obtain ⟨accepted, taken⟩ := (guarded_eq_some_iff c c' label).mp taken
    exact ⟨alone_step sound drained accepted taken, empty_step sound drained taken⟩
  exact kept.reaches ⟨sound_init, drained_init⟩ reached

omit [DecidableEq ι] in
/-- Once the worker has returned, no thread carries an entry. -/
theorem carries_of_exited {c : Config ι H} (sound : Sound c) (drained : Drained c)
    (exited : (c.pcs .timer).exited = true) (e : Entry H) : tally (carries e) c.pcs = 0 := by
  have destroying := sound.stopper (drained.empty exited).1
  rw [tally_eq_zero_iff]
  intro i
  have nothing : (c.pcs i).carried = none := by
    cases i with
    | main => cases standing : c.pcs .main <;> simp_all [Pc.destroying, Pc.carried]
    | timer =>
      cases standing : c.pcs .timer with
      | worker entry place => cases place <;> simp_all [Pc.exited, Pc.carried]
      | _ => simp [standing, Pc.exited] at exited
    | other j =>
      have outside := drained.alone destroying j
      cases standing : c.pcs (.other j) <;> simp_all [Pc.outside, Pc.carried]
  simp [carries, nothing]

/-- The timer service resumes each scheduled handle once, not early, and all of them
before the worker returns, for any calls of `schedule` by the main thread, by resumed
coroutines and by any number of other threads that stay away from the destructor, with
any delays, and for every interleaving and every clock that does not go back. A handle
is resumed at or after its deadline, which a call of it has computed; this is the clock
value that the call has read plus the delay, unless these overflow. The entries resumed are
among those of the calls, each as often at most; the worker removes an entry with the
smallest deadline in the heap; it returns with the flag set and the heap empty; and by
then the entries resumed are those of the calls. -/
theorem scheduled_resumed_once (c : Config ι H)
    (reached : Reaches (guarded undisturbed step) Config.init c) :
    (∀ entry time, .resumed entry time ∈ c.log → entry.when ≤ time ∧
      ∃ start delay, .scheduled entry.handle start delay ∈ c.log ∧
        entry.when = deadline start delay ∧
        (Fits start delay → start + delay * 1000 ≤ time)) ∧
    (c.log.filterMap Event.fired : Multiset (Entry H)) ≤ c.log.filterMap Event.due ∧
    (∀ copy entry, c.pcs .timer = .worker copy (.pop entry) → c.timers.IsTop entry) ∧
    (∀ copy, c.pcs .timer = .worker copy .exitUnlock ∨ c.pcs .timer = .worker copy .exited →
      c.timers.stop = true ∧ c.timers.heap = []) ∧
    (∀ copy, c.pcs .timer = .worker copy .exited →
      (c.log.filterMap Event.fired : Multiset (Entry H)) = c.log.filterMap Event.due) := by
  obtain ⟨sound, drained⟩ := reachable_drained reached
  have among : (c.log.filterMap Event.fired : Multiset (Entry H)) ≤ c.log.filterMap Event.due := by
    rw [Multiset.le_iff_count]
    intro e
    have account := sound.account e
    simp only [Multiset.coe_count]
    omega
  refine ⟨fun entry time resumed => ?_, among, fun copy entry popping => ?_, ?_,
    fun copy returned => ?_⟩
  · have due := sound.timely entry time resumed
    have fired : entry ∈ c.log.filterMap Event.fired :=
      List.mem_filterMap.mpr ⟨_, resumed, rfl⟩
    obtain ⟨call, made, same⟩ :=
      List.mem_filterMap.mp (Multiset.mem_coe.mp (Multiset.mem_of_le among fired))
    cases call with
    | scheduled handle start delay =>
      obtain rfl := Option.some.inj same
      exact ⟨due, start, delay, made, rfl, delayed_of_fits due⟩
    | resumed => simp [Event.due] at same
  · have known := sound.knows .timer
    rw [popping] at known
    exact known.2.1
  · rintro copy (returning | returned)
    · have known := sound.knows .timer
      rwa [returning] at known
    · exact drained.empty (by simp [returned, Pc.exited])
  · have exited : (c.pcs .timer).exited = true := by simp [returned, Pc.exited]
    ext e
    have account := sound.account e
    rw [carries_of_exited sound drained exited e, (drained.empty exited).2] at account
    simpa using account

/-- The main thread schedules one handle, which is resumed after its delay; the
coroutine schedules a second, which is resumed although the destructor has begun. -/
theorem scheduled_resumed_once_two : ∃ c : Config (Fin 1) ℕ,
    Reaches (guarded undisturbed step) Config.init c ∧
    (c.log.filterMap Event.fired : Multiset (Entry ℕ)) = c.log.filterMap Event.due ∧
    c.log.filterMap Event.due = [⟨5000, 7⟩, ⟨5000, 8⟩] := by
  let schedule : List (Label (Fin 1) ℕ) :=
    [List.replicate 5 (.go .timer), [.call .main 7 5], List.replicate 5 (.go .main),
      List.replicate 4 (.go .timer), [.top ⟨5000, 7⟩], List.replicate 2 (.go .timer),
      [.tick 5000, .wake], List.replicate 3 (.go .timer), [.top ⟨5000, 7⟩],
      List.replicate 4 (.go .timer), [.call .timer 8 0], List.replicate 5 (.go .timer),
      List.replicate 5 (.go .main), List.replicate 4 (.go .timer), [.top ⟨5000, 8⟩],
      List.replicate 8 (.go .timer)].flatten
  have played : (Interleaving.run (guarded undisturbed step) Config.init schedule).map
      (fun c => ((c.pcs .timer).exited, c.log.filterMap Event.due)) =
        some (true, [⟨5000, 7⟩, ⟨5000, 8⟩]) := by
    decide +kernel
  obtain ⟨c, reached, final⟩ := Option.map_eq_some_iff.mp played
  obtain ⟨exited, scheduled⟩ := Prod.mk.inj final
  obtain ⟨copy, returned⟩ := exited_iff.mp exited
  obtain ⟨_, _, _, _, all⟩ := scheduled_resumed_once c ⟨schedule, reached⟩
  exact ⟨c, ⟨schedule, reached⟩, all copy returned, scheduled⟩

/-- The longest delay there is, of some three hundred thousand years, overflows to a deadline
in the past, and the handle is resumed at once. -/
theorem overflowing_delay_early : ∃ c : Config (Fin 1) ℕ,
    Reaches (guarded undisturbed step) Config.init c ∧
    c.log = [.scheduled 7 0 (2 ^ 63 - 1), .resumed ⟨-1000, 7⟩ 0] ∧
    ¬ (0 : ℤ) + (2 ^ 63 - 1) * 1000 ≤ 0 := by
  let schedule : List (Label (Fin 1) ℕ) :=
    [List.replicate 5 (.go .timer), [.call .main 7 (2 ^ 63 - 1)], List.replicate 5 (.go .main),
      List.replicate 4 (.go .timer), [.top ⟨-1000, 7⟩], List.replicate 4 (.go .timer)].flatten
  have played : (Interleaving.run (guarded undisturbed step) Config.init schedule).map
      (fun c => c.log) = some [.scheduled 7 0 (2 ^ 63 - 1), .resumed ⟨-1000, 7⟩ 0] := by
    decide +kernel
  obtain ⟨c, reached, log⟩ := Option.map_eq_some_iff.mp played
  exact ⟨c, ⟨schedule, reached⟩, log, by decide⟩

end Run

end ConcurrencyBench.TimerSession
