import ConcurrencyBench.TimerResumptions

/-!
# The worker's sleep

The worker decides to sleep in the critical section in which it looks at the heap and the
flag, and falls asleep as it leaves it. So it falls asleep on what it has seen. A push or
the flag's store after that is followed by a notification of the same thread, and the
notification ends the sleep. Between the two the thread is notifying; while nobody is,
the worker sleeps on the heap and the flag as they are.

Spurious wake-ups and the end of a timed wait only end the sleep. Nothing here assumes
that calls keep away from the destructor.
-/

namespace ConcurrencyBench.TimerSession

open Interleaving TimerService

universe u v
variable {ι : Type u} {H : Type v}

/-- The thread has changed the heap or the flag and is yet to notify. -/
def Pc.notifying : Pc H → Bool
  | .calling _ place => match place with
    | .unlock | .notifyOne => true
    | _ => false
  | .destructor place => match place with
    | .unlock | .notifyAll => true
    | _ => false
  | _ => false

/-- The worker is in one of its waits. -/
def Pc.dozing : Pc H → Bool
  | .worker _ place => match place with
    | .asleep | .asleepUntil _ => true
    | _ => false
  | _ => false

/-- Nothing is there to be done, and no stop either. -/
def NothingLeft (s : Timers ι H) : Prop := s.heap = [] ∧ s.stop = false

/-- Nothing is due before the time. -/
def NothingBefore (s : Timers ι H) (t : ℤ) : Prop :=
  s.heap ≠ [] ∧ ∀ entry ∈ s.heap, t ≤ entry.when

/-- The worker sleeps rightly. -/
def Sleeps (s : Timers ι H) : Pc H → Prop
  | .worker _ place => match place with
    | .asleep => NothingLeft s
    | .asleepUntil t => NothingBefore s t
    | _ => False
  | _ => False

/-- Where the worker is about to fall asleep, it will sleep rightly. -/
def Drowsy (s : Timers ι H) : Pc H → Prop
  | .worker _ place => match place with
    | .sleep => NothingLeft s
    | .sleepUntil t => NothingBefore s t
    | _ => True
  | _ => True

/-- Whether the worker sleeps right depends on the heap and the flag only. -/
theorem sleeps_congr {s s' : Timers ι H} {pc : Pc H} (heap : s'.heap = s.heap)
    (stop : s'.stop = s.stop) (sleeps : Sleeps s pc) : Sleeps s' pc := by
  cases pc with
  | worker copy place =>
    cases place with
    | asleep => exact ⟨heap.trans sleeps.1, stop.trans sleeps.2⟩
    | asleepUntil t => exact ⟨heap ▸ sleeps.1, heap ▸ sleeps.2⟩
    | _ => exact sleeps
  | _ => exact sleeps

/-- Whether the worker may doze off depends on the heap and the flag only. -/
theorem drowsy_congr {s s' : Timers ι H} {pc : Pc H} (heap : s'.heap = s.heap)
    (stop : s'.stop = s.stop) (drowsy : Drowsy s pc) : Drowsy s' pc := by
  cases pc with
  | worker copy place =>
    cases place with
    | sleep => exact ⟨heap.trans drowsy.1, stop.trans drowsy.2⟩
    | sleepUntil t => exact ⟨heap ▸ drowsy.1, heap ▸ drowsy.2⟩
    | _ => exact drowsy
  | _ => exact drowsy

/-- Outside the mutex nobody is about to fall asleep. -/
theorem drowsy_of_outside {s : Timers ι H} {pc : Pc H} (outside : pc.locked = false) :
    Drowsy s pc := by
  cases pc with
  | worker copy place => cases place <;> trivial
  | _ => trivial

/-- What one move does to the sleep. -/
structure Drowse (s : Timers ι H) (pc : Pc H) (s' : Timers ι H) (pc' : Pc H) : Prop where
  falls : s'.asleep = true → s.asleep = true ∨ Sleeps s' pc'
  tells : pc.notifying = true → pc'.notifying = true ∨ s'.asleep = false
  changes : (s'.heap = s.heap ∧ s'.stop = s.stop) ∨ pc'.notifying = true ∨
    ∃ copy top, pc = .worker copy (.pop top)
  wakes : pc.dozing = true → s.asleep = false
  drowsy : Drowsy s' pc'

/-- A statement that neither tells the worker nor lets it doze off. -/
theorem drowse_still {s : Timers ι H} {pc pc' : Pc H} (told : pc.notifying = false)
    (awake : pc.dozing = false) (drowsy : Drowsy s pc') : Drowse s pc s pc' where
  falls := Or.inl
  tells notifying := by simp [told] at notifying
  changes := .inl ⟨rfl, rfl⟩
  wakes dozing := by simp [awake] at dozing
  drowsy := drowsy

section OneMove

variable [DecidableEq H] {exited : Bool} {i : Party ι} {now : ℤ} {s s' : Timers (Party ι) H}

omit [DecidableEq H] in
/-- Every statement of `schedule` tells the worker what it has to know. -/
theorem calling_drowse {handle : H} {place : ScheduleAt} {next : Option ScheduleAt}
    (moved : schedule i now handle s place = some (s', next)) :
    Drowse s (.calling handle place) s' (next.elim .elsewhere (.calling handle)) := by
  cases place with
  | readClock delay =>
    obtain ⟨rfl, rfl⟩ := Prod.mk.inj (Option.some.inj moved)
    exact drowse_still rfl rfl trivial
  | lock due =>
    obtain ⟨_, rfl, rfl⟩ := lock_map_eq_some_iff.mp moved
    exact ⟨.inl, nofun, .inl ⟨rfl, rfl⟩, nofun, trivial⟩
  | push due =>
    obtain ⟨rfl, rfl⟩ := Prod.mk.inj (Option.some.inj moved)
    exact ⟨.inl, nofun, .inr (.inl rfl), nofun, trivial⟩
  | unlock =>
    obtain ⟨rfl, rfl⟩ := Prod.mk.inj (Option.some.inj moved)
    exact ⟨.inl, fun _ => .inl rfl, .inl ⟨rfl, rfl⟩, nofun, trivial⟩
  | notifyOne =>
    obtain ⟨rfl, rfl⟩ := Prod.mk.inj (Option.some.inj moved)
    exact ⟨nofun, fun _ => .inr rfl, .inl ⟨rfl, rfl⟩, nofun, trivial⟩

omit [DecidableEq H] in
/-- Every statement of the destructor tells the worker what it has to know. -/
theorem destructor_drowse {place place' : DestructorAt}
    (moved : destroy i exited s place = some (s', place')) :
    Drowse s (.destructor place : Pc H) s' (.destructor place') := by
  cases place with
  | lock =>
    obtain ⟨_, rfl, rfl⟩ := lock_map_eq_some_iff.mp moved
    exact ⟨.inl, nofun, .inl ⟨rfl, rfl⟩, nofun, trivial⟩
  | storeStop =>
    obtain ⟨rfl, rfl⟩ := Prod.mk.inj (Option.some.inj moved)
    exact ⟨.inl, nofun, .inr (.inl rfl), nofun, trivial⟩
  | unlock =>
    obtain ⟨rfl, rfl⟩ := Prod.mk.inj (Option.some.inj moved)
    exact ⟨.inl, fun _ => .inl rfl, .inl ⟨rfl, rfl⟩, nofun, trivial⟩
  | notifyAll =>
    obtain ⟨rfl, rfl⟩ := Prod.mk.inj (Option.some.inj moved)
    exact ⟨nofun, fun _ => .inr rfl, .inl ⟨rfl, rfl⟩, nofun, trivial⟩
  | join =>
    obtain ⟨_, moved⟩ := Option.ite_none_right_eq_some.mp moved
    obtain ⟨rfl, rfl⟩ := Prod.mk.inj (Option.some.inj moved)
    exact drowse_still rfl rfl trivial
  | done => cases moved

/-- The worker falls asleep on what it knows of the heap and the flag. -/
theorem worker_drowse {copy : Option (Entry H)} {place place' : WorkerAt H}
    (known : Knows now s (.worker copy place)) (drowsy : Drowsy s (.worker copy place))
    (moved : run i now s place = some (s', place')) :
    Drowse s (.worker copy place) s' (.worker copy place') := by
  cases place with
  | lock =>
    obtain ⟨_, rfl, rfl⟩ := lock_map_eq_some_iff.mp moved
    exact ⟨.inl, nofun, .inl ⟨rfl, rfl⟩, nofun, trivial⟩
  | exitTest | emptyTest =>
    obtain ⟨rfl, next⟩ := Prod.mk.inj (Option.some.inj moved)
    obtain ⟨_, rfl⟩ | ⟨_, rfl⟩ := ite_eq_iff.mp next <;>
      exact drowse_still rfl rfl trivial
  | waitTest =>
    obtain ⟨rfl, next⟩ := Prod.mk.inj (Option.some.inj moved)
    obtain ⟨_, rfl⟩ | ⟨nothing, rfl⟩ := ite_eq_iff.mp next
    · exact drowse_still rfl rfl trivial
    · rw [Bool.not_eq_true, Bool.or_eq_false_iff, Bool.not_eq_false', List.isEmpty_iff] at nothing
      exact drowse_still rfl rfl ⟨nothing.2, nothing.1⟩
  | sleep | sleepUntil =>
    obtain ⟨rfl, rfl⟩ := Prod.mk.inj (Option.some.inj moved)
    exact ⟨fun _ => .inr drowsy, nofun, .inl ⟨rfl, rfl⟩, nofun, trivial⟩
  | asleep | asleepUntil =>
    obtain ⟨awake, moved⟩ := Option.ite_none_left_eq_some.mp moved
    obtain ⟨_, rfl, rfl⟩ := lock_map_eq_some_iff.mp moved
    exact ⟨.inl, nofun, .inl ⟨rfl, rfl⟩, fun _ => Bool.eq_false_iff.mpr awake, trivial⟩
  | dueTest top =>
    obtain ⟨rfl, next⟩ := Prod.mk.inj (Option.some.inj moved)
    obtain ⟨_, rfl⟩ | ⟨_, rfl⟩ := ite_eq_iff.mp next
    · obtain ⟨_, member, least⟩ := known
      exact drowse_still rfl rfl ⟨List.ne_nil_of_mem member, least⟩
    · exact drowse_still rfl rfl trivial
  | pop top =>
    obtain ⟨rfl, rfl⟩ := Prod.mk.inj (Option.some.inj moved)
    exact ⟨.inl, nofun, .inr (.inr ⟨copy, top, rfl⟩), nofun, trivial⟩
  | exitUnlock | unlock =>
    obtain ⟨rfl, rfl⟩ := Prod.mk.inj (Option.some.inj moved)
    exact ⟨.inl, nofun, .inl ⟨rfl, rfl⟩, nofun, trivial⟩
  | exited | top | resume => cases moved

/-- Every statement leaves the worker awake, or asleep for the right time. -/
theorem exec_drowse {pc pc' : Pc H} (known : Knows now s pc) (drowsy : Drowsy s pc)
    (moved : exec exited i now s pc = some (s', pc')) : Drowse s pc s' pc' := by
  cases pc with
  | elsewhere =>
    cases i <;> simp only [exec, Option.some.injEq, Prod.mk.injEq, reduceCtorEq] at moved <;>
      obtain ⟨rfl, rfl⟩ := moved <;> exact drowse_still rfl rfl trivial
  | calling handle place =>
    obtain ⟨⟨_, _⟩, taken, same⟩ := Option.map_eq_some_iff.mp moved
    obtain ⟨rfl, rfl⟩ := Prod.mk.inj same
    exact calling_drowse taken
  | destructor place =>
    obtain ⟨⟨_, _⟩, taken, same⟩ := Option.map_eq_some_iff.mp moved
    obtain ⟨rfl, rfl⟩ := Prod.mk.inj same
    exact destructor_drowse taken
  | worker copy place =>
    rcases exec_worker_cases moved with ⟨handle, rfl, rfl, rfl⟩ | ⟨place', ran, rfl, _⟩
    · exact drowse_still rfl rfl trivial
    · exact worker_drowse known drowsy ran

/-- Every move of a thread leaves the worker awake, or asleep for the right time. -/
theorem move_drowse {pc pc' : Pc H} {events : List (Event H)} (known : Knows now s pc)
    (drowsy : Drowsy s pc) (moved : Move exited i now s pc s' pc' events) : Drowse s pc s' pc' := by
  cases moved with
  | call outside handle delay =>
    subst outside
    exact drowse_still rfl rfl trivial
  | exec _ _ moved => exact exec_drowse known drowsy moved
  | top worker before standing entry top =>
    subst standing
    exact drowse_still rfl rfl trivial

end OneMove

section Run

variable [Fintype ι] [DecidableEq ι] [DecidableEq H]

/-- While the worker is asleep it is in a wait, and sleeps rightly unless somebody is
notifying. Where it holds the mutex it falls asleep rightly. -/
structure Watched (c : Config ι H) : Prop where
  dozing : c.timers.asleep = true → (c.pcs .timer).dozing = true
  watched : c.timers.asleep = true →
    (∃ i, (c.pcs i).notifying = true) ∨ Sleeps c.timers (c.pcs .timer)
  drowsy : Drowsy c.timers (c.pcs .timer)

omit [Fintype ι] [DecidableEq ι] [DecidableEq H] in
/-- At the start the worker is awake. -/
theorem watched_init : Watched (Config.init : Config ι H) where
  dozing := by simp [Config.init, Timers.make]
  watched := by simp [Config.init, Timers.make]
  drowsy := trivial

omit [Fintype ι] [DecidableEq ι] [DecidableEq H] in
/-- Only the worker is ever at a position of the worker. -/
theorem timer_of_dozing {i : Party ι} {pc : Pc H} (runs : i.Runs pc) (dozing : pc.dozing = true) :
    i = .timer := by
  cases i <;> cases pc <;> first | rfl | exact runs.elim | simp [Pc.dozing] at dozing

omit [Fintype ι] [DecidableEq ι] [DecidableEq H] in
/-- The other threads do not doze. -/
theorem drowsy_of_runs {s : Timers (Party ι) H} {i : Party ι} {pc : Pc H} (other : i ≠ .timer)
    (runs : i.Runs pc) : Drowsy s pc := by
  cases pc with
  | worker copy place => cases i <;> first | exact absurd rfl other | exact runs.elim
  | _ => trivial

omit [Fintype ι] [DecidableEq ι] [DecidableEq H] in
/-- Who sleeps has dozed off. -/
theorem dozing_of_sleeps {s : Timers (Party ι) H} {pc : Pc H} (sleeps : Sleeps s pc) :
    pc.dozing = true := by
  cases pc with
  | worker copy place => cases place <;> first | rfl | exact sleeps.elim
  | _ => exact sleeps.elim

/-- One thread's move. A worker that is asleep does not move; whoever changes the heap or
the flag meanwhile becomes a notifier, and whoever stops being one has ended the sleep. -/
theorem watched_move {c : Config ι H} {i : Party ι} {timers : Timers (Party ι) H} {pc : Pc H}
    {events : List (Event H)} (sound : Sound c) (watched : Watched c)
    (moved : Move (c.pcs .timer).exited i c.now c.timers (c.pcs i) timers pc events) :
    Watched ⟨c.now, timers, Function.update c.pcs i pc, c.log ++ events⟩ := by
  by_cases mine : i = .timer
  · subst mine
    have drowse := move_drowse (sound.knows .timer) watched.drowsy moved
    have sleeps : timers.asleep = true → Sleeps timers pc := by
      intro asleep
      rcases drowse.falls asleep with before | falling
      · have awake := drowse.wakes (watched.dozing before)
        simp [before] at awake
      · exact falling
    constructor
    case dozing => simpa using fun asleep => dozing_of_sleeps (sleeps asleep)
    case watched => simpa using fun asleep => Or.inr (sleeps asleep)
    case drowsy => simpa using drowse.drowsy
  · have runs := sound.runs i
    have drowse := move_drowse (sound.knows i) (drowsy_of_runs mine runs) moved
    have popped : ∀ copy top, c.pcs i ≠ .worker copy (.pop top) := by
      intro copy top popping
      rw [popping] at runs
      cases i <;> first | exact mine rfl | exact runs.elim
    have asleep : timers.asleep = true → c.timers.asleep = true := by
      intro asleep
      rcases drowse.falls asleep with before | falling
      · exact before
      · exact absurd (timer_of_dozing (move_runs runs moved) (dozing_of_sleeps falling)) mine
    have still : Function.update c.pcs i pc .timer = c.pcs .timer :=
      Function.update_of_ne (Ne.symm mine) pc c.pcs
    constructor
    case dozing =>
      intro now
      dsimp only at now ⊢
      rw [still]
      exact watched.dozing (asleep now)
    case watched =>
      intro now
      dsimp only at now ⊢
      rw [still]
      rcases watched.watched (asleep now) with ⟨j, notifying⟩ | sleeps
      · by_cases same : j = i
        · subst same
          rcases drowse.tells notifying with after | awake
          · exact .inl ⟨j, by simpa using after⟩
          · simp [awake] at now
        · exact .inl ⟨j, by simpa [Function.update_of_ne same] using notifying⟩
      · rcases drowse.changes with ⟨heap, stop⟩ | notifying | ⟨copy, top, popping⟩
        · exact .inr (sleeps_congr heap stop sleeps)
        · exact .inl ⟨i, by simpa using notifying⟩
        · exact absurd popping (popped copy top)
    case drowsy =>
      dsimp only
      rw [still]
      cases inside : (c.pcs .timer).locked with
      | false => exact drowsy_of_outside inside
      | true =>
        have outside := sound.outside mine inside
        have effect := move_effect (sound.knows i) moved
        have heap : timers.heap = c.timers.heap := by
          rcases effect.heap with same | ⟨_, _, pushing⟩ | ⟨_, _, popping⟩
          · exact same
          · simp [pushing, Pc.locked] at outside
          · exact absurd popping (popped _ _)
        have stop : timers.stop = c.timers.stop := by
          rcases effect.stop with same | ⟨_, storing⟩
          · exact same
          · simp [storing, Pc.locked] at outside
        exact drowsy_congr heap stop watched.drowsy

/-- Every step keeps the sleeping worker watched. -/
theorem watched_preserved :
    Preserved step fun c : Config ι H => Sound c ∧ Watched c := by
  refine sound_preserved.and fun c label c' sound watched taken => ?_
  rcases step_cases taken with ⟨i, timers, pc, events, moved, rfl⟩ | ⟨now, asleep, _, ends, rfl⟩
  · exact watched_move sound watched moved
  · refine ⟨fun still => watched.dozing (ends still), fun still => ?_, watched.drowsy⟩
    exact (watched.watched (ends still)).imp_right (sleeps_congr rfl rfl)

/-- The timer service never oversleeps a deadline or misses a stop. In every state in
which the worker is asleep and nobody stands between a change of the heap or the flag and
its notification, the worker sleeps until a time no later than any deadline in the heap,
which is not empty, or it sleeps without a limit, with the heap empty and the flag clear. -/
theorem never_oversleeps (c : Config ι H) (reached : Reachable c)
    (asleep : c.timers.asleep = true) (quiet : ∀ i, (c.pcs i).notifying = false) :
    (∃ copy t, c.pcs .timer = .worker copy (.asleepUntil t) ∧ c.timers.heap ≠ [] ∧
      ∀ entry ∈ c.timers.heap, t ≤ entry.when) ∨
    (∃ copy, c.pcs .timer = .worker copy .asleep ∧ c.timers.heap = [] ∧
      c.timers.stop = false) := by
  obtain ⟨_, watched⟩ := watched_preserved.reaches ⟨sound_init, watched_init⟩ reached
  rcases watched.watched asleep with ⟨i, notifying⟩ | sleeps
  · simp [quiet i] at notifying
  · cases standing : c.pcs .timer with
    | worker copy place =>
      rw [standing] at sleeps
      cases place with
      | asleep => exact .inr ⟨copy, rfl, sleeps⟩
      | asleepUntil t => exact .inl ⟨copy, t, rfl, sleeps⟩
      | _ => exact sleeps.elim
    | _ =>
      rw [standing] at sleeps
      exact sleeps.elim

/-- The worker sleeps on a deadline in nine microseconds when another thread schedules one in
four. It is woken, looks at the heap again, and sleeps until four. -/
theorem never_oversleeps_one : ∃ c : Config (Fin 1) ℕ, Reachable c ∧
    c.timers.heap = [⟨4000, 8⟩, ⟨9000, 7⟩] ∧
    ∃ copy t, c.pcs .timer = .worker copy (.asleepUntil t) ∧ ∀ entry ∈ c.timers.heap, t ≤ entry.when := by
  let schedule : List (Label (Fin 1) ℕ) :=
    [List.replicate 5 (.go .timer), [.call .main 7 9], List.replicate 5 (.go .main),
      List.replicate 4 (.go .timer), [.top ⟨9000, 7⟩], List.replicate 2 (.go .timer),
      [.call (.other 0) 8 4], List.replicate 5 (.go (.other 0)), List.replicate 3 (.go .timer),
      [.top ⟨4000, 8⟩], List.replicate 2 (.go .timer)].flatten
  have played : (Interleaving.run step Config.init schedule).map (fun c =>
      (c.timers.asleep, c.timers.heap, decide (∀ i, (c.pcs i).notifying = false))) =
        some (true, [⟨4000, 8⟩, ⟨9000, 7⟩], true) := by
    decide +kernel
  obtain ⟨c, reached, final⟩ := Option.map_eq_some_iff.mp played
  simp only [Prod.mk.injEq, decide_eq_true_eq] at final
  obtain ⟨asleep, heap, quiet⟩ := final
  refine ⟨c, ⟨schedule, reached⟩, heap, ?_⟩
  rcases never_oversleeps c ⟨schedule, reached⟩ asleep quiet with
    ⟨copy, t, standing, _, earliest⟩ | ⟨_, _, empty, _⟩
  · exact ⟨copy, t, standing, earliest⟩
  · simp [heap] at empty

end Run

end ConcurrencyBench.TimerSession
