import ConcurrencyBench.CoroutineTasks

/-!
# The life of the coroutine frames

The main thread destroys the frames once it has seen every flag. The timer thread
sets a task's flag from the awaiter that ends the body, and then still reads the
awaiter's member `continuation`. The awaiter is in the frame. So the frame may be
gone by then, although the timer thread does nothing else after the flag.

As long as the main thread does not destroy a frame between these two statements,
every use of a frame is of one that is there; a destruction between them is
followed by a use of the destroyed frame.
-/

namespace ConcurrencyBench.Coroutines

open Interleaving TimerService

/-- The task whose flag the timer thread has set and whose awaiter it has not returned from. -/
def TimerAt.returning : TimerAt → Option ℕ
  | .running task .readContinuation => some task
  | _ => none

/-- The main thread does not destroy a task's frame while the timer thread has yet
to return from the awaiter that has set the task's flag. -/
def unhurried (c : Config) : Label → Bool
  | .destroy task => c.timer.returning ≠ some task
  | _ => true

section Unhurried

variable {p : Program} {c c' : Config} {i task : ℕ} {label : Label}

/-- The timer thread uses only frames of tasks it has in hand, but for the return
from the awaiter. -/
theorem touches_cases {timer : TimerAt} (touching : timer.touches = some i) :
    timer.holds i = true ∨ timer.returning = some i := by
  cases timer with
  | worker place => simp [TimerAt.touches] at touching
  | running task place =>
    cases place <;>
      simp_all [TimerAt.touches, CoAt.touchesFrame, TimerAt.holds, CoAt.holds, TimerAt.returning]

/-- The frame of a task in hand is there. -/
theorem Settled.alive_of_timer_holds (settled : Settled p c) (held : c.timer.holds i = true) :
    (c.shared.frames i).status = .alive := by
  obtain ⟨inside, passed, unset⟩ := settled.of_timer_holds held
  exact settled.alive inside passed unset

/-- The flag is set by a thread that has the task in hand. -/
theorem holds_of_readContinuation {party : Party} {body : Body} {s s' : Shared} {place : CoAt}
    (moved : execute party body task s place = some (s', some .readContinuation)) :
    place.holds = true := by
  cases place with
  | schedule place =>
    obtain ⟨⟨_, next⟩, _, same⟩ := Option.map_eq_some_iff.mp moved
    cases next <;> simp at same
  | readContinuation => simp [execute] at moved
  | _ => rfl

/-- The main thread takes no frame away in its own statements. -/
theorem iteration_alive {exited : Bool} {s s' : Shared} {main main' : MainAt}
    (moved : iteration p exited s main = some (s', main')) (alive : (s.frames i).status = .alive) :
    (s'.frames i).status = .alive := by
  cases main with
  | running task place =>
    obtain ⟨_, executed, same⟩ := Option.map_eq_some_iff.mp moved
    rw [← (Prod.mk.inj same).1, execute_status executed i]
    exact alive
  | destructor place =>
    obtain ⟨_, _, same⟩ := Option.map_eq_some_iff.mp moved
    rw [← (Prod.mk.inj same).1]
    exact alive
  | loop | clearFlag | checkDone | poll =>
    rw [← (Prod.mk.inj (Option.some.inj moved)).1]
    exact alive
  | allocate task =>
    obtain ⟨rfl, -⟩ := Prod.mk.inj (Option.some.inj moved)
    rw [setFrame_frames]
    split
    · rfl
    · exact alive
  | construct | setFlag =>
    obtain ⟨rfl, -⟩ := Prod.mk.inj (Option.some.inj moved)
    refine (setFrame_status ?_ i).trans alive
    rfl
  | destroyTasks left =>
    obtain ⟨_, moved⟩ := Option.ite_none_right_eq_some.mp moved
    rw [← (Prod.mk.inj (Option.some.inj moved)).1]
    exact alive

/-- The timer thread takes no frame away. -/
theorem timerStep_status {s s' : Shared} {timer timer' : TimerAt}
    (moved : timerStep p s timer = some (s', timer')) (i : ℕ) :
    (s'.frames i).status = (s.frames i).status := by
  rcases timerStep_cases moved with ⟨_, _, rfl, _⟩ | ⟨_, _, _, _, _, rfl, _⟩ |
    ⟨task, place, next, _, executed, _⟩
  · rfl
  · rfl
  · exact execute_status executed i

/-- The timer thread gets to the return from an awaiter with the task in hand. -/
theorem holds_of_returning {s s' : Shared} {timer timer' : TimerAt}
    (moved : timerStep p s timer = some (s', timer')) (returning : timer'.returning = some i) :
    timer.holds i = true := by
  rcases timerStep_cases moved with ⟨_, _, _, rfl⟩ | ⟨_, _, _, _, _, _, rfl⟩ |
    ⟨task, place, next, rfl, executed, rfl⟩
  · simp [TimerAt.returning] at returning
  · simp [TimerAt.returning] at returning
  · cases next with
    | none => simp [TimerAt.following, TimerAt.returning] at returning
    | some following =>
      cases following <;> simp [TimerAt.following, TimerAt.returning] at returning
      simp [TimerAt.holds, returning, holds_of_readContinuation executed]

/-- While the main thread does not hurry, the frame of a flag just set is there. -/
theorem returning_kept (settled : Settled p c)
    (safe : ∀ i, c.timer.returning = some i → (c.shared.frames i).status = .alive)
    (taken : guarded unhurried (step p) c label = some c') (i : ℕ)
    (returning : c'.timer.returning = some i) : (c'.shared.frames i).status = .alive := by
  obtain ⟨patient, taken⟩ := (guarded_eq_some_iff c c' label).mp taken
  cases label with
  | main =>
    obtain ⟨_, moved, rfl⟩ := Option.map_eq_some_iff.mp taken
    exact iteration_alive moved (safe i returning)
  | timer =>
    obtain ⟨_, moved, rfl⟩ := Option.map_eq_some_iff.mp taken
    rw [timerStep_status moved i]
    exact settled.alive_of_timer_holds (holds_of_returning moved returning)
  | top entry =>
    obtain ⟨_, _, rfl⟩ := top_cases taken
    simp [TimerAt.returning] at returning
  | destroy task =>
    obtain ⟨left, _, _, rfl⟩ := destroy_cases taken
    have other : i ≠ task := by
      rintro rfl
      exact absurd returning (by simpa [unhurried] using patient)
    simpa [other] using safe i returning
  | wake =>
    simp only [step, Option.ite_none_right_eq_some, Option.some.injEq] at taken
    obtain ⟨_, rfl⟩ := taken
    exact safe i returning
  | tick d =>
    obtain rfl := Option.some.inj taken
    exact safe i returning

/-- A step that breaks the condition leaves the timer thread about to use the
frame that step has destroyed. -/
theorem hurried_destroy_touched (taken : step p c (.destroy task) = some c')
    (hurried : unhurried c (.destroy task) = false) : ∃ last, step p c' .timer = some last ∧ touches c' .timer = some task ∧
      (c'.shared.frames task).status = .destroyed := by
  have standing : c.timer = .running task .readContinuation := by
    cases timer : c.timer with
    | worker place => simp [unhurried, timer, TimerAt.returning] at hurried
    | running other place =>
      cases place <;> simp_all [unhurried, TimerAt.returning]
  obtain ⟨left, _, _, rfl⟩ := destroy_cases taken
  refine ⟨_, by simp only [step, timerStep, standing, execute]; rfl, ?_, ?_⟩
  · simp [touches, standing, TimerAt.touches, CoAt.touchesFrame]
  · simp

/-- Every step that reads or writes a task's frame does so while the frame is
there, as long as the main thread destroys no frame whose awaiter the timer thread
has yet to return from. A step that breaks this leaves the timer thread about to read
the frame that the step has destroyed. -/
theorem touched_frames_alive (reached : Reaches (guarded unhurried (step p)) Config.init c) :
    (∀ label c' task, step p c label = some c' → touches c label = some task →
      (c.shared.frames task).status = .alive) ∧
    ∀ task c', step p c (.destroy task) = some c' → unhurried c (.destroy task) = false →
      ∃ last, step p c' .timer = some last ∧ touches c' .timer = some task ∧
        (c'.shared.frames task).status = .destroyed := by
  refine ⟨fun label c' task taken touching => ?_, fun _ _ => hurried_destroy_touched⟩
  have kept : Preserved (guarded unhurried (step p)) fun c => Settled p c ∧
      ∀ i, c.timer.returning = some i → (c.shared.frames i).status = .alive :=
    settled_preserved.guarded.and fun _ _ _ settled safe taken => returning_kept settled safe taken
  have start : ∀ i, (Config.init).timer.returning = some i →
      ((Config.init).shared.frames i).status = .alive := by
    simp [Config.init, TimerAt.returning]
  obtain ⟨settled, safe⟩ := kept.reaches ⟨settled_init p, start⟩ reached
  cases label with
  | main => exact settled.main_touches touching
  | timer =>
    rcases touches_cases touching with held | returning
    · exact settled.alive_of_timer_holds held
    · exact safe task returning
  | destroy other =>
    obtain rfl : other = task := by simpa [touches] using touching
    obtain ⟨left, standing, member, _⟩ := destroy_cases taken
    have ready := settled.main
    rw [standing] at ready
    rw [settled.status other (ready.1 other member), standing]
    simp [MainAt.statusOf, member]
  | _ => simp [touches] at touching

/-- One task that waits for a millisecond on the timer service. -/
def oneTask : Program := ⟨1, fun _ => .asyncIoTask 1000⟩

/-- The main thread starts the task, the timer thread resumes it when it is due
and sets its flag, and the main thread sees the flag. -/
def untilSeen : List Label :=
  List.replicate 17 .main ++ [.tick 1000000] ++ List.replicate 3 .timer ++ [.top ⟨1000000, 0⟩] ++
    List.replicate 10 .timer ++ List.replicate 2 .main

/-- With the timer thread back in its loop, the main thread destroys the frame. -/
theorem touched_frames_alive_one :
    ∃ c c', Reaches (guarded unhurried (step oneTask)) Config.init c ∧
      step oneTask c (.destroy 0) = some c' ∧ (c.shared.frames 0).status = .alive := by
  have played : ((run (guarded unhurried (step oneTask)) Config.init (untilSeen ++ [.timer])).map
      fun c => (step oneTask c (.destroy 0)).isSome) = some true := by
    decide +kernel
  obtain ⟨c, reached, enabled⟩ := Option.map_eq_some_iff.mp played
  obtain ⟨c', taken⟩ := Option.isSome_iff_exists.mp enabled
  exact ⟨c, c', ⟨_, reached⟩, taken, (touched_frames_alive ⟨_, reached⟩).1 _ c' 0 taken rfl⟩

/-- The main thread may see the flag and destroy the frame before the timer thread
has read `continuation` there. -/
theorem destroyed_frame_touched :
    ¬ ∀ (p : Program) (c c' : Config) (label : Label) (task : ℕ), 1 ≤ p.numTasks →
      Reachable p c → step p c label = some c' → touches c label = some task →
        (c.shared.frames task).status = .alive := by
  intro always
  have played : ((run (step oneTask) Config.init (untilSeen ++ [.destroy 0])).map fun c =>
      ((step oneTask c .timer).isSome, touches c .timer, (c.shared.frames 0).status)) =
        some (true, some 0, .destroyed) := by
    decide +kernel
  obtain ⟨c, reached, facts⟩ := Option.map_eq_some_iff.mp played
  obtain ⟨enabled, rest⟩ := Prod.mk.inj facts
  obtain ⟨touching, destroyed⟩ := Prod.mk.inj rest
  obtain ⟨c', taken⟩ := Option.isSome_iff_exists.mp enabled
  have alive := always oneTask c c' .timer 0 (le_refl 1) ⟨_, reached⟩ taken touching
  rw [destroyed] at alive
  contradiction

end Unhurried

end ConcurrencyBench.Coroutines
