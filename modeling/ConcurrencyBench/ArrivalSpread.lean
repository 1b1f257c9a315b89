import ConcurrencyBench.Fairness
import ConcurrencyBench.PhaseOffsets
import Mathlib.Data.List.OfFn

/-!
# The spread of the last arrivals

`StdBarrier_WithWork` reports how unevenly its threads arrived at the last barrier: the
coefficient of variation of their offsets from the start of the phase, or zero if the mean
is not positive. A thread works between the start of its phase and its arrival, and it begins
to work after the start has been written, so no offset is shorter than the work. The mean is
positive then, and what is reported is the coefficient.

Arithmetic is rational and exact, and the coefficient is squared.
-/

namespace ConcurrencyBench.PhaseStarts

open Interleaving Dispersion

variable {P N : ℕ}

/-- `arrival_cv` of the arrivals, squared -/
def arrivalCv (arrivalNs : List ℚ) : Option ℚ := do
  -- std::accumulate(arrival_ns.begin(), arrival_ns.end(), 0.0) / arrival_ns.size()
  let mean ← Fairness.divide (arrivalNs.foldl (fun total time => total + time) 0) arrivalNs.length
  -- for (double time : arrival_ns) variance += (time - mean) * (time - mean);
  let variance ← Fairness.divide
    (arrivalNs.foldl (fun variance time => variance + (time - mean) * (time - mean)) 0)
    arrivalNs.length
  -- double cv = mean > 0.0 ? std::sqrt(variance) / mean : 0.0;
  if 0 < mean then Fairness.divide variance (mean ^ 2) else return 0

/-- `arrival_ns.push_back(static_cast<double>(time.count()));` -/
def arrivalNs (lastArrival : Fin N → ℤ) : List ℚ := List.ofFn fun i => (lastArrival i : ℚ)

/-- The loop adds the values up. -/
theorem foldl_add_eq (value : ℚ → ℚ) (start : ℚ) (times : List ℚ) :
    times.foldl (fun total time => total + value time) start =
      start + (times.map value).sum := by
  induction times generalizing start with
  | nil => simp
  | cons time rest inductionHypothesis =>
    rw [List.foldl_cons, inductionHypothesis, List.map_cons, List.sum_cons, add_assoc]

/-- Where the times add up to more than nothing, the dispersion is reported. -/
theorem arrivalCv_of_pos {times : List ℚ} (positive : 0 < times.sum) :
    arrivalCv times = some (dispersion times) := by
  have length : ((times.length : ℕ) : ℚ) ≠ 0 := (length_pos positive.ne').ne'
  have mean_pos : 0 < mean times := div_pos positive (length_pos positive.ne')
  have averaged : times.foldl (fun total time => total + time) 0 = times.sum := by
    simpa using foldl_add_eq id 0 times
  have deviated : times.foldl (fun variance time =>
      variance + (time - mean times) * (time - mean times)) 0 = spread (mean times) times := by
    rw [foldl_add_eq (fun time => (time - mean times) * (time - mean times)), zero_add, spread]
    simp only [pow_two]
  have quotient : times.sum / times.length = mean times := rfl
  simp only [arrivalCv, Fairness.divide, if_neg length, averaged, quotient, Option.bind_eq_bind,
    Option.bind_some, deviated, if_pos mean_pos, if_neg (pow_ne_zero 2 mean_pos.ne')]
  rfl

/-- How long a thread has worked in its phase. -/
def Pc.Worked (workDuration now : ℤ) (phaseStarts : ℕ → ℤ) : Pc → Prop
  | .work phase start => phaseStarts phase ≤ start
  | .readArrival phase => phaseStarts phase + workDuration ≤ now
  | .record phase arrivalTime => phaseStarts phase + workDuration ≤ arrivalTime
  | _ => True

/-- The slot of the phase in which a thread works. -/
def Pc.working : Pc → Option ℕ
  | .work phase _ | .readArrival phase | .record phase _ => some phase
  | _ => none

/-- What a thread has worked depends on the start of its phase only. -/
theorem worked_of_same {workDuration now : ℤ} {phaseStarts phaseStarts' : ℕ → ℤ} {pc : Pc}
    (worked : pc.Worked workDuration now phaseStarts)
    (same : ∀ slot, pc.working = some slot → phaseStarts' slot = phaseStarts slot) :
    pc.Worked workDuration now phaseStarts' := by
  cases pc <;> simp_all [Pc.Worked, Pc.working]

/-- What has been worked stays so as the clock goes on. -/
theorem worked_later {workDuration now later : ℤ} {phaseStarts : ℕ → ℤ} {pc : Pc}
    (worked : pc.Worked workDuration now phaseStarts) (after : now ≤ later) :
    pc.Worked workDuration later phaseStarts := by
  cases pc with
  | readArrival phase => exact le_trans worked after
  | work | record => exact worked
  | _ => trivial

/-- A statement goes on with the work, or records an offset that is no shorter. -/
theorem exec_worked {workDuration : ℤ} {i : Fin N} {s s' : Shared N} {pc pc' : Pc}
    (worked : pc.Worked workDuration s.now s.phaseStarts)
    (started : ∀ phase, pc = .startWork phase → s.phaseStarts phase ≤ s.now)
    (moved : exec P workDuration i s pc = some (s', pc')) :
    pc'.Worked workDuration s'.now s'.phaseStarts ∧
    ∀ entry ∈ observe s pc, workDuration ≤ entry.2 := by
  cases pc with
  | startWork phase =>
    obtain ⟨rfl, rfl⟩ := Prod.mk.inj (Option.some.inj moved)
    exact ⟨started phase rfl, by simp [observe]⟩
  | work phase start =>
    obtain ⟨rfl, rfl⟩ := Prod.mk.inj (Option.some.inj moved)
    have begun : s.phaseStarts phase ≤ start := worked
    refine ⟨?_, by simp [observe]⟩
    split
    next => exact begun
    next passed =>
      have long : workDuration ≤ s.now - start := not_lt.mp passed
      simp only [Pc.Worked]
      omega
  | readArrival phase =>
    obtain ⟨rfl, rfl⟩ := Prod.mk.inj (Option.some.inj moved)
    exact ⟨worked, by simp [observe]⟩
  | record phase arrivalTime =>
    obtain ⟨rfl, rfl⟩ := Prod.mk.inj (Option.some.inj moved)
    have long : s.phaseStarts phase + workDuration ≤ arrivalTime := worked
    refine ⟨trivial, fun entry member => ?_⟩
    obtain rfl := List.mem_singleton.mp member
    dsimp only
    omega
  | loop | publishTest | againTest =>
    obtain ⟨rfl, rfl⟩ := Prod.mk.inj (Option.some.inj moved)
    refine ⟨?_, by simp [observe]⟩
    split <;> trivial
  | wait | waitAgain =>
    simp only [exec, Option.ite_none_right_eq_some, Option.some.injEq, Prod.mk.injEq] at moved
    obtain ⟨_, rfl, rfl⟩ := moved
    exact ⟨trivial, by simp [observe]⟩
  | returned => simp [exec] at moved
  | _ =>
    obtain ⟨rfl, rfl⟩ := Prod.mk.inj (Option.some.inj moved)
    exact ⟨trivial, by simp [observe]⟩

section Run

variable [NeZero N] {workDuration start : ℤ} {c : Config N}

/-- Every thread has worked as long as its position says, and so have those of all offsets. -/
structure LongEnough (workDuration : ℤ) (c : Config N) : Prop where
  worked : ∀ i, (c.pcs i).Worked workDuration c.shared.now c.shared.phaseStarts
  offsets : ∀ i, ∀ entry ∈ pick some i c.log, workDuration ≤ entry.2

/-- A thread that works has its phase's slot published. -/
theorem Sound.published_of_working (sound : Sound P c) {i : Fin N} {slot : ℕ}
    (working : (c.pcs i).working = some slot) : slot < (c.pcs 0).published P := by
  have valid := sound.valid i
  cases standing : c.pcs i <;>
    simp only [standing, Pc.working, Option.some.injEq, reduceCtorEq] at working
  all_goals
    subst working
    rw [standing] at valid
    exact sound.behind valid (by rw [standing]; rfl)

/-- Every statement of a thread leaves the offsets long enough. -/
theorem longEnough_go {i : Fin N} {shared : Shared N} {pc : Pc} (sound : Sound P c)
    (long : LongEnough workDuration c)
    (moved : exec P workDuration i c.shared (c.pcs i) = some (shared, pc)) :
    LongEnough workDuration ⟨shared, Function.update c.pcs i pc, count c.writes (c.pcs i),
      c.log ++ (observe c.shared (c.pcs i)).map (i, ·)⟩ := by
  have effect := sound.effect moved
  have started : ∀ phase, c.pcs i = .startWork phase → c.shared.phaseStarts phase ≤ c.shared.now := by
    intro phase standing
    have valid := sound.valid i
    rw [standing] at valid
    exact sound.started phase (sound.behind valid (by rw [standing]; rfl))
  obtain ⟨worked, recorded⟩ := exec_worked (long.worked i) started moved
  constructor
  · dsimp only
    rw [Function.forall_update_iff c.pcs fun _ pc => pc.Worked workDuration shared.now
      shared.phaseStarts]
    refine ⟨worked, fun j _ => worked_of_same (effect.now.symm ▸ long.worked j) fun slot working => ?_⟩
    rcases effect.starts slot with ⟨_, same⟩ | ⟨writing, _⟩
    · exact same
    · have next := effect.writes_published writing
      have before := sound.published_of_working working
      omega
  · intro j entry member
    by_cases mine : j = i
    · subst mine
      rw [pick_self, List.filterMap_some] at member
      rcases List.mem_append.mp member with before | now
      · exact long.offsets j entry before
      · exact recorded entry now
    · rw [pick_other some mine] at member
      exact long.offsets j entry member

/-- The offsets are long enough in every reachable state. -/
theorem reachable_longEnough (positive : 0 < P) (reached : Reachable P workDuration start c) :
    Sound P c ∧ LongEnough workDuration c := by
  have kept : Preserved (step P workDuration) fun c : Config N =>
      Sound P c ∧ LongEnough workDuration c := by
    refine sound_preserved.and fun c label c' sound long taken => ?_
    cases label with
    | go i =>
      obtain ⟨⟨shared, pc⟩, moved, rfl⟩ := Option.map_eq_some_iff.mp taken
      exact longEnough_go sound long moved
    | tick d =>
      obtain rfl := Option.some.inj taken
      have later : c.shared.now ≤ c.shared.now + d := by omega
      exact ⟨fun i => worked_later (long.worked i) later, long.offsets⟩
  refine kept.reaches ⟨sound_init positive start, fun _ => trivial, ?_⟩ reached
  intro i entry member
  simp [Config.init, pick] at member

/-- What `StdBarrier_WithWork` reports is the coefficient of variation, never the zero that stands
in for it, in exact arithmetic. For every number of threads and phases, any work that takes time
and every interleaving, when all threads have returned no last arrival is earlier than the work
is long, so the mean that is divided by is positive; the coefficient, squared, is at most what
the number of threads allows, and zero only if all threads arrived at the same offset. -/
theorem arrival_cv_defined (workDuration start : ℤ) (positive : 0 < P) (works : 0 < workDuration)
    (c : Config N) (reached : Reachable P workDuration start c)
    (returned : ∀ i, c.pcs i = .returned) :
    (∀ i, workDuration ≤ c.shared.lastArrival i) ∧
    0 < mean (arrivalNs c.shared.lastArrival) ∧
    ∃ cv, arrivalCv (arrivalNs c.shared.lastArrival) = some cv ∧
      cv = dispersion (arrivalNs c.shared.lastArrival) ∧ cv ≤ N - 1 ∧
      (cv = 0 ↔ ∀ i j, c.shared.lastArrival i = c.shared.lastArrival j) := by
  obtain ⟨sound, long⟩ := reachable_longEnough positive reached
  have late : ∀ i, workDuration ≤ c.shared.lastArrival i := by
    intro i
    have phases := sound.phases i
    rw [returned, show Pc.returned.recorded P = P from rfl] at phases
    have final := congrArg List.getLast? phases
    rw [List.getLast?_map, List.getLast?_range, if_neg positive.ne'] at final
    obtain ⟨entry, isLast, _⟩ := Option.map_eq_some_iff.mp final
    rw [sound.last i entry isLast]
    exact long.offsets i entry (List.mem_of_getLast? isLast)
  have times : ∀ time ∈ arrivalNs c.shared.lastArrival, 0 < time := by
    intro time member
    obtain ⟨i, rfl⟩ := (List.mem_ofFn' _ _).mp member
    have offset : 0 < c.shared.lastArrival i := works.trans_le (late i)
    change (0 : ℚ) < (c.shared.lastArrival i : ℚ)
    exact_mod_cast offset
  have some : arrivalNs c.shared.lastArrival ≠ [] := by
    simpa [arrivalNs] using NeZero.ne N
  have sum : 0 < (arrivalNs c.shared.lastArrival).sum := List.sum_pos _ times some
  have length : ((arrivalNs c.shared.lastArrival).length : ℚ) = N := by simp [arrivalNs]
  refine ⟨late, div_pos sum (length_pos sum.ne'), _, arrivalCv_of_pos sum, rfl, ?_, ?_⟩
  · rw [← length]
    exact dispersion_le sum.ne' fun time member => (times time member).le
  · rw [dispersion_eq_zero_iff sum.ne']
    simp [arrivalNs]

/-- Two threads of one phase with work of 100: the first arrives after 100, the second after
300. -/
theorem arrival_cv_defined_two : ∃ (c : Config 2) (cv : ℚ), Reachable 1 100 0 c ∧
    c.shared.lastArrival 0 = 100 ∧ c.shared.lastArrival 1 = 300 ∧
    arrivalCv (arrivalNs c.shared.lastArrival) = some cv ∧ cv ≤ 1 ∧ cv ≠ 0 := by
  let schedule : List (Label 2) :=
    [[.go 0, .go 0, .go 1, .go 1, .tick 100], List.replicate 4 (.go 0), [.tick 200],
      List.replicate 7 (.go 1), List.replicate 4 (.go 0), [.go 1]].flatten
  have played : (run (step 1 100) (Config.init 0) schedule).map
      (fun c => (decide (∀ i, c.pcs i = .returned), c.shared.lastArrival 0,
        c.shared.lastArrival 1)) = some (true, 100, 300) := by
    decide +kernel
  obtain ⟨c, reached, final⟩ := Option.map_eq_some_iff.mp played
  simp only [Prod.mk.injEq, decide_eq_true_eq] at final
  obtain ⟨returned, first, second⟩ := final
  obtain ⟨_, _, cv, reported, _, bound, equal⟩ :=
    arrival_cv_defined 100 0 one_pos (by decide) c ⟨schedule, reached⟩ returned
  refine ⟨c, cv, ⟨schedule, reached⟩, first, second, reported, ?_, fun zero => ?_⟩
  · norm_num at bound
    exact bound
  · have same := equal.mp zero 0 1
    omega

end Run

end ConcurrencyBench.PhaseStarts
