import Mathlib.Data.List.Basic
import Mathlib.Order.Basic

/-!
# Schedules of a labelled step function

A system is a partial function from a state and a label to the next state; a
label that is not enabled has no next state. A schedule is a finite list of
labels, so an arbitrary interleaving is an arbitrary list. The laws here are those
the developments above rest on: a property kept by every enabled step holds after
every schedule, a number lowered by every enabled step, or raised at a charge,
bounds the length of every schedule, so that some schedule cannot be continued,
and a schedule of one system is carried to another by any function of states that
maps one step to finitely many.

Restricting a system to the labels a test accepts is again a system. Its runs
are the runs whose steps all meet the test. A note kept beside the state, rewritten
by the steps and read by none, changes no run either.
-/

namespace Interleaving

universe u v w x
variable {σ : Type u} {α : Type v} {τ : Type w} {β : Type x} {ν : Type w}

/-- Play a schedule from a state. A label that is not enabled ends the attempt. -/
def run (step : σ → α → Option σ) : σ → List α → Option σ
  | state, [] => some state
  | state, label :: rest => (step state label).bind fun next => run step next rest

/-- Some schedule leads from the first state to the second. -/
def Reaches (step : σ → α → Option σ) (first last : σ) : Prop :=
  ∃ schedule, run step first schedule = some last

/-- No label is enabled. -/
def Stuck (step : σ → α → Option σ) (state : σ) : Prop :=
  ∀ label, step state label = none

/-- The system that takes only the steps the test accepts. -/
def guarded (test : σ → α → Bool) (step : σ → α → Option σ) (state : σ) (label : α) :
    Option σ :=
  if test state label then step state label else none

/-- The system with a note beside its state, which every enabled step rewrites. -/
def annotated (step : σ → α → Option σ) (note : σ → α → ν → ν) (state : σ × ν) (label : α) :
    Option (σ × ν) :=
  (step state.1 label).map (·, note state.1 label state.2)

/-- The property holds after every enabled step from a state that has it. -/
def Preserved (step : σ → α → Option σ) (property : σ → Prop) : Prop :=
  ∀ state label next, property state → step state label = some next → property next

/-- Each enabled step from a state with the property lowers the number. -/
def Lowers (step : σ → α → Option σ) (property : σ → Prop) (remaining : σ → ℕ) : Prop :=
  ∀ state label next, property state → step state label = some next →
    remaining next < remaining state

section Runs

variable {step : σ → α → Option σ}

/-- The empty schedule runs to the state itself. -/
@[simp]
theorem run_nil (state : σ) : run step state [] = some state := rfl

/-- A schedule runs if its first label does and the rest from there. -/
theorem run_cons_iff (state last : σ) (label : α) (rest : List α) :
    run step state (label :: rest) = some last ↔
      ∃ next, step state label = some next ∧ run step next rest = some last := by
  simp only [run, Option.bind_eq_some_iff]

/-- A schedule plays in two parts exactly when the parts play in turn. -/
theorem run_append_iff (state last : σ) (first second : List α) :
    run step state (first ++ second) = some last ↔
      ∃ middle, run step state first = some middle ∧ run step middle second = some last := by
  induction first generalizing state with
  | nil => simp
  | cons label rest inductionHypothesis =>
    simp only [List.cons_append, run_cons_iff, inductionHypothesis]
    constructor
    · rintro ⟨next, taken, middle, before, after⟩
      exact ⟨middle, ⟨next, taken, before⟩, after⟩
    · rintro ⟨middle, ⟨next, taken, before⟩, after⟩
      exact ⟨next, taken, middle, before, after⟩

/-- Every state is reached from itself. -/
theorem Reaches.refl (state : σ) : Reaches step state state := ⟨[], rfl⟩

/-- A step reaches the next state. -/
theorem Reaches.single {state next : σ} {label : α} (taken : step state label = some next) :
    Reaches step state next :=
  ⟨[label], (run_cons_iff state next label []).mpr ⟨next, taken, rfl⟩⟩

/-- One run after another. -/
theorem Reaches.trans {first middle last : σ} (before : Reaches step first middle)
    (after : Reaches step middle last) : Reaches step first last := by
  obtain ⟨earlier, playedBefore⟩ := before
  obtain ⟨later, playedAfter⟩ := after
  exact ⟨earlier ++ later,
    (run_append_iff first last earlier later).mpr ⟨middle, playedBefore, playedAfter⟩⟩

/-- A run and one more step. -/
theorem Reaches.tail {first middle last : σ} {label : α} (before : Reaches step first middle)
    (taken : step middle label = some last) : Reaches step first last :=
  before.trans (Reaches.single taken)

/-- A preserved property survives a whole schedule, by induction on its labels. -/
theorem Preserved.run {property : σ → Prop} (kept : Preserved step property)
    {first last : σ} {schedule : List α} (holds : property first)
    (played : run step first schedule = some last) : property last := by
  induction schedule generalizing first with
  | nil => exact Option.some.inj played ▸ holds
  | cons label rest inductionHypothesis =>
    obtain ⟨next, taken, after⟩ := (run_cons_iff first last label rest).mp played
    exact inductionHypothesis (kept first label next holds taken) after

/-- A preserved property holds along every run. -/
theorem Preserved.reaches {property : σ → Prop} (kept : Preserved step property)
    {first last : σ} (holds : property first) (reached : Reaches step first last) :
    property last := by
  obtain ⟨schedule, played⟩ := reached
  exact kept.run holds played

/-- A property kept from states that have another, itself preserved, property.
The second property may be used at each step without being carried by the first. -/
theorem Preserved.and {property background : σ → Prop} (base : Preserved step background)
    (kept : ∀ state label next, background state → property state →
      step state label = some next → property next) :
    Preserved step fun state => background state ∧ property state := by
  rintro state label next ⟨known, holds⟩ taken
  exact ⟨base state label next known taken, kept state label next known holds taken⟩

/-- Each step of a schedule spends at least one unit of a number that every
enabled step lowers, so the number at the start bounds the schedule's length. -/
theorem Lowers.length_le {property : σ → Prop} {remaining : σ → ℕ}
    (kept : Preserved step property) (lowers : Lowers step property remaining)
    {first last : σ} {schedule : List α} (holds : property first)
    (played : run step first schedule = some last) :
    schedule.length + remaining last ≤ remaining first := by
  induction schedule generalizing first with
  | nil =>
    have same : first = last := Option.some.inj played
    simp [same]
  | cons label rest inductionHypothesis =>
    obtain ⟨next, taken, after⟩ := (run_cons_iff first last label rest).mp played
    have spent : remaining next < remaining first := lowers first label next holds taken
    have later := inductionHypothesis (kept first label next holds taken) after
    rw [List.length_cons]
    omega

/-- Where some labels may also add to the number, up to a charge, the number at the start and
the charges bound the schedule's length. -/
theorem length_le_of_charged {property : σ → Prop} (kept : Preserved step property)
    (remaining : σ → ℕ) (charged : α → Bool) (charge : ℕ)
    (lowers : ∀ state label next, property state → step state label = some next →
      remaining next + 1 ≤ remaining state + if charged label then charge else 0)
    {first last : σ} {schedule : List α} (holds : property first)
    (played : run step first schedule = some last) :
    schedule.length + remaining last ≤ remaining first + charge * schedule.countP charged := by
  induction schedule generalizing first with
  | nil =>
    have same : first = last := Option.some.inj played
    simp [same]
  | cons label rest inductionHypothesis =>
    obtain ⟨next, taken, after⟩ := (run_cons_iff first last label rest).mp played
    have spent := lowers first label next holds taken
    have later := inductionHypothesis (kept first label next holds taken) after
    rw [List.length_cons, List.countP_cons]
    split at spent
    next costs =>
      rw [if_pos costs, Nat.mul_add, Nat.mul_one]
      omega
    next free =>
      rw [if_neg free, Nat.mul_add, Nat.mul_zero]
      omega

/-- From a state with the property some schedule leads to one in which nothing is enabled,
by induction on the number left. -/
theorem Lowers.exists_stuck {property : σ → Prop} {remaining : σ → ℕ}
    (kept : Preserved step property) (lowers : Lowers step property remaining)
    {first : σ} (holds : property first) : ∃ last, Reaches step first last ∧ Stuck step last := by
  induction left : remaining first using Nat.strongRecOn generalizing first with
  | ind bound inductionHypothesis =>
    by_cases stuck : Stuck step first
    · exact ⟨first, Reaches.refl first, stuck⟩
    · obtain ⟨label, enabled⟩ := not_forall.mp stuck
      obtain ⟨next, taken⟩ := Option.ne_none_iff_exists'.mp enabled
      have lower : remaining next < bound := left ▸ lowers first label next holds taken
      obtain ⟨last, onward, final⟩ :=
        inductionHypothesis (remaining next) lower (kept first label next holds taken) rfl
      exact ⟨last, (Reaches.single taken).trans onward, final⟩

/-- Where some enabled step lowers a number until a goal is met, some schedule meets it. -/
theorem Preserved.exists_reaches {property : σ → Prop} (kept : Preserved step property)
    (goal : σ → Prop) (remaining : σ → ℕ)
    (descends : ∀ state, property state → ¬ goal state →
      ∃ label next, step state label = some next ∧ remaining next < remaining state)
    {first : σ} (holds : property first) : ∃ last, Reaches step first last ∧ goal last := by
  induction left : remaining first using Nat.strongRecOn generalizing first with
  | ind bound inductionHypothesis =>
    by_cases met : goal first
    · exact ⟨first, Reaches.refl first, met⟩
    · obtain ⟨label, next, taken, lower⟩ := descends first holds met
      obtain ⟨last, onward, final⟩ := inductionHypothesis (remaining next) (left ▸ lower)
        (kept first label next holds taken) rfl
      exact ⟨last, (Reaches.single taken).trans onward, final⟩

/-- What the rounds of a loop still cost, before one more of them. -/
theorem rounds_left {round rounds : ℕ} (more : round < rounds) (cost : ℕ) :
    (rounds - round) * cost = (rounds - (round + 1)) * cost + cost := by
  rw [← Nat.succ_mul, Nat.succ_eq_add_one, ← Nat.sub_sub, Nat.sub_add_cancel (by omega)]

end Runs

section Guarded

variable {step : σ → α → Option σ} {test : σ → α → Bool}

/-- A guarded step is a step that passes the test. -/
theorem guarded_eq_some_iff (state next : σ) (label : α) :
    guarded test step state label = some next ↔
      test state label = true ∧ step state label = some next := by
  unfold guarded
  by_cases accepted : test state label = true <;> simp [accepted]

/-- A guarded step preserves what the step preserves. -/
theorem Preserved.guarded {property : σ → Prop} (kept : Preserved step property) :
    Preserved (guarded test step) property := by
  intro state label next holds taken
  exact kept state label next holds ((guarded_eq_some_iff state next label).mp taken).2

/-- A run whose steps all meet the test is a run of the unrestricted system. -/
theorem run_of_guarded {first last : σ} {schedule : List α}
    (played : run (guarded test step) first schedule = some last) :
    run step first schedule = some last := by
  induction schedule generalizing first with
  | nil => exact played
  | cons label rest inductionHypothesis =>
    obtain ⟨next, taken, after⟩ := (run_cons_iff first last label rest).mp played
    have plain := ((guarded_eq_some_iff first next label).mp taken).2
    exact (run_cons_iff first last label rest).mpr ⟨next, plain, inductionHypothesis after⟩

/-- A guarded run is a run. -/
theorem reaches_of_guarded {first last : σ}
    (reached : Reaches (guarded test step) first last) : Reaches step first last := by
  obtain ⟨schedule, played⟩ := reached
  exact ⟨schedule, run_of_guarded played⟩

end Guarded

section Annotated

variable {step : σ → α → Option σ} {note : σ → α → ν → ν}

/-- An annotated step is a step that takes down its note. -/
theorem annotated_eq_some_iff (state next : σ × ν) (label : α) :
    annotated step note state label = some next ↔
      step state.1 label = some next.1 ∧ next.2 = note state.1 label state.2 := by
  obtain ⟨after, kept⟩ := next
  simp only [annotated, Option.map_eq_some_iff, Prod.mk.injEq]
  constructor
  · rintro ⟨_, taken, rfl, rfl⟩
    exact ⟨taken, rfl⟩
  · rintro ⟨taken, rfl⟩
    exact ⟨after, taken, rfl, rfl⟩

/-- The note keeps no schedule from being played and changes no state. -/
theorem run_annotated (note : σ → α → ν → ν) (state : σ × ν) (schedule : List α) :
    (run (annotated step note) state schedule).map Prod.fst = run step state.1 schedule := by
  induction schedule generalizing state with
  | nil => rfl
  | cons label rest inductionHypothesis =>
    simp only [run, annotated, Option.map_bind]
    cases step state.1 label with
    | none => rfl
    | some next => exact inductionHypothesis (next, note state.1 label state.2)

/-- An annotated run is a run. -/
theorem reaches_of_annotated {first last : σ × ν}
    (reached : Reaches (annotated step note) first last) : Reaches step first.1 last.1 := by
  obtain ⟨schedule, played⟩ := reached
  exact ⟨schedule, by rw [← run_annotated note, played, Option.map_some]⟩

/-- Every run carries a note. -/
theorem exists_annotated {first last : σ} (start : ν) (reached : Reaches step first last) :
    ∃ kept, Reaches (annotated step note) (first, start) (last, kept) := by
  obtain ⟨schedule, played⟩ := reached
  rw [← run_annotated note (first, start)] at played
  obtain ⟨⟨_, kept⟩, noted, rfl⟩ := Option.map_eq_some_iff.mp played
  exact ⟨kept, schedule, noted⟩

/-- An annotated step preserves what the step preserves. -/
theorem Preserved.annotated {property : σ → Prop} (kept : Preserved step property) :
    Preserved (annotated step note) fun state => property state.1 := by
  intro state label next holds taken
  exact kept state.1 label next.1 holds ((annotated_eq_some_iff state next label).mp taken).1

end Annotated

/-- A function of states that sends every step to finitely many steps of another
system sends every run to a run. -/
theorem reaches_map {step : σ → α → Option σ} {target : τ → β → Option τ} (image : σ → τ)
    (simulates : ∀ state label next, step state label = some next →
      Reaches target (image state) (image next))
    {first last : σ} (reached : Reaches step first last) :
    Reaches target (image first) (image last) := by
  have kept : Preserved step fun state => Reaches target (image first) (image state) := by
    intro state label next before taken
    exact before.trans (simulates state label next taken)
  exact kept.reaches (Reaches.refl (image first)) reached

end Interleaving
