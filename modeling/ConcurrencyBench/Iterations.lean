import ConcurrencyBench.Runs

/-!
# A loop of fresh runs

A measuring loop runs one system again and again, each time from a fresh state, and
keeps a result of the run that has come to its end last. The steps of a run are the
system's own, and the loop steps only between them. So whatever holds of the result of
every run to the end holds of the result that the loop leaves behind, and any such result
may be the one that it leaves.
-/

namespace Interleaving

universe u v w
variable {σ : Type u} {α : Type v} {ρ : Type w}

/-- Before an iteration or after one, within one, or past the loop, with the result of the
latest iteration. -/
inductive Loop (σ : Type u) (ρ : Type w)
  | between (iterations : ℕ) (last : Option ρ)
  | running (iterations : ℕ) (state : σ) (last : Option ρ)
  | passed (last : Option ρ)

/-- The loop goes on by itself, or lets the system take a step. -/
def iterate (step : σ → α → Option σ) (fresh : σ) (result : σ → Option ρ) (total : ℕ) :
    Loop σ ρ → Option α → Option (Loop σ ρ)
  | .between iterations last, none =>
    some (if iterations < total then .running iterations fresh last else .passed last)
  | .running iterations state last, some label =>
    (step state label).map fun next => .running iterations next last
  | .running iterations state _, none =>
    (result state).map fun final => .between (iterations + 1) (some final)
  | _, _ => none

/-- The result of some run to the end. -/
def Returns (step : σ → α → Option σ) (fresh : σ) (result : σ → Option ρ) (final : ρ) : Prop :=
  ∃ last, Reaches step fresh last ∧ result last = some final

variable {step : σ → α → Option σ} {fresh : σ} {result : σ → Option ρ} {total : ℕ}

/-- What is known of each part of the loop: a run in progress has started from the fresh
state, and a result is that of some run. -/
def Loop.Lawful (step : σ → α → Option σ) (fresh : σ) (result : σ → Option ρ) (total : ℕ) :
    Loop σ ρ → Prop
  | .between iterations last => (iterations = 0 ∧ last = none) ∨
      0 < total ∧ ∃ final, last = some final ∧ Returns step fresh result final
  | .running _ state _ => 0 < total ∧ Reaches step fresh state
  | .passed last => (total = 0 ∧ last = none) ∨
      0 < total ∧ ∃ final, last = some final ∧ Returns step fresh result final

/-- Each part of the loop passes on what is known of it. -/
theorem lawful_preserved :
    Preserved (iterate step fresh result total) (Loop.Lawful step fresh result total) := by
  intro loop label next lawful taken
  cases loop with
  | between iterations last =>
    cases label with
    | none =>
      obtain rfl := Option.some.inj taken
      split
      next more => exact ⟨Nat.zero_lt_of_lt more, Reaches.refl fresh⟩
      next last =>
        rcases lawful with ⟨none, nothing⟩ | returned
        · exact Or.inl ⟨by omega, nothing⟩
        · exact Or.inr returned
    | some label => simp [iterate] at taken
  | running iterations state last =>
    obtain ⟨iterates, reached⟩ := lawful
    cases label with
    | none =>
      obtain ⟨final, ended, rfl⟩ := Option.map_eq_some_iff.mp taken
      exact Or.inr ⟨iterates, final, rfl, state, reached, ended⟩
    | some label =>
      obtain ⟨after, moved, rfl⟩ := Option.map_eq_some_iff.mp taken
      exact ⟨iterates, reached.tail moved⟩
  | passed last => simp [iterate] at taken

/-- What the loop leaves behind is the result of a run to the end, if it iterates at all. -/
theorem returns_of_passed {last : Option ρ}
    (reached : Reaches (iterate step fresh result total) (.between 0 none) (.passed last)) :
    (total = 0 ∧ last = none) ∨
      0 < total ∧ ∃ final, last = some final ∧ Returns step fresh result final := by
  have start : Loop.Lawful step fresh result total (.between 0 none) := Or.inl ⟨rfl, rfl⟩
  exact lawful_preserved.reaches start reached

/-- A run to the end is one that an iteration may take. -/
theorem reaches_between {final : ρ} (returns : Returns step fresh result final) (iterations : ℕ)
    (last : Option ρ) (more : iterations < total) :
    Reaches (iterate step fresh result total) (.between iterations last)
      (.between (iterations + 1) (some final)) := by
  obtain ⟨state, ran, ended⟩ := returns
  have begun : iterate step fresh result total (.between iterations last) none =
      some (.running iterations fresh last) := by
    rw [iterate, if_pos more]
  have inside : Reaches (iterate step fresh result total) (.running iterations fresh last)
      (.running iterations state last) := by
    refine reaches_map (fun state => Loop.running iterations state last) ?_ ran
    intro state label next taken
    have forward : iterate step fresh result total (.running iterations state last) (some label) =
        some (.running iterations next last) := by
      rw [iterate, taken, Option.map_some]
    exact Reaches.single forward
  have returned : iterate step fresh result total (.running iterations state last) none =
      some (.between (iterations + 1) (some final)) := by
    rw [iterate, ended, Option.map_some]
  exact ((Reaches.single begun).trans inside).tail returned

/-- A loop that iterates may leave behind the result of any run to the end. -/
theorem reaches_passed {final : ρ} (returns : Returns step fresh result final)
    (iterates : 0 < total) :
    Reaches (iterate step fresh result total) (.between 0 none) (.passed (some final)) := by
  have again : ∀ iterations, iterations < total → Reaches (iterate step fresh result total)
      (.between 0 none) (.between (iterations + 1) (some final)) := by
    intro iterations more
    induction iterations with
    | zero => exact reaches_between returns 0 none more
    | succ iterations inductionHypothesis =>
      have before := inductionHypothesis (Nat.lt_of_succ_lt more)
      exact before.trans (reaches_between returns (iterations + 1) _ more)
  obtain ⟨previous, rfl⟩ := Nat.exists_eq_add_of_lt iterates
  have left : iterate step fresh result (0 + previous + 1)
      (.between (previous + 1) (some final)) none = some (.passed (some final)) := by
    rw [iterate, if_neg (by omega)]
  exact (again previous (by omega)).tail left

end Interleaving
