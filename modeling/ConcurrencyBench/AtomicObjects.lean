import ConcurrencyBench.Runs
import Mathlib.Logic.Function.Basic

/-!
# Objects whose calls take effect at once

A sequential object answers a call from its state and moves to a next state. Shared by
several threads it is atomic when each call takes effect in one step, at some moment
between the call and its return. A history says which calls have been made and which
have returned, with their results, in order; it is all that the callers can tell apart.
So an implementation is as good as the atomic object if it has no history that the
object does not have.

A simulation carries runs, and with them histories, from one system to another. Objects
that answer alike have the same histories, up to the names of their calls.
-/

namespace Interleaving

universe u v w x y z
variable {ι : Type u} {σ : Type v} {κ : Type w} {ρ : Type x} {τ : Type y} {μ : Type z}

/-- What a caller sees. -/
inductive Exchange (ι : Type u) (κ : Type w) (ρ : Type x)
  | called (i : ι) (call : κ)
  | returned (i : ι) (call : κ) (result : ρ)
deriving DecidableEq

/-- A thread has made no call, waits for one to take effect, or may return from one. -/
inductive Stage (κ : Type w) (ρ : Type x)
  | idle
  | pending (call : κ)
  | answered (call : κ) (result : ρ)

/-- The state of the object, each thread's stage, and the history. -/
structure Atomic (ι : Type u) (σ : Type v) (κ : Type w) (ρ : Type x) where
  state : σ
  stages : ι → Stage κ ρ
  history : List (Exchange ι κ ρ)

namespace Atomic

/-- A thread calls, has its call take effect, or returns from it. -/
inductive Label (ι : Type u) (κ : Type w)
  | call (i : ι) (call : κ)
  | effect (i : ι)
  | answer (i : ι)

/-- Nobody has called anything yet. -/
def init (start : σ) : Atomic ι σ κ ρ := ⟨start, fun _ => .idle, []⟩

variable [DecidableEq ι]

/-- One step of the threads that share the object. -/
def step (apply : κ → σ → σ × ρ) (a : Atomic ι σ κ ρ) : Label ι κ → Option (Atomic ι σ κ ρ)
  | .call i call =>
    match a.stages i with
    | .idle => some { a with
        stages := Function.update a.stages i (.pending call)
        history := a.history ++ [.called i call] }
    | _ => none
  | .effect i =>
    match a.stages i with
    | .pending call => some { a with
        state := (apply call a.state).1
        stages := Function.update a.stages i (.answered call (apply call a.state).2) }
    | _ => none
  | .answer i =>
    match a.stages i with
    | .answered call result => some { a with
        stages := Function.update a.stages i .idle
        history := a.history ++ [.returned i call result] }
    | _ => none

/-- The object has this history. -/
def History (apply : κ → σ → σ × ρ) (start : σ) (history : List (Exchange ι κ ρ)) : Prop :=
  ∃ a, Reaches (step apply) (init start) a ∧ a.history = history

/-- What a thread's step does, by the stage it starts from. -/
inductive Move (apply : κ → σ → σ × ρ) (i : ι) (a : Atomic ι σ κ ρ) : Atomic ι σ κ ρ → Prop
  | call (call : κ) (idle : a.stages i = .idle) :
      Move apply i a { a with
        stages := Function.update a.stages i (.pending call)
        history := a.history ++ [.called i call] }
  | effect (call : κ) (pending : a.stages i = .pending call) :
      Move apply i a { a with
        state := (apply call a.state).1
        stages := Function.update a.stages i (.answered call (apply call a.state).2) }
  | answer (call : κ) (result : ρ) (answered : a.stages i = .answered call result) :
      Move apply i a { a with
        stages := Function.update a.stages i .idle
        history := a.history ++ [.returned i call result] }

variable {apply : κ → σ → σ × ρ} {a a' : Atomic ι σ κ ρ}

/-- Every step is a move of some thread. -/
theorem step_move {label : Label ι κ} (taken : step apply a label = some a') :
    ∃ i, Move apply i a a' := by
  cases label with
  | call i call =>
    cases stage : a.stages i <;> simp only [step, stage, Option.some.injEq, reduceCtorEq] at taken
    subst taken
    exact ⟨i, .call call stage⟩
  | effect i =>
    cases stage : a.stages i <;> simp only [step, stage, Option.some.injEq, reduceCtorEq] at taken
    subst taken
    exact ⟨i, .effect _ stage⟩
  | answer i =>
    cases stage : a.stages i <;> simp only [step, stage, Option.some.injEq, reduceCtorEq] at taken
    subst taken
    exact ⟨i, .answer _ _ stage⟩

/-- Every move is a step. -/
theorem Move.reaches {i : ι} (moved : Move apply i a a') : Reaches (step apply) a a' := by
  cases moved with
  | call call idle => exact ⟨[.call i call], by simp [run, step, idle]⟩
  | effect call pending => exact ⟨[.effect i], by simp [run, step, pending]⟩
  | answer call result answered => exact ⟨[.answer i], by simp [run, step, answered]⟩

end Atomic

section Simulation

variable {α : Type w} {β : Type x} {step : σ → α → Option σ} {target : τ → β → Option τ}

/-- A relation that every step of one system lets finitely many steps of another restore
relates every state reached to one the other reaches. -/
theorem simulated (related : σ → τ → Prop) {first : σ} {first' : τ}
    (start : related first first')
    (simulates : ∀ state state' label next, related state state' →
      step state label = some next → ∃ next', Reaches target state' next' ∧ related next next')
    {last : σ} (reached : Reaches step first last) :
    ∃ last', Reaches target first' last' ∧ related last last' := by
  have kept : Preserved step fun state => ∃ state', Reaches target first' state' ∧
      related state state' := by
    rintro state label next ⟨state', before, holds⟩ taken
    obtain ⟨next', onward, restored⟩ := simulates state state' label next holds taken
    exact ⟨next', before.trans onward, restored⟩
  exact kept.reaches ⟨first', Reaches.refl first', start⟩ reached

end Simulation

section Renaming

/-- The same exchange of a call by another name. -/
def Exchange.map (name : κ → μ) : Exchange ι κ ρ → Exchange ι μ ρ
  | .called i call => .called i (name call)
  | .returned i call result => .returned i (name call) result

/-- A stage with its call renamed. -/
def Stage.map (name : κ → μ) : Stage κ ρ → Stage μ ρ
  | .idle => .idle
  | .pending call => .pending (name call)
  | .answered call result => .answered (name call) result

variable [DecidableEq ι] {apply : κ → σ → σ × ρ} {apply' : μ → τ → τ × ρ} {name : κ → μ}
  {view : τ → σ}

/-- Two objects in step: the first has the part of the second's state that it sees, and
the second's calls are the first's by another name. -/
structure InStep (name : κ → μ) (view : τ → σ) (a : Atomic ι σ κ ρ) (a' : Atomic ι τ μ ρ) :
    Prop where
  state : a.state = view a'.state
  stages : ∀ i, a'.stages i = (a.stages i).map name
  history : a'.history = a.history.map (Exchange.map name)

omit [DecidableEq ι] in
/-- Both objects start in step. -/
theorem inStep_init (start : τ) :
    InStep name view (Atomic.init (view start) : Atomic ι σ κ ρ) (Atomic.init start) :=
  ⟨rfl, fun _ => rfl, rfl⟩

/-- Stages that agree do so after the same change. -/
theorem stages_update {stages : ι → Stage κ ρ} {stages' : ι → Stage μ ρ}
    (same : ∀ i, stages' i = (stages i).map name) {i : ι} (stage : Stage κ ρ) :
    ∀ j, Function.update stages' i (stage.map name) j =
      (Function.update stages i stage j).map name := by
  intro j
  by_cases mine : j = i
  · subst mine
    simp
  · simp [mine, same]

/-- A step of the object seen is a step of the other, under the other name. -/
theorem InStep.forward (agrees : ∀ call state, apply call (view state) =
      (view (apply' (name call) state).1, (apply' (name call) state).2))
    {a a₁ : Atomic ι σ κ ρ} {a' : Atomic ι τ μ ρ} {i : ι} (related : InStep name view a a')
    (moved : Atomic.Move apply i a a₁) :
    ∃ a₁', Atomic.Move apply' i a' a₁' ∧ InStep name view a₁ a₁' := by
  obtain ⟨state, stages, history⟩ := related
  cases moved with
  | call call idle =>
    refine ⟨_, .call (name call) (by rw [stages, idle]; rfl), state, ?_, ?_⟩
    · exact stages_update stages (.pending call)
    · simp [history, Exchange.map]
  | effect call pending =>
    refine ⟨_, .effect (name call) (by rw [stages, pending]; rfl), ?_, ?_, history⟩
    · simp only [state, agrees]
    · rw [state, agrees]
      exact stages_update stages (.answered call (apply' (name call) a'.state).2)
  | answer call result answered =>
    refine ⟨_, .answer (name call) result (by rw [stages, answered]; rfl), state, ?_, ?_⟩
    · exact stages_update stages .idle
    · simp [history, Exchange.map]

/-- A step of the other object is one of the object seen, unless it makes a call for which
that has no name. -/
theorem InStep.backward (agrees : ∀ call state, apply call (view state) =
      (view (apply' (name call) state).1, (apply' (name call) state).2))
    {a : Atomic ι σ κ ρ} {a' a₁' : Atomic ι τ μ ρ} {i : ι} (related : InStep name view a a')
    (moved : Atomic.Move apply' i a' a₁')
    (named : ∀ exchange ∈ a₁'.history, ∃ own : Exchange ι κ ρ, own.map name = exchange) :
    ∃ a₁, Atomic.Move apply i a a₁ ∧ InStep name view a₁ a₁' := by
  obtain ⟨state, stages, history⟩ := related
  cases moved with
  | call call' idle =>
    obtain ⟨own, same⟩ := named (.called i call') (by simp)
    cases own with
    | returned => simp [Exchange.map] at same
    | called j call =>
      obtain ⟨rfl, rfl⟩ : j = i ∧ name call = call' := by simpa [Exchange.map] using same
      have mine : a.stages j = .idle := by
        rw [stages] at idle
        cases stage : a.stages j <;> simp [stage, Stage.map] at idle ⊢
      refine ⟨_, .call call mine, state, ?_, ?_⟩
      · exact stages_update stages (.pending call)
      · simp [history, Exchange.map]
  | effect call' pending =>
    rw [stages] at pending
    cases stage : a.stages i with
    | pending call =>
      obtain rfl : name call = call' := by simpa [stage, Stage.map] using pending
      refine ⟨_, .effect call stage, ?_, ?_, history⟩
      · simp only [state, agrees]
      · rw [state, agrees]
        exact stages_update stages (.answered call (apply' (name call) a'.state).2)
    | _ => simp [stage, Stage.map] at pending
  | answer call' result answered =>
    rw [stages] at answered
    cases stage : a.stages i with
    | answered call own =>
      obtain ⟨rfl, rfl⟩ : name call = call' ∧ own = result := by
        simpa [stage, Stage.map] using answered
      refine ⟨_, .answer call own stage, state, ?_, ?_⟩
      · exact stages_update stages .idle
      · simp [history, Exchange.map]
    | _ => simp [stage, Stage.map] at answered

/-- Objects that answer alike have the same histories of the calls that both have. -/
theorem history_map_iff (distinct : Function.Injective name)
    (agrees : ∀ call state, apply call (view state) =
      (view (apply' (name call) state).1, (apply' (name call) state).2))
    (start : τ) (history : List (Exchange ι κ ρ)) :
    Atomic.History apply' start (history.map (Exchange.map name)) ↔
      Atomic.History apply (view start) history := by
  have renamed : Function.Injective (Exchange.map name : Exchange ι κ ρ → Exchange ι μ ρ) := by
    intro first second same
    cases first <;> cases second <;> simp_all [Exchange.map, distinct.eq_iff]
  constructor
  · rintro ⟨last', reached, same⟩
    have kept : Preserved (Atomic.step apply') fun a' : Atomic ι τ μ ρ =>
        (∀ exchange ∈ a'.history, ∃ own : Exchange ι κ ρ, own.map name = exchange) →
          ∃ a, Reaches (Atomic.step apply) (Atomic.init (view start)) a ∧ InStep name view a a' := by
      intro a' label a₁' before taken named
      obtain ⟨i, moved⟩ := Atomic.step_move taken
      have earlier : ∀ exchange ∈ a'.history, exchange ∈ a₁'.history := by
        intro exchange member
        cases moved <;> simp [member]
      obtain ⟨a, reached, related⟩ := before fun exchange member =>
        named exchange (earlier exchange member)
      obtain ⟨a₁, own, restored⟩ := related.backward agrees moved named
      exact ⟨a₁, reached.trans own.reaches, restored⟩
    obtain ⟨last, onward, related⟩ := kept.reaches
      (fun _ => ⟨_, Reaches.refl _, inStep_init start⟩) reached (by
        rw [same]
        intro exchange member
        obtain ⟨own, _, rfl⟩ := List.mem_map.mp member
        exact ⟨own, rfl⟩)
    refine ⟨last, onward, ?_⟩
    rw [related.history] at same
    exact List.map_injective_iff.mpr renamed same
  · rintro ⟨last, reached, rfl⟩
    have simulates : ∀ (a : Atomic ι σ κ ρ) (a' : Atomic ι τ μ ρ) label a₁,
        InStep name view a a' → Atomic.step apply a label = some a₁ →
          ∃ a₁', Reaches (Atomic.step apply') a' a₁' ∧ InStep name view a₁ a₁' := by
      intro a a' label a₁ related taken
      obtain ⟨i, moved⟩ := Atomic.step_move taken
      obtain ⟨a₁', own, restored⟩ := related.forward agrees moved
      exact ⟨a₁', own.reaches, restored⟩
    obtain ⟨last', onward, related⟩ := simulated (InStep name view) (inStep_init start) simulates
      reached
    exact ⟨last', onward, related.history⟩

end Renaming

end Interleaving
