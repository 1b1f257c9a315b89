import Mathlib.Data.List.Basic

/-!
# Bounded channels that end

The purpose of a closable bounded queue, without threads, locks or tokens. A
channel holds its items in order, never more than its capacity, and at some
point ends: then it is empty and accepts nothing more. A value that breaks
either bound cannot be built.

A trace lists the sends and receives between two channels. Its laws are that the
received items followed by those left are the initial items followed by those
sent, and that nothing is sent or received once the channel has ended.
-/

namespace Interleaving

universe u
variable {T : Type u} {capacity : ℕ}

/-- A channel's content, with its capacity and its end as part of its type. -/
structure Channel (T : Type u) (capacity : ℕ) where
  items : List T
  within : items.length ≤ capacity
  ended : Prop
  drained : ended → items = []

namespace Channel

/-- What the users of a channel do to it. -/
inductive Act (T : Type u)
  | send (item : T)
  | receive (item : T)

/-- One act: sending needs a channel that has not ended, receiving takes the
first item. Neither ends the channel. -/
def Step (s : Channel T capacity) : Act T → Channel T capacity → Prop
  | .send item, t => ¬ s.ended ∧ t.items = s.items ++ [item] ∧ (t.ended ↔ s.ended)
  | .receive item, t => s.items = item :: t.items ∧ (s.ended → t.ended)

/-- No act, though the channel may end. -/
def Quiet (s t : Channel T capacity) : Prop :=
  t.items = s.items ∧ (s.ended → t.ended)

/-- The acts that lead from one channel to another, with quiet steps between. -/
inductive Trace : Channel T capacity → List (Act T) → Channel T capacity → Prop
  | start (s : Channel T capacity) : Trace s [] s
  | act {s t t' : Channel T capacity} {acts : List (Act T)} (act : Act T)
      (before : Trace s acts t) (taken : Step t act t') : Trace s (acts ++ [act]) t'
  | quiet {s t t' : Channel T capacity} {acts : List (Act T)}
      (before : Trace s acts t) (taken : Quiet t t') : Trace s acts t'

/-- The items sent, in order. -/
def sent (acts : List (Act T)) : List T :=
  acts.filterMap fun
    | .send item => some item
    | .receive _ => none

/-- The items received, in order. -/
def received (acts : List (Act T)) : List T :=
  acts.filterMap fun
    | .send _ => none
    | .receive item => some item

/-- What is sent in two parts. -/
@[simp]
theorem sent_append (first second : List (Act T)) :
    sent (first ++ second) = sent first ++ sent second :=
  List.filterMap_append

/-- What is received in two parts. -/
@[simp]
theorem received_append (first second : List (Act T)) :
    received (first ++ second) = received first ++ received second :=
  List.filterMap_append

/-- Nothing is lost, duplicated or reordered: the items received, followed by
those left, are those at the start followed by those sent. -/
theorem Trace.conserves {s t : Channel T capacity} {acts : List (Act T)}
    (trace : Trace s acts t) : received acts ++ t.items = s.items ++ sent acts := by
  induction trace with
  | start => simp [sent, received]
  | act act _ taken inductionHypothesis =>
    cases act with
    | send item =>
      obtain ⟨_, items, _⟩ := taken
      simp only [received_append, sent_append, items, ← List.append_assoc]
      rw [List.append_assoc (received _), ← inductionHypothesis]
      simp [received, sent]
    | receive item =>
      obtain ⟨items, _⟩ := taken
      simpa [received, sent, items] using inductionHypothesis
  | quiet _ taken inductionHypothesis => rw [taken.1, inductionHypothesis]

/-- A channel that has ended stays ended, and no item passes through it. -/
theorem Trace.final {s t : Channel T capacity} {acts : List (Act T)}
    (trace : Trace s acts t) (ended : s.ended) : t.ended ∧ acts = [] := by
  induction trace with
  | start => exact ⟨ended, rfl⟩
  | act act _ taken inductionHypothesis =>
    obtain ⟨still, _⟩ := inductionHypothesis
    cases act with
    | send item => exact absurd still taken.1
    | receive item =>
      have nonempty := taken.1
      rw [Channel.drained _ still] at nonempty
      simp at nonempty
  | quiet _ taken inductionHypothesis =>
    obtain ⟨still, none⟩ := inductionHypothesis
    exact ⟨taken.2 still, none⟩

end Channel

end Interleaving
