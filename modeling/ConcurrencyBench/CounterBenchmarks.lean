import ConcurrencyBench.WindowSettling

/-!
# The counter benchmarks

A counter benchmark opens one contention window after the other, each with a lock and a
counter of its own, and adds up what the windows return. Timing is paused and resumed
between them, which has no effect here. The increments made in each window that has
returned are noted, the latest first, for the statements only.

A total of `w` bits counts modulo `2 ^ w`. It is reported as the nearest double and as a
signed number of as many bits; the operations of each thread are a quotient of doubles. The
fairness figure is the square of the coefficient, in exact arithmetic. The three memory orders
of the atomic counter are one benchmark.
-/

namespace ConcurrencyBench.CounterBenchmarks

open Interleaving ContentionWindow Doubles

variable {w n : ℕ}

/-- The counters a benchmark publishes, with the square of the coefficient. -/
structure Report where
  opsTotal : ℚ
  fairnessCv : Option ℚ
  -- only where state.counters["ops_per_thread"] is set
  opsPerThread : Option ℚ
  itemsProcessed : ℤ

/-- Between two iterations, in a window, or past the loop. -/
inductive Main (w n : ℕ)
  | loop
  | window (inner : ContentionWindow.Config w n)
  | reported (report : Report)

/-- What is published, past the loop. -/
def Main.report : Main w n → Option Report
  | .reported report => some report
  | _ => none

/-- The locals of a benchmark. -/
structure Config (w n : ℕ) where
  main : Main w n
  iterations : ℕ
  totalOps : BitVec w
  lastCv : Option ℚ
  windows : List (Fin n → ℕ)

/-- The start of a benchmark. -/
def Config.init : Config w n := ⟨.loop, 0, 0, some 0, []⟩

/-- The benchmarks that publish `ops_per_thread`. -/
def publishesPerThread : CriticalSection → Bool
  | .mutexHot | .spinHot => true
  | .atomic | .spinWithWork | .spinFairness => false

/-- What is published after the loop. -/
def Config.report (body : CriticalSection) (c : Config w n) : Report where
  -- state.counters["ops_total"] = static_cast<double>(total_ops);
  opsTotal := toDouble c.totalOps.toNat
  fairnessCv := c.lastCv
  -- static_cast<double>(total_ops) / (static_cast<double>(num_threads) * state.iterations())
  opsPerThread :=
    if publishesPerThread body then
      (Fairness.divide (toDouble c.totalOps.toNat)
        (toDouble (toDouble n * toDouble c.iterations))).map toDouble
    else none
  -- state.SetItemsProcessed(static_cast<int64_t>(total_ops));
  itemsProcessed := c.totalOps.toInt

/-- The benchmark goes on by itself, or a thread of its window does. -/
def step (body : CriticalSection) (total : ℕ) (c : Config w n) :
    Option (Label n) → Option (Config w n)
  | none =>
    match c.main with
    -- for (auto _ : state)
    | .loop =>
      some { c with
        main := if c.iterations < total then .window .init else .reported (c.report body) }
    -- total_ops += window.ops; last_cv = window.fairness_cv;
    | .window inner => inner.main.result.map fun result =>
      { main := .loop, iterations := c.iterations + 1, totalOps := c.totalOps + result.ops
        lastCv := result.fairnessCv, windows := inner.made :: c.windows }
    | .reported _ => none
  | some label =>
    match c.main with
    | .window inner => (ContentionWindow.step body inner label).map fun next =>
      { c with main := .window next }
    | _ => none

/-- Every state some interleaving leads to. -/
def Reachable (body : CriticalSection) (total : ℕ) (c : Config w n) : Prop :=
  Reaches (step body total) Config.init c

/-- The increments made in all windows that have returned. -/
def Config.made (c : Config w n) : ℕ := (c.windows.map fun made => ∑ i, made i).sum

/-- What is known between the steps of a benchmark. -/
structure Sound (body : CriticalSection) (total : ℕ) (c : Config w n) : Prop where
  within : c.iterations ≤ total
  length : c.windows.length = c.iterations
  totalOps : c.totalOps = BitVec.ofNat w c.made
  lastCv : c.lastCv = c.windows.head?.elim (some 0) fun latest =>
    Fairness.fairnessCv (List.ofFn fun i => latest i % 2 ^ w)
  window : ∀ inner, c.main = .window inner →
    ContentionWindow.Reachable body inner ∧ c.iterations < total
  reported : ∀ report, c.main = .reported report → report = c.report body ∧ c.iterations = total

section Run

variable {body : CriticalSection} {total : ℕ} {c : Config w n}

/-- A window that has returned has counted its increments, and only those. -/
theorem window_result {inner : ContentionWindow.Config w n} {result : WindowResult w}
    (reached : ContentionWindow.Reachable body inner) (ended : inner.main.result = some result) :
    result.ops = BitVec.ofNat w (∑ i, inner.made i) ∧
      result.fairnessCv = Fairness.fairnessCv (List.ofFn fun i => inner.made i % 2 ^ w) := by
  obtain ⟨⟨_, held⟩, knows⟩ := reachable_held reached
  cases position : inner.main with
  | returned final =>
    simp only [position, ContentionWindow.Main.result, Option.some.injEq] at ended
    subst ended
    simp only [Knows, position] at knows
    obtain ⟨all, ops, fairnessCv⟩ := knows
    have counts : ∀ i, inner.shared.counts i = BitVec.ofNat w (inner.made i) := by
      intro i
      have counted := held.counted i
      rw [all i] at counted
      simpa [Pc.uncounted] using counted
    constructor
    · rw [ops, ← BitVec.natCast_eq_ofNat, Nat.cast_sum]
      exact Finset.sum_congr rfl fun i _ => counts i
    · simp only [fairnessCv, counts, BitVec.toNat_ofNat]
  | _ => simp [position, ContentionWindow.Main.result] at ended

/-- Nothing has been added up at the start. -/
theorem sound_init : Sound body total (Config.init : Config w n) where
  within := Nat.zero_le _
  length := rfl
  totalOps := rfl
  lastCv := rfl
  window _ inside := by simp [Config.init] at inside
  reported _ inside := by simp [Config.init] at inside

/-- Each step keeps the books. -/
theorem sound_preserved : Preserved (step body total) (Sound body total : Config w n → Prop) := by
  intro c label c' sound taken
  cases position : c.main with
  | loop =>
    cases label with
    | some label => simp [step, position] at taken
    | none =>
      simp only [step, position, Option.some.injEq] at taken
      subst taken
      refine ⟨sound.within, sound.length, sound.totalOps, sound.lastCv, ?_, ?_⟩
      · intro inner inside
        dsimp only at inside
        split at inside
        next more =>
          obtain rfl := Main.window.inj inside
          exact ⟨Reaches.refl _, more⟩
        next => simp at inside
      · intro report inside
        dsimp only at inside
        split at inside
        next => simp at inside
        next done =>
          obtain rfl := Main.reported.inj inside
          exact ⟨rfl, le_antisymm sound.within (not_lt.mp done)⟩
  | window inner =>
    obtain ⟨reached, more⟩ := sound.window inner position
    cases label with
    | none =>
      simp only [step, position, Option.map_eq_some_iff] at taken
      obtain ⟨result, ended, rfl⟩ := taken
      obtain ⟨ops, fairnessCv⟩ := window_result reached ended
      refine ⟨more, ?_, ?_, fairnessCv, fun _ inside => by simp at inside,
        fun _ inside => by simp at inside⟩
      · rw [List.length_cons, sound.length]
      · change c.totalOps + result.ops = BitVec.ofNat w (∑ i, inner.made i + c.made)
        rw [sound.totalOps, ops, ← BitVec.ofNat_add, Nat.add_comm]
    | some label =>
      simp only [step, position, Option.map_eq_some_iff] at taken
      obtain ⟨next, moved, rfl⟩ := taken
      refine ⟨sound.within, sound.length, sound.totalOps, sound.lastCv, ?_, ?_⟩
      · intro inner' inside
        obtain rfl := Main.window.inj inside
        exact ⟨reached.tail moved, more⟩
      · intro report inside
        simp at inside
  | reported report => cases label <;> simp [step, position] at taken

/-- So they are right in every state. -/
theorem reachable_sound (reached : Reachable body total c) : Sound body total c :=
  sound_preserved.reaches sound_init reached

end Run

end ConcurrencyBench.CounterBenchmarks
