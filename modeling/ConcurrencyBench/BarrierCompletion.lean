import ConcurrencyBench.CountingBarriers
import ConcurrencyBench.Iterations

/-!
# Barriers with a completion function

`StdBarrier_WithCompletion` gives its barrier a function to call whenever a phase is
complete, which counts the phases; `StdBarrier_HighFrequency` has more phases, and a barrier
that calls nothing. Here both are one benchmark with parameters. An iteration makes a
barrier, starts the threads one after the other and joins them.

The barrier counts arrivals. The last thread to arrive calls the completion function and
then begins the next phase; a thread that has arrived goes on when the phase it has arrived
in is over. Each arrival, each call of the function, each advancing of a phase and each
return from the barrier is one step. The work of a thread may take any time, so its end is a
step as well.
-/

namespace ConcurrencyBench.BarrierCompletion

open Interleaving

variable {n : ℕ}

/-- The number of phases, and whether the completion function counts them. -/
structure Benchmark where
  numPhases : ℕ
  counts : Bool

/-- `StdBarrier_WithCompletion` -/
def stdBarrierWithCompletion : Benchmark := ⟨10, true⟩

/-- `StdBarrier_HighFrequency` -/
def stdBarrierHighFrequency : Benchmark := ⟨1000, false⟩

/-- What the threads share: the barrier and the count. -/
structure Shared where
  syncPoint : CountingBarrier
  completionCount : ℕ
deriving DecidableEq

/-- The next statement of a thread, with its phase. -/
inductive Pc
  | unborn
  | loop (phase : ℕ) | work (phase : ℕ)
  | arrive (phase : ℕ) | complete (phase token : ℕ) | advance (phase token : ℕ)
  | wait (phase token : ℕ)
  | returned
deriving DecidableEq

/-- A thread, one statement at a time. -/
def exec (b : Benchmark) (s : Shared) : Pc → Option (Shared × Pc)
  | .unborn | .returned => none
  -- for (int phase = 0; phase < num_phases; ++phase)
  | .loop phase => some (s, if phase < b.numPhases then .work phase else .returned)
  -- simulate_work(work_time);
  | .work phase => some (s, .arrive phase)
  -- sync_point.arrive_and_wait();
  | .arrive phase =>
    some ({ s with syncPoint := s.syncPoint.arrive },
      if s.syncPoint.arrive.pending = 0 then .complete phase s.syncPoint.phase
      else .wait phase s.syncPoint.phase)
  -- completion_count.fetch_add(1, std::memory_order_relaxed);
  | .complete phase token =>
    some ({ s with completionCount := s.completionCount + b.counts.toNat }, .advance phase token)
  | .advance phase token => some ({ s with syncPoint := s.syncPoint.nextPhase }, .wait phase token)
  | .wait phase token => if token ≠ s.syncPoint.phase then some (s, .loop (phase + 1)) else none

/-- Where the main thread is: starting threads, joining them, or done. -/
inductive MainAt
  | start (k : ℕ)
  | join (k : ℕ)
  | finished
deriving DecidableEq

/-- The main thread, what is shared and the threads. -/
structure Config (n : ℕ) where
  shared : Shared
  main : MainAt
  pcs : Fin n → Pc

/-- A fresh iteration, with `completion_count` set to zero. -/
def Config.init : Config n := ⟨⟨.make n, 0⟩, .start 0, fun _ => .unborn⟩

/-- The main thread in an iteration. -/
def iteration (c : Config n) : Option (Config n) :=
  match c.main with
  -- threads.emplace_back([&] {...});
  | .start k =>
    if inRange : k < n then
      some { c with main := .start (k + 1), pcs := Function.update c.pcs ⟨k, inRange⟩ (.loop 0) }
    else some { c with main := .join 0 }
  -- for (auto& t : threads) t.join();
  | .join k =>
    if inRange : k < n then
      if c.pcs ⟨k, inRange⟩ = .returned then some { c with main := .join (k + 1) } else none
    else some { c with main := .finished }
  | .finished => none

/-- The main thread goes on, or a thread does. -/
inductive Label (n : ℕ)
  | main
  | go (i : Fin n)

/-- One step of an iteration. -/
def step (b : Benchmark) (c : Config n) : Label n → Option (Config n)
  | .main => iteration c
  | .go i => (exec b c.shared (c.pcs i)).map fun (shared, pc) =>
      { c with shared, pcs := Function.update c.pcs i pc }

/-- Every state some interleaving leads to. -/
def Reachable (b : Benchmark) (c : Config n) : Prop := Reaches (step b) Config.init c

/-- What is loaded of `completion_count` at the end of an iteration. -/
def completions (c : Config n) : Option ℕ :=
  match c.main with
  | .finished => some c.shared.completionCount
  | _ => none

/-- A value of `state.counters["completions"]` that the benchmark publishes when the framework
lets it iterate this often. Only the benchmark that counts has this counter. -/
def Publishes (b : Benchmark) (n total count : ℕ) : Prop :=
  b.counts = true ∧
    Reaches (iterate (step b) (Config.init : Config n) completions total) (.between 0 none)
      (.passed (some count))

/-! ## What a position has behind it -/

/-- The arrivals at the barrier. -/
def Pc.arrived (numPhases : ℕ) : Pc → ℕ
  | .unborn => 0
  | .loop phase | .work phase | .arrive phase => phase
  | .complete phase _ | .advance phase _ | .wait phase _ => phase + 1
  | .returned => numPhases

/-- Among the phases, and past as many as the position says. -/
def Pc.Valid (numPhases completed : ℕ) : Pc → Prop
  | .unborn => True
  | .loop phase => phase ≤ numPhases ∧ phase ≤ completed
  | .work phase | .arrive phase => phase < numPhases ∧ phase ≤ completed
  | .complete phase token | .advance phase token =>
    phase < numPhases ∧ token = phase ∧ phase = completed
  | .wait phase token => phase < numPhases ∧ token = phase
  | .returned => numPhases ≤ completed

/-- The last to arrive, before and after it calls the completion function. -/
def Pc.completing : Pc → ℕ
  | .complete _ _ => 1
  | _ => 0

/-- A thread that is about to begin the next phase. -/
def Pc.advancing : Pc → ℕ
  | .advance _ _ => 1
  | _ => 0

/-- What the barrier, the count and the threads keep. -/
structure Sound (b : Benchmark) (s : Shared) (pcs : Fin n → Pc) : Prop where
  counted : Counted (Pc.arrived b.numPhases) s.syncPoint pcs
  valid : ∀ i, (pcs i).Valid b.numPhases s.syncPoint.phase
  last : tally (fun _ => Pc.completing) pcs + tally (fun _ => Pc.advancing) pcs =
    if s.syncPoint.pending = 0 then 1 else 0
  count : s.completionCount =
    b.counts.toNat * (s.syncPoint.phase + tally (fun _ => Pc.advancing) pcs)

section OneMove

variable {b : Benchmark} {s : Shared} {pcs : Fin n → Pc} {i : Fin n} {pc : Pc}

/-- Nobody has arrived before the threads have started. -/
theorem sound_init (b : Benchmark) (some : 0 < n) :
    Sound b (Config.init : Config n).shared (Config.init : Config n).pcs where
  counted := by
    have made : Counted (Pc.arrived b.numPhases) (.make (Fintype.card (Fin n)))
        (fun _ : Fin n => Pc.unborn) := counted_make fun _ => rfl
    rwa [Fintype.card_fin] at made
  valid _ := trivial
  last := by
    have waits : ¬ n = 0 := by omega
    simp [Config.init, tally, Pc.completing, Pc.advancing, CountingBarrier.make, waits]
  count := by simp [Config.init, tally, Pc.advancing, CountingBarrier.make]

/-- A statement that has nothing to do with the barrier. -/
theorem Sound.move (sound : Sound b s pcs)
    (arrived : pc.arrived b.numPhases = (pcs i).arrived b.numPhases)
    (valid : pc.Valid b.numPhases s.syncPoint.phase)
    (elsewhere : (pcs i).completing = 0 ∧ (pcs i).advancing = 0 ∧ pc.completing = 0 ∧
      pc.advancing = 0) :
    Sound b s (Function.update pcs i pc) := by
  have completing := tally_update (fun _ => Pc.completing) pcs i pc
  have advancing := tally_update (fun _ => Pc.advancing) pcs i pc
  obtain ⟨first, second, third, fourth⟩ := elsewhere
  simp only [first, second, third, fourth, Nat.add_zero] at completing advancing
  constructor
  · exact sound.counted.move arrived
  · rw [Function.forall_update_iff pcs fun _ pc => pc.Valid b.numPhases s.syncPoint.phase]
    exact ⟨valid, fun j _ => sound.valid j⟩
  · rw [completing, advancing]
    exact sound.last
  · rw [advancing]
    exact sound.count

/-- A thread that stands before its arrival has arrived in every completed phase. -/
theorem Sound.current (sound : Sound b s pcs) {phase : ℕ} (arrived : (pcs i).arrived b.numPhases = phase)
    (bound : phase ≤ s.syncPoint.phase) : phase = s.syncPoint.phase := by
  have here := sound.counted.level i
  omega

/-- An arrival keeps the barrier sound. -/
theorem Sound.arrive {phase : ℕ} (sound : Sound b s pcs) (standing : pcs i = .arrive phase) :
    Sound b { s with syncPoint := s.syncPoint.arrive } (Function.update pcs i
      (if s.syncPoint.arrive.pending = 0 then .complete phase s.syncPoint.phase
        else .wait phase s.syncPoint.phase)) := by
  have valid := sound.valid i
  rw [standing] at valid
  obtain ⟨inside, bound⟩ := valid
  have here : phase = s.syncPoint.phase := sound.current (by rw [standing]; rfl) bound
  have behind : (pcs i).arrived b.numPhases = s.syncPoint.phase := by
    rw [standing, ← here]
    rfl
  have some := sound.counted.pending_pos behind
  have last := sound.last
  rw [if_neg (by omega)] at last
  split
  next none =>
    have completing := tally_update (fun _ => Pc.completing) pcs i (.complete phase s.syncPoint.phase)
    have advancing := tally_update (fun _ => Pc.advancing) pcs i (.complete phase s.syncPoint.phase)
    simp only [standing, Pc.completing, Pc.advancing, Nat.add_zero] at completing advancing
    constructor
    · exact sound.counted.arrive behind (by rw [← here]; rfl)
    · rw [Function.forall_update_iff pcs fun _ pc =>
        pc.Valid b.numPhases s.syncPoint.arrive.phase]
      exact ⟨⟨inside, here.symm, here⟩, fun j _ => sound.valid j⟩
    · rw [if_pos none]
      omega
    · rw [advancing]
      exact sound.count
  next more =>
    have completing := tally_update (fun _ => Pc.completing) pcs i (.wait phase s.syncPoint.phase)
    have advancing := tally_update (fun _ => Pc.advancing) pcs i (.wait phase s.syncPoint.phase)
    simp only [standing, Pc.completing, Pc.advancing, Nat.add_zero] at completing advancing
    constructor
    · exact sound.counted.arrive behind (by rw [← here]; rfl)
    · rw [Function.forall_update_iff pcs fun _ pc =>
        pc.Valid b.numPhases s.syncPoint.arrive.phase]
      exact ⟨⟨inside, here.symm⟩, fun j _ => sound.valid j⟩
    · rw [if_neg more]
      omega
    · rw [advancing]
      exact sound.count

/-- The completion function keeps the barrier sound. -/
theorem Sound.complete {phase token : ℕ} (sound : Sound b s pcs)
    (standing : pcs i = .complete phase token) :
    Sound b { s with completionCount := s.completionCount + b.counts.toNat }
      (Function.update pcs i (.advance phase token)) := by
  have completing := tally_update (fun _ => Pc.completing) pcs i (.advance phase token)
  have advancing := tally_update (fun _ => Pc.advancing) pcs i (.advance phase token)
  simp only [standing, Pc.completing, Pc.advancing, Nat.add_zero] at completing advancing
  constructor
  · exact sound.counted.move (by rw [standing]; rfl)
  · rw [Function.forall_update_iff pcs fun _ pc => pc.Valid b.numPhases s.syncPoint.phase]
    have valid := sound.valid i
    rw [standing] at valid
    exact ⟨valid, fun j _ => sound.valid j⟩
  · have last := sound.last
    dsimp only
    omega
  · have count := sound.count
    dsimp only
    rw [advancing, ← Nat.add_assoc, Nat.mul_succ, count]

/-- When the next phase begins every other thread waits for the last one to end. -/
theorem Sound.advance {phase token : ℕ} (sound : Sound b s pcs)
    (standing : pcs i = .advance phase token) :
    Sound b { s with syncPoint := s.syncPoint.nextPhase }
      (Function.update pcs i (.wait phase token)) := by
  have completing := tally_update (fun _ => Pc.completing) pcs i (.wait phase token)
  have advancing := tally_update (fun _ => Pc.advancing) pcs i (.wait phase token)
  have mine := weight_le_tally (fun _ => Pc.advancing) pcs i
  simp only [standing, Pc.completing, Pc.advancing, Nat.add_zero] at completing advancing mine
  have last := sound.last
  have none : s.syncPoint.pending = 0 := by
    by_contra some
    rw [if_neg some] at last
    omega
  rw [if_pos none] at last
  have threads : 0 < n := i.pos
  have valid := sound.valid i
  rw [standing] at valid
  have full := sound.counted.full none
  have alone : ∀ j, j ≠ i → (pcs j).completing = 0 ∧ (pcs j).advancing = 0 := by
    intro j other
    have first := weight_le_tally (fun _ => Pc.completing) pcs j
    have second := weight_le_tally (fun _ => Pc.advancing) (Function.update pcs i (.wait phase token)) j
    rw [Function.update_of_ne other] at second
    omega
  constructor
  · exact (sound.counted.move (by rw [standing]; rfl)).nextPhase none
  · rw [Function.forall_update_iff pcs fun _ pc => pc.Valid b.numPhases s.syncPoint.nextPhase.phase]
    refine ⟨⟨valid.1, valid.2.1⟩, fun j other => ?_⟩
    have there := sound.valid j
    have elsewhere := alone j other
    have counts := full j
    cases place : pcs j with
    | unborn => trivial
    | loop | work | arrive =>
      rw [place] at there counts
      exact ⟨there.1, there.2.trans (Nat.le_succ _)⟩
    | complete | advance => simp [place, Pc.completing, Pc.advancing] at elsewhere
    | wait =>
      rw [place] at there
      exact there
    | returned =>
      rw [place] at there
      exact there.trans (Nat.le_succ _)
  · have waits : ¬ s.syncPoint.nextPhase.pending = 0 := by
      simp only [CountingBarrier.nextPhase, sound.counted.expected, Fintype.card_fin]
      omega
    rw [if_neg waits]
    omega
  · have count := sound.count
    have one : tally (fun _ => Pc.advancing) pcs = 1 := by omega
    have zero : tally (fun _ => Pc.advancing) (Function.update pcs i (.wait phase token)) = 0 := by
      omega
    rw [zero, Nat.add_zero]
    rw [one] at count
    exact count

/-- Every statement of a thread keeps the barrier sound. -/
theorem sound_exec {s' : Shared} (sound : Sound b s pcs) (moved : exec b s (pcs i) = some (s', pc)) :
    Sound b s' (Function.update pcs i pc) := by
  have valid := sound.valid i
  cases standing : pcs i with
  | unborn | returned => simp [standing, exec] at moved
  | loop phase =>
    rw [standing] at moved valid
    obtain ⟨rfl, rfl⟩ := Prod.mk.inj (Option.some.inj moved)
    by_cases more : phase < b.numPhases
    · rw [if_pos more]
      exact sound.move (by rw [standing]; rfl) ⟨more, valid.2⟩ (by rw [standing]; exact ⟨rfl, rfl, rfl, rfl⟩)
    · have all : phase = b.numPhases := le_antisymm valid.1 (not_lt.mp more)
      rw [if_neg more]
      refine sound.move ?_ ?_ (by rw [standing]; exact ⟨rfl, rfl, rfl, rfl⟩)
      · rw [standing]
        exact all.symm
      · exact all ▸ valid.2
  | work phase =>
    rw [standing] at moved valid
    obtain ⟨rfl, rfl⟩ := Prod.mk.inj (Option.some.inj moved)
    exact sound.move (by rw [standing]; rfl) valid (by rw [standing]; exact ⟨rfl, rfl, rfl, rfl⟩)
  | arrive phase =>
    rw [standing] at moved
    obtain ⟨rfl, rfl⟩ := Prod.mk.inj (Option.some.inj moved)
    exact sound.arrive standing
  | complete phase token =>
    rw [standing] at moved
    obtain ⟨rfl, rfl⟩ := Prod.mk.inj (Option.some.inj moved)
    exact sound.complete standing
  | advance phase token =>
    rw [standing] at moved
    obtain ⟨rfl, rfl⟩ := Prod.mk.inj (Option.some.inj moved)
    exact sound.advance standing
  | wait phase token =>
    rw [standing] at moved valid
    simp only [exec, Option.ite_none_right_eq_some, Option.some.injEq, Prod.mk.injEq] at moved
    obtain ⟨passed, rfl, rfl⟩ := moved
    obtain ⟨inside, rfl⟩ := valid
    have here := sound.counted.level i
    rw [standing] at here
    simp only [Pc.arrived] at here
    exact sound.move (by rw [standing]; rfl) ⟨inside, by omega⟩
      (by rw [standing]; exact ⟨rfl, rfl, rfl, rfl⟩)

end OneMove

/-- What the main thread knows of the threads. -/
def Knows (c : Config n) : Prop :=
  match c.main with
  | .start k => (∀ i : Fin n, k ≤ i.val → c.pcs i = .unborn) ∧
      ∀ i : Fin n, i.val < k → c.pcs i ≠ .unborn
  | .join k => (∀ i : Fin n, i.val < k → c.pcs i = .returned) ∧ ∀ i, c.pcs i ≠ .unborn
  | .finished => ∀ i, c.pcs i = .returned

section Run

variable {b : Benchmark} {c c' : Config n} {i : Fin n}

/-- A thread that moves has started, has not returned, and goes on. -/
theorem running {s s' : Shared} {pc pc' : Pc} (moved : exec b s pc = some (s', pc')) :
    pc ≠ .unborn ∧ pc ≠ .returned ∧ pc' ≠ .unborn := by
  cases pc with
  | unborn | returned => simp [exec] at moved
  | wait phase token =>
    simp only [exec, Option.ite_none_right_eq_some, Option.some.injEq, Prod.mk.injEq] at moved
    obtain ⟨_, _, rfl⟩ := moved
    simp
  | loop | arrive =>
    obtain ⟨_, rfl⟩ := Prod.mk.inj (Option.some.inj moved)
    split <;> simp
  | _ =>
    obtain ⟨_, rfl⟩ := Prod.mk.inj (Option.some.inj moved)
    simp

/-- A thread that goes on changes nothing for the main thread. -/
theorem knows_go {shared : Shared} {pc : Pc} (knows : Knows c)
    (moves : c.pcs i ≠ .unborn ∧ c.pcs i ≠ .returned ∧ pc ≠ .unborn) :
    Knows { c with shared, pcs := Function.update c.pcs i pc } := by
  cases standing : c.main with
  | start k =>
    simp only [Knows, standing] at knows ⊢
    refine ⟨known_update knows.1 moves.1 pc, ?_⟩
    rw [Function.forall_update_iff c.pcs fun j pc => j.val < k → pc ≠ .unborn]
    exact ⟨fun _ => moves.2.2, fun j _ => knows.2 j⟩
  | join k =>
    simp only [Knows, standing] at knows ⊢
    refine ⟨known_update knows.1 moves.2.1 pc, ?_⟩
    rw [Function.forall_update_iff c.pcs fun _ pc => pc ≠ .unborn]
    exact ⟨moves.2.2, fun j _ => knows.2 j⟩
  | finished =>
    simp only [Knows, standing] at knows
    exact absurd (knows i) moves.2.1

/-- Every statement of the main thread keeps the barrier sound. -/
theorem iteration_kept (sound : Sound b c.shared c.pcs) (knows : Knows c)
    (taken : iteration c = some c') : Sound b c'.shared c'.pcs ∧ Knows c' := by
  cases standing : c.main with
  | start k =>
    simp only [Knows, standing] at knows
    simp only [iteration, standing] at taken
    split at taken
    next inRange =>
      obtain rfl := Option.some.inj taken
      have unborn := knows.1 ⟨k, inRange⟩ le_rfl
      refine ⟨?_, unborn_succ knows.1 inRange _, fun j behind => ?_⟩
      · exact sound.move (by rw [unborn]; rfl) ⟨Nat.zero_le _, Nat.zero_le _⟩
          (by rw [unborn]; exact ⟨rfl, rfl, rfl, rfl⟩)
      · by_cases last : j = ⟨k, inRange⟩
        · simp [last]
        · have earlier : j.val ≠ k := fun same => last (Fin.ext same)
          dsimp only
          rw [Function.update_of_ne last]
          exact knows.2 j (by omega)
    next outOfRange =>
      obtain rfl := Option.some.inj taken
      exact ⟨sound, fun j behind => absurd behind (Nat.not_lt_zero _),
        fun j => knows.2 j (j.isLt.trans_le (not_lt.mp outOfRange))⟩
  | join k =>
    simp only [Knows, standing] at knows
    simp only [iteration, standing] at taken
    split at taken
    next inRange =>
      simp only [Option.ite_none_right_eq_some, Option.some.injEq] at taken
      obtain ⟨back, rfl⟩ := taken
      exact ⟨sound, joined_succ knows.1 inRange back, knows.2⟩
    next outOfRange =>
      obtain rfl := Option.some.inj taken
      exact ⟨sound, joined_all knows.1 outOfRange⟩
  | finished => simp [iteration, standing] at taken

/-- Every step keeps the barrier sound. -/
theorem step_kept : Preserved (step b) fun c : Config n => Sound b c.shared c.pcs ∧ Knows c := by
  rintro c label c' ⟨sound, knows⟩ taken
  cases label with
  | main => exact iteration_kept sound knows taken
  | go i =>
    obtain ⟨⟨shared, pc⟩, moved, rfl⟩ := Option.map_eq_some_iff.mp taken
    exact ⟨sound_exec sound moved, knows_go knows (running moved)⟩

/-- The barrier is sound in every reachable state. -/
theorem reachable_sound (threads : 0 < n) (reached : Reachable b c) :
    Sound b c.shared c.pcs ∧ Knows c := by
  have start : Knows (Config.init : Config n) :=
    ⟨fun _ _ => rfl, fun j behind => absurd behind (Nat.not_lt_zero _)⟩
  exact step_kept.reaches ⟨sound_init b threads, start⟩ reached

/-- The phases completed when all threads have returned are all phases. -/
theorem count_of_returned (threads : 0 < n) (sound : Sound b c.shared c.pcs)
    (returned : ∀ i, c.pcs i = .returned) :
    c.shared.completionCount = b.counts.toNat * b.numPhases := by
  have here := sound.counted.level ⟨0, threads⟩
  have valid := sound.valid ⟨0, threads⟩
  rw [returned] at here valid
  simp only [Pc.arrived, Pc.Valid] at here valid
  have nobody : tally (fun _ => Pc.advancing) c.pcs = 0 := by simp [tally, returned, Pc.advancing]
  rw [sound.count, nobody]
  congr 1
  omega

/-- The completion function runs once in each phase, after all arrivals of the phase and before
any thread leaves it. For every number of threads and phases and every interleaving: a thread
about to call it in a phase is the only one, every thread has arrived in that phase, and the
calls so far are those of the phases before; a thread that has left a phase has it counted; and
a thread that the barrier lets go is one that arrival counts let go. -/
theorem completion_once_per_phase (b : Benchmark) (threads : 0 < n) (c : Config n)
    (reached : Reachable b c) :
    (∀ i phase token, c.pcs i = .complete phase token →
      (∀ j, (c.pcs j).arrived b.numPhases = phase + 1) ∧
      c.shared.completionCount = b.counts.toNat * phase ∧
      ∀ j phase' token', c.pcs j = .complete phase' token' → j = i) ∧
    (∀ i phase, c.pcs i = .loop (phase + 1) →
      b.counts.toNat * (phase + 1) ≤ c.shared.completionCount) ∧
    (∀ i phase token, c.pcs i = .wait phase token → token ≠ c.shared.syncPoint.phase →
      MayLeave (fun j => (c.pcs j).arrived b.numPhases) i) ∧
    (c.main = .finished → c.shared.completionCount = b.counts.toNat * b.numPhases) := by
  obtain ⟨sound, knows⟩ := reachable_sound threads reached
  have last := sound.last
  refine ⟨fun i phase token standing => ?_, fun i phase standing => ?_,
    fun i phase token standing passed => ?_, fun finished => ?_⟩
  · have mine := weight_le_tally (fun _ => Pc.completing) c.pcs i
    simp only [standing, Pc.completing] at mine
    have none : c.shared.syncPoint.pending = 0 := by
      by_contra some
      rw [if_neg some] at last
      omega
    rw [if_pos none] at last
    have valid := sound.valid i
    rw [standing] at valid
    obtain ⟨_, _, here⟩ := valid
    refine ⟨fun j => ?_, ?_, fun j phase' token' other => ?_⟩
    · rw [here]
      exact sound.counted.full none j
    · have nobody : tally (fun _ => Pc.advancing) c.pcs = 0 := by omega
      rw [sound.count, nobody, here, Nat.add_zero]
    · by_contra different
      have exchanged := tally_update (fun _ => Pc.completing) c.pcs i .unborn
      have theirs := weight_le_tally (fun _ => Pc.completing) (Function.update c.pcs i .unborn) j
      rw [Function.update_of_ne different, other] at theirs
      simp only [standing, Pc.completing] at exchanged theirs
      omega
  · have valid := sound.valid i
    rw [standing] at valid
    rw [sound.count]
    exact Nat.mul_le_mul_left _ (valid.2.trans (Nat.le_add_right _ _))
  · have valid := sound.valid i
    have here := sound.counted.level i
    rw [standing] at valid here
    obtain ⟨_, rfl⟩ := valid
    refine sound.counted.mayLeave ?_
    rw [standing]
    simp only [Pc.arrived] at here ⊢
    omega
  · simp only [Knows, finished] at knows
    exact count_of_returned threads sound knows

/-- Of two threads the second is the last to arrive in the first phase. -/
theorem completion_once_per_phase_two : ∃ c : Config 2, Reachable ⟨2, true⟩ c ∧
    c.pcs 1 = .complete 0 0 ∧ (∀ j, (c.pcs j).arrived 2 = 1) ∧ c.shared.completionCount = 0 := by
  let schedule : List (Label 2) :=
    List.replicate 3 .main ++ List.replicate 3 (.go 0) ++ List.replicate 3 (.go 1)
  have played : (run (step ⟨2, true⟩) (Config.init : Config 2) schedule).map (fun c => c.pcs 1) =
      some (.complete 0 0) := by
    decide +kernel
  obtain ⟨c, reached, standing⟩ := Option.map_eq_some_iff.mp played
  obtain ⟨calls, _⟩ := completion_once_per_phase ⟨2, true⟩ (by decide) c ⟨schedule, reached⟩
  obtain ⟨all, count, _⟩ := calls 1 0 0 standing
  exact ⟨c, ⟨schedule, reached⟩, standing, all, count⟩

/-- The statements left to a thread that has been started. -/
def Pc.left (numPhases : ℕ) : Pc → ℕ
  | .unborn | .returned => 0
  | .loop phase => 6 * (numPhases - phase) + 1
  | .work phase => 6 * (numPhases - phase)
  | .arrive phase => 6 * (numPhases - phase) - 1
  | .complete phase _ => 6 * (numPhases - phase) - 2
  | .advance phase _ => 6 * (numPhases - phase) - 3
  | .wait phase _ => 6 * (numPhases - phase) - 4

/-- The statements left to the main thread and those it has yet to start. -/
def MainAt.left (n numPhases : ℕ) : MainAt → ℕ
  | .start k => (n - k) * (6 * numPhases + 2) + n + 2
  | .join k => n - k + 1
  | .finished => 0

/-- The statements left to all threads. -/
def left (b : Benchmark) (c : Config n) : ℕ :=
  c.main.left n b.numPhases + tally (fun _ => Pc.left b.numPhases) c.pcs

/-- Every statement of a thread leaves it fewer. -/
theorem exec_left {s s' : Shared} {pc pc' : Pc} (valid : pc.Valid b.numPhases s.syncPoint.phase)
    (moved : exec b s pc = some (s', pc')) : pc'.left b.numPhases < pc.left b.numPhases := by
  cases pc with
  | unborn | returned => simp [exec] at moved
  | wait phase token =>
    simp only [exec, Option.ite_none_right_eq_some, Option.some.injEq, Prod.mk.injEq] at moved
    obtain ⟨_, _, rfl⟩ := moved
    have inside := valid.1
    simp only [Pc.left]
    omega
  | loop | arrive =>
    obtain ⟨_, rfl⟩ := Prod.mk.inj (Option.some.inj moved)
    have inside := valid.1
    split <;> simp only [Pc.left] <;> omega
  | _ =>
    obtain ⟨_, rfl⟩ := Prod.mk.inj (Option.some.inj moved)
    have inside := valid.1
    simp only [Pc.left]
    omega

/-- Every statement of the main thread leaves fewer. -/
theorem iteration_left (knows : Knows c) (taken : iteration c = some c') : left b c' < left b c := by
  cases standing : c.main with
  | start k =>
    simp only [Knows, standing] at knows
    simp only [iteration, standing] at taken
    split at taken
    next inRange =>
      obtain rfl := Option.some.inj taken
      have started := tally_update (fun _ => Pc.left b.numPhases) c.pcs ⟨k, inRange⟩ (.loop 0)
      have next := rounds_left inRange (6 * b.numPhases + 2)
      simp only [knows.1 ⟨k, inRange⟩ le_rfl, Pc.left] at started
      simp only [left, standing, MainAt.left]
      omega
    next =>
      obtain rfl := Option.some.inj taken
      simp only [left, standing, MainAt.left]
      omega
  | join k =>
    simp only [iteration, standing] at taken
    split at taken
    next inRange =>
      simp only [Option.ite_none_right_eq_some, Option.some.injEq] at taken
      obtain ⟨_, rfl⟩ := taken
      simp only [left, standing, MainAt.left]
      omega
    next =>
      obtain rfl := Option.some.inj taken
      simp only [left, standing, MainAt.left]
      omega
  | finished => simp [iteration, standing] at taken

/-- Every step leaves fewer statements. -/
theorem left_lowers : Lowers (step b) (fun c : Config n => Sound b c.shared c.pcs ∧ Knows c)
    (left b) := by
  rintro c label c' ⟨sound, knows⟩ taken
  cases label with
  | main => exact iteration_left knows taken
  | go i =>
    obtain ⟨⟨shared, pc⟩, moved, rfl⟩ := Option.map_eq_some_iff.mp taken
    have exchanged := tally_update (fun _ => Pc.left b.numPhases) c.pcs i pc
    have fewer := exec_left (sound.valid i) moved
    simp only [left]
    omega

/-- A thread that cannot go on is at one of its ends or waits for its phase to be over. -/
theorem waits_of_stuck (sound : Sound b c.shared c.pcs) (blocked : exec b c.shared (c.pcs i) = none) :
    c.pcs i = .unborn ∨ c.pcs i = .returned ∨
      c.pcs i = .wait c.shared.syncPoint.phase c.shared.syncPoint.phase := by
  have valid := sound.valid i
  cases standing : c.pcs i with
  | unborn => exact Or.inl rfl
  | returned => exact Or.inr (Or.inl rfl)
  | wait phase token =>
    rw [standing] at valid
    simp only [standing, exec, ite_not, ite_eq_left_iff, reduceCtorEq, imp_false,
      not_not] at blocked
    rw [← valid.2, blocked]
    exact Or.inr (Or.inr rfl)
  | _ => simp [standing, exec] at blocked

/-- Started threads that cannot go on have returned: one that waits would wait for another that
waits as well, and the last of these has not been the last to arrive. -/
theorem returned_of_stuck (sound : Sound b c.shared c.pcs)
    (blocked : ∀ j, exec b c.shared (c.pcs j) = none) (born : ∀ j, c.pcs j ≠ .unborn) (i : Fin n) :
    c.pcs i = .returned := by
  have places := fun j => (waits_of_stuck sound (blocked j)).resolve_left (born j)
  rcases places i with returned | waiting
  · exact returned
  · have nobody : tally (fun _ => Pc.completing) c.pcs = 0 ∧
        tally (fun _ => Pc.advancing) c.pcs = 0 := by
      constructor <;> rw [tally_eq_zero_iff] <;> intro j <;>
        rcases places j with returned | waits <;> simp [*, Pc.completing, Pc.advancing]
    have some : c.shared.syncPoint.pending ≠ 0 := by
      intro none
      have last := sound.last
      rw [if_pos none, nobody.1, nobody.2] at last
      simp at last
    have valid := sound.valid i
    rw [waiting] at valid
    obtain ⟨inside, _⟩ := valid
    refine absurd (sound.counted.pending_eq_zero (fun j => ?_) (by rw [waiting]; rfl)) some
    dsimp only
    rcases places j with returned | waits
    · have past := sound.valid j
      rw [returned] at past
      have passed : b.numPhases ≤ c.shared.syncPoint.phase := past
      omega
    · rw [waiting, waits]

/-- Where no thread can go on the iteration is finished. -/
theorem finished_of_stuck (sound : Sound b c.shared c.pcs) (knows : Knows c)
    (stuck : Stuck (step b) c) : c.main = .finished := by
  have halted := stuck .main
  cases standing : c.main with
  | start k =>
    simp only [step, iteration, standing] at halted
    split at halted <;> simp at halted
  | join k =>
    simp only [Knows, standing] at knows
    simp only [step, iteration, standing] at halted
    split at halted
    next inRange =>
      simp only [ite_eq_right_iff, reduceCtorEq, imp_false] at halted
      have blocked : ∀ j, exec b c.shared (c.pcs j) = none := fun j =>
        Option.map_eq_none_iff.mp (stuck (.go j))
      exact absurd (returned_of_stuck sound blocked knows.2 ⟨k, inRange⟩) halted
    next => simp at halted
  | finished => rfl

/-- The count is loaded when the threads have been joined. -/
theorem completions_eq_some_iff (c : Config n) (count : ℕ) :
    completions c = some count ↔ c.main = .finished ∧ c.shared.completionCount = count := by
  cases standing : c.main <;> simp [completions, standing]

/-- The benchmarks with a `std::barrier` never hang, and the one that counts its phases
publishes one number only. For every number of threads and phases and every interleaving:
until an iteration is finished some thread can go on, and it cannot go on without end; and
after any number of iterations from one on the count of completions that may be published is
that of the phases, and no other. A benchmark without a completion function publishes none. -/
theorem completions_published_iff (b : Benchmark) (threads : 0 < n) :
    (∀ c : Config n, Reachable b c → c.main ≠ .finished → ∃ label, step b c label ≠ none) ∧
    (∃ bound, ∀ schedule (c : Config n), run (step b) Config.init schedule = some c →
      schedule.length ≤ bound) ∧
    ∀ total count, 0 < total →
      (Publishes b n total count ↔ b.counts = true ∧ count = b.numPhases) := by
  have begin := reachable_sound threads (Reaches.refl (Config.init : Config n) : Reachable b _)
  refine ⟨fun c reached unfinished => ?_, ⟨left b (Config.init : Config n), fun schedule c played => ?_⟩,
    fun total count iterates => and_congr_right fun counts => ⟨fun published => ?_, fun same => ?_⟩⟩
  · by_contra none
    have stuck : Stuck (step b) c := fun label => by
      by_contra enabled
      exact none ⟨label, enabled⟩
    obtain ⟨sound, knows⟩ := reachable_sound threads reached
    exact unfinished (finished_of_stuck sound knows stuck)
  · have spent := left_lowers.length_le step_kept begin played
    omega
  · rcases returns_of_passed published with ⟨_, nothing⟩ | ⟨_, final, same, c, reached, ended⟩
    · simp at nothing
    · obtain rfl := Option.some.inj same
      obtain ⟨finished, counted⟩ := (completions_eq_some_iff c count).mp ended
      obtain ⟨sound, knows⟩ := reachable_sound threads reached
      simp only [Knows, finished] at knows
      rw [← counted, count_of_returned threads sound knows, counts, Bool.toNat_true, one_mul]
  · obtain ⟨last, onward, stuck⟩ := left_lowers.exists_stuck step_kept begin
    obtain ⟨sound, knows⟩ := reachable_sound threads onward
    have finished := finished_of_stuck sound knows stuck
    simp only [Knows, finished] at knows
    have counted : last.shared.completionCount = count := by
      rw [count_of_returned threads sound knows, counts, Bool.toNat_true, one_mul, same]
    exact reaches_passed ⟨last, onward, (completions_eq_some_iff last count).mpr
      ⟨finished, counted⟩⟩ iterates

/-- Two threads of `StdBarrier_WithCompletion` publish 10, after three iterations as well. -/
theorem completions_published_iff_two :
    Publishes stdBarrierWithCompletion 2 3 10 ∧ ¬ Publishes stdBarrierWithCompletion 2 3 30 := by
  obtain ⟨_, _, published⟩ := completions_published_iff stdBarrierWithCompletion
    (by decide : 0 < 2)
  exact ⟨(published 3 10 (by decide)).mpr ⟨rfl, rfl⟩,
    fun wrong => absurd ((published 3 30 (by decide)).mp wrong).2 (by decide)⟩

end Run

end ConcurrencyBench.BarrierCompletion
