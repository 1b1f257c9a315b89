import ConcurrencyBench.Barriers
import ConcurrencyBench.Logs
import ConcurrencyBench.Runs

/-!
# The phase starts of the barrier benchmark

One iteration of `StdBarrier_WithWork` starts threads that work through the same
phases. In each phase a thread works, reads the clock, records how long after the start
of the phase that is, and arrives at the barrier. Thread 0 then writes the start of
the next phase, and in all phases but the last everybody arrives once more.

The statements of a thread are single steps: each reading of the clock, the record,
which reads `phase_starts[phase]`, the write of `phase_starts[phase + 1]`, each arrival
and each return from the barrier. The barrier is what its specification says, arrival
counts. The clock never goes back. The main thread has written `phase_starts[0]` before
it starts the threads.

The writes to each slot are counted, and the offsets recorded are logged. No step of
the code reads either.
-/

namespace ConcurrencyBench.PhaseStarts

open Interleaving

variable {N : ℕ}

/-- What the threads share, with the clock. -/
structure Shared (N : ℕ) where
  now : ℤ
  phaseStarts : ℕ → ℤ
  lastArrival : Fin N → ℤ
  syncPoint : Fin N → ℕ

/-- The next statement of a thread, with its phase and the values it has read. -/
inductive Pc
  | loop (phase : ℕ)
  | startWork (phase : ℕ) | work (phase : ℕ) (start : ℤ)
  | readArrival (phase : ℕ) | record (phase : ℕ) (arrivalTime : ℤ)
  | arrive (phase : ℕ) | wait (phase : ℕ)
  | publishTest (phase : ℕ) | readStart (phase : ℕ) | publish (phase : ℕ) (time : ℤ)
  | againTest (phase : ℕ) | arriveAgain (phase : ℕ) | waitAgain (phase : ℕ)
  | returned
deriving DecidableEq

/-- The thread has arrived at the barrier once more. -/
def Shared.arrive (s : Shared N) (i : Fin N) : Shared N :=
  { s with syncPoint := Function.update s.syncPoint i (s.syncPoint i + 1) }

/-- A thread of the benchmark with this many phases, one statement at a time. -/
def exec (numPhases : ℕ) (workDuration : ℤ) (i : Fin N) (s : Shared N) :
    Pc → Option (Shared N × Pc)
  -- for (int phase = 0; phase < num_phases; ++phase)
  | .loop phase => some (s, if phase < numPhases then .startWork phase else .returned)
  -- simulate_work(work_duration);
  | .startWork phase => some (s, .work phase s.now)
  | .work phase start =>
    some (s, if s.now - start < workDuration then .work phase start else .readArrival phase)
  -- auto arrival_time = std::chrono::high_resolution_clock::now();
  | .readArrival phase => some (s, .record phase s.now)
  -- last_arrival[thread_id] = arrival_time - phase_starts[phase];
  | .record phase arrivalTime =>
    let offset := arrivalTime - s.phaseStarts phase
    some ({ s with lastArrival := Function.update s.lastArrival i offset }, .arrive phase)
  -- sync_point.arrive_and_wait();
  | .arrive phase => some (s.arrive i, .wait phase)
  | .wait phase => if MayLeave s.syncPoint i then some (s, .publishTest phase) else none
  -- if (thread_id == 0 && phase + 1 < num_phases)
  | .publishTest phase =>
    some (s, if i.val = 0 ∧ phase + 1 < numPhases then .readStart phase else .againTest phase)
  -- phase_starts[phase + 1] = std::chrono::high_resolution_clock::now();
  | .readStart phase => some (s, .publish phase s.now)
  | .publish phase time =>
    some ({ s with phaseStarts := Function.update s.phaseStarts (phase + 1) time }, .againTest phase)
  -- if (phase + 1 < num_phases) sync_point.arrive_and_wait();
  | .againTest phase =>
    some (s, if phase + 1 < numPhases then .arriveAgain phase else .loop (phase + 1))
  | .arriveAgain phase => some (s.arrive i, .waitAgain phase)
  | .waitAgain phase => if MayLeave s.syncPoint i then some (s, .loop (phase + 1)) else none
  | .returned => none

/-- The slot the step of a position writes. -/
def Pc.writes : Pc → Option ℕ
  | .publish phase _ => some (phase + 1)
  | _ => none

/-- The slot the step of a position reads. -/
def Pc.reads : Pc → Option ℕ
  | .record phase _ => some phase
  | _ => none

/-- The phase and the offset that the step of a position records. -/
def observe (s : Shared N) : Pc → List (ℕ × ℤ)
  | .record phase arrivalTime => [(phase, arrivalTime - s.phaseStarts phase)]
  | _ => []

/-- What is shared, where the threads are and what has been written. -/
structure Config (N : ℕ) where
  shared : Shared N
  pcs : Fin N → Pc
  writes : ℕ → ℕ
  log : List (Fin N × (ℕ × ℤ))

/-- The threads are about to start, and the first slot has been written. -/
def Config.init (start : ℤ) : Config N where
  shared := ⟨start, Function.update (fun _ => 0) 0 start, fun _ => 0, fun _ => 0⟩
  pcs _ := .loop 0
  writes := Function.update (fun _ => 0) 0 1
  log := []

/-- A schedule lets a thread go on, or lets time pass. -/
inductive Label (N : ℕ)
  | go (i : Fin N)
  | tick (d : ℕ)

/-- The counts of writes after a step from a position. -/
def count (writes : ℕ → ℕ) (pc : Pc) (slot : ℕ) : ℕ :=
  writes slot + if pc.writes = some slot then 1 else 0

/-- One step of the iteration. -/
def step (numPhases : ℕ) (workDuration : ℤ) (c : Config N) : Label N → Option (Config N)
  | .go i => (exec numPhases workDuration i c.shared (c.pcs i)).map fun (shared, pc) =>
      ⟨shared, Function.update c.pcs i pc, count c.writes (c.pcs i),
        c.log ++ (observe c.shared (c.pcs i)).map (i, ·)⟩
  | .tick d => some { c with shared := { c.shared with now := c.shared.now + d } }

/-- Every state some interleaving leads to. -/
def Reachable (numPhases : ℕ) (workDuration start : ℤ) (c : Config N) : Prop :=
  Reaches (step numPhases workDuration) (Config.init start) c

end ConcurrencyBench.PhaseStarts
