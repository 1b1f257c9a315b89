import ConcurrencyBench.ManualBarrier

/-!
# The rounds of the manual barrier

At generation `g` every thread has entered its first `g` calls, and nobody has
entered more than one call beyond. A thread that has not is between calls, before
its next lock, or still inside the wait of the round before, which it entered with
a smaller generation. So although fast threads enter the next round while slow ones
have not woken up from the last, the captured generation tells them apart, and the
arrivals counted are exactly the threads one call ahead.

The last arrival finds everybody one call ahead. Then nobody is between calls, so
moving the generation on turns every waiting thread into one of the round before.
The generation stays below the number of calls of the thread that moves it on, so
it does not wrap around.
-/

namespace ConcurrencyBench.ManualBarrier

open Interleaving

universe u
variable {ι : Type u} {w : ℕ}

/-- Inside `arrive_and_wait` with the mutex held. -/
def Pc.locked : Pc w → Bool
  | .outside | .lock | .asleep _ => false
  | _ => true

/-- At the wait on `cv_`, asleep or waiting for the mutex after a wake-up. -/
def Pc.waits : Pc w → Bool
  | .asleep _ => true
  | _ => false

/-- Inside a call, past its first lock. -/
def Pc.inside : Pc w → Bool
  | .outside | .lock => false
  | _ => true

/-- The calls a thread has entered. -/
def Thread.entered (t : Thread w) : ℕ := t.returned + t.pc.inside.toNat

/-- The thread is one call ahead of the given generation. -/
def Thread.ahead (generation : ℕ) (t : Thread w) : Bool := decide (t.entered = generation + 1)

/-- What a position has entered beyond what `waiting_` shows: its own arrival before
it is counted, and everybody's once the count is reset. -/
def uncounted (count : ℕ) : Pc w → ℕ
  | .readGeneration | .arrive _ => 1
  | .bumpGeneration => count
  | _ => 0

/-- Where a thread's calls stand at a generation. -/
def Phase (generation : ℕ) (t : Thread w) : Prop :=
  match t.pc with
  | .outside | .lock | .readGeneration | .resetWaiting | .bumpGeneration =>
    t.returned = generation
  | .arrive currentGen | .sleep currentGen =>
    currentGen.toNat = generation ∧ t.returned = generation
  | .test currentGen | .asleep currentGen => currentGen.toNat = t.returned ∧
    (t.returned = generation ∨ t.returned + 1 = generation)
  | .notifyAll | .unlock => t.returned + 1 = generation

/-- What one move does at a fixed generation. -/
structure Within (b : Barrier ι w) (t : Thread w) (b' : Barrier ι w) (t' : Thread w) : Prop where
  same : b'.generation = b.generation
  phase : Phase b.generation.toNat t'
  arrivals : b'.waiting.toNat + uncounted b.count.toNat t'.pc +
      (t.ahead b.generation.toNat).toNat =
    b.waiting.toNat + uncounted b.count.toNat t.pc + (t'.ahead b.generation.toNat).toNat

/-- What one move does to the barrier. -/
structure Effect (quota : ℕ) (i : ι) (b : Barrier ι w) (t : Thread w) (b' : Barrier ι w)
    (t' : Thread w) : Prop where
  count : b'.count = b.count
  lock : LockMove (fun t => t.pc.locked) i b.mtx t b'.mtx t'
  others : ∀ j ∈ b'.sleepers, j ≠ i → j ∈ b.sleepers
  here : (i ∈ b.sleepers → t.pc.waits = true) → i ∈ b'.sleepers → t'.pc.waits = true
  quota : (t.pc ≠ .outside → t.returned < quota) → t'.pc ≠ .outside → t'.returned < quota
  counts : b'.waiting = b.waiting ∨ t.pc.locked = true
  full : t'.pc = .resetWaiting → b'.waiting.toNat = b.count.toNat
  below : b.waiting.toNat < b.count.toNat ∨ t.pc = .resetWaiting →
    b'.waiting.toNat < b.count.toNat ∨ t'.pc = .resetWaiting

/-- Counting up is exact while the result fits. -/
theorem toNat_succ {x : BitVec w} (fits : x.toNat + 1 < 2 ^ w) :
    (x + 1#w).toNat = x.toNat + 1 := by
  have one : (1#w).toNat = 1 := by
    rw [BitVec.toNat_ofNat]
    exact Nat.mod_eq_of_lt (by omega)
  rw [BitVec.toNat_add_of_lt (by rw [one]; exact fits), one]

section OneMove

variable [DecidableEq ι] {quota : ℕ} {i : ι} {b b' : Barrier ι w} {t t' : Thread w}

/-- An arrival counts up by one, and is the last if that makes the count. -/
theorem arrive_cases {currentGen : BitVec w} {pc : Pc w}
    (room : b.waiting.toNat < b.count.toNat)
    (moved : arriveAndWait i b (.arrive currentGen) = some (b', pc)) :
    b' = { b with waiting := b.waiting + 1#w } ∧
      (b.waiting + 1#w).toNat = b.waiting.toNat + 1 ∧
      (b.waiting.toNat + 1 = b.count.toNat ∧ pc = .resetWaiting ∨
        b.waiting.toNat + 1 ≠ b.count.toNat ∧ pc = .test currentGen) := by
  have next : (b.waiting + 1#w).toNat = b.waiting.toNat + 1 := toNat_succ (by omega)
  simp only [arriveAndWait, Option.some.injEq, Prod.mk.injEq] at moved
  obtain ⟨rfl, rfl⟩ := moved
  refine ⟨rfl, next, ?_⟩
  by_cases last : b.waiting + 1#w = b.count
  · exact .inl ⟨by rw [← next, last], if_pos last⟩
  · refine .inr ⟨fun same => ?_, if_neg last⟩
    exact last (BitVec.eq_of_toNat_eq (next.trans same))

omit [DecidableEq ι] in
/-- A statement that leaves the counts alone, and after which the thread is not the last, has
its effect if it is right about the mutex and the sleepers. -/
theorem plain_effect (frame : b'.count = b.count ∧ b'.waiting = b.waiting)
    (lock : LockMove (fun t => t.pc.locked) i b.mtx t b'.mtx t')
    (others : ∀ j ∈ b'.sleepers, j ≠ i → j ∈ b.sleepers)
    (here : (i ∈ b.sleepers → t.pc.waits = true) → i ∈ b'.sleepers → t'.pc.waits = true)
    (fewer : (t.pc ≠ .outside → t.returned < quota) → t'.pc ≠ .outside → t'.returned < quota)
    (before : t.pc ≠ .resetWaiting) (after : t'.pc ≠ .resetWaiting) :
    Effect quota i b t b' t' := by
  obtain ⟨sameCount, sameWaiting⟩ := frame
  constructor
  case count => exact sameCount
  case lock => exact lock
  case others => exact others
  case here => exact here
  case quota => exact fewer
  case counts => exact .inl sameWaiting
  case full => exact fun last => absurd last after
  case below =>
    rintro (below | resetting)
    · exact .inl (sameWaiting ▸ below)
    · exact absurd resetting before

/-- An arrival has its effect. -/
theorem arrive_effect {currentGen : BitVec w} {returned : ℕ} {pc : Pc w}
    (room : b.waiting.toNat < b.count.toNat)
    (moved : arriveAndWait i b (.arrive currentGen) = some (b', pc)) :
    Effect quota i b ⟨.arrive currentGen, returned⟩ b' ⟨pc, returned⟩ := by
  obtain ⟨rfl, next, arrived⟩ := arrive_cases room moved
  have inside : pc.locked = true := by
    rcases arrived with ⟨-, rfl⟩ | ⟨-, rfl⟩ <;> rfl
  constructor
  case count => rfl
  case lock => exact .kept _ _ _ inside
  case others => exact fun _ member _ => member
  case here => exact fun parked member => nomatch parked member
  case quota => exact fun before _ => before nofun
  case counts => exact .inr rfl
  case full =>
    rintro rfl
    rcases arrived with ⟨last, -⟩ | ⟨-, other⟩
    · exact next.trans last
    · cases other
  case below =>
    intro _
    rcases arrived with ⟨-, resetting⟩ | ⟨missed, -⟩
    · exact .inr resetting
    · left
      rw [next]
      omega

omit [DecidableEq ι] in
/-- The last arrival resets the count, and is no longer the last. -/
theorem resetWaiting_effect {returned : ℕ} (positive : 0 < b.count.toNat) :
    Effect quota i b ⟨.resetWaiting, returned⟩ { b with waiting := 0#w }
      ⟨.bumpGeneration, returned⟩ where
  count := rfl
  lock := .kept _ _ _ rfl
  others _ member _ := member
  here parked member := nomatch parked member
  quota before _ := before nofun
  counts := .inr rfl
  full := nofun
  below _ := by
    left
    rw [BitVec.toNat_zero]
    exact positive

/-- Every statement has its effect. -/
theorem exec_effect {pc pc' : Pc w} {returned : ℕ}
    (room : ∀ currentGen, pc = .arrive currentGen → b.waiting.toNat < b.count.toNat)
    (positive : 0 < b.count.toNat) (moved : arriveAndWait i b pc = some (b', pc')) :
    Effect quota i b ⟨pc, returned⟩ b' ⟨pc', returned + pc.returns⟩ := by
  cases pc with
  | outside => cases moved
  | lock =>
    obtain ⟨free, rfl, rfl⟩ := lock_map_eq_some_iff.mp moved
    refine plain_effect ⟨rfl, rfl⟩ ?_ (fun _ member _ => member)
      (fun parked member => nomatch parked member) (fun before _ => before nofun) nofun nofun
    rw [free]
    exact .acquired _ _ rfl
  | readGeneration =>
    obtain ⟨rfl, rfl⟩ := Prod.mk.inj (Option.some.inj moved)
    exact plain_effect ⟨rfl, rfl⟩ (.kept _ _ _ rfl) (fun _ member _ => member)
      (fun parked member => nomatch parked member) (fun before _ => before nofun) nofun nofun
  | arrive currentGen => exact arrive_effect (room currentGen rfl) moved
  | resetWaiting =>
    obtain ⟨rfl, rfl⟩ := Prod.mk.inj (Option.some.inj moved)
    exact resetWaiting_effect positive
  | bumpGeneration =>
    obtain ⟨rfl, rfl⟩ := Prod.mk.inj (Option.some.inj moved)
    exact plain_effect ⟨rfl, rfl⟩ (.kept _ _ _ rfl) (fun _ member _ => member)
      (fun parked member => nomatch parked member) (fun before _ => before nofun) nofun nofun
  | notifyAll =>
    obtain ⟨rfl, rfl⟩ := Prod.mk.inj (Option.some.inj moved)
    exact plain_effect ⟨rfl, rfl⟩ (.kept _ _ _ rfl)
      (fun _ member _ => absurd member (Finset.notMem_empty _))
      (fun _ member => absurd member (Finset.notMem_empty _)) (fun before _ => before nofun)
      nofun nofun
  | test currentGen =>
    obtain ⟨rfl, rfl⟩ := Prod.mk.inj (Option.some.inj moved)
    split <;>
      exact plain_effect ⟨rfl, rfl⟩ (.kept _ _ _ rfl) (fun _ member _ => member)
        (fun parked member => nomatch parked member) (fun before _ => before nofun) nofun nofun
  | sleep currentGen =>
    obtain ⟨rfl, rfl⟩ := Prod.mk.inj (Option.some.inj moved)
    exact plain_effect ⟨rfl, rfl⟩ (.released _ _ _ rfl rfl)
      (fun _ member other => Finset.mem_of_mem_insert_of_ne member other)
      (fun _ _ => rfl) (fun before _ => before nofun) nofun nofun
  | asleep currentGen =>
    obtain ⟨awake, moved⟩ := Option.ite_none_left_eq_some.mp moved
    obtain ⟨free, rfl, rfl⟩ := lock_map_eq_some_iff.mp moved
    refine plain_effect ⟨rfl, rfl⟩ ?_ (fun _ member _ => member)
      (fun _ member => absurd member awake) (fun before _ => before nofun) nofun nofun
    rw [free]
    exact .acquired _ _ rfl
  | unlock =>
    obtain ⟨rfl, rfl⟩ := Prod.mk.inj (Option.some.inj moved)
    exact plain_effect ⟨rfl, rfl⟩ (.released _ _ _ rfl rfl) (fun _ member _ => member)
      (fun parked member => nomatch parked member) (fun _ inside => absurd rfl inside) nofun nofun

/-- Every move of a thread has its effect. -/
theorem move_effect (room : ∀ currentGen, t.pc = .arrive currentGen →
      b.waiting.toNat < b.count.toNat)
    (full : t.pc = .resetWaiting → b.waiting.toNat = b.count.toNat)
    (positive : 0 < b.count.toNat) (moved : Move quota i b t b' t') :
    Effect quota i b t b' t' := by
  cases moved with
  | call outside more =>
    obtain ⟨pc, returned⟩ := t
    subst outside
    exact plain_effect ⟨rfl, rfl⟩ (.kept _ _ _ rfl) (fun _ member _ => member)
      (fun parked member => nomatch parked member) (fun _ _ => more) nofun nofun
  | spurious sleeping =>
    constructor
    case count => rfl
    case lock => exact .kept _ _ _ rfl
    case others => exact fun _ member _ => Finset.mem_of_mem_erase member
    case here => exact fun parked _ => parked sleeping
    case quota => exact id
    case counts => exact .inl rfl
    case full => exact full
    case below => exact id
  | go _ _ moved => exact exec_effect room positive moved

omit [DecidableEq ι] in
/-- A move that changes neither the count nor what the thread has entered stays within the
generation. -/
theorem within_of_same {pc pc' : Pc w} {returned returned' : ℕ}
    (frame : b'.generation = b.generation ∧ b'.waiting = b.waiting)
    (entered : returned' + pc'.inside.toNat = returned + pc.inside.toNat)
    (counted : uncounted b.count.toNat pc' = uncounted b.count.toNat pc)
    (phase : Phase b.generation.toNat ⟨pc', returned'⟩) :
    Within b ⟨pc, returned⟩ b' ⟨pc', returned'⟩ where
  same := frame.1
  phase := phase
  arrivals := by
    rw [frame.2, counted, Thread.ahead, Thread.ahead, Thread.entered, Thread.entered, entered]

/-- The thread is at the generation, and its call not yet entered. -/
theorem not_ahead {pc : Pc w} {returned generation : ℕ} (outside : pc.inside = false)
    (round : returned = generation) : Thread.ahead generation ⟨pc, returned⟩ = false := by
  rw [Thread.ahead, Thread.entered, outside, round]
  exact decide_eq_false (by simp)

/-- The thread is at the generation, and its call entered. -/
theorem ahead_of_inside {pc : Pc w} {returned generation : ℕ} (inside : pc.inside = true)
    (round : returned = generation) : Thread.ahead generation ⟨pc, returned⟩ = true := by
  rw [Thread.ahead, Thread.entered, inside, round]
  exact decide_eq_true rfl

omit [DecidableEq ι] in
/-- A thread that takes the mutex has entered a call that is yet to be counted. -/
theorem lock_within {returned : ℕ} (round : returned = b.generation.toNat) :
    Within b ⟨.lock, returned⟩ { b with mtx := some i } ⟨.readGeneration, returned⟩ where
  same := rfl
  phase := round
  arrivals := by
    rw [not_ahead rfl round, ahead_of_inside rfl round]
    rfl

omit [DecidableEq ι] in
/-- The thread that resets the count stands for everybody it has counted. -/
theorem resetWaiting_within {returned : ℕ} (round : returned = b.generation.toNat)
    (full : b.waiting.toNat = b.count.toNat) :
    Within b ⟨.resetWaiting, returned⟩ { b with waiting := 0#w } ⟨.bumpGeneration, returned⟩ where
  same := rfl
  phase := round
  arrivals := by
    rw [ahead_of_inside rfl round, ahead_of_inside rfl round, full, BitVec.toNat_zero]
    simp only [uncounted]
    omega

/-- An arrival is counted as the calls it is one ahead by. -/
theorem arrive_within {currentGen : BitVec w} {returned : ℕ} {pc : Pc w}
    (phase : Phase b.generation.toNat ⟨.arrive currentGen, returned⟩)
    (room : b.waiting.toNat < b.count.toNat)
    (moved : arriveAndWait i b (.arrive currentGen) = some (b', pc)) :
    Within b ⟨.arrive currentGen, returned⟩ b' ⟨pc, returned⟩ := by
  obtain ⟨captured, round⟩ := phase
  obtain ⟨rfl, next, arrived⟩ := arrive_cases room moved
  have entered : uncounted b.count.toNat pc = 0 ∧ pc.inside = true := by
    rcases arrived with ⟨-, rfl⟩ | ⟨-, rfl⟩ <;> exact ⟨rfl, rfl⟩
  constructor
  case same => rfl
  case phase =>
    rcases arrived with ⟨-, rfl⟩ | ⟨-, rfl⟩
    · exact round
    · exact ⟨captured.trans round.symm, .inl round⟩
  case arrivals =>
    rw [ahead_of_inside rfl round, ahead_of_inside entered.2 round, entered.1, next, uncounted]

/-- The predicate of the wait: either the captured generation is over, or the
thread is still one call ahead. -/
theorem test_within {currentGen : BitVec w} {returned : ℕ} {pc : Pc w}
    (phase : Phase b.generation.toNat ⟨.test currentGen, returned⟩)
    (moved : arriveAndWait i b (.test currentGen) = some (b', pc)) :
    Within b ⟨.test currentGen, returned⟩ b' ⟨pc, returned⟩ := by
  obtain ⟨rfl, rfl⟩ := Prod.mk.inj (Option.some.inj moved)
  obtain ⟨captured, round⟩ := phase
  by_cases passed : currentGen < b.generation
  · have before : currentGen.toNat < b.generation.toNat := BitVec.lt_def.mp passed
    have elapsed : returned + 1 = b.generation.toNat :=
      round.resolve_left fun same => by omega
    rw [if_pos passed]
    exact within_of_same ⟨rfl, rfl⟩ rfl rfl elapsed
  · have current : b.generation.toNat ≤ currentGen.toNat := by
      rw [← Nat.not_lt]
      exact fun before => passed (BitVec.lt_def.mpr before)
    have still : returned = b.generation.toNat :=
      round.resolve_right fun elapsed => by omega
    rw [if_neg passed]
    exact within_of_same ⟨rfl, rfl⟩ rfl rfl ⟨captured.trans still, still⟩

/-- Every move but the last arrival's `++generation_` stays within a generation. -/
theorem move_round (phase : Phase b.generation.toNat t)
    (room : ∀ currentGen, t.pc = .arrive currentGen → b.waiting.toNat < b.count.toNat)
    (full : t.pc = .resetWaiting → b.waiting.toNat = b.count.toNat)
    (moved : Move quota i b t b' t') : Within b t b' t' ∨
      (t.pc = .bumpGeneration ∧ t' = ⟨.notifyAll, t.returned⟩ ∧
        b' = { b with generation := b.generation + 1#w }) := by
  obtain ⟨pc, returned⟩ := t
  cases moved with
  | call outside more =>
    subst outside
    exact .inl (within_of_same ⟨rfl, rfl⟩ rfl rfl phase)
  | spurious sleeping => exact .inl (within_of_same ⟨rfl, rfl⟩ rfl rfl phase)
  | go _ _ moved =>
    cases pc with
    | outside => cases moved
    | lock =>
      obtain ⟨free, rfl, rfl⟩ := lock_map_eq_some_iff.mp moved
      exact .inl (lock_within phase)
    | readGeneration =>
      obtain ⟨rfl, rfl⟩ := Prod.mk.inj (Option.some.inj moved)
      exact .inl (within_of_same ⟨rfl, rfl⟩ rfl rfl ⟨rfl, phase⟩)
    | arrive currentGen => exact .inl (arrive_within phase (room currentGen rfl) moved)
    | resetWaiting =>
      obtain ⟨rfl, rfl⟩ := Prod.mk.inj (Option.some.inj moved)
      exact .inl (resetWaiting_within phase (full rfl))
    | bumpGeneration =>
      obtain ⟨rfl, rfl⟩ := Prod.mk.inj (Option.some.inj moved)
      exact .inr ⟨rfl, rfl, rfl⟩
    | notifyAll =>
      obtain ⟨rfl, rfl⟩ := Prod.mk.inj (Option.some.inj moved)
      exact .inl (within_of_same ⟨rfl, rfl⟩ rfl rfl phase)
    | test currentGen => exact .inl (test_within phase moved)
    | sleep currentGen =>
      obtain ⟨rfl, rfl⟩ := Prod.mk.inj (Option.some.inj moved)
      obtain ⟨captured, round⟩ := phase
      exact .inl (within_of_same ⟨rfl, rfl⟩ rfl rfl ⟨captured.trans round.symm, .inl round⟩)
    | asleep currentGen =>
      obtain ⟨awake, moved⟩ := Option.ite_none_left_eq_some.mp moved
      obtain ⟨free, rfl, rfl⟩ := lock_map_eq_some_iff.mp moved
      exact .inl (within_of_same ⟨rfl, rfl⟩ rfl rfl phase)
    | unlock =>
      obtain ⟨rfl, rfl⟩ := Prod.mk.inj (Option.some.inj moved)
      exact .inl (within_of_same ⟨rfl, rfl⟩ rfl rfl phase)

end OneMove

section Run

variable [Fintype ι] {calls : ι → ℕ} {count : BitVec w}

/-- What holds between any two steps. -/
structure Sound (calls : ι → ℕ) (count : BitVec w) (c : Config ι w) : Prop where
  size : c.barrier.count = count
  mutex : Owned (fun t : Thread w => t.pc.locked) c.barrier.mtx c.threads
  parked : Parked (fun t : Thread w => t.pc.waits) c.barrier.sleepers c.threads
  phase : ∀ i, Phase c.barrier.generation.toNat (c.threads i)
  quota : ∀ i, (c.threads i).pc ≠ .outside → (c.threads i).returned < calls i
  arrivals : c.barrier.waiting.toNat + tally (fun _ t => uncounted count.toNat t.pc) c.threads =
    tally (fun _ t => (t.ahead c.barrier.generation.toNat).toNat) c.threads
  full : ∀ i, (c.threads i).pc = .resetWaiting → c.barrier.waiting.toNat = count.toNat
  below : c.barrier.waiting.toNat < count.toNat ∨ ∃ i, (c.threads i).pc = .resetWaiting

/-- The new barrier is sound. -/
theorem sound_init (calls : ι → ℕ) (positive : 0 < count.toNat) :
    Sound calls count (Config.init count) where
  size := rfl
  mutex := by simp [Owned, Config.init, Barrier.make, Pc.locked]
  parked := by simp [Parked, Config.init, Barrier.make]
  phase := by simp [Config.init, Barrier.make, Phase]
  quota := by simp [Config.init]
  arrivals := by
    simp [Config.init, Barrier.make, tally, uncounted, Thread.ahead, Thread.entered, Pc.inside]
  full := by simp [Config.init]
  below := Or.inl (by simpa [Config.init, Barrier.make] using positive)

/-- A thread one call ahead that does not hold the mutex is at the wait of the
current round. -/
theorem phase_succ {generation : ℕ} {t : Thread w} (phase : Phase generation t)
    (ahead : t.ahead generation = true) (outside : t.pc.locked = false) :
    Phase (generation + 1) t := by
  obtain ⟨pc, returned⟩ := t
  simp only [Thread.ahead, Thread.entered] at ahead
  cases pc with
  | outside | lock => simp_all [Phase, Pc.inside]
  | asleep currentGen => simp_all [Phase, Pc.inside]
  | _ => simp [Pc.locked] at outside

/-- Who is ahead of a generation is not ahead of the next. -/
theorem ahead_succ {generation : ℕ} {t : Thread w} (ahead : t.ahead generation = true) :
    t.ahead (generation + 1) = false := by
  simp_all [Thread.ahead]

variable [DecidableEq ι]

omit [DecidableEq ι] in
/-- When a thread is about to move the generation on, every thread is a call ahead. -/
theorem all_ahead (parties : Fintype.card ι = count.toNat) {c : Config ι w}
    (sound : Sound calls count c) {i : ι} (standing : (c.threads i).pc = .bumpGeneration) (j : ι) :
    (c.threads j).ahead c.barrier.generation.toNat = true := by
  have own := weight_le_tally (fun _ (t : Thread w) => uncounted count.toNat t.pc) c.threads i
  have full : uncounted count.toNat (c.threads i).pc = count.toNat := by rw [standing]; rfl
  have arrivals := sound.arrivals
  exact all_of_card_le_tally _ c.threads (by omega) j

/-- The last arrival's `++generation_`: everybody is one call ahead before it and
nobody after it. -/
theorem sound_bump (parties : Fintype.card ι = count.toNat) (few : ∀ i, calls i < 2 ^ w)
    {c : Config ι w} (sound : Sound calls count c) {i : ι}
    (standing : (c.threads i).pc = .bumpGeneration) :
    Sound calls count ⟨{ c.barrier with generation := c.barrier.generation + 1#w },
      Function.update c.threads i ⟨.notifyAll, (c.threads i).returned⟩⟩ := by
  have round : (c.threads i).returned = c.barrier.generation.toNat := by
    have phase := sound.phase i
    simpa only [Phase, standing] using phase
  have next : (c.barrier.generation + 1#w).toNat = c.barrier.generation.toNat + 1 := by
    have more := sound.quota i (by simp [standing])
    have bound := few i
    exact toNat_succ (by omega)
  have everybody := tally_toNat_le_card (Thread.ahead c.barrier.generation.toNat) c.threads
  have arrivals := sound.arrivals
  have full : uncounted count.toNat (c.threads i).pc = count.toNat := by rw [standing]; rfl
  have none : uncounted count.toNat (.notifyAll : Pc w) = 0 := rfl
  have ahead := all_ahead parties sound standing
  have others : ∀ j, j ≠ i → (c.threads j).pc.locked = false := by
    intro j other
    by_contra held
    exact other (sound.mutex.exclusive (by simpa using held) (by simp [standing, Pc.locked]))
  have counted := tally_update (fun _ (t : Thread w) => uncounted count.toNat t.pc) c.threads i
    ⟨.notifyAll, (c.threads i).returned⟩
  have nobody : tally (fun _ (t : Thread w) =>
      (t.ahead (c.barrier.generation.toNat + 1)).toNat)
      (Function.update c.threads i ⟨.notifyAll, (c.threads i).returned⟩) = 0 := by
    rw [tally_eq_zero_iff, Function.forall_update_iff c.threads fun _ t =>
      (Thread.ahead (c.barrier.generation.toNat + 1) t).toNat = 0]
    refine ⟨?_, fun j _ => by rw [ahead_succ (ahead j)]; rfl⟩
    simp [Thread.ahead, Thread.entered, Pc.inside, round]
  refine ⟨sound.size, sound.mutex.move (.kept _ _ _ (by simp [standing, Pc.locked])),
    sound.parked.move (fun j member _ => member) (fun member => ?_), ?_, ?_, ?_, ?_, ?_⟩
  · have waits := sound.parked i member
    simp [standing, Pc.waits] at waits
  · rw [Function.forall_update_iff c.threads fun _ t => Phase (c.barrier.generation + 1#w).toNat t]
    rw [next]
    exact ⟨by simp [Phase, round], fun j other =>
      phase_succ (sound.phase j) (ahead j) (others j other)⟩
  · rw [Function.forall_update_iff c.threads fun j t => t.pc ≠ .outside → t.returned < calls j]
    exact ⟨fun _ => sound.quota i (by simp [standing]), fun j _ => sound.quota j⟩
  · dsimp only at counted ⊢
    rw [next, nobody]
    omega
  · rw [Function.forall_update_iff c.threads fun _ t => t.pc = .resetWaiting → _]
    exact ⟨by simp, fun j _ => sound.full j⟩
  · rcases sound.below with below | ⟨j, resetting⟩
    · exact Or.inl below
    · have same := sound.mutex.exclusive (i := i) (j := j) (by simp [standing, Pc.locked])
        (by simp [resetting, Pc.locked])
      simp [← same, standing] at resetting

/-- A move that stays within a generation. -/
theorem sound_within {c : Config ι w} (sound : Sound calls count c) {i : ι}
    {barrier : Barrier ι w} {thread : Thread w}
    (effect : Effect (calls i) i c.barrier (c.threads i) barrier thread)
    (within : Within c.barrier (c.threads i) barrier thread) :
    Sound calls count ⟨barrier, Function.update c.threads i thread⟩ := by
  have size := sound.size
  have counted := tally_update (fun _ (t : Thread w) => uncounted count.toNat t.pc) c.threads i thread
  have ahead := tally_update
    (fun _ (t : Thread w) => (t.ahead c.barrier.generation.toNat).toNat) c.threads i thread
  have before := sound.arrivals
  have change := within.arrivals
  rw [size] at change
  refine ⟨effect.count.trans size, sound.mutex.move effect.lock,
    sound.parked.move effect.others (effect.here (sound.parked i)), ?_, ?_, ?_, ?_, ?_⟩
  · rw [within.same, Function.forall_update_iff c.threads fun _ t =>
      Phase c.barrier.generation.toNat t]
    exact ⟨within.phase, fun j _ => sound.phase j⟩
  · rw [Function.forall_update_iff c.threads fun j t => t.pc ≠ .outside → t.returned < calls j]
    exact ⟨effect.quota (sound.quota i), fun j _ => sound.quota j⟩
  · dsimp only at counted ahead ⊢
    rw [within.same]
    omega
  · rw [Function.forall_update_iff c.threads fun _ t =>
      t.pc = .resetWaiting → barrier.waiting.toNat = count.toNat]
    refine ⟨fun resetting => size ▸ effect.full resetting, fun j other resetting => ?_⟩
    rcases effect.counts with same | inside
    · rw [same]
      exact sound.full j resetting
    · exact absurd (sound.mutex.exclusive (by simp [resetting, Pc.locked]) inside) other
  · have kept := effect.below
    rw [size] at kept
    rcases sound.below with below | ⟨j, resetting⟩
    · exact (kept (Or.inl below)).imp_right fun resetting => ⟨i, by simpa using resetting⟩
    · by_cases same : j = i
      · subst same
        exact (kept (Or.inr resetting)).imp_right fun resetting => ⟨j, by simpa using resetting⟩
      · exact Or.inr ⟨j, by simpa [Function.update_of_ne same] using resetting⟩

omit [DecidableEq ι] in
/-- A thread that is about to be counted is not the one that resets the count. -/
theorem Sound.room {c : Config ι w} (sound : Sound calls count c) {i : ι} (currentGen : BitVec w)
    (arriving : (c.threads i).pc = .arrive currentGen) :
    c.barrier.waiting.toNat < c.barrier.count.toNat := by
  rw [sound.size]
  rcases sound.below with below | ⟨j, resetting⟩
  · exact below
  · have same := sound.mutex.exclusive (i := i) (j := j) (by simp [arriving, Pc.locked])
      (by simp [resetting, Pc.locked])
    simp [← same, arriving] at resetting

omit [DecidableEq ι] in
/-- Who resets the count has seen everybody arrive. -/
theorem Sound.complete {c : Config ι w} (sound : Sound calls count c) {i : ι}
    (resetting : (c.threads i).pc = .resetWaiting) :
    c.barrier.waiting.toNat = c.barrier.count.toNat := by
  rw [sound.size]
  exact sound.full i resetting

/-- In a sound state every move has its effect. -/
theorem Sound.effect (positive : 0 < count.toNat) {c : Config ι w} (sound : Sound calls count c)
    {i : ι} {barrier : Barrier ι w} {thread : Thread w}
    (moved : Move (calls i) i c.barrier (c.threads i) barrier thread) :
    Effect (calls i) i c.barrier (c.threads i) barrier thread :=
  move_effect sound.room sound.complete (by rw [sound.size]; exact positive) moved

/-- Every step keeps the rounds in order. -/
theorem sound_preserved (parties : Fintype.card ι = count.toNat) (positive : 0 < count.toNat)
    (few : ∀ i, calls i < 2 ^ w) : Preserved (step calls) (Sound calls count) := by
  intro c label c' sound taken
  obtain ⟨i, barrier, thread, moved, rfl⟩ := step_move taken
  rcases move_round (sound.phase i) sound.room sound.complete moved with
    within | ⟨standing, rfl, rfl⟩
  · exact sound_within sound (sound.effect positive moved) within
  · exact sound_bump parties few sound standing

/-- The barrier is sound in every reachable state. -/
theorem reachable_sound (parties : Fintype.card ι = count.toNat) (positive : 0 < count.toNat)
    (few : ∀ i, calls i < 2 ^ w) {c : Config ι w} (reached : Reachable calls count c) :
    Sound calls count c :=
  (sound_preserved parties positive few).reaches (sound_init calls positive) reached

omit [Fintype ι] [DecidableEq ι] in
/-- A thread has returned from no call beyond the generation and has entered every
call up to it. -/
theorem phase_bounds {generation : ℕ} {t : Thread w} (phase : Phase generation t) :
    t.returned ≤ generation ∧ generation ≤ t.entered ∧ t.entered ≤ generation + 1 := by
  obtain ⟨pc, returned⟩ := t
  cases pc <;> simp_all [Phase, Thread.entered, Pc.inside] <;> omega

omit [DecidableEq ι] in
/-- With the mutex free, the count is the number of threads one call ahead. -/
theorem waiting_of_free {c : Config ι w} (sound : Sound calls count c)
    (free : c.barrier.mtx = none) : c.barrier.waiting.toNat < count.toNat ∧
      c.barrier.waiting.toNat =
        (Finset.univ.filter fun i => c.barrier.generation.toNat + 1 ≤ (c.threads i).entered).card := by
  have outside : ∀ i, (c.threads i).pc.locked = false := by
    intro i
    by_contra held
    have mine := (sound.mutex i).mp (by simpa using held)
    simp [free] at mine
  have none : tally (fun _ (t : Thread w) => uncounted count.toNat t.pc) c.threads = 0 := by
    rw [tally_eq_zero_iff]
    intro i
    have unlocked := outside i
    cases standing : (c.threads i).pc with
    | readGeneration | arrive | bumpGeneration => simp [standing, Pc.locked] at unlocked
    | _ => rfl
  have arrivals := sound.arrivals
  rw [none, tally_toNat] at arrivals
  constructor
  · rcases sound.below with below | ⟨i, resetting⟩
    · exact below
    · have unlocked := outside i
      simp [resetting, Pc.locked] at unlocked
  · rw [← Nat.add_zero c.barrier.waiting.toNat, arrivals]
    congr 1
    ext i
    have bounds := phase_bounds (sound.phase i)
    simp only [Finset.mem_filter, Finset.mem_univ, true_and, Thread.ahead, decide_eq_true_eq]
    omega

/-- The barrier separates phases, for any number of threads that equals its count,
any number of calls of each thread below the range of `size_t`, and spurious
wake-ups. A thread that has returned from a call finds every thread in that call or
beyond. With the mutex free, the rounds everybody has entered are those up to the
generation, and `waiting_` is below the count and counts the threads that have
entered the next. -/
theorem phases_separated (calls : ι → ℕ) (count : BitVec w)
    (parties : Fintype.card ι = count.toNat) (positive : 0 < count.toNat)
    (few : ∀ i, calls i < 2 ^ w) (c : Config ι w) (reached : Reachable calls count c) :
    (∀ i j, (c.threads i).returned ≤ (c.threads j).entered) ∧
    (c.barrier.mtx = none →
      (∀ round, round ≤ c.barrier.generation.toNat ↔ ∀ i, round ≤ (c.threads i).entered) ∧
      c.barrier.waiting.toNat < count.toNat ∧
      c.barrier.waiting.toNat = (Finset.univ.filter fun i =>
        c.barrier.generation.toNat + 1 ≤ (c.threads i).entered).card) := by
  have sound := reachable_sound parties positive few reached
  have bounds := fun i => phase_bounds (sound.phase i)
  constructor
  · intro i j
    exact (bounds i).1.trans (bounds j).2.1
  · intro free
    obtain ⟨below, counted⟩ := waiting_of_free sound free
    refine ⟨fun round => ⟨fun within i => within.trans (bounds i).2.1, fun entered => ?_⟩, below,
      counted⟩
    by_contra beyond
    have everybody : (Finset.univ.filter fun i =>
        c.barrier.generation.toNat + 1 ≤ (c.threads i).entered) = Finset.univ := by
      rw [Finset.filter_true_of_mem]
      intro i _
      exact (Nat.lt_of_not_le beyond).trans_le (entered i)
    rw [everybody, Finset.card_univ] at counted
    omega

/-- The second thread has returned and waits in its second call while the first,
woken from its first call, has not locked the mutex again. -/
theorem phases_separated_two : ∃ c : Config (Fin 2) 64, Reachable (fun _ => 2) 2#64 c ∧
    c.barrier.mtx = none ∧ c.barrier.generation.toNat = 1 ∧ (∀ i, 1 ≤ (c.threads i).entered) ∧
    c.barrier.waiting.toNat = (Finset.univ.filter fun i => 2 ≤ (c.threads i).entered).card := by
  let schedule : List (Label (Fin 2)) :=
    [[.call 0], List.replicate 5 (.go 0), [.call 1], List.replicate 7 (.go 1),
      [.call 1], List.replicate 5 (.go 1)].flatten
  have played : (run (step fun _ => 2) (Config.init 2#64) schedule).map
      (fun c => (c.barrier.mtx, c.barrier.generation)) = some (none, 1#64) := rfl
  obtain ⟨c, reached, final⟩ := Option.map_eq_some_iff.mp played
  obtain ⟨free, second⟩ := Prod.mk.inj final
  have separated := (phases_separated (fun _ => 2) 2#64 rfl (by decide) (by decide) c
    ⟨schedule, reached⟩).2 free
  have generation : c.barrier.generation.toNat = 1 := by rw [second]; rfl
  rw [generation] at separated
  exact ⟨c, ⟨schedule, reached⟩, free, generation, (separated.1 1).mp (le_refl 1), separated.2.2⟩

end Run

end ConcurrencyBench.ManualBarrier
