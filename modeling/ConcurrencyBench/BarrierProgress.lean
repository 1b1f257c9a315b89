import ConcurrencyBench.BarrierRounds

/-!
# The manual barrier never deadlocks

Moving the generation on and notifying are two statements of one critical section,
so between them threads sleep through a generation that is over. Outside of that a
sleeping thread has captured the current generation. A state in which no thread can
go on has the mutex free, so nobody is between the two statements; every thread is
asleep in the current round or has made all its calls. With equal numbers of calls
the second kind excludes the first. So all threads would be asleep in the current
round, but `waiting_` counts them and stays below the count.
-/

namespace ConcurrencyBench.ManualBarrier

open Interleaving

universe u
variable {ι : Type u} {w : ℕ}

/-- The label is not a spurious wake-up. -/
def Label.prompted : Label ι → Bool
  | .spurious _ => false
  | _ => true

/-- What one move does to the threads asleep and to the generation they have captured. -/
structure Waking (i : ι) (b : Barrier ι w) (t : Thread w) (b' : Barrier ι w) (t' : Thread w) :
    Prop where
  notified : t.pc = .notifyAll → b'.sleepers = ∅
  bumped : b'.generation = b.generation ∨ t'.pc = .notifyAll
  stays : t'.returned = t.returned ∨ i ∉ b'.sleepers
  enters : i ∈ b'.sleepers → i ∈ b.sleepers ∨ t.returned = b.generation.toNat

section OneMove

variable [DecidableEq ι] {quota : ℕ} {i : ι} {b b' : Barrier ι w} {t t' : Thread w}

omit [DecidableEq ι] in
/-- A move that puts nobody to sleep leaves the sleepers to be woken. -/
theorem still_waking (notifies : t.pc ≠ .notifyAll)
    (bumped : b'.generation = b.generation ∨ t'.pc = .notifyAll)
    (stays : t'.returned = t.returned ∨ i ∉ b'.sleepers)
    (slept : i ∈ b'.sleepers → i ∈ b.sleepers) : Waking i b t b' t' :=
  ⟨fun notifying => absurd notifying notifies, bumped, stays, fun member => .inl (slept member)⟩

/-- Every move leaves the sleepers to be woken. -/
theorem move_waking (phase : Phase b.generation.toNat t)
    (parked : i ∈ b.sleepers → t.pc.waits = true) (moved : Move quota i b t b' t') :
    Waking i b t b' t' := by
  obtain ⟨pc, returned⟩ := t
  cases moved with
  | call outside more =>
    subst outside
    exact still_waking nofun (.inl rfl) (.inl rfl) id
  | spurious sleeping =>
    have waits := parked sleeping
    refine still_waking ?_ (.inl rfl) (.inl rfl) (fun _ => sleeping)
    rintro rfl
    cases waits
  | go _ _ moved =>
    cases pc with
    | outside => cases moved
    | lock =>
      obtain ⟨free, rfl, rfl⟩ := lock_map_eq_some_iff.mp moved
      exact still_waking nofun (.inl rfl) (.inl rfl) id
    | readGeneration | arrive currentGen | resetWaiting =>
      obtain ⟨rfl, rfl⟩ := Prod.mk.inj (Option.some.inj moved)
      exact still_waking nofun (.inl rfl) (.inl rfl) id
    | bumpGeneration =>
      obtain ⟨rfl, rfl⟩ := Prod.mk.inj (Option.some.inj moved)
      exact still_waking nofun (.inr rfl) (.inl rfl) id
    | notifyAll =>
      obtain ⟨rfl, rfl⟩ := Prod.mk.inj (Option.some.inj moved)
      exact ⟨fun _ => rfl, .inl rfl, .inl rfl, fun member => absurd member (Finset.notMem_empty i)⟩
    | test currentGen =>
      obtain ⟨rfl, rfl⟩ := Prod.mk.inj (Option.some.inj moved)
      exact still_waking nofun (.inl rfl) (.inl rfl) id
    | sleep currentGen =>
      obtain ⟨rfl, rfl⟩ := Prod.mk.inj (Option.some.inj moved)
      obtain ⟨captured, round⟩ := phase
      exact ⟨nofun, .inl rfl, .inl rfl, fun _ => .inr round⟩
    | asleep currentGen =>
      obtain ⟨awake, moved⟩ := Option.ite_none_left_eq_some.mp moved
      obtain ⟨free, rfl, rfl⟩ := lock_map_eq_some_iff.mp moved
      exact still_waking nofun (.inl rfl) (.inl rfl) id
    | unlock =>
      obtain ⟨rfl, rfl⟩ := Prod.mk.inj (Option.some.inj moved)
      have awake : i ∉ b.sleepers := fun member => nomatch parked member
      exact ⟨nofun, .inl rfl, .inr awake, fun member => absurd member awake⟩

omit [DecidableEq ι] in
/-- A thread without a next statement is between calls, waits for the mutex, or sleeps. -/
theorem arriveAndWait_none [DecidableEq ι] {pc : Pc w} (blocked : arriveAndWait i b pc = none) :
    pc = .outside ∨ (pc.locked = false ∧ b.mtx ≠ none) ∨ i ∈ b.sleepers := by
  cases held : b.mtx with
  | some j => cases pc <;> simp_all [arriveAndWait, Barrier.lock, Pc.locked]
  | none => cases pc <;> simp_all [arriveAndWait, Barrier.lock, Pc.locked]

end OneMove

section Run

variable [Fintype ι] [DecidableEq ι] {calls : ι → ℕ} {count : BitVec w}

/-- A sleeping thread has captured the current generation, or the thread that has
moved the generation on is about to notify. -/
def Attentive (c : Config ι w) : Prop :=
  (∀ i ∈ c.barrier.sleepers, (c.threads i).returned = c.barrier.generation.toNat) ∨
    ∃ i, (c.threads i).pc = .notifyAll

/-- Every step leaves the sleepers to be woken. -/
theorem attentive_step (positive : 0 < count.toNat) {c c' : Config ι w} {label : Label ι}
    (sound : Sound calls count c) (attentive : Attentive c)
    (taken : step calls c label = some c') : Attentive c' := by
  obtain ⟨i, barrier, thread, moved, rfl⟩ := step_move taken
  have waking := move_waking (sound.phase i) (sound.parked i) moved
  have effect := sound.effect positive moved
  by_cases notifies : (c.threads i).pc = .notifyAll
  · left
    simp [waking.notified notifies]
  · rcases waking.bumped with same | bumped
    · rcases attentive with current | ⟨j, notifying⟩
      · left
        intro j sleeping
        dsimp only at sleeping ⊢
        rw [same]
        by_cases mine : j = i
        · subst mine
          have kept := waking.stays.resolve_right fun awake => awake sleeping
          rw [Function.update_self, kept]
          rcases waking.enters sleeping with before | entering
          · exact current j before
          · exact entering
        · rw [Function.update_of_ne mine]
          exact current j (effect.others j sleeping mine)
      · have other : j ≠ i := by
          rintro rfl
          exact notifies notifying
        exact Or.inr ⟨j, by simpa [Function.update_of_ne other] using notifying⟩
    · exact Or.inr ⟨i, by simpa using bumped⟩

/-- In every reachable state the sleepers are to be woken. -/
theorem reachable_attentive (parties : Fintype.card ι = count.toNat) (positive : 0 < count.toNat)
    (few : ∀ i, calls i < 2 ^ w) {c : Config ι w} (reached : Reachable calls count c) :
    Attentive c := by
  have kept : Preserved (step calls) fun c => Sound calls count c ∧ Attentive c :=
    (sound_preserved parties positive few).and fun _ _ _ sound attentive taken =>
      attentive_step positive sound attentive taken
  have begin : Attentive (Config.init count : Config ι w) :=
    Or.inl (by simp [Config.init, Barrier.make])
  exact (kept.reaches ⟨sound_init calls positive, begin⟩ reached).2

/-- Where every thread is when none can go on: the mutex is free, and a thread sleeps
or has made its calls. -/
theorem blocked_cases {c : Config ι w} (sound : Sound calls count c)
    (blocked : ∀ label, label.prompted = true → step calls c label = none) :
    c.barrier.mtx = none ∧ ∀ i, (i ∈ c.barrier.sleepers ∧ (c.threads i).pc.waits = true) ∨
      ((c.threads i).pc = .outside ∧ calls i ≤ (c.threads i).returned) := by
  have still : ∀ i, arriveAndWait i c.barrier (c.threads i).pc = none := fun i => by
    have none := blocked (.go i) rfl
    simpa [step] using none
  have free : c.barrier.mtx = none := by
    by_contra held
    obtain ⟨i, owner⟩ := Option.ne_none_iff_exists'.mp held
    have inside := (sound.mutex i).mpr owner
    rcases arriveAndWait_none (still i) with outside | ⟨unlocked, _⟩ | sleeping
    · simp [outside, Pc.locked] at inside
    · simp [unlocked] at inside
    · have waits := sound.parked i sleeping
      cases standing : (c.threads i).pc <;> simp [standing, Pc.locked, Pc.waits] at inside waits
  refine ⟨free, fun i => ?_⟩
  rcases arriveAndWait_none (still i) with outside | ⟨_, held⟩ | sleeping
  · have none := blocked (.call i) rfl
    simp only [step, outside, ite_eq_right_iff, reduceCtorEq, imp_false, not_lt] at none
    exact Or.inr ⟨outside, none⟩
  · exact absurd free held
  · exact Or.inl ⟨sleeping, sound.parked i sleeping⟩

/-- If nobody can go on, everybody has made the calls: threads with equal numbers of
calls cannot all be asleep, and none is asleep with another finished. -/
theorem finished_of_blocked (quota : ℕ) (parties : Fintype.card ι = count.toNat)
    (positive : 0 < count.toNat) (few : quota < 2 ^ w) {c : Config ι w}
    (reached : Reachable (fun _ => quota) count c)
    (blocked : ∀ label, label.prompted = true → step (fun _ => quota) c label = none) (i : ι) :
    quota ≤ (c.threads i).returned := by
  have sound := reachable_sound parties positive (fun _ => few) reached
  obtain ⟨free, places⟩ := blocked_cases sound blocked
  have current : ∀ j ∈ c.barrier.sleepers,
      (c.threads j).returned = c.barrier.generation.toNat := by
    rcases reachable_attentive parties positive (fun _ => few) reached with current | ⟨j, notifying⟩
    · exact current
    · have owner := (sound.mutex j).mp (by simp [notifying, Pc.locked])
      simp [free] at owner
  by_contra unfinished
  -- a finished thread has returned as often as the generation says, and so has the unfinished one
  have level : ∀ j, (c.threads j).returned = c.barrier.generation.toNat := by
    intro j
    rcases places j with ⟨sleeping, _⟩ | ⟨outside, _⟩
    · exact current j sleeping
    · have phase := sound.phase j
      simpa [Phase, outside] using phase
  have everybody : (Finset.univ.filter fun j =>
      c.barrier.generation.toNat + 1 ≤ (c.threads j).entered) = Finset.univ := by
    rw [Finset.filter_true_of_mem]
    intro j _
    have mine := level i
    have theirs := level j
    rcases places j with ⟨_, waits⟩ | ⟨_, finished⟩
    · have inside : (c.threads j).pc.inside = true := by
        cases standing : (c.threads j).pc <;> simp_all [Pc.waits, Pc.inside]
      rw [Thread.entered, inside, Bool.toNat_true]
      omega
    · omega
  obtain ⟨below, counted⟩ := waiting_of_free sound free
  rw [everybody, Finset.card_univ] at counted
  omega

/-- The barrier never deadlocks, for any number of threads that equals its count, each
making the same number of calls below the range of `size_t`. While some thread has
calls to make, some thread can go on without a spurious wake-up. A thread is in the
wait set with a generation beyond the one it has captured only while the thread
holding the mutex is in the `notify_all` that wakes it. -/
theorem barrier_never_stuck (quota : ℕ) (count : BitVec w)
    (parties : Fintype.card ι = count.toNat) (positive : 0 < count.toNat) (few : quota < 2 ^ w)
    (c : Config ι w) (reached : Reachable (fun _ => quota) count c) :
    ((∃ i, (c.threads i).returned < quota) →
      ∃ label, label.prompted = true ∧ step (fun _ => quota) c label ≠ none) ∧
    (∀ i currentGen, i ∈ c.barrier.sleepers → (c.threads i).pc = .asleep currentGen →
      currentGen < c.barrier.generation →
        ∃ j, c.barrier.mtx = some j ∧ (c.threads j).pc = .notifyAll) := by
  constructor
  · rintro ⟨i, unfinished⟩
    by_contra none
    have blocked : ∀ label, label.prompted = true → step (fun _ => quota) c label = Option.none := by
      intro label prompted
      by_contra enabled
      exact none ⟨label, prompted, enabled⟩
    have finished := finished_of_blocked quota parties positive few reached blocked i
    omega
  · intro i currentGen sleeping standing passed
    have sound := reachable_sound parties positive (fun _ => few) reached
    have phase := sound.phase i
    simp only [Phase, standing] at phase
    have order := BitVec.lt_def.mp passed
    rcases reachable_attentive parties positive (fun _ => few) reached with current | ⟨j, notifying⟩
    · have same := current i sleeping
      omega
    · exact ⟨j, (sound.mutex j).mp (by simp [notifying, Pc.locked]), notifying⟩

/-- Of two threads the first sleeps in its only call, and the second, the last to
arrive, has moved the generation on and is in its `notify_all`. -/
theorem barrier_never_stuck_two : ∃ c : Config (Fin 2) 64, Reachable (fun _ => 1) 2#64 c ∧
    (0 ∈ c.barrier.sleepers ∧ ∃ j, c.barrier.mtx = some j ∧ (c.threads j).pc = .notifyAll) ∧
    ∃ label, label.prompted = true ∧ step (fun _ => 1) c label ≠ none := by
  let schedule : List (Label (Fin 2)) :=
    [[.call 0], List.replicate 5 (.go 0), [.call 1], List.replicate 5 (.go 1)].flatten
  have played : (run (step fun _ => 1) (Config.init 2#64) schedule).map
      (fun c => (decide (0 ∈ c.barrier.sleepers), (c.threads 0).pc, c.barrier.generation,
        (c.threads 0).returned)) = some (true, .asleep 0#64, 1#64, 0) := rfl
  obtain ⟨c, reached, final⟩ := Option.map_eq_some_iff.mp played
  simp only [Prod.mk.injEq] at final
  obtain ⟨asleep, standing, generation, returned⟩ := final
  have sleeping : 0 ∈ c.barrier.sleepers := of_decide_eq_true asleep
  obtain ⟨goes, wakes⟩ := barrier_never_stuck 1 2#64 rfl (by decide) (by decide) c
    ⟨schedule, reached⟩
  exact ⟨c, ⟨schedule, reached⟩, ⟨sleeping, wakes 0 0#64 sleeping standing (by rw [generation]; decide)⟩,
    goes ⟨0, by omega⟩⟩

end Run

end ConcurrencyBench.ManualBarrier
