import ConcurrencyBench.Threads

/-!
# Shared mutexes

A shared mutex is held by any number of threads that share it, or by one thread alone. It
shows how many share it and whether one has it to itself. A mutex that is not shared is one
that nobody asks to share.

What a thread holds is said by its position. The mutex shows what the threads hold as long
as each step of a thread keeps what it holds, or takes what the mutex grants, or gives back
what it has.
-/

namespace Interleaving

universe u v w
variable {ι : Type u} {P : Type v}

/-- What a thread may hold of a shared mutex. -/
inductive Hold
  | shared
  | exclusive
deriving DecidableEq

/-- How many threads share the mutex, and whether one has it to itself. -/
structure SharedMutex where
  readers : ℕ
  writer : Bool
deriving DecidableEq

namespace SharedMutex

/-- Nobody has the mutex. -/
def free : SharedMutex := ⟨0, false⟩

/-- The mutex grants a hold, or makes the thread wait. -/
def acquire (m : SharedMutex) : Hold → Option SharedMutex
  | .shared => if m.writer then none else some { m with readers := m.readers + 1 }
  | .exclusive => if m.writer ∨ m.readers ≠ 0 then none else some { m with writer := true }

/-- One hold is given up. -/
def release (m : SharedMutex) : Hold → SharedMutex
  | .shared => { m with readers := m.readers - 1 }
  | .exclusive => { m with writer := false }

/-- A free mutex grants what it is asked for. -/
theorem acquire_free (hold : Hold) : ∃ m, free.acquire hold = some m := by
  cases hold
  · exact ⟨_, rfl⟩
  · exact ⟨_, rfl⟩

/-- What a mutex grants can be given back. -/
theorem release_acquire {m m' : SharedMutex} {hold : Hold} (granted : m.acquire hold = some m') :
    m'.release hold = m := by
  cases hold with
  | shared =>
    simp only [acquire, Option.ite_none_left_eq_some, Option.some.injEq] at granted
    obtain ⟨_, rfl⟩ := granted
    simp [release]
  | exclusive =>
    simp only [acquire, Option.ite_none_left_eq_some, Option.some.injEq, not_or,
      Bool.not_eq_true] at granted
    obtain ⟨⟨clear, _⟩, rfl⟩ := granted
    simp [release, ← clear]

end SharedMutex

/-- One thread's share of a kind of hold. -/
def heldAs (hold : Hold) (holds : P → Option Hold) (p : P) : Bool :=
  decide (holds p = some hold)

/-- The mutex shows what the threads hold. -/
structure Governed [Fintype ι] (holds : P → Option Hold) (m : SharedMutex) (threads : ι → P) :
    Prop where
  readers : m.readers = tally (fun _ p => (heldAs .shared holds p).toNat) threads
  writer : m.writer.toNat = tally (fun _ p => (heldAs .exclusive holds p).toNat) threads
  apart : m.writer = true → m.readers = 0

/-- What one thread's step may do to a shared mutex. -/
inductive HoldMove (holds : P → Option Hold) (m : SharedMutex) (p : P) : SharedMutex → P → Prop
  | kept (p' : P) (same : holds p' = holds p) : HoldMove holds m p m p'
  | acquired (m' : SharedMutex) (p' : P) (hold : Hold) (before : holds p = none)
      (granted : m.acquire hold = some m') (after : holds p' = some hold) :
      HoldMove holds m p m' p'
  | released (p' : P) (hold : Hold) (before : holds p = some hold) (after : holds p' = none) :
      HoldMove holds m p (m.release hold) p'

/-- A move of what a position is made of is a move of the position. -/
theorem HoldMove.congr {Q : Type w} {holds : P → Option Hold} {holds' : Q → Option Hold}
    {m m' : SharedMutex} {p p' : P} {q q' : Q} (moved : HoldMove holds m p m' p')
    (before : holds' q = holds p) (after : holds' q' = holds p') : HoldMove holds' m q m' q' := by
  cases moved with
  | kept _ same => exact .kept q' (by rw [after, same, before])
  | acquired _ _ hold outside granted inside =>
    exact .acquired m' q' hold (by rw [before, outside]) granted (by rw [after, inside])
  | released _ hold inside outside =>
    exact .released q' hold (by rw [before, inside]) (by rw [after, outside])

section Governed

variable [Fintype ι] {holds : P → Option Hold} {m m' : SharedMutex} {threads : ι → P} {i j : ι}
  {p' : P}

/-- The free mutex governs threads that hold nothing. -/
theorem governed_free (nobody : ∀ i, holds (threads i) = none) :
    Governed holds SharedMutex.free threads := by
  constructor <;> simp [SharedMutex.free, tally, heldAs, nobody]

/-- The mutex goes on showing what the threads hold. -/
theorem Governed.move [DecidableEq ι] (governed : Governed holds m threads)
    (moved : HoldMove holds m (threads i) m' p') :
    Governed holds m' (Function.update threads i p') := by
  have sharing := tally_update (fun _ p => (heldAs .shared holds p).toNat) threads i p'
  have writing := tally_update (fun _ p => (heldAs .exclusive holds p).toNat) threads i p'
  obtain ⟨readers, writer, apart⟩ := governed
  cases moved with
  | kept _ same =>
    simp only [heldAs, same] at sharing writing readers writer ⊢
    refine ⟨?_, ?_, apart⟩ <;> simp only [heldAs] <;> omega
  | acquired _ _ hold before granted after =>
    cases hold with
    | shared =>
      simp only [SharedMutex.acquire, Option.ite_none_left_eq_some, Option.some.injEq] at granted
      obtain ⟨clear, rfl⟩ := granted
      simp only [heldAs, before, after] at sharing writing readers writer
      simp only [decide_true, Bool.toNat_true, reduceCtorEq, decide_false, Bool.toNat_false,
        Option.some.injEq] at sharing writing
      refine ⟨?_, ?_, fun set => absurd set clear⟩ <;> simp only [heldAs] <;> omega
    | exclusive =>
      simp only [SharedMutex.acquire, Option.ite_none_left_eq_some, Option.some.injEq, not_or,
        Bool.not_eq_true, ne_eq, not_not] at granted
      obtain ⟨⟨clear, none⟩, rfl⟩ := granted
      rw [clear] at writer
      simp only [heldAs, before, after] at sharing writing readers writer
      simp only [decide_true, Bool.toNat_true, reduceCtorEq, decide_false, Bool.toNat_false,
        Option.some.injEq] at sharing writing writer
      refine ⟨?_, ?_, fun _ => none⟩ <;> simp only [heldAs, Bool.toNat_true] <;> omega
  | released _ hold before after =>
    cases hold with
    | shared =>
      simp only [heldAs, before, after] at sharing writing readers writer
      simp only [decide_true, Bool.toNat_true, reduceCtorEq, decide_false, Bool.toNat_false,
        Option.some.injEq] at sharing writing
      refine ⟨?_, ?_, fun set => ?_⟩ <;> simp only [heldAs, SharedMutex.release] at *
      · omega
      · omega
      · rw [apart set]
    | exclusive =>
      have mine := weight_le_tally (fun _ p => (heldAs .exclusive holds p).toNat) threads i
      simp only [heldAs, before, after] at sharing writing readers writer mine
      simp only [decide_true, Bool.toNat_true, reduceCtorEq, decide_false, Bool.toNat_false,
        Option.some.injEq] at sharing writing mine
      have atMost := m.writer.toNat_le
      refine ⟨?_, ?_, by simp [SharedMutex.release]⟩ <;>
        simp only [heldAs, SharedMutex.release, Bool.toNat_false] <;> omega

/-- Who has the mutex exclusively is the only one that has it. -/
theorem Governed.alone (governed : Governed holds m threads)
    (mine : holds (threads i) = some .exclusive) (theirs : holds (threads j) ≠ none) : i = j := by
  have here := weight_le_tally (fun _ p => (heldAs .exclusive holds p).toNat) threads i
  have there := weight_le_tally (fun _ p => (heldAs .shared holds p).toNat) threads j
  have one : heldAs .exclusive holds (threads i) = true := by simp [heldAs, mine]
  rw [one, Bool.toNat_true, ← governed.writer] at here
  have set : m.writer = true := by
    cases writer : m.writer
    · simp [writer] at here
    · rfl
  rw [← governed.readers, governed.apart set] at there
  obtain ⟨hold, theirs⟩ := Option.ne_none_iff_exists'.mp theirs
  cases hold with
  | shared => simp [heldAs, theirs] at there
  | exclusive =>
    have counted := governed.writer
    rw [set, Bool.toNat_true, tally_toNat] at counted
    refine Finset.card_le_one.mp counted.symm.le i ?_ j ?_
    · simp [heldAs, mine]
    · simp [heldAs, theirs]

/-- A mutex that nobody holds is free. -/
theorem Governed.free_of_nobody (governed : Governed holds m threads)
    (nobody : ∀ i, holds (threads i) = none) : m = .free := by
  obtain ⟨readers, writer⟩ := m
  have none := governed.readers
  have clear := governed.writer
  simp only [tally, heldAs, nobody, reduceCtorEq, decide_false, Bool.toNat_false,
    Finset.sum_const_zero] at none clear
  cases writer with
  | false => rw [none]; rfl
  | true => simp at clear

end Governed

end Interleaving
