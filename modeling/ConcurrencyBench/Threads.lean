import Mathlib.Algebra.BigOperators.Group.Finset.Piecewise
import Mathlib.Algebra.Order.BigOperators.Group.Finset
import Mathlib.Data.Fintype.BigOperators

/-!
# Counting threads and owning a mutex

The threads of a system are a finite family of positions. A weight on positions
gives a tally over the family, and moving one thread changes the tally by the
difference of that thread's two weights. The law is stated without subtraction,
so counting invariants reduce to linear arithmetic over the natural numbers.

A mutex is the optional name of its owner. It is well used when the threads
inside its critical sections are exactly its owner; a thread that keeps its
side, enters while the mutex is free, or leaves while it is the owner preserves
this, whatever the other threads are doing.

A team of threads is started, and later joined, one after the other. What is known of
those not yet started and of those already joined is that each is at a fixed position.
-/

namespace Interleaving

universe u v
variable {ι : Type u} {P : Type v}

section Tally

variable [Fintype ι]

/-- The sum of a weight over the positions of all threads. -/
def tally (weight : ι → P → ℕ) (threads : ι → P) : ℕ := ∑ i, weight i (threads i)

/-- Moving one thread exchanges its old weight for its new one. -/
theorem tally_update [DecidableEq ι] (weight : ι → P → ℕ) (threads : ι → P) (i : ι) (p : P) :
    tally weight (Function.update threads i p) + weight i (threads i) =
      tally weight threads + weight i p := by
  have others : ∑ j ∈ Finset.univ.erase i, weight j (Function.update threads i p j) =
      ∑ j ∈ Finset.univ.erase i, weight j (threads j) := by
    apply Finset.sum_congr rfl
    intro j member
    rw [Function.update_of_ne (Finset.ne_of_mem_erase member)]
  have before := Finset.add_sum_erase Finset.univ (fun j => weight j (threads j))
    (Finset.mem_univ i)
  have after := Finset.add_sum_erase Finset.univ
    (fun j => weight j (Function.update threads i p j)) (Finset.mem_univ i)
  simp only [Function.update_self] at after
  unfold tally
  omega

/-- One thread's weight is part of the tally. -/
theorem weight_le_tally (weight : ι → P → ℕ) (threads : ι → P) (i : ι) :
    weight i (threads i) ≤ tally weight threads :=
  Finset.single_le_sum (f := fun j => weight j (threads j)) (fun _ _ => Nat.zero_le _)
    (Finset.mem_univ i)

/-- A tally is zero exactly if every thread weighs nothing. -/
theorem tally_eq_zero_iff (weight : ι → P → ℕ) (threads : ι → P) :
    tally weight threads = 0 ↔ ∀ i, weight i (threads i) = 0 := by
  simp [tally]

/-- The tally of a test is the number of threads that meet it. -/
theorem tally_toNat (test : P → Bool) (threads : ι → P) :
    tally (fun _ p => (test p).toNat) threads =
      (Finset.univ.filter fun i => test (threads i) = true).card := by
  rw [tally, Finset.card_filter]
  refine Finset.sum_congr rfl fun i _ => ?_
  cases test (threads i) <;> rfl

/-- A test counted for every thread is met by every thread. -/
theorem all_of_card_le_tally (test : P → Bool) (threads : ι → P)
    (full : Fintype.card ι ≤ tally (fun _ p => (test p).toNat) threads) (i : ι) :
    test (threads i) = true := by
  rw [tally_toNat] at full
  have all := Finset.eq_univ_of_card _ (le_antisymm (Finset.card_le_univ _) full)
  have member := Finset.mem_univ i
  rw [← all] at member
  exact (Finset.mem_filter.mp member).2

/-- The threads that pass a test are no more than there are. -/
theorem tally_toNat_le_card (test : P → Bool) (threads : ι → P) :
    tally (fun _ p => (test p).toNat) threads ≤ Fintype.card ι := by
  rw [tally_toNat]
  exact Finset.card_le_univ _

end Tally

section Mutex

/-- The threads inside the critical sections are exactly the mutex's owner. -/
def Owned (inside : P → Bool) (owner : Option ι) (threads : ι → P) : Prop :=
  ∀ i, inside (threads i) = true ↔ owner = some i

/-- What one thread's step may do to a mutex: nothing, take it while it is free,
or give it up while inside. -/
inductive LockMove (inside : P → Bool) (i : ι) : Option ι → P → Option ι → P → Prop
  | kept (owner : Option ι) (p p' : P) (same : inside p' = inside p) :
      LockMove inside i owner p owner p'
  | acquired (p p' : P) (entered : inside p' = true) : LockMove inside i none p (some i) p'
  | released (owner : Option ι) (p p' : P) (before : inside p = true) (after : inside p' = false) :
      LockMove inside i owner p none p'

variable {inside : P → Bool} {owner owner' : Option ι} {threads : ι → P} {i : ι} {p' : P}

/-- Correct use of a mutex survives any one thread's move. -/
theorem Owned.move [DecidableEq ι] (owned : Owned inside owner threads)
    (moved : LockMove inside i owner (threads i) owner' p') :
    Owned inside owner' (Function.update threads i p') := by
  intro j
  by_cases same : j = i
  · subst same
    rw [Function.update_self]
    cases moved with
    | kept _ _ _ unchanged => rw [unchanged]; exact owned j
    | acquired _ _ entered => simp [entered]
    | released _ _ _ _ after => simp [after]
  · rw [Function.update_of_ne same]
    cases moved with
    | kept => exact owned j
    | acquired =>
      have outside : ¬ inside (threads j) = true := fun held => by simpa using (owned j).mp held
      simp [outside, Ne.symm same]
    | released _ _ _ before =>
      have mine : owner = some i := (owned i).mp before
      have outside : ¬ inside (threads j) = true := fun held => by
        have theirs := (owned j).mp held
        exact same (Option.some.inj (theirs.symm.trans mine))
      simp [outside]

/-- Two threads inside the critical sections of one mutex are the same thread. -/
theorem Owned.exclusive (owned : Owned inside owner threads) {j : ι}
    (first : inside (threads i) = true) (second : inside (threads j) = true) : i = j := by
  have mine := (owned i).mp first
  have theirs := (owned j).mp second
  exact Option.some.inj (mine.symm.trans theirs)

end Mutex

section Team

variable {n k : ℕ} {team : Fin n → P} {p : P}

/-- A thread may move without those moving that are known to be at a position it is not at. -/
theorem known_update [DecidableEq ι] {known : ι → Prop} {threads : ι → P} {i : ι}
    (still : ∀ j, known j → threads j = p) (elsewhere : threads i ≠ p) (p' : P) :
    ∀ j, known j → Function.update threads i p' j = p := by
  intro j isKnown
  have other : j ≠ i := by
    rintro rfl
    exact elsewhere (still j isKnown)
  rw [Function.update_of_ne other]
  exact still j isKnown

/-- The next thread is started. -/
theorem unborn_succ (unborn : ∀ j : Fin n, k ≤ j.val → team j = p) (inRange : k < n) (p' : P) :
    ∀ j : Fin n, k + 1 ≤ j.val → Function.update team ⟨k, inRange⟩ p' j = p := by
  intro j ahead
  have other : j ≠ ⟨k, inRange⟩ := by
    rintro rfl
    exact Nat.not_succ_le_self k ahead
  rw [Function.update_of_ne other]
  exact unborn j (Nat.le_of_succ_le ahead)

/-- The next thread is joined. -/
theorem joined_succ (joined : ∀ j : Fin n, j.val < k → team j = p) (inRange : k < n)
    (returned : team ⟨k, inRange⟩ = p) : ∀ j : Fin n, j.val < k + 1 → team j = p := by
  intro j behind
  rcases Nat.lt_succ_iff_lt_or_eq.mp behind with earlier | last
  · exact joined j earlier
  · have same : j = ⟨k, inRange⟩ := Fin.ext last
    rw [same, returned]

/-- All threads have been joined. -/
theorem joined_all (joined : ∀ j : Fin n, j.val < k → team j = p) (outOfRange : ¬ k < n)
    (j : Fin n) : team j = p :=
  joined j (j.isLt.trans_le (not_lt.mp outOfRange))

end Team

end Interleaving
