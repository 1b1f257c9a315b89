import ConcurrencyBench.PhaseStarts
import Mathlib.Algebra.GroupWithZero.Nat
import Mathlib.Data.Fintype.EquivFin
import Mathlib.Data.Fintype.Lattice

/-!
# Threads read only phase starts that have been published

Where a thread stands says how often it has arrived at the barrier and how often it
has left it, and, for thread 0, which slots have been written. In phase `p` a thread
has left the barrier `2 * p` times before it reads its slot, so thread 0 has arrived as
often, and it has written the slot before that. It writes the slot having arrived
`2 * p - 1` times, so no other thread has left for the phase yet.

A slot is written once. Its value and every reading of the clock after it can only be
followed by later readings, so no offset is negative.
-/

namespace ConcurrencyBench.PhaseStarts

open Interleaving

variable {N : ℕ} {P : ℕ}

/-- How often a thread at a position has arrived at the barrier. -/
def Pc.arrived (P : ℕ) : Pc → ℕ
  | .loop phase => if phase < P then 2 * phase else 2 * P - 1
  | .startWork phase | .work phase _ | .readArrival phase | .record phase _ | .arrive phase => 2 * phase
  | .wait phase | .publishTest phase | .readStart phase | .publish phase _ | .againTest phase
  | .arriveAgain phase => 2 * phase + 1
  | .waitAgain phase => 2 * phase + 2
  | .returned => 2 * P - 1

/-- How often it has left the barrier. -/
def Pc.left (P : ℕ) : Pc → ℕ
  | .wait phase => 2 * phase
  | .waitAgain phase => 2 * phase + 1
  | pc => pc.arrived P

/-- The slots below this have been written, if the position is thread 0's. -/
def Pc.published (P : ℕ) : Pc → ℕ
  | .loop phase => min (phase + 1) P
  | .startWork phase | .work phase _ | .readArrival phase | .record phase _ | .arrive phase
  | .wait phase | .publishTest phase | .readStart phase | .publish phase _ => phase + 1
  | .againTest phase | .arriveAgain phase | .waitAgain phase => min (phase + 2) P
  | .returned => P

/-- How many offsets the thread has recorded. -/
def Pc.recorded (P : ℕ) : Pc → ℕ
  | .loop phase | .startWork phase | .work phase _ | .readArrival phase | .record phase _ => phase
  | .arrive phase | .wait phase | .publishTest phase | .readStart phase | .publish phase _
  | .againTest phase | .arriveAgain phase | .waitAgain phase => phase + 1
  | .returned => P

/-- A phase is one of the phases, and only thread 0 publishes. -/
def Pc.Valid (P : ℕ) (i : Fin N) : Pc → Prop
  | .loop phase => phase ≤ P
  | .readStart phase | .publish phase _ => i.val = 0 ∧ phase + 1 < P
  | .arriveAgain phase | .waitAgain phase => phase + 1 < P
  | .startWork phase | .work phase _ | .readArrival phase | .record phase _ | .arrive phase
  | .wait phase | .publishTest phase | .againTest phase => phase < P
  | .returned => True

/-- What a position has read of the clock. -/
def Pc.Timed (now : ℤ) (phaseStarts : ℕ → ℤ) : Pc → Prop
  | .record phase arrivalTime => phaseStarts phase ≤ arrivalTime ∧ arrivalTime ≤ now
  | .publish _ time => time ≤ now
  | _ => True

/-- The slot a thread reads before it next arrives at the barrier. -/
def Pc.willRead (P : ℕ) : Pc → Option ℕ
  | .loop phase => if phase < P then some phase else none
  | .startWork phase | .work phase _ | .readArrival phase | .record phase _ => some phase
  | _ => none

/-- The slot thread 0 writes before it next arrives at the barrier. -/
def Pc.willWrite : Pc → Option ℕ
  | .publishTest phase | .readStart phase | .publish phase _ => some (phase + 1)
  | _ => none

/-- What one statement does to its thread's counts, the slots and the offsets. -/
structure Effect (P : ℕ) (i : Fin N) (s : Shared N) (pc : Pc) (s' : Shared N) (pc' : Pc) : Prop where
  valid : pc'.Valid P i
  timed : pc'.Timed s'.now s'.phaseStarts
  arrived : s'.syncPoint = Function.update s.syncPoint i (pc'.arrived P)
  more : s.syncPoint i ≤ pc'.arrived P
  left : pc'.left P ≤ pc.left P ∨ MayLeave s.syncPoint i ∧ pc'.left P ≤ s.syncPoint i
  now : s'.now = s.now
  published : i.val = 0 → pc'.published P = pc.published P + if pc.writes.isSome then 1 else 0
  writes : ∀ slot, pc.writes = some slot → i.val = 0 ∧ slot = pc.published P
  starts : ∀ slot, (pc.writes ≠ some slot ∧ s'.phaseStarts slot = s.phaseStarts slot) ∨
    pc.writes = some slot ∧ s'.phaseStarts slot ≤ s.now
  phases : List.range (pc.recorded P) ++ (observe s pc).map Prod.fst = List.range (pc'.recorded P)
  offsets : (observe s pc = [] ∧ s'.lastArrival = s.lastArrival) ∨
    ∃ phase offset, observe s pc = [(phase, offset)] ∧ 0 ≤ offset ∧
      s'.lastArrival = Function.update s.lastArrival i offset

section OneMove

variable {workDuration : ℤ} {i : Fin N} {s s' : Shared N} {pc pc' : Pc}

/-- A statement that leaves what the threads share as it is. -/
theorem passing_effect (here : s.syncPoint i = pc.arrived P) (valid : pc'.Valid P i)
    (timed : pc'.Timed s.now s.phaseStarts) (arrived : pc'.arrived P = pc.arrived P)
    (left : pc'.left P ≤ pc.left P ∨ MayLeave s.syncPoint i ∧ pc'.left P ≤ s.syncPoint i)
    (published : i.val = 0 → pc'.published P = pc.published P)
    (recorded : pc'.recorded P = pc.recorded P) (silent : observe s pc = [])
    (reading : pc.writes = none) : Effect P i s pc s pc' where
  valid := valid
  timed := timed
  arrived := by rw [arrived, ← here, Function.update_eq_self]
  more := (here.trans arrived.symm).le
  left := left
  now := rfl
  published first := by
    rw [published first, reading]
    rfl
  writes slot writing := by
    rw [reading] at writing
    cases writing
  starts slot := by
    rw [reading]
    exact .inl ⟨nofun, rfl⟩
  phases := by
    rw [silent, recorded]
    exact List.append_nil _
  offsets := .inl ⟨silent, rfl⟩

/-- An arrival at the barrier. -/
theorem arriving_effect (here : s.syncPoint i = pc.arrived P) (valid : pc'.Valid P i)
    (timed : pc'.Timed s.now s.phaseStarts) (arrived : pc'.arrived P = pc.arrived P + 1)
    (left : pc'.left P = pc.left P) (published : pc'.published P = pc.published P)
    (recorded : pc'.recorded P = pc.recorded P) (silent : observe s pc = [])
    (reading : pc.writes = none) : Effect P i s pc (s.arrive i) pc' where
  valid := valid
  timed := timed
  arrived := by rw [arrived, ← here, Shared.arrive]
  more := by
    rw [arrived, here]
    exact Nat.le_succ _
  left := .inl left.le
  now := rfl
  published _ := by
    rw [published, reading]
    rfl
  writes slot writing := by
    rw [reading] at writing
    cases writing
  starts slot := by
    rw [reading]
    exact .inl ⟨nofun, rfl⟩
  phases := by
    rw [silent, recorded]
    exact List.append_nil _
  offsets := .inl ⟨silent, rfl⟩

/-- Recording an offset. -/
theorem record_effect {phase : ℕ} {arrivalTime : ℤ} (valid : phase < P)
    (here : s.syncPoint i = 2 * phase) (timed : s.phaseStarts phase ≤ arrivalTime) :
    Effect P i s (.record phase arrivalTime)
      { s with lastArrival := Function.update s.lastArrival i (arrivalTime - s.phaseStarts phase) }
      (.arrive phase) where
  valid := valid
  timed := trivial
  arrived := by rw [Pc.arrived, ← here, Function.update_eq_self]
  more := here.le
  left := .inl le_rfl
  now := rfl
  published _ := rfl
  writes := nofun
  starts _ := .inl ⟨nofun, rfl⟩
  phases := List.range_succ.symm
  offsets := .inr ⟨phase, _, rfl, Int.sub_nonneg_of_le timed, rfl⟩

/-- Publishing the start of the next phase. -/
theorem publish_effect {phase : ℕ} {time : ℤ} (first : i.val = 0) (inside : phase + 1 < P)
    (here : s.syncPoint i = 2 * phase + 1) (timed : time ≤ s.now) :
    Effect P i s (.publish phase time)
      { s with phaseStarts := Function.update s.phaseStarts (phase + 1) time }
      (.againTest phase) where
  valid := Nat.lt_of_succ_lt inside
  timed := trivial
  arrived := by rw [Pc.arrived, ← here, Function.update_eq_self]
  more := here.le
  left := .inl le_rfl
  now := rfl
  published _ := Nat.min_eq_left inside
  writes _ writing := ⟨first, (Option.some.inj writing).symm⟩
  starts slot := by
    by_cases same : slot = phase + 1
    · subst same
      exact .inr ⟨rfl, (Function.update_self (phase + 1) time s.phaseStarts).trans_le timed⟩
    · exact .inl ⟨fun writing => same (Option.some.inj writing).symm, Function.update_of_ne same _ _⟩
  phases := List.append_nil _
  offsets := .inl ⟨rfl, rfl⟩

/-- Every statement has its effect. -/
theorem exec_effect (valid : pc.Valid P i) (here : s.syncPoint i = pc.arrived P)
    (timed : pc.Timed s.now s.phaseStarts)
    (started : ∀ phase, pc = .readArrival phase → s.phaseStarts phase ≤ s.now)
    (moved : exec P workDuration i s pc = some (s', pc')) : Effect P i s pc s' pc' := by
  cases pc with
  | loop phase =>
    have bound : phase ≤ P := valid
    rw [exec] at moved
    split at moved <;> obtain ⟨rfl, rfl⟩ := Prod.mk.inj (Option.some.inj moved)
    · next inside =>
      exact passing_effect here inside trivial (if_pos inside).symm (.inl (if_pos inside).ge)
        (fun _ => (Nat.min_eq_left inside).symm) rfl rfl rfl
    · next outside =>
      have last : P = phase := le_antisymm (Nat.le_of_not_lt outside) bound
      exact passing_effect here trivial trivial (if_neg outside).symm (.inl (if_neg outside).ge)
        (fun _ => (Nat.min_eq_right (last.le.trans (Nat.le_succ _))).symm) last rfl rfl
  | startWork phase =>
    obtain ⟨rfl, rfl⟩ := Prod.mk.inj (Option.some.inj moved)
    exact passing_effect here valid trivial rfl (.inl le_rfl) (fun _ => rfl) rfl rfl rfl
  | work phase start =>
    rw [exec] at moved
    split at moved <;> obtain ⟨rfl, rfl⟩ := Prod.mk.inj (Option.some.inj moved) <;>
      exact passing_effect here valid trivial rfl (.inl le_rfl) (fun _ => rfl) rfl rfl rfl
  | readArrival phase =>
    obtain ⟨rfl, rfl⟩ := Prod.mk.inj (Option.some.inj moved)
    exact passing_effect here valid ⟨started phase rfl, le_rfl⟩ rfl (.inl le_rfl) (fun _ => rfl)
      rfl rfl rfl
  | record phase arrivalTime =>
    obtain ⟨rfl, rfl⟩ := Prod.mk.inj (Option.some.inj moved)
    exact record_effect valid here timed.1
  | arrive phase =>
    obtain ⟨rfl, rfl⟩ := Prod.mk.inj (Option.some.inj moved)
    exact arriving_effect here valid trivial rfl rfl rfl rfl rfl rfl
  | wait phase =>
    obtain ⟨may, moved⟩ := Option.ite_none_right_eq_some.mp moved
    obtain ⟨rfl, rfl⟩ := Prod.mk.inj (Option.some.inj moved)
    exact passing_effect here valid trivial rfl (.inr ⟨may, here.ge⟩) (fun _ => rfl) rfl rfl rfl
  | publishTest phase =>
    have bound : phase < P := valid
    rw [exec] at moved
    split at moved <;> obtain ⟨rfl, rfl⟩ := Prod.mk.inj (Option.some.inj moved)
    · next publishes =>
      exact passing_effect here publishes trivial rfl (.inl le_rfl) (fun _ => rfl) rfl rfl rfl
    · next none =>
      refine passing_effect here valid trivial rfl (.inl le_rfl) (fun first => ?_) rfl rfl rfl
      -- thread 0 skips the write in the last phase only
      have last : ¬ phase + 1 < P := fun inside => none ⟨first, inside⟩
      simp only [Pc.published]
      omega
  | readStart phase =>
    obtain ⟨rfl, rfl⟩ := Prod.mk.inj (Option.some.inj moved)
    exact passing_effect here valid (le_refl s.now) rfl (.inl le_rfl) (fun _ => rfl) rfl rfl rfl
  | publish phase time =>
    obtain ⟨rfl, rfl⟩ := Prod.mk.inj (Option.some.inj moved)
    exact publish_effect valid.1 valid.2 here timed
  | againTest phase =>
    have bound : phase < P := valid
    rw [exec] at moved
    split at moved <;> obtain ⟨rfl, rfl⟩ := Prod.mk.inj (Option.some.inj moved)
    · next inside =>
      exact passing_effect here inside trivial rfl (.inl le_rfl) (fun _ => rfl) rfl rfl rfl
    · next last =>
      have ended : Pc.arrived P (.loop (phase + 1)) = 2 * phase + 1 := by
        rw [Pc.arrived, if_neg last]
        omega
      exact passing_effect here bound trivial ended (.inl ended.le) (fun _ => rfl) rfl rfl rfl
  | arriveAgain phase =>
    obtain ⟨rfl, rfl⟩ := Prod.mk.inj (Option.some.inj moved)
    exact arriving_effect here valid trivial rfl rfl rfl rfl rfl rfl
  | waitAgain phase =>
    obtain ⟨may, moved⟩ := Option.ite_none_right_eq_some.mp moved
    obtain ⟨rfl, rfl⟩ := Prod.mk.inj (Option.some.inj moved)
    have next : Pc.arrived P (.loop (phase + 1)) = 2 * phase + 2 := if_pos valid
    exact passing_effect here (Nat.le_of_lt valid) trivial next
      (.inr ⟨may, (next.trans here.symm).le⟩) (fun _ => rfl) rfl rfl rfl
  | returned => cases moved

end OneMove

/-- A thread that has arrived at the barrier twice a phase has the phase's slot behind it. -/
theorem published_of_arrived {i : Fin N} {pc : Pc} (valid : pc.Valid P i) {phase : ℕ}
    (inside : phase < P) (arrived : 2 * phase ≤ pc.arrived P) : phase < pc.published P := by
  cases pc with
  | loop here =>
    simp only [Pc.Valid, Pc.arrived, Pc.published] at valid arrived ⊢
    split at arrived <;> omega
  | returned => exact inside
  | _ =>
    simp only [Pc.Valid, Pc.arrived, Pc.published] at valid arrived ⊢
    omega

/-- A thread that is about to read a slot has left the barrier twice for each phase before. -/
theorem left_of_willRead {i : Fin N} {pc : Pc} {slot : ℕ} (valid : pc.Valid P i)
    (reading : pc.willRead P = some slot) : pc.left P = 2 * slot := by
  cases pc with
  | loop phase =>
    obtain ⟨inside, same⟩ := Option.ite_none_right_eq_some.mp reading
    obtain rfl := Option.some.inj same
    exact if_pos inside
  | startWork | work | readArrival | record =>
    obtain rfl := Option.some.inj reading
    rfl
  | _ => cases reading

/-- A thread that is about to write a slot has arrived once less often. -/
theorem arrived_of_willWrite {pc : Pc} {slot : ℕ} (writing : pc.willWrite = some slot) :
    pc.arrived P + 1 = 2 * slot := by
  cases pc with
  | publishTest | readStart | publish =>
    obtain rfl := Option.some.inj writing
    rfl
  | _ => cases writing

section Run

variable [NeZero N]

/-- Everything an iteration keeps. -/
structure Sound (P : ℕ) (c : Config N) : Prop where
  valid : ∀ i, (c.pcs i).Valid P i
  arrived : ∀ i, c.shared.syncPoint i = (c.pcs i).arrived P
  level : Level (fun i => (c.pcs i).left P) c.shared.syncPoint
  timed : ∀ i, (c.pcs i).Timed c.shared.now c.shared.phaseStarts
  writes : ∀ slot, c.writes slot = if slot < (c.pcs 0).published P then 1 else 0
  started : ∀ slot < (c.pcs 0).published P, c.shared.phaseStarts slot ≤ c.shared.now
  phases : ∀ i, (pick some i c.log).map Prod.fst = List.range ((c.pcs i).recorded P)
  offsets : ∀ i, ∀ entry ∈ pick some i c.log, 0 ≤ entry.2
  last : ∀ i, ∀ entry ∈ (pick some i c.log).getLast?, c.shared.lastArrival i = entry.2

/-- At the start no phase has begun but the first. -/
theorem sound_init (positive : 0 < P) (start : ℤ) : Sound P (Config.init start : Config N) where
  valid _ := Nat.zero_le P
  arrived _ := by simp [Config.init, Pc.arrived, positive]
  level _ _ := by simp [Config.init, Pc.left, Pc.arrived, positive]
  timed _ := trivial
  writes slot := by
    by_cases first : slot = 0
    · simp [Config.init, Pc.published, first, positive]
    · simp [Config.init, Pc.published, first]
  started slot before := by
    obtain rfl : slot = 0 := by
      simp [Config.init, Pc.published] at before
      omega
    simp [Config.init]
  phases _ := by simp [Config.init, pick, Pc.recorded]
  offsets _ _ member := by simp [Config.init, pick] at member
  last _ _ member := by simp [Config.init, pick] at member

variable {c : Config N}

/-- Before it records an offset, a thread has its phase's slot published. -/
theorem Sound.behind (sound : Sound P c) {i : Fin N} {phase : ℕ} (inside : phase < P)
    (left : (c.pcs i).left P = 2 * phase) : phase < (c.pcs 0).published P := by
  have level := sound.level i 0
  rw [sound.arrived 0] at level
  exact published_of_arrived (sound.valid 0) inside (by simpa [left] using level)

variable {workDuration : ℤ} {i : Fin N} {shared : Shared N} {pc : Pc}

/-- In a sound state every statement has its effect. -/
theorem Sound.effect (sound : Sound P c)
    (moved : exec P workDuration i c.shared (c.pcs i) = some (shared, pc)) :
    Effect P i c.shared (c.pcs i) shared pc := by
  refine exec_effect (sound.valid i) (sound.arrived i) (sound.timed i) (fun phase here => ?_) moved
  have valid := sound.valid i
  rw [here] at valid
  exact sound.started phase (sound.behind valid (by rw [here]; rfl))

/-- The first thread is the one with the number zero. -/
theorem eq_zero_of_val (first : i.val = 0) : i = 0 := Fin.ext (by simp [first])

/-- Only thread 0's write changes what is published. -/
theorem published_step (effect : Effect P i c.shared (c.pcs i) shared pc) :
    (Function.update c.pcs i pc 0).published P =
      (c.pcs 0).published P + if (c.pcs i).writes.isSome then 1 else 0 := by
  by_cases first : i = 0
  · subst first
    rw [Function.update_self]
    exact effect.published (by simp)
  · have silent : (c.pcs i).writes = none := by
      by_contra writing
      obtain ⟨slot, some⟩ := Option.ne_none_iff_exists'.mp writing
      exact first (eq_zero_of_val (effect.writes slot some).1)
    rw [Function.update_of_ne (Ne.symm first), silent]
    rfl

/-- A slot is written when it is the next to be published. -/
theorem Effect.writes_published (effect : Effect P i c.shared (c.pcs i) shared pc) {slot : ℕ}
    (writing : (c.pcs i).writes = some slot) : slot = (c.pcs 0).published P := by
  obtain ⟨first, same⟩ := effect.writes slot writing
  rwa [eq_zero_of_val first] at same

/-- Every statement of a thread keeps the phases sound. -/
theorem sound_go (sound : Sound P c)
    (moved : exec P workDuration i c.shared (c.pcs i) = some (shared, pc)) :
    Sound P ⟨shared, Function.update c.pcs i pc, count c.writes (c.pcs i),
      c.log ++ (observe c.shared (c.pcs i)).map (i, ·)⟩ := by
  have effect := sound.effect moved
  have published := published_step effect
  constructor
  case valid =>
    dsimp only
    rw [Function.forall_update_iff c.pcs fun j p => p.Valid P j]
    exact ⟨effect.valid, fun j _ => sound.valid j⟩
  case arrived =>
    dsimp only
    rw [Function.forall_update_iff c.pcs fun j p => shared.syncPoint j = p.arrived P]
    refine ⟨by simp [effect.arrived], fun j other => ?_⟩
    rw [effect.arrived, Function.update_of_ne other]
    exact sound.arrived j
  case level =>
    have level : Level (Function.update (fun j => (c.pcs j).left P) i (pc.left P))
        (Function.update c.shared.syncPoint i (pc.arrived P)) :=
      (sound.level.leave effect.left).arrive effect.more
    dsimp only
    rw [effect.arrived]
    convert level using 1
    exact Function.comp_update (Pc.left P) c.pcs i pc
  case timed =>
    dsimp only
    rw [Function.forall_update_iff c.pcs fun _ p => p.Timed shared.now shared.phaseStarts]
    refine ⟨effect.timed, fun j _ => ?_⟩
    have timed := sound.timed j
    cases standing : c.pcs j with
    | record phase arrivalTime =>
      have inside : phase < P := by simpa [standing, Pc.Valid] using sound.valid j
      have behind := sound.behind inside (by rw [standing]; rfl)
      rw [standing] at timed
      rcases effect.starts phase with ⟨_, same⟩ | ⟨writing, _⟩
      · exact ⟨same.le.trans timed.1, timed.2.trans effect.now.ge⟩
      · have next := effect.writes_published writing
        omega
    | publish phase time =>
      rw [standing] at timed
      exact timed.trans effect.now.ge
    | _ => trivial
  case writes =>
    intro slot
    dsimp only
    rw [published, count, sound.writes slot]
    cases writing : (c.pcs i).writes with
    | none => simp
    | some other =>
      have next := effect.writes_published writing
      simp only [Option.some.injEq, Option.isSome_some, if_true]
      split_ifs <;> omega
  case started =>
    intro slot before
    dsimp only at before ⊢
    rw [published] at before
    rw [effect.now]
    rcases effect.starts slot with ⟨kept, same⟩ | ⟨_, past⟩
    · rw [same]
      refine sound.started slot ?_
      cases writing : (c.pcs i).writes with
      | none => simpa [writing] using before
      | some other =>
        have next := effect.writes_published writing
        simp only [writing, Option.some.injEq, Option.isSome_some, if_true, ne_eq] at kept before
        omega
    · exact past
  case phases =>
    dsimp only
    rw [Function.forall_update_iff c.pcs fun j p => (pick some j _).map Prod.fst =
      List.range (p.recorded P)]
    refine ⟨?_, fun j other => ?_⟩
    · rw [pick_self, List.filterMap_some, List.map_append, sound.phases i, effect.phases]
    · rw [pick_other some other, sound.phases j]
  case offsets =>
    intro j entry member
    by_cases mine : j = i
    · subst mine
      rw [pick_self, List.filterMap_some] at member
      rcases List.mem_append.mp member with before | now
      · exact sound.offsets j entry before
      · rcases effect.offsets with ⟨nothing, _⟩ | ⟨phase, offset, recorded, positive, _⟩
        · simp [nothing] at now
        · obtain rfl : entry = (phase, offset) := by simpa [recorded] using now
          exact positive
    · rw [pick_other some mine] at member
      exact sound.offsets j entry member
  case last =>
    intro j entry member
    by_cases mine : j = i
    · subst mine
      rw [pick_self, List.filterMap_some] at member
      rcases effect.offsets with ⟨nothing, same⟩ | ⟨phase, offset, recorded, _, same⟩
      · dsimp only
        rw [same]
        exact sound.last j entry (by simpa [nothing] using member)
      · obtain rfl : (phase, offset) = entry := by simpa [recorded] using member
        simp [same]
    · rw [pick_other some mine] at member
      have before := sound.last j entry member
      rcases effect.offsets with ⟨_, same⟩ | ⟨_, _, _, _, same⟩
      · simpa [same] using before
      · simpa [same, Function.update_of_ne mine] using before

/-- Every step keeps the phases sound. -/
theorem sound_preserved : Preserved (step P workDuration) (Sound P : Config N → Prop) := by
  intro c label c' sound taken
  cases label with
  | go i =>
    obtain ⟨⟨shared, pc⟩, moved, rfl⟩ := Option.map_eq_some_iff.mp taken
    exact sound_go sound moved
  | tick d =>
    obtain rfl := Option.some.inj taken
    have later : c.shared.now ≤ c.shared.now + d := by omega
    refine ⟨sound.valid, sound.arrived, sound.level, fun i => ?_, sound.writes,
      fun slot before => (sound.started slot before).trans later, sound.phases, sound.offsets,
      sound.last⟩
    have timed := sound.timed i
    cases standing : c.pcs i with
    | record phase arrivalTime =>
      rw [standing] at timed
      exact ⟨timed.1, timed.2.trans later⟩
    | publish phase time =>
      rw [standing] at timed
      exact timed.trans later
    | _ => trivial

/-- The phases are sound in every reachable state. -/
theorem reachable_sound {start : ℤ} (positive : 0 < P) (reached : Reachable P workDuration start c) :
    Sound P c :=
  sound_preserved.reaches (sound_init positive start) reached

/-- A slot that has been written keeps its value. -/
theorem written_stays {slot : ℕ} {start : ℤ} (sound : Sound P c) (written : c.writes slot = 1)
    (value : c.shared.phaseStarts slot = start) {later : Config N}
    (continued : Reaches (step P workDuration) c later) :
    later.writes slot = 1 ∧ later.shared.phaseStarts slot = start := by
  have kept : Preserved (step P workDuration) fun d : Config N =>
      Sound P d ∧ d.writes slot = 1 ∧ d.shared.phaseStarts slot = start := by
    refine sound_preserved.and fun d label d' sound holds taken => ?_
    have sound' := sound_preserved d label d' sound taken
    cases label with
    | go i =>
      obtain ⟨⟨shared, pc⟩, moved, rfl⟩ := Option.map_eq_some_iff.mp taken
      have effect := sound.effect moved
      have once : count d.writes (d.pcs i) slot ≤ 1 := by
        have counted := sound'.writes slot
        dsimp only at counted
        rw [counted]
        split_ifs <;> omega
      rcases effect.starts slot with ⟨kept, same⟩ | ⟨writing, _⟩
      · exact ⟨by simpa [count, kept] using holds.1, same.trans holds.2⟩
      · simp [count, writing, holds.1] at once
    | tick d =>
      obtain rfl := Option.some.inj taken
      exact holds
  exact (kept.reaches ⟨sound, written, value⟩ continued).2

omit [NeZero N] in
/-- A thread that cannot go on has returned, or waits at the barrier for another. -/
theorem exec_none_cases {s : Shared N} {pc : Pc} (blocked : exec P workDuration i s pc = none) :
    pc = .returned ∨ ((∃ phase, pc = .wait phase ∨ pc = .waitAgain phase) ∧
      ¬ MayLeave s.syncPoint i) := by
  cases pc <;> simp_all [exec]

/-- While some thread has not returned, some thread can go on: of those that have arrived
least often, one that waits may leave, and if they have returned, all have arrived as often
as one can. -/
theorem exists_go (sound : Sound P c) (unfinished : ∃ i, c.pcs i ≠ .returned) :
    ∃ i, step P workDuration c (.go i) ≠ none := by
  by_contra none
  have blocked : ∀ i, exec P workDuration i c.shared (c.pcs i) = Option.none := fun i => by
    by_contra goes
    exact none ⟨i, by simpa [step] using goes⟩
  obtain ⟨least, fewest⟩ := Finite.exists_min c.shared.syncPoint
  rcases exec_none_cases (blocked least) with returned | ⟨_, waiting⟩
  · obtain ⟨i, running⟩ := unfinished
    rcases exec_none_cases (blocked i) with finished | ⟨⟨phase, place⟩, waiting⟩
    · exact running finished
    · refine waiting fun j => le_trans ?_ (fewest j)
      have valid := sound.valid i
      rw [sound.arrived i, sound.arrived least, returned]
      rcases place with place | place <;> rw [place] at valid ⊢ <;>
        simp only [Pc.Valid, Pc.arrived] at valid ⊢ <;> omega
  · exact waiting fewest

/-- Every thread of `StdBarrier_WithWork` reads only phase starts that have been published,
for any number of threads and phases, any work and every interleaving. A slot that is
read has been written once and is never written again; no thread is in the interval
between two crossings of the barrier in which it writes a slot while another is in the one
in which it reads that slot; no offset recorded is negative; a thread that has returned has
arrived `2 * P - 1` times, has recorded one offset for each phase, and the last is its
`last_arrival`; and while some thread has not returned, some thread can go on. -/
theorem reads_published_starts (workDuration start : ℤ) (positive : 0 < P) (c : Config N)
    (reached : Reachable P workDuration start c) :
    (∀ i slot, (c.pcs i).reads = some slot → c.writes slot = 1 ∧
      ∀ later, Reaches (step P workDuration) c later →
        later.writes slot = 1 ∧ later.shared.phaseStarts slot = c.shared.phaseStarts slot) ∧
    (∀ i j slot, (c.pcs i).willWrite = some slot → (c.pcs j).willRead P ≠ some slot) ∧
    (∀ i, ∀ entry ∈ pick some i c.log, 0 ≤ entry.2) ∧
    (∀ i, c.pcs i = .returned → c.shared.syncPoint i = 2 * P - 1 ∧
      (pick some i c.log).map Prod.fst = List.range P ∧
      (pick some i c.log).getLast? = some (P - 1, c.shared.lastArrival i)) ∧
    ((∃ i, c.pcs i ≠ .returned) → ∃ i, step P workDuration c (.go i) ≠ none) := by
  have sound := reachable_sound positive reached
  refine ⟨fun i slot reading => ?_, fun i j slot writing reading => ?_, sound.offsets,
    fun i returned => ?_, exists_go sound⟩
  · cases standing : c.pcs i with
    | record phase arrivalTime =>
      obtain rfl : phase = slot := by simpa [standing, Pc.reads] using reading
      have inside : phase < P := by simpa [standing, Pc.Valid] using sound.valid i
      have behind := sound.behind inside (by rw [standing]; rfl)
      have written : c.writes phase = 1 := by rw [sound.writes phase, if_pos behind]
      exact ⟨written, fun later continued => written_stays sound written rfl continued⟩
    | _ => simp [standing, Pc.reads] at reading
  · have left := left_of_willRead (sound.valid j) reading
    have arrived := arrived_of_willWrite (P := P) writing
    have level := sound.level j i
    rw [sound.arrived i] at level
    dsimp only at level
    omega
  · have phases := sound.phases i
    rw [returned, show Pc.returned.recorded P = P from rfl] at phases
    refine ⟨by rw [sound.arrived i, returned]; rfl, phases, ?_⟩
    have final := congrArg List.getLast? phases
    rw [List.getLast?_map, List.getLast?_range, if_neg positive.ne'] at final
    obtain ⟨entry, isLast, phase⟩ := Option.map_eq_some_iff.mp final
    rw [isLast, ← phase, sound.last i entry isLast]

/-- Two threads and two phases: thread 0 publishes the second phase's start at clock value
5, and thread 1 arrives in that phase at clock value 7. -/
theorem reads_published_starts_two : ∃ c : Config 2, Reachable 2 0 0 c ∧
    c.pcs 1 = .returned ∧ c.shared.syncPoint 1 = 3 ∧
    (pick some 1 c.log).getLast? = some (1, 2) ∧ c.shared.lastArrival 1 = 2 := by
  let schedule : List (Label 2) :=
    [List.replicate 6 (.go 0), List.replicate 7 (.go 1), [.tick 5], List.replicate 6 (.go 0),
      List.replicate 3 (.go 1), [.tick 2], List.replicate 7 (.go 1), List.replicate 7 (.go 0),
      List.replicate 4 (.go 1)].flatten
  have played : (run (step 2 0) (Config.init 0) schedule).map
      (fun c => (c.pcs 1, c.shared.lastArrival 1)) = some (.returned, 2) := by
    decide +kernel
  obtain ⟨c, reached, final⟩ := Option.map_eq_some_iff.mp played
  obtain ⟨returned, offset⟩ := Prod.mk.inj final
  obtain ⟨_, _, _, ends, _⟩ := reads_published_starts 0 0 Nat.two_pos c ⟨schedule, reached⟩
  obtain ⟨arrivals, _, last⟩ := ends 1 returned
  rw [offset] at last
  exact ⟨c, ⟨schedule, reached⟩, returned, arrivals, last, offset⟩

end Run

end ConcurrencyBench.PhaseStarts
