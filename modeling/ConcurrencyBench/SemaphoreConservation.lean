import ConcurrencyBench.SemaphoreCalls

/-!
# The semaphores between calls

A call that has begun is in progress until it returns, so between calls those begun
and those returned are the same number, for each kind of call. No thread then holds a
token, and no wake loop is half done. The token accounts are left with the semaphores,
the queue's length and the calls made.
-/

namespace ConcurrencyBench.SemaphoreQueue

open Interleaving

universe u v
variable {ι : Type u} {T : Type v}

/-- The event begins a call of this kind. -/
def Event.begins (kind : Kind) : Event T → Bool
  | .called op => op.kind = kind
  | _ => false

/-- The event ends a call of this kind. -/
def Event.ends (kind : Kind) : Event T → Bool
  | .returned result => result.kind = kind
  | _ => false

/-- Calls of one kind that have been made. -/
def calls (kind : Kind) (log : List (ι × Event T)) : ℕ := log.countP fun entry => entry.2.begins kind

/-- Calls of one kind that have returned. -/
def returns (kind : Kind) (log : List (ι × Event T)) : ℕ := log.countP fun entry => entry.2.ends kind

/-- The thread is inside a call of this kind. -/
def inCall (kind : Kind) (pc : Pc T) : ℕ := if pc.atRest = false ∧ pc.kind = some kind then 1 else 0

/-- Who is at rest is in no call. -/
theorem inCall_of_atRest (kind : Kind) {pc : Pc T} (rest : pc.atRest = true) :
    inCall kind pc = 0 := by
  simp [inCall, rest]

/-- Who is at rest counts as waiting. -/
theorem waiting_of_atRest {pc : Pc T} (rest : pc.atRest = true) : pc.waiting = true := by
  cases pc <;> first | rfl | simp [Pc.atRest] at rest

/-- A statement that does not end its call says nothing of the call's kind. -/
theorem observe_begins (kind : Kind) (pc pc' : Pc T) :
    (observe pc pc').countP (Event.begins kind) = 0 := by
  rw [List.countP_eq_zero]
  intro event member
  unfold observe at member
  split at member <;> simp_all [Event.begins]

/-- A statement ends the call exactly if its thread is back from it. -/
theorem exec_ends (kind : Kind) {i : ι} {q q' : Queue ι T} {pc pc' : Pc T}
    (moved : exec i q pc = some (q', pc')) :
    inCall kind pc' + (observe pc pc').countP (Event.ends kind) = inCall kind pc := by
  have same : pc'.kind = pc.kind := (exec_contribution moved).kind
  have busy := not_atRest_of_exec moved
  cases rest : pc'.atRest with
  | true =>
    obtain ⟨result, rfl, logged⟩ := observe_of_atRest moved rest
    have kinds : pc.kind = some result.kind := same.symm
    rw [inCall_of_atRest kind rest, logged]
    simp [inCall, busy, kinds, Event.ends, List.countP_cons]
  | false =>
    have silent : (observe pc pc').countP (Event.ends kind) = 0 := by
      rw [List.countP_eq_zero]
      intro event member
      cases event with
      | returned result => exact absurd member (observe_of_not_atRest rest result)
      | _ => simp [Event.ends]
    rw [silent]
    simp [inCall, rest, busy, same]

/-- A call made is in progress until it returns. -/
theorem move_inCall (kind : Kind) {i : ι} {q q' : Queue ι T} {pc pc' : Pc T}
    {events : List (Event T)} (moved : Move i q pc q' pc' events) :
    inCall kind pc' + events.countP (Event.ends kind) =
      inCall kind pc + events.countP (Event.begins kind) := by
  cases moved with
  | call op rest =>
    rw [inCall_of_atRest kind rest]
    cases op <;> cases kind <;> rfl
  | exec _ _ moved => rw [exec_ends kind moved, observe_begins, Nat.add_zero]

section Run

variable [Fintype ι] [DecidableEq ι] {maxSize : ℕ}

/-- The calls of a kind are those that have returned and those in progress. -/
theorem reachable_calls (kind : Kind) {c : Config ι T} (reached : Reachable maxSize c) :
    calls kind c.log = returns kind c.log + tally (fun _ => inCall kind) c.pcs := by
  have kept : Preserved step fun c : Config ι T =>
      calls kind c.log = returns kind c.log + tally (fun _ => inCall kind) c.pcs := by
    intro c label c' counted taken
    obtain ⟨i, q, pc, events, moved, rfl⟩ := step_move taken
    have inside := tally_update (fun _ => inCall kind) c.pcs i pc
    have change := move_inCall kind moved
    have begun : calls kind (c.log ++ events.map (i, ·)) =
        calls kind c.log + events.countP (Event.begins kind) := by
      simp [calls, List.countP_map, Function.comp_def]
    have ended : returns kind (c.log ++ events.map (i, ·)) =
        returns kind c.log + events.countP (Event.ends kind) := by
      simp [returns, List.countP_map, Function.comp_def]
    dsimp only
    omega
  exact kept.reaches (by simp [Config.init, calls, returns, tally, inCall, Pc.atRest]) reached

omit [Fintype ι] [DecidableEq ι] in
/-- The returns of `close`, under another name. -/
theorem returns_close (log : List (ι × Event T)) : returns .close log = closes log := by
  refine List.countP_congr fun entry _ => ?_
  rcases entry with ⟨_, event⟩
  cases event with
  | returned result => cases result <;> simp [Event.ends, Event.endsClose, Result.kind]
  | _ => simp [Event.ends, Event.endsClose]

omit [Fintype ι] [DecidableEq ι] in
/-- The returns of `shutdown`, under another name. -/
theorem returns_shutdown (log : List (ι × Event T)) : returns .shutdown log = shutdowns log := by
  refine List.countP_congr fun entry _ => ?_
  rcases entry with ⟨_, event⟩
  cases event with
  | returned result => cases result <;> simp [Event.ends, Event.endsShutdown, Result.kind]
  | _ => simp [Event.ends, Event.endsShutdown]

/-- Between calls every call made has returned. -/
theorem calls_of_atRest (kind : Kind) {c : Config ι T} (reached : Reachable maxSize c)
    (rest : ∀ i, (c.pcs i).atRest = true) : calls kind c.log = returns kind c.log := by
  have nobody : tally (fun _ => inCall kind) c.pcs = 0 := by
    rw [tally_eq_zero_iff]
    exact fun i => inCall_of_atRest kind (rest i)
  have counted := reachable_calls kind reached
  omega

/-- The queue conserves its tokens exactly. Between calls, in whatever way they
returned, `empty_slots_` holds the free slots and `max_size_ + 1` tokens for each
`shutdown`; `filled_slots_` holds a token for each queued item and `max_size_ + 1` for
each `close` and each `shutdown`. -/
theorem tokens_conserved (maxSize : ℕ) (c : Config ι T) (reached : Reachable maxSize c)
    (rest : ∀ i, (c.pcs i).atRest = true) :
    c.q.queue.length ≤ maxSize ∧
    c.q.emptySlots = maxSize - c.q.queue.length + (maxSize + 1) * calls .shutdown c.log ∧
    c.q.filledSlots =
      c.q.queue.length + (maxSize + 1) * (calls .close c.log + calls .shutdown c.log) := by
  have within : c.q.queue.length ≤ maxSize := by
    have committed := reachable_committed reached
    simp only [Config.committed] at committed
    omega
  obtain ⟨slots, tokens⟩ := settled_counts (reachable_balanced reached)
    fun i => waiting_of_atRest (rest i)
  rw [calls_of_atRest .shutdown reached rest, calls_of_atRest .close reached rest,
    returns_shutdown, returns_close]
  exact ⟨within, by omega, tokens⟩

/-- A queue of capacity two after an accepted push, a rejected one and a `shutdown`. -/
theorem tokens_conserved_two : ∃ c : Config (Fin 2) ℕ, Reachable 2 c ∧ c.q.queue = [7] ∧
    c.q.emptySlots = 2 - 1 + 3 * 1 ∧ c.q.filledSlots = 1 + 3 * (0 + 1) := by
  let schedule : List (Label (Fin 2) ℕ) :=
    [[.call 0 (.push 7)], List.replicate 11 (.go 0), [.call 1 .shutdown],
      List.replicate 10 (.go 1), [.call 0 (.push 8), .go 0]].flatten
  have played : (run step (Config.init 2) schedule).map (fun c => (c.q.queue, c.pcs 0, c.pcs 1,
      calls .close c.log, calls .shutdown c.log)) =
        some ([7], .returned (.pushed 8 false), .returned .shutDown, 0, 1) := rfl
  obtain ⟨c, reached, final⟩ := Option.map_eq_some_iff.mp played
  simp only [Prod.mk.injEq] at final
  obtain ⟨queue, first, second, closed, shut⟩ := final
  have rest : ∀ i, (c.pcs i).atRest = true
    | 0 => by rw [first]; rfl
    | 1 => by rw [second]; rfl
  obtain ⟨_, slots, tokens⟩ := tokens_conserved 2 c ⟨schedule, reached⟩ rest
  rw [queue, shut] at slots
  rw [queue, closed, shut] at tokens
  exact ⟨c, ⟨schedule, reached⟩, queue, slots, tokens⟩

end Run

end ConcurrencyBench.SemaphoreQueue
