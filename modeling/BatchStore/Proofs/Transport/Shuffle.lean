import BatchStore.Proofs.Transport.Flush

/-!
# One submission on a shuffling transport

A caller that hands in one submission at a time finds the transport `Idle` each time:
nothing waits on either side. Then chance decides between three fates. The first draw tells
whether the submission is lost, and another one whether that is before the store sees it or
on the way back; the place among those that wait is not a choice, as there is but one.

`await_idle` says what each of the fates means for the caller and for the store. The first
round of waiting brings the outcome and leaves the transport idle, so there is never a second
round.
-/

namespace BatchStore.Shuffle

open Store

/-- Nothing waits to be carried or to be fetched, and a store in memory is at the other end. -/
structure Idle (t : Shuffle) (s : Store) : Prop where
  pending : t.pending = []
  done : t.done = []
  hasExecutor : t.hasExecutor = true
  store : t.store = .memory s

/-- The first round of waiting brings the delivery to a label. -/
def AtOnce (t : Shuffle) (now : Float) (label : Nat) (count : Int) : Prop :=
  (t.flush now).1.1 = .ok () ∧
    (Delivery.to? label ((t.flush now).2.dequeue count).1).isSome = true

theorem dispatch_pending {t : Shuffle} (h : t.pending = []) (ticket : Ticket) :
    (t.dispatch ticket).pending = [ticket] := by
  unfold dispatch
  rw [h]
  simp

theorem fates_one (risk : Float) (chance : Chance) (ticket : Ticket) :
    ∃ fate, (fates risk chance [ticket]).1 = [(ticket, fate)] := ⟨_, rfl⟩

/-- A flush of one submission, by the fate that was drawn for it. -/
theorem flush_one {t : Shuffle} {s : Store} (hs : s.Sound) (now : Float) (ticket : Ticket)
    (hPending : t.pending = [ticket]) (hDone : t.done = []) (hExecutor : t.hasExecutor = true)
    (hStore : t.store = .memory s) :
    ∃ fate, (t.flush now).1.1 = .ok () ∧
      (t.flush now).2.pending = [] ∧ (t.flush now).2.hasExecutor = true ∧
      (t.flush now).2.done =
        [ticket.delivery (answer fate (submission now ticket.submission s).1.1)] ∧
      (t.flush now).2.store =
        .memory (leftBy fate s (submission now ticket.submission s).2) := by
  obtain ⟨fate, hFate⟩ := fates_one t.risk t.chance ticket
  have hNext : t.next now = [⟨now, ticket, fate⟩] := by simp [next, drawnAt, hPending, hFate]
  obtain ⟨hFlushed, hEmpty, hThere, hAfter, hDeliveries⟩ := flush_told hs now hExecutor hStore
  rw [hNext] at hAfter hDeliveries
  rw [hDone, List.nil_append] at hDeliveries
  exact ⟨fate, hFlushed, hEmpty, hThere, List.perm_singleton.1 hDeliveries, hAfter⟩

theorem dequeue_one {t : Shuffle} {d : Delivery} (hDone : t.done = [d]) {count : Int}
    (hCount : 1 ≤ count) : t.dequeue count = ([d], { t with done := [] }) := by
  have hPlace : place 1 count = 1 := by
    unfold place
    split
    · omega
    · omega
  have hStart : place 1 0 = 0 := rfl
  unfold dequeue window windowFrom
  rw [hDone, List.length_singleton, hPlace, hStart]
  rfl

/-- The caller of one submission on an idle transport has the outcome after the first round,
and the transport is idle again. -/
theorem await_idle {t : Shuffle} {s : Store} (h : t.Idle s) (hs : s.Sound) (now : Float)
    (label : Nat) (b : Submission) {count : Int} (hCount : 1 ≤ count) :
    ∃ fate reports t', t'.Idle (leftBy fate s (submission now b s).2) ∧
      (t.dispatch ⟨label, b⟩).AtOnce now label count ∧
      ∀ rounds, (t.dispatch ⟨label, b⟩).await now label count (rounds + 1) =
        ((answer fate (submission now b s).1.1, reports), t') := by
  obtain ⟨fate, hFlush, hPending, hExecutor, hDone, hStore⟩ :=
    flush_one (t := t.dispatch ⟨label, b⟩) hs now ⟨label, b⟩
      (dispatch_pending h.pending ⟨label, b⟩) h.done h.hasExecutor h.store
  rcases hFlushed : (t.dispatch ⟨label, b⟩).flush now with ⟨⟨flushed, reports⟩, t'⟩
  rw [hFlushed] at hFlush hPending hExecutor hDone hStore
  cases hFlush
  have hIdle : ({ t' with done := [] } : Shuffle).Idle
      (leftBy fate s (submission now b s).2) :=
    ⟨hPending, rfl, hExecutor, hStore⟩
  have hFound (outcome : Outcome) :
      Delivery.to? label [Ticket.delivery ⟨label, b⟩ outcome] = some outcome := by
    simp [Delivery.to?, Ticket.delivery]
  refine ⟨fate, reports, _, hIdle, ⟨?_, ?_⟩, fun rounds => ?_⟩
  · rw [hFlushed]
  · rw [hFlushed, dequeue_one hDone hCount, hFound]
    rfl
  · rw [await, hFlushed]
    dsimp only
    rw [dequeue_one hDone hCount]
    dsimp only
    rw [hFound]

/-- Carrying one submission over an idle transport. -/
theorem carry_idle {t : Shuffle} {s : Store} (h : t.Idle s) (hs : s.Sound) (now : Float)
    (label : Nat) (b : Submission) {count : Int} (hCount : 1 ≤ count) :
    ∃ fate, (t.carry now label b count).1.1 = answer fate (submission now b s).1.1 ∧
      (t.carry now label b count).2.Idle (leftBy fate s (submission now b s).2) ∧
      (t.dispatch ⟨label, b⟩).AtOnce now label count := by
  obtain ⟨fate, reports, t', hIdle, hOnce, hAwait⟩ := await_idle h hs now label b hCount
  have hCarry : t.carry now label b count =
      ((answer fate (submission now b s).1.1, reports), t') := hAwait _
  refine ⟨fate, ?_, ?_, ?_⟩
  · rw [hCarry]
  · rw [hCarry]
    exact hIdle
  · exact hOnce

end BatchStore.Shuffle
