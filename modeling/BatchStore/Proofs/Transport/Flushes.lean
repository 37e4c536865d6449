import BatchStore.Proofs.Transport.Flush

/-!
# Runs of a shuffling transport

Callers dispatch submissions, flush the transport and fetch deliveries, in any order. `Run` follows
them: it numbers the tickets as they come, and keeps what the flushes took up and what was fetched.

What was dispatched is at each point in one of three places: it waits for a flush, or its delivery
waits to be fetched, or its delivery was fetched. A flush takes up everything that waits, in the
order in which it waits, and draws a fate for each ticket. Behind it the store and the deliveries
are those of `told`, where each ticket that is not lost before is executed directly, one after
another: no fate reaches beyond its ticket.
-/

namespace BatchStore.Shuffle

open Store

/-- The place where a ticket is put does not matter. -/
theorem dispatch_perm (t : Shuffle) (ticket : Ticket) :
    (t.dispatch ticket).pending.Perm (ticket :: t.pending) := by
  show (t.pending.take _ ++ ticket :: t.pending.drop _).Perm _
  refine List.perm_middle.trans ?_
  rw [List.take_append_drop]

theorem dequeue_nat (t : Shuffle) (n : Nat) :
    t.dequeue n = (t.done.take n, { t with done := t.done.drop n }) := by
  rw [dequeue, window_zero, windowFrom_natCast]

/-! ## Runs -/

/-- What is done with the transport. -/
inductive Event where
  | dispatch (b : Submission)
  | flush (now : Float)
  | dequeue (n : Nat)

/-- Where a run of the transport stands. -/
structure Run where
  link : Shuffle
  /-- The tickets of the submissions, in the order in which they came. -/
  dispatched : List Ticket := []
  /-- What the flushes took up, in order. -/
  drawn : List Drawn := []
  /-- The deliveries that were fetched. -/
  handed : List Delivery := []

namespace Run

/-- What an event makes of a run. -/
def after (ρ : Run) : Event → Run
  | .dispatch b =>
    let ticket : Ticket := ⟨ρ.dispatched.length, b⟩
    { ρ with link := ρ.link.dispatch ticket, dispatched := ρ.dispatched ++ [ticket] }
  | .flush now =>
    { ρ with link := (ρ.link.flush now).2, drawn := ρ.drawn ++ ρ.link.next now }
  | .dequeue n =>
    let (ds, link) := ρ.link.dequeue n
    { ρ with link, handed := ρ.handed ++ ds }

/-- The tickets whose submissions the store saw. -/
def sent (ρ : Run) : List Ticket := (ρ.drawn.filter Drawn.isSent).map (·.ticket)

/-- What holds of a run that began before a store, at each of its points. -/
structure Kept (start : Store) (ρ : Run) : Prop where
  hasExecutor : ρ.link.hasExecutor = true
  labels : ρ.dispatched.map (·.label) = List.range ρ.dispatched.length
  /-- What was dispatched waits for a flush or was taken up by one. -/
  tickets : (ρ.link.pending ++ ρ.drawn.map (·.ticket)).Perm ρ.dispatched
  /-- What was delivered is what is told of what was taken up. -/
  deliveries : (ρ.link.done ++ ρ.handed).Perm (told ρ.drawn start).1
  store : ρ.link.store = .memory (told ρ.drawn start).2

variable {start : Store} {ρ : Run}

/-- Each event leaves a run as it should be. -/
theorem kept_after (hStart : start.Sound) (h : ρ.Kept start) (e : Event) :
    (ρ.after e).Kept start := by
  cases e with
  | dispatch b =>
      refine ⟨h.hasExecutor, ?_, ?_, h.deliveries, h.store⟩
      · simp [after, h.labels, List.range_succ]
      · let ticket : Ticket := ⟨ρ.dispatched.length, b⟩
        have hPut : ((ρ.link.dispatch ticket).pending ++ ρ.drawn.map (·.ticket)).Perm
            (ticket :: (ρ.link.pending ++ ρ.drawn.map (·.ticket))) :=
          (dispatch_perm ρ.link ticket).append_right _
        exact hPut.trans ((h.tickets.cons ticket).trans (List.perm_append_singleton _ _).symm)
  | flush now =>
      obtain ⟨-, hPending, hExecutor, hStore, hDone⟩ :=
        flush_told (told_sound ρ.drawn hStart) now h.hasExecutor h.store
      have hTold := told_append ρ.drawn (ρ.link.next now) start
      refine ⟨hExecutor, h.labels, ?_, ?_, ?_⟩
      · show ((ρ.link.flush now).2.pending ++ (ρ.drawn ++ ρ.link.next now).map _).Perm _
        rw [hPending, List.nil_append, List.map_append, next_tickets]
        exact List.perm_append_comm.trans h.tickets
      · show ((ρ.link.flush now).2.done ++ ρ.handed).Perm
          (told (ρ.drawn ++ ρ.link.next now) start).1
        rw [hTold]
        have hOld := h.deliveries.append_right (told (ρ.link.next now) (told ρ.drawn start).2).1
        refine (hDone.append_right ρ.handed).trans (List.Perm.trans ?_ hOld)
        rw [List.append_assoc, List.append_assoc]
        exact List.perm_append_comm.append_left ρ.link.done
      · show (ρ.link.flush now).2.store = .memory (told (ρ.drawn ++ ρ.link.next now) start).2
        rw [hTold]
        exact hStore
  | dequeue n =>
      have hSplit : (ρ.link.done.drop n ++ (ρ.handed ++ ρ.link.done.take n)).Perm
          (ρ.link.done ++ ρ.handed) := by
        rw [← List.append_assoc]
        refine List.perm_append_comm.trans ?_
        rw [← List.append_assoc, List.take_append_drop]
      unfold after
      dsimp only
      rw [dequeue_nat]
      exact ⟨h.hasExecutor, h.labels, h.tickets, hSplit.trans h.deliveries, h.store⟩

/-- What some events make of a run, one after another. -/
def through (ρ : Run) (events : List Event) : Run := events.foldl after ρ

theorem kept_through (hStart : start.Sound) (h : ρ.Kept start) (events : List Event) :
    (ρ.through events).Kept start := by
  induction events generalizing ρ with
  | nil => exact h
  | cons e events ih => exact ih (kept_after hStart h e)

theorem Kept.labels_perm (h : ρ.Kept start) :
    (ρ.link.pending.map (·.label) ++ ρ.drawn.map (·.ticket.label)).Perm
      (List.range ρ.dispatched.length) := by
  have hLabels := h.tickets.map (·.label)
  rwa [h.labels, List.map_append, List.map_map] at hLabels

theorem Kept.deliveries_labels (h : ρ.Kept start) :
    ((ρ.link.done ++ ρ.handed).map (·.label)).Perm (ρ.drawn.map (·.ticket.label)) := by
  have hLabels := h.deliveries.map (·.label)
  rwa [told_labels] at hLabels

/-- No two tickets that were taken up have one label. -/
theorem Kept.drawn_nodup (h : ρ.Kept start) : (ρ.drawn.map (·.ticket.label)).Nodup :=
  (h.labels_perm.nodup_iff.2 List.nodup_range).of_append_right

/-- A ticket stands where its label says. -/
theorem Kept.dispatched_getElem? (h : ρ.Kept start) {ticket : Ticket}
    (hMem : ticket ∈ ρ.dispatched) : ρ.dispatched[ticket.label]? = some ticket := by
  obtain ⟨i, hi, rfl⟩ := List.getElem_of_mem hMem
  have hLabel : ρ.dispatched[i].label = i := by
    have hRange : (ρ.dispatched.map (·.label))[i]? = (List.range ρ.dispatched.length)[i]? := by
      rw [h.labels]
    simpa [hi] using hRange
  rw [hLabel, List.getElem?_eq_getElem hi]

theorem Kept.drawn_dispatched (h : ρ.Kept start) {e : Drawn} (hMem : e ∈ ρ.drawn) :
    e.ticket ∈ ρ.dispatched :=
  h.tickets.subset (List.mem_append_right _ (List.mem_map_of_mem hMem))

/-- The store saw a ticket that was taken up unless its fate was to be lost before. -/
theorem Kept.mem_sent (h : ρ.Kept start) {e : Drawn} (hMem : e ∈ ρ.drawn) :
    e.ticket.label ∈ ρ.sent.map (·.label) ↔ e.fate ≠ .lostBefore := by
  unfold sent
  constructor
  · intro hSent
    simp only [List.map_map, List.mem_map, List.mem_filter] at hSent
    obtain ⟨e', ⟨hMem', hFate⟩, hLabel⟩ := hSent
    have hSame : e' = e := List.inj_on_of_nodup_map h.drawn_nodup hMem' hMem hLabel
    simpa [Drawn.isSent, hSame] using hFate
  · intro hFate
    simp only [List.map_map, List.mem_map, List.mem_filter]
    exact ⟨e, ⟨hMem, by simpa [Drawn.isSent] using hFate⟩, rfl⟩

/-- Only what is lost before is answered so: the store never answers with a bare fault. -/
theorem answer_lostBefore_iff {s : Store} (hs : s.Sound) (now : Float) (b : Submission)
    (fate : Fate) :
    answer fate (submission now b s).1.1 = .error (.fault .lostBefore) ↔ fate = .lostBefore := by
  cases fate with
  | lostBefore => exact ⟨fun _ => rfl, fun _ => rfl⟩
  | lostAfter => simp [answer]
  | carried =>
      have hNever : (submission now b s).1.1 ≠ .error (.fault .lostBefore) := fun hFault =>
        submission_error hs hFault .lostBefore rfl
      simpa [answer] using hNever

/-- A delivery is the answer to its own ticket, by the ticket's own fate. -/
theorem Kept.delivery (hStart : start.Sound) (h : ρ.Kept start) {d : Delivery}
    (hMem : d ∈ ρ.link.done ++ ρ.handed) :
    (d.outcome = .error (.fault .lostBefore) ↔ d.label ∉ ρ.sent.map (·.label)) ∧
      ∃ before e later, ρ.drawn = before ++ e :: later ∧
        ρ.dispatched[d.label]? = some e.ticket ∧
        d.outcome = answer e.fate
          (submission e.now e.ticket.submission (history run (seen before) start).2).1.1 := by
  obtain ⟨before, e, later, hDrawn, rfl⟩ := mem_told (h.deliveries.subset hMem)
  have hTaken : e ∈ ρ.drawn := by
    rw [hDrawn]
    exact List.mem_append_right _ List.mem_cons_self
  constructor
  · have hLost := answer_lostBefore_iff (told_sound before hStart) e.now e.ticket.submission e.fate
    exact hLost.trans ((not_congr (h.mem_sent hTaken)).trans not_not).symm
  · refine ⟨before, e, later, hDrawn, h.dispatched_getElem? (h.drawn_dispatched hTaken), ?_⟩
    rw [← told_store]
    rfl

/-- A transport that shuffles and loses, after any events.

Every submission that was dispatched waits for a flush, or has one delivery that waits to be
fetched, or its delivery was fetched, and that once. The store saw each submission at most once,
and is as they leave it, executed directly in the order in which flushes took them up. A delivery
is that of a loss before the store exactly if the store did not see the submission; every other
one is that of a loss behind the store, or what the store answered to this very submission. A
further flush takes up all that waits, in its order. -/
theorem one_delivery_each {s : Store} (hs : s.Reachable) (chance : Chance) (risk : Float)
    (events : List Event) :
    let ρ := through { link := { chance, risk, store := .memory s } } events
    (ρ.link.pending.map (·.label) ++ ρ.link.done.map (·.label) ++ ρ.handed.map (·.label)).Perm
        (List.range ρ.dispatched.length) ∧
      (ρ.sent.map (·.label)).Nodup ∧
      ρ.link.store = .memory (history run (seen ρ.drawn) s).2 ∧
      (∀ d ∈ ρ.link.done ++ ρ.handed,
        (d.outcome = .error (.fault .lostBefore) ↔ d.label ∉ ρ.sent.map (·.label)) ∧
        ∃ before e later, ρ.drawn = before ++ e :: later ∧
          ρ.dispatched[d.label]? = some e.ticket ∧
          d.outcome = answer e.fate
            (submission e.now e.ticket.submission (history run (seen before) s).2).1.1) ∧
      ∀ now, (ρ.link.flush now).1.1 = .ok () ∧
        let next := ρ.after (.flush now)
        next.link.pending = [] ∧
        ∃ taken, next.drawn = ρ.drawn ++ taken ∧ taken.map (·.ticket) = ρ.link.pending := by
  intro ρ
  have hSound := reachable_sound hs
  have hNew : Kept s { link := { chance, risk, store := .memory s } } :=
    ⟨rfl, rfl, .nil, .nil, rfl⟩
  have hKept : ρ.Kept s := kept_through hSound hNew events
  refine ⟨?_, ?_, ?_, fun d hd => hKept.delivery hSound hd, fun now => ?_⟩
  · rw [List.append_assoc, ← List.map_append]
    exact (hKept.deliveries_labels.append_left _).trans hKept.labels_perm
  · have hSent : (ρ.sent.map (·.label)).Sublist (ρ.drawn.map (·.ticket.label)) := by
      simpa [sent, Function.comp_def] using
        (List.filter_sublist (p := Drawn.isSent) (l := ρ.drawn)).map (·.ticket.label)
    exact hKept.drawn_nodup.sublist hSent
  · rw [hKept.store, told_store]
  · obtain ⟨hFlushed, hPending, -⟩ :=
      flush_told (told_sound ρ.drawn hSound) now hKept.hasExecutor hKept.store
    exact ⟨hFlushed, hPending, _, rfl, next_tickets now ρ.link⟩

/-- Two submissions, a flush between them, and one delivery that is fetched. -/
theorem one_delivery_each_pings :
    let ping : Submission := ⟨[⟨.ping, []⟩], true⟩
    let chance : Chance := { uniform := fun _ => 0.0, pick := fun _ => 1 }
    let new : Store := { databases := [.empty] }
    let ρ := through { link := { chance, risk := 0.5, store := .memory new } }
      [.dispatch ping, .flush 0.0, .dispatch ping, .dequeue 1]
    new.Reachable ∧ ρ.dispatched = [⟨0, ping⟩, ⟨1, ping⟩] ∧
      (ρ.link.pending.map (·.label) ++ ρ.link.done.map (·.label) ++
        ρ.handed.map (·.label)).Perm [0, 1] := by
  intro ping chance new ρ
  have hReachable : new.Reachable := ⟨1, new, [], rfl, rfl⟩
  exact ⟨hReachable, rfl, (one_delivery_each hReachable chance 0.5
    [.dispatch ping, .flush 0.0, .dispatch ping, .dequeue 1]).1⟩

end Run

end BatchStore.Shuffle
