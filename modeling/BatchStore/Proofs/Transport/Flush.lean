import BatchStore.Proofs.Store.OneByOne
import BatchStore.Transport.Shuffle

/-!
# A flush of a shuffling transport

A flush takes up everything that waits and draws a fate for each ticket. `told` executes directly,
one after another, what is not lost before, and tells what is delivered to each ticket: what
chance makes of a submission reaches no further than its own delivery. `flush_told` says that a
flush before a sound store comes to the same, but for the order of the deliveries, as those of a
loss before come first.
-/

namespace BatchStore.Shuffle

open Store

/-- What the caller of a submission gets. -/
def answer (fate : Fate) (outcome : Outcome) : Outcome :=
  match fate with
  | .carried => outcome
  | .lostBefore => .error (.fault .lostBefore)
  | .lostAfter => .error (.fault .lostAfter)

/-- The store behind a submission. -/
def leftBy (fate : Fate) (before after : Store) : Store :=
  match fate with
  | .lostBefore => before
  | .carried | .lostAfter => after

/-- A ticket that a flush took up at a reading of the clock, with its fate. -/
structure Drawn where
  now : Float
  ticket : Ticket
  fate : Fate

/-- Whether the store sees the submission. -/
def Drawn.isSent (e : Drawn) : Bool := e.fate != .lostBefore

/-- What is delivered of some tickets, and the store behind them, if their submissions are executed
directly and one after another, but for those that are lost before. -/
def told : List Drawn → Store → List Delivery × Store
  | [], s => ([], s)
  | e :: rest, s =>
    let direct := submission e.now e.ticket.submission s
    let later := told rest (leftBy e.fate s direct.2)
    (e.ticket.delivery (answer e.fate direct.1.1) :: later.1, later.2)

theorem told_append (ds es : List Drawn) (s : Store) :
    told (ds ++ es) s =
      ((told ds s).1 ++ (told es (told ds s).2).1, (told es (told ds s).2).2) := by
  induction ds generalizing s with
  | nil => rfl
  | cons d ds ih => simp [told, ih]

theorem told_labels (es : List Drawn) (s : Store) :
    (told es s).1.map (·.label) = es.map (·.ticket.label) := by
  induction es generalizing s with
  | nil => rfl
  | cons e es ih => simp [told, ih, Ticket.delivery]

/-- A delivery that is told is that of a ticket, by its fate and by what the store answers behind
those before it. -/
theorem mem_told {es : List Drawn} {s : Store} {d : Delivery} (h : d ∈ (told es s).1) :
    ∃ before e later, es = before ++ e :: later ∧
      d = e.ticket.delivery
        (answer e.fate (submission e.now e.ticket.submission (told before s).2).1.1) := by
  induction es generalizing s with
  | nil => cases h
  | cons e es ih =>
      rcases List.mem_cons.1 h with rfl | hLater
      · exact ⟨[], e, es, rfl, rfl⟩
      · obtain ⟨before, e', later, rfl, hd⟩ := ih hLater
        exact ⟨e :: before, e', later, rfl, hd⟩

/-- The submissions that the store sees, each with its reading of the clock. -/
def seen (es : List Drawn) : Timeline :=
  (es.filter Drawn.isSent).map fun e => (e.now, e.ticket.submission)

/-- The store is left by the submissions that it sees. -/
theorem told_store (es : List Drawn) (s : Store) :
    (told es s).2 = (history run (seen es) s).2 := by
  induction es generalizing s with
  | nil => rfl
  | cons e es ih =>
      obtain ⟨now, ticket, fate⟩ := e
      cases fate with
      | lostBefore => exact ih s
      | carried | lostAfter => exact ih (submission now ticket.submission s).2

theorem leftBy_sound {s : Store} (hs : s.Sound) (now : Float) (b : Submission) (fate : Fate) :
    (leftBy fate s (submission now b s).2).Sound := by
  cases fate with
  | lostBefore => exact hs
  | carried | lostAfter => exact submission_sound now b hs

theorem told_sound (es : List Drawn) {s : Store} (hs : s.Sound) : (told es s).2.Sound := by
  induction es generalizing s with
  | nil => exact hs
  | cons e es ih => exact ih (leftBy_sound hs e.now e.ticket.submission e.fate)

/-! ## One flush -/

/-- Tickets that a flush takes up at one reading of the clock. -/
def drawnAt (now : Float) (drawn : List (Ticket × Fate)) : List Drawn :=
  drawn.map fun e => ⟨now, e.1, e.2⟩

/-- The lost ones are delivered first and the others as the store answers them; the store executes
the others one by one. The delivery of one that was not lost stands behind those of the lost. -/
theorem told_drawnAt (now : Float) (drawn : List (Ticket × Fate)) (s : Store) :
    let lost := drawn.filter fun e => e.2 = .lostBefore
    let sent := drawn.filter fun e => e.2 ≠ .lostBefore
    let direct := oneByOne now (sent.map (·.1.submission)) s
    (lost.map (fun e => e.1.delivery (.error (.fault .lostBefore))) ++
        sent.zipWith received direct.1).Perm (told (drawnAt now drawn) s).1 ∧
      direct.2 = (told (drawnAt now drawn) s).2 := by
  induction drawn generalizing s with
  | nil => exact ⟨.nil, rfl⟩
  | cons e rest ih =>
      obtain ⟨ticket, fate⟩ := e
      cases fate with
      | lostBefore =>
          obtain ⟨hDeliveries, hStore⟩ := ih s
          exact ⟨by simpa [told, drawnAt, answer, leftBy] using hDeliveries, by
            simpa [told, drawnAt, leftBy] using hStore⟩
      | carried | lostAfter =>
          obtain ⟨hDeliveries, hStore⟩ := ih (submission now ticket.submission s).2
          refine ⟨?_, by simpa [told, drawnAt, leftBy] using hStore⟩
          have hMiddle (d : Delivery) := List.perm_middle.trans (hDeliveries.cons d)
          simpa [told, drawnAt, answer, leftBy, received] using hMiddle _

theorem fates_tickets (risk : Float) (chance : Chance) (tickets : List Ticket) :
    (fates risk chance tickets).1.map (·.1) = tickets := by
  induction tickets generalizing chance with
  | nil => rfl
  | cons ticket rest ih => simp [fates, ih]

/-- What the next flush takes up. -/
def next (now : Float) (t : Shuffle) : List Drawn :=
  drawnAt now (fates t.risk t.chance t.pending).1

theorem next_tickets (now : Float) (t : Shuffle) :
    (t.next now).map (·.ticket) = t.pending := by
  simpa [next, drawnAt, Function.comp_def] using fates_tickets t.risk t.chance t.pending

/-- A flush before a sound store takes up everything that waits, and the store and the deliveries
are those of direct execution. -/
theorem flush_told {t : Shuffle} {s : Store} (hs : s.Sound) (now : Float)
    (hExecutor : t.hasExecutor = true) (hStore : t.store = .memory s) :
    (t.flush now).1.1 = .ok () ∧ (t.flush now).2.pending = [] ∧
      (t.flush now).2.hasExecutor = true ∧
      (t.flush now).2.store = .memory (told (t.next now) s).2 ∧
      (t.flush now).2.done.Perm (t.done ++ (told (t.next now) s).1) := by
  unfold next
  by_cases hPending : t.pending = []
  · simp [flush, hPending, fates, drawnAt, told, hExecutor, hStore]
  · rcases hDrawn : fates t.risk t.chance t.pending with ⟨drawn, chance⟩
    obtain ⟨hDeliveries, hAfter⟩ := told_drawnAt now drawn s
    obtain ⟨hAnswer, hServed⟩ := serve_oneByOne now
      ((drawn.filter fun e => e.2 ≠ .lostBefore).map (·.1.submission)) hs
    rcases hServe : Executor.serve now
      ((drawn.filter fun e => e.2 ≠ .lostBefore).map (·.1.submission)) (.memory s) with
      ⟨⟨served, reports⟩, store⟩
    rw [hServe] at hAnswer hServed
    subst hAnswer hServed
    have hWaiting : t.pending.isEmpty = false := by simpa using hPending
    simp only [flush, hWaiting, hExecutor, hStore, hDrawn, hServe, Bool.not_true,
      Bool.false_eq_true, if_false, true_and, hAfter, List.append_assoc]
    exact hDeliveries.append_left t.done

end BatchStore.Shuffle
