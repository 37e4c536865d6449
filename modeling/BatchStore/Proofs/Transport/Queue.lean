import BatchStore.Proofs.Store.OneByOne
import BatchStore.Transport.Queue

/-!
# Runs of a queue with a worker

Callers dispatch submissions and fetch deliveries while the worker makes its moves, in any order
of these events. What the queue accepts it carries in the order in which it came: first it waits
in the queue, then it is in the hands of the worker, then it is executed, and its delivery stands
in the hands of the worker, in the queue of deliveries, and last with the caller.

`Carries` says so, in the form of two rows: the accepted tickets are those that were executed,
those that the worker has taken, and those that wait; and the deliveries of those executed are the
ones that were fetched, those that wait, and those in the hands of the worker. Each event moves
the bounds within the rows and nothing else. The deliveries are those of direct execution, one
submission after another, so that it does not matter how many the worker took at a time.
-/

namespace BatchStore.Queue

open Store

/-- The deliveries of some tickets if their submissions are executed directly, one by one. -/
def direct (now : Float) (start : Store) (tickets : List Ticket) : List Delivery :=
  Ticket.deliveries tickets (oneByOne now (tickets.map (·.submission)) start).1

/-- The store behind some tickets if their submissions are executed directly, one by one. -/
def left (now : Float) (start : Store) (tickets : List Ticket) : Store :=
  (oneByOne now (tickets.map (·.submission)) start).2

/-- What some batches and then more leave is what they leave together. -/
theorem left_append (now : Float) (start : Store) (ts us : List Ticket) :
    left now start (ts ++ us) = left now (left now start ts) us := by
  simp [left, oneByOne_append]

theorem left_sound (now : Float) {start : Store} (hs : start.Sound) (ts : List Ticket) :
    (left now start ts).Sound := oneByOne_sound now _ hs

/-- The completions of some batches and then more are those of all of them. -/
theorem direct_append (now : Float) (start : Store) (ts us : List Ticket) :
    direct now start (ts ++ us) = direct now start ts ++ direct now (left now start ts) us := by
  simp [direct, left, Ticket.deliveries, oneByOne_append, List.zipWith_append]

/-- Each batch comes out under the label that it came in with. -/
theorem direct_labels (now : Float) (start : Store) (ts : List Ticket) :
    (direct now start ts).map (·.label) = ts.map (·.label) := by
  have hLength : (oneByOne now (ts.map (·.submission)) start).1.length = ts.length := by simp
  unfold direct Ticket.deliveries
  generalize (oneByOne now (ts.map (·.submission)) start).1 = outcomes at hLength
  induction ts generalizing outcomes with
  | nil => rfl
  | cons t ts ih =>
      cases outcomes with
      | nil => cases hLength
      | cons o os => simpa [Ticket.delivery] using ih os (by simpa using hLength)

/-- A queue whose worker runs carries what it accepted, from a store on. Of the accepted tickets,
those in front are `executed`, and what was fetched of their deliveries is `handed`. -/
structure Carries (now : Float) (start : Store) (executed accepted : List Ticket)
    (handed : List Delivery) (q : Queue) : Prop where
  hasExecutor : q.hasExecutor = true
  running : q.worker = .running
  accepted : accepted = executed ++ q.taken ++ q.queued
  deliveries : handed ++ q.done ++ q.inHand = direct now start executed
  store : q.store = .memory (left now start executed)

section Steps

variable {now : Float} {start : Store} {executed accepted : List Ticket} {handed : List Delivery}
  {q : Queue}

/-- Once nothing waits and nothing is taken, everything that was accepted is executed. -/
theorem Carries.store_of_idle (h : Carries now start executed accepted handed q)
    (hTaken : q.taken = []) (hQueued : q.queued = []) :
    q.store = .memory (left now start accepted) := by
  have hAll : accepted = executed := by simp [h.accepted, hTaken, hQueued]
  rw [hAll]
  exact h.store

/-- Moving batches from the queue to the executor loses none and keeps their order. -/
theorem carries_take (h : Carries now start executed accepted handed q) (more : Nat) :
    Carries now start executed accepted handed (q.take more) := by
  unfold take
  split
  · rename_i hFree
    have hTaken : q.taken = [] := by simp_all
    refine ⟨h.hasExecutor, h.running, ?_, h.deliveries, h.store⟩
    simp [h.accepted, hTaken]
  · exact h

/-- A batch that goes over to the executor stays in its place in the order. -/
theorem carries_join (h : Carries now start executed accepted handed q) :
    Carries now start executed accepted handed q.join := by
  unfold join
  split
  · exact h
  · refine ⟨h.hasExecutor, h.running, ?_, h.deliveries, h.store⟩
    rw [h.accepted, List.append_assoc, List.append_assoc, List.append_assoc, List.take_append_drop]

/-- What the worker has taken is executed as it would be one by one. -/
theorem carries_work (hStart : start.Sound) (h : Carries now start executed accepted handed q) :
    ∃ executed', Carries now start executed' accepted handed (q.work now).2 := by
  unfold work
  split
  · exact ⟨executed, h⟩
  · obtain ⟨hAnswer, hStore⟩ :=
      serve_oneByOne now (q.taken.map (·.submission)) (left_sound now hStart executed)
    rw [← h.store] at hAnswer hStore
    refine ⟨executed ++ q.taken, h.hasExecutor, h.running, ?_, ?_, ?_⟩
    · simp [h.accepted]
    · rw [direct_append, ← h.deliveries]
      simp [hAnswer, direct]
    · rw [left_append]
      exact hStore

/-- A completion that goes over to the finished ones stays in its place in the order. -/
theorem carries_put (h : Carries now start executed accepted handed q) :
    Carries now start executed accepted handed q.put := by
  unfold put
  split
  · exact h
  · split
    · exact h
    · refine ⟨h.hasExecutor, h.running, h.accepted, ?_, h.store⟩
      simp [← h.deliveries, *]

/-- Each move of the executor keeps what the queues carry, and may execute more of it. -/
theorem carries_move (hStart : start.Sound) (h : Carries now start executed accepted handed q)
    (m : Move) : ∃ executed', Carries now start executed' accepted handed (q.move now m).2 := by
  unfold move
  rw [if_pos h.running]
  cases m with
  | take more => exact ⟨executed, carries_take h more⟩
  | join => exact ⟨executed, carries_join h⟩
  | work => exact carries_work hStart h
  | put => exact ⟨executed, carries_put h⟩

/-- Whatever moves the worker makes, it carries what was accepted. -/
theorem carries_moves (hStart : start.Sound) (h : Carries now start executed accepted handed q)
    (ms : List Move) :
    ∃ executed', Carries now start executed' accepted handed (q.moves now ms).2 := by
  induction ms generalizing executed q with
  | nil => exact ⟨executed, h⟩
  | cons m ms ih =>
      obtain ⟨executed', hMoved⟩ := carries_move hStart h m
      exact ih hMoved

/-- What is dequeued has been handed out, in the order of completion. -/
theorem carries_dequeue (h : Carries now start executed accepted handed q) (n : Int) :
    Carries now start executed accepted (handed ++ (q.dequeue n).1) (q.dequeue n).2 := by
  refine ⟨h.hasExecutor, h.running, h.accepted, ?_, h.store⟩
  simp [dequeue, ← h.deliveries]

/-- A full queue turns the batch away and stays as it is. -/
theorem dispatch_full (h : Carries now start executed accepted handed q) (hFull : q.isFull = true)
    (ticket : Ticket) : q.dispatch ticket = (.ok (some turnedAway, [.queueFull]), q) := by
  simp [dispatch, h.hasExecutor, hFull]

/-- A queue with room takes the batch in as its last. -/
theorem dispatch_roomy (h : Carries now start executed accepted handed q)
    (hRoom : q.isFull = false) (ticket : Ticket) :
    q.dispatch ticket = (.ok (none, []), { q with queued := q.queued ++ [ticket] }) := by
  simp [dispatch, h.hasExecutor, h.running, hRoom]

/-- A batch that is taken in comes behind all that were. -/
theorem carries_dispatch (h : Carries now start executed accepted handed q) (ticket : Ticket) :
    Carries now start executed (accepted ++ [ticket]) handed
      { q with queued := q.queued ++ [ticket] } := by
  refine ⟨h.hasExecutor, h.running, ?_, h.deliveries, h.store⟩
  simp [h.accepted]

end Steps

/-! ## Runs -/

/-- What happens to the queue. -/
inductive Event where
  | dispatch (b : Submission)
  | move (m : Move)
  | dequeue (n : Nat)

/-- Where a run of the queue stands. -/
structure Run where
  queue : Queue
  /-- The tickets of the submissions, in the order in which they came. -/
  dispatched : List Ticket := []
  /-- The tickets that the queue took in. -/
  accepted : List Ticket := []
  /-- What those got whom the queue turned away. -/
  rejected : List Delivery := []
  /-- The deliveries that were fetched. -/
  handed : List Delivery := []

namespace Run

/-- What an event makes of a run, at a reading of the clock. -/
def after (now : Float) (ρ : Run) : Event → Run
  | .dispatch b =>
    let ticket : Ticket := ⟨ρ.dispatched.length, b⟩
    let (answer, queue) := ρ.queue.dispatch ticket
    let ρ := { ρ with queue, dispatched := ρ.dispatched ++ [ticket] }
    match answer with
    | .ok (none, _) => { ρ with accepted := ρ.accepted ++ [ticket] }
    | .ok (some outcome, _) => { ρ with rejected := ρ.rejected ++ [ticket.delivery outcome] }
    | .error _ => ρ
  | .move m => { ρ with queue := (ρ.queue.move now m).2 }
  | .dequeue n =>
    let (ds, queue) := ρ.queue.dequeue n
    { ρ with queue, handed := ρ.handed ++ ds }

/-- What some events make of a run, one after another. -/
def through (now : Float) (ρ : Run) (events : List Event) : Run := events.foldl (after now) ρ

/-- What holds of a run that began before a store, at each of its points. -/
structure Kept (now : Float) (start : Store) (ρ : Run) : Prop where
  carries : ∃ executed, Carries now start executed ρ.accepted ρ.handed ρ.queue
  labels : (ρ.rejected.map (·.label) ++ ρ.accepted.map (·.label)).Perm
    (List.range ρ.dispatched.length)
  order : ρ.accepted.Sublist ρ.dispatched
  rejected : ∀ d ∈ ρ.rejected, d.outcome = turnedAway

section

variable {now : Float} {start : Store} {ρ : Run}

theorem after_full (h : ρ.Kept now start) (hFull : ρ.queue.isFull = true) (b : Submission) :
    let ticket : Ticket := ⟨ρ.dispatched.length, b⟩
    ρ.after now (.dispatch b) =
      { ρ with dispatched := ρ.dispatched ++ [ticket],
               rejected := ρ.rejected ++ [ticket.delivery turnedAway] } := by
  obtain ⟨executed, hCarries⟩ := h.carries
  simp only [after, dispatch_full hCarries hFull]

theorem after_roomy (h : ρ.Kept now start) (hRoom : ρ.queue.isFull = false) (b : Submission) :
    let ticket : Ticket := ⟨ρ.dispatched.length, b⟩
    ρ.after now (.dispatch b) =
      { ρ with queue := { ρ.queue with queued := ρ.queue.queued ++ [ticket] },
               dispatched := ρ.dispatched ++ [ticket], accepted := ρ.accepted ++ [ticket] } := by
  obtain ⟨executed, hCarries⟩ := h.carries
  simp only [after, dispatch_roomy hCarries hRoom]

/-- Each event leaves a run as it should be. -/
theorem kept_after (hStart : start.Sound) (h : ρ.Kept now start) (e : Event) :
    (ρ.after now e).Kept now start := by
  obtain ⟨executed, hCarries⟩ := h.carries
  cases e with
  | dispatch b =>
      have hLast (ls : List Nat) (hLs : ls.Perm (List.range ρ.dispatched.length)) :
          (ls ++ [ρ.dispatched.length]).Perm (List.range (ρ.dispatched.length + 1)) := by
        rw [List.range_succ]
        exact hLs.append_right _
      cases hFull : ρ.queue.isFull with
      | true =>
          rw [after_full h hFull]
          refine ⟨h.carries, ?_, h.order.trans (List.sublist_append_left _ _), ?_⟩
          · -- The new label comes between those of the turned away and those of the accepted.
            have hComm : ([ρ.dispatched.length] ++ ρ.accepted.map (·.label)).Perm _ :=
              List.perm_append_comm
            have hSwap := hComm.append_left (ρ.rejected.map (·.label))
            have hNew := hLast _ h.labels
            rw [List.append_assoc] at hNew
            simpa [Ticket.delivery] using hSwap.trans hNew
          · intro d hd
            rcases List.mem_append.1 hd with hEarlier | hOwn
            · exact h.rejected d hEarlier
            · rw [List.mem_singleton.1 hOwn]
              rfl
      | false =>
          rw [after_roomy h hFull]
          refine ⟨⟨executed, carries_dispatch hCarries _⟩, ?_, h.order.append (.refl _), h.rejected⟩
          simpa using hLast _ h.labels
  | move m =>
      obtain ⟨executed', hMoved⟩ := carries_move hStart hCarries m
      exact ⟨⟨executed', hMoved⟩, h.labels, h.order, h.rejected⟩
  | dequeue n =>
      exact ⟨⟨executed, carries_dequeue hCarries n⟩, h.labels, h.order, h.rejected⟩

/-- What a run keeps, it keeps through any events. -/
theorem kept_through (hStart : start.Sound) (h : ρ.Kept now start) (events : List Event) :
    (ρ.through now events).Kept now start := by
  induction events generalizing ρ with
  | nil => exact h
  | cons e events ih => exact ih (kept_after hStart h e)

end

/-- A queue with a worker, after any events.

Each submission that was dispatched is in exactly one place: it was turned away at once, its
delivery was fetched, or waits, or is in the hands of the worker, or the worker has taken it, or
it waits in the queue. Whoever was turned away was told that the queue is full, and was not
accepted. The accepted ones are executed in the order in which they came, and their deliveries
come in that order: they are those of direct execution, one submission after another. A further
submission is turned away exactly if the queue is full. -/
theorem accepted_in_order {s : Store} (hs : s.Reachable) (now : Float)
    (capacity batchSize room : Int) (events : List Event) :
    let ρ := through now
      { queue := { capacity, batchSize, room, worker := .running, store := .memory s } } events
    (ρ.rejected.map (·.label) ++ ((ρ.handed ++ ρ.queue.done ++ ρ.queue.inHand).map (·.label) ++
        (ρ.queue.taken ++ ρ.queue.queued).map (·.label))).Perm (List.range ρ.dispatched.length) ∧
      (∀ d ∈ ρ.rejected, d.outcome = turnedAway ∧ d.label ∉ ρ.accepted.map (·.label)) ∧
      ρ.accepted.Sublist ρ.dispatched ∧
      (∃ executed, ρ.accepted = executed ++ ρ.queue.taken ++ ρ.queue.queued ∧
        ρ.handed ++ ρ.queue.done ++ ρ.queue.inHand = direct now s executed ∧
        ρ.queue.store = .memory (left now s executed)) ∧
      ∀ b, let next := ρ.after now (.dispatch b)
        if ρ.queue.isFull then
          next.queue = ρ.queue ∧ next.accepted = ρ.accepted ∧
            next.rejected = ρ.rejected ++ [⟨ρ.dispatched.length, turnedAway⟩]
        else next.rejected = ρ.rejected ∧
          next.accepted = ρ.accepted ++ [⟨ρ.dispatched.length, b⟩] := by
  intro ρ
  have hNew : Kept now s
      { queue := { capacity, batchSize, room, worker := .running, store := .memory s } } :=
    ⟨⟨[], rfl, rfl, rfl, rfl, rfl⟩, .nil, .slnil, fun _ hNever => nomatch hNever⟩
  have hKept : ρ.Kept now s := kept_through (reachable_sound hs) hNew events
  obtain ⟨executed, hCarries⟩ := hKept.carries
  have hLabels := hKept.labels
  refine ⟨?_, fun d hd => ⟨hKept.rejected d hd, ?_⟩, hKept.order,
    ⟨executed, hCarries.accepted, hCarries.deliveries, hCarries.store⟩, fun b => ?_⟩
  · have hAccepted : ρ.accepted.map (·.label) =
        (ρ.handed ++ ρ.queue.done ++ ρ.queue.inHand).map (·.label) ++
          (ρ.queue.taken ++ ρ.queue.queued).map (·.label) := by
      rw [hCarries.deliveries, direct_labels, hCarries.accepted, List.append_assoc, List.map_append]
    rw [← hAccepted]
    exact hLabels
  · have hApart := (List.nodup_append.1 (hLabels.nodup_iff.2 List.nodup_range)).2.2
    exact fun hAgain => hApart _ (List.mem_map_of_mem hd) _ hAgain rfl
  · cases hFull : ρ.queue.isFull with
    | true => simp [after_full hKept hFull, Ticket.delivery]
    | false => simp [after_roomy hKept hFull]

/-- A queue for one submission, which turns the second away. -/
theorem accepted_in_order_pings :
    let ping : Submission := ⟨[⟨.ping, []⟩], true⟩
    let new : Store := { databases := [.empty] }
    let queue : Queue :=
      { capacity := 1, batchSize := 10, room := 1, worker := .running, store := .memory new }
    let events : List Event :=
      [.dispatch ping, .dispatch ping, .move (.take 9), .move .work, .move .put, .dequeue 5]
    let ρ := through 0.0 { queue } events
    new.Reachable ∧ ρ.rejected = [⟨1, turnedAway⟩] ∧
      ∀ d ∈ ρ.rejected, d.outcome = turnedAway ∧ d.label ∉ ρ.accepted.map (·.label) := by
  intro ping new queue events ρ
  have hReachable : new.Reachable := ⟨1, new, [], rfl, rfl⟩
  exact ⟨hReachable, rfl, (accepted_in_order hReachable 0.0 1 10 1 events).2.1⟩

end Run

end BatchStore.Queue
