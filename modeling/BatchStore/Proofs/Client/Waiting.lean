import BatchStore.Proofs.Client.Session
import BatchStore.Proofs.Transport.Queue

/-!
# Calls of a client that lose patience

A client executes batches over a queue with a worker, one call after another. The worker goes
about its work between the calls and during them as it likes, and so a call may be out of patience
before the outcome of its submission is there. The submission stays on its way then, and its
delivery comes up when a later call fetches deliveries, and is dropped.
-/

namespace BatchStore

open Store

/-! ## Waiting for one outcome -/

namespace Queue

/-- Nothing is on its way. -/
structure Idle (q : Queue) : Prop where
  queued : q.queued = []
  taken : q.taken = []
  inHand : q.inHand = []
  done : q.done = []

/-- Where a row without repetition is cut behind its last element, nothing is left. -/
theorem nil_of_nodup_append {α β : Type} (f : α → β) {xs ys zs : List α} {a : α}
    (h : xs ++ ys = zs ++ [a]) (hNodup : ((xs ++ ys).map f).Nodup) (hMem : f a ∈ xs.map f) :
    ys = [] := by
  rcases List.eq_nil_or_concat ys with hNil | ⟨ys', y, rfl⟩
  · exact hNil
  · exfalso
    have hLast : y = a := by simpa using congrArg List.getLast? h
    subst hLast
    rw [List.map_append] at hNodup
    exact (List.nodup_append.1 hNodup).2.2 _ hMem _ (List.mem_map_of_mem (by simp)) rfl

section

variable {now : Float} {start : Store} {executed earlier : List Ticket}
  {handed : List Delivery} {q : Queue} {ticket : Ticket}

/-- If a delivery to the last label was fetched, everything is executed. -/
theorem executed_of_handed (h : Carries now start executed (earlier ++ [ticket]) handed q)
    (hLabels : ((earlier ++ [ticket]).map (·.label)).Nodup)
    (hMem : ticket.label ∈ handed.map (·.label)) :
    executed = earlier ++ [ticket] ∧ q.taken = [] ∧ q.queued = [] := by
  have hExecuted : ticket.label ∈ executed.map (·.label) := by
    rw [← direct_labels now start executed, ← h.deliveries, List.append_assoc, List.map_append]
    exact List.mem_append_left _ hMem
  have hSplit : executed ++ (q.taken ++ q.queued) = earlier ++ [ticket] := by
    rw [h.accepted, List.append_assoc]
  rw [← hSplit] at hLabels
  have hRest := nil_of_nodup_append (·.label) hSplit hLabels hExecuted
  obtain ⟨hTaken, hQueued⟩ := List.append_eq_nil_iff.1 hRest
  refine ⟨?_, hTaken, hQueued⟩
  rw [← hSplit, hRest, List.append_nil]

theorem direct_last (now : Float) (start : Store) (earlier : List Ticket) (ticket : Ticket) :
    direct now start (earlier ++ [ticket]) = direct now start earlier ++
      [ticket.delivery (submission now ticket.submission (left now start earlier)).1.1] := by
  rw [direct_append]
  rfl

/-- If a delivery to the last label was fetched, nothing is on its way any more. -/
theorem idle_of_handed (h : Carries now start executed (earlier ++ [ticket]) handed q)
    (hLabels : ((earlier ++ [ticket]).map (·.label)).Nodup)
    (hMem : ticket.label ∈ handed.map (·.label)) : q.Idle := by
  obtain ⟨hAll, hTaken, hQueued⟩ := executed_of_handed h hLabels hMem
  have hRow : handed ++ (q.done ++ q.inHand) = direct now start (earlier ++ [ticket]) := by
    rw [← hAll, ← h.deliveries, List.append_assoc]
  have hNodup : ((handed ++ (q.done ++ q.inHand)).map (·.label)).Nodup := by
    rwa [hRow, direct_labels]
  rw [direct_last] at hRow
  have hRest := nil_of_nodup_append (·.label) hRow hNodup hMem
  obtain ⟨hDone, hInHand⟩ := List.append_eq_nil_iff.1 hRest
  exact ⟨hQueued, hTaken, hInHand, hDone⟩

/-- A delivery to the last label has the outcome of its own submission. -/
theorem outcome_of_handed (h : Carries now start executed (earlier ++ [ticket]) handed q)
    (hLabels : ((earlier ++ [ticket]).map (·.label)).Nodup) {d : Delivery} (hMem : d ∈ handed)
    (hLabel : d.label = ticket.label) :
    d.outcome = (submission now ticket.submission (left now start earlier)).1.1 := by
  have hAll := (executed_of_handed h hLabels (hLabel ▸ List.mem_map_of_mem hMem)).1
  have hDirect : d ∈ direct now start (earlier ++ [ticket]) := by
    rw [← hAll, ← h.deliveries, List.append_assoc]
    exact List.mem_append_left _ hMem
  rw [direct_last] at hDirect
  rcases List.mem_append.1 hDirect with hEarlier | hOwn
  · -- The deliveries before it have other labels.
    exfalso
    have hAgain : d.label ∈ earlier.map (·.label) := by
      rw [← direct_labels now start earlier]
      exact List.mem_map_of_mem hEarlier
    rw [List.map_append] at hLabels
    exact (List.nodup_append.1 hLabels).2.2 _ hAgain _ (List.mem_singleton.2 rfl) hLabel
  · rw [List.mem_singleton.1 hOwn]
    rfl

/-- Waiting ends with the outcome of the own submission, and then nothing is on its way, or it ends
because patience does. -/
theorem await_ends (hStart : start.Sound)
    (h : Carries now start executed (earlier ++ [ticket]) handed q)
    (hLabels : ((earlier ++ [ticket]).map (·.label)).Nodup) (count : Int)
    (rounds : List (List Move)) :
    let r := q.await now ticket.label count rounds
    (∃ executed' handed', Carries now start executed' (earlier ++ [ticket]) handed' r.2) ∧
      (r.1.1 = .error (.ofStatus .timeout) ∨
        r.1.1 = (submission now ticket.submission (left now start earlier)).1.1 ∧ r.2.Idle) := by
  induction rounds generalizing executed handed q with
  | nil => exact ⟨⟨executed, handed, h⟩, .inl rfl⟩
  | cons ms rounds ih =>
      obtain ⟨executed', hMoved⟩ := carries_moves hStart h ms
      have hFetched := carries_dequeue hMoved count
      unfold await
      dsimp only
      rcases hFound : Delivery.to? ticket.label ((q.moves now ms).2.dequeue count).1
        with _ | outcome
      · exact ih hFetched
      · obtain ⟨d, hFirst, rfl⟩ := Option.map_eq_some_iff.1 hFound
        have hLabel : d.label = ticket.label := by simpa using List.find?_some hFirst
        have hMem := List.mem_append_right handed (List.mem_of_find?_eq_some hFirst)
        refine ⟨⟨_, _, hFetched⟩, .inr ⟨outcome_of_handed hFetched hLabels hMem hLabel, ?_⟩⟩
        refine idle_of_handed hFetched hLabels ?_
        rw [← hLabel]
        exact List.mem_map_of_mem hMem

/-- A submission that finds room is carried, and its caller gets its outcome or loses patience. -/
theorem carryAmid_ends (hStart : start.Sound) (h : Carries now start executed earlier handed q)
    (hRoom : q.isFull = false) (hLabels : ((earlier ++ [ticket]).map (·.label)).Nodup) (count : Int)
    (rounds : List (List Move)) :
    let r := q.carryAmid rounds now ticket.label count ticket.submission
    (∃ executed' handed', Carries now start executed' (earlier ++ [ticket]) handed' r.2) ∧
      (r.1.1 = .error (.ofStatus .timeout) ∨
        r.1.1 = (submission now ticket.submission (left now start earlier)).1.1 ∧ r.2.Idle) := by
  have hWaiting := await_ends hStart (carries_dispatch h ticket) hLabels count rounds
  unfold carryAmid
  rw [dispatch_roomy h hRoom]
  exact hWaiting

end

end Queue

/-! ## One call -/

/-- A caller's batches, the queue, and what was asked for. -/
structure Caller where
  batches : Nat → Batch
  link : Queue
  /-- The tickets of the submissions, in the order of the calls. -/
  asked : List Ticket := []

namespace Caller

/-- A call of `exec`: on which of the caller's batches, what is asked for, what the worker does
before the call, and what it does in the rounds of waiting until patience ends. -/
structure Call where
  which : Nat
  options : ExecOptions
  before : List Queue.Move
  rounds : List (List Queue.Move)

/-- What goes to the store for a batch. -/
def submission (σ : Caller) (i : Nat) : Submission :=
  ⟨(σ.batches i).commands, (σ.batches i).atomic⟩

/-- The queue that a call finds. -/
def found (now : Float) (k : Call) (σ : Caller) : Queue := (σ.link.moves now k.before).2

/-- A call of a client that takes `count` deliveries at a time. A batch without commands does not
go to the queue. -/
def call (client : Client) (now : Float) (count : Int) (k : Call) (σ : Caller) :
    Executed × Caller :=
  let b := σ.batches k.which
  let label := σ.asked.length
  let r := client.exec (Queue.carryAmid k.rounds now label count) k.options b (σ.found now k)
  let asked :=
    if b.commands.isEmpty then σ.asked else σ.asked ++ [⟨label, σ.submission k.which⟩]
  (r.1, { batches := Function.update σ.batches k.which r.1.batch, link := r.2, asked })

/-- Calls one after another. -/
def calls (client : Client) (now : Float) (count : Int) :
    List Call → Caller → List Executed × Caller
  | [], σ => ([], σ)
  | k :: ks, σ =>
    let r := call client now count k σ
    let later := calls client now count ks r.2
    (r.1 :: later.1, later.2)

/-- The queue that a call finds has room for its submission. -/
def HasRoom (now : Float) (k : Call) (σ : Caller) : Prop :=
  (σ.batches k.which).commands ≠ [] → (σ.found now k).isFull = false

/-- No call finds the queue full. -/
def NeverFull (client : Client) (now : Float) (count : Int) : List Call → Caller → Prop
  | [], _ => True
  | k :: ks, σ =>
    σ.HasRoom now k ∧ NeverFull client now count ks (call client now count k σ).2

/-- What holds of a caller between its calls: no batch is submitted, and the queue carries what
was asked for, from a store on. -/
structure Kept (now : Float) (start : Store) (σ : Caller) : Prop where
  batches : ∀ i, (σ.batches i).state ≠ .submitted
  labels : σ.asked.map (·.label) = List.range σ.asked.length
  carries : ∃ executed handed, Queue.Carries now start executed σ.asked handed σ.link

section

variable {client : Client} {now : Float} {count : Int} {start : Store} {σ : Caller}

theorem Kept.found (hStart : start.Sound) (h : σ.Kept now start) (k : Call) :
    ∃ executed handed, Queue.Carries now start executed σ.asked handed (σ.found now k) := by
  obtain ⟨executed, handed, hCarries⟩ := h.carries
  obtain ⟨executed', hMoved⟩ := Queue.carries_moves hStart hCarries k.before
  exact ⟨executed', handed, hMoved⟩

theorem call_empty (hStart : start.Sound) (hOpen : client.closed = false) (h : σ.Kept now start)
    (count : Int) (k : Call) (hEmpty : (σ.batches k.which).commands = []) :
    let done := call client now count k σ
    done.1.result = .ok [] ∧ done.1.batch = { σ.batches k.which with state := .completed } ∧
      done.2.asked = σ.asked ∧ done.2.Kept now start ∧ done.2.submission = σ.submission := by
  intro done
  obtain ⟨hResult, hBatch, hLink⟩ := Client.exec_empty hOpen (h.batches k.which) hEmpty
    (Queue.carryAmid k.rounds now σ.asked.length count) k.options (σ.found now k)
  have hAsked : done.2.asked = σ.asked := by
    show (if (σ.batches k.which).commands.isEmpty then _ else _) = _
    rw [hEmpty]
    rfl
  obtain ⟨hStates, hSame⟩ :=
    settled_update h.batches k.which ⟨.completed, BatchState.noConfusion, hBatch⟩
  refine ⟨hResult, hBatch, hAsked, ⟨hStates, ?_, ?_⟩, hSame⟩
  · rw [hAsked]
    exact h.labels
  · rw [hAsked]
    obtain ⟨executed, handed, hCarries⟩ := h.found hStart k
    refine ⟨executed, handed, ?_⟩
    show Queue.Carries _ _ _ _ _ (client.exec _ _ _ _).2
    rw [hLink]
    exact hCarries

/-- The ways in which a call on a batch with commands ends: with which result and batch, and
before which queue. Directly before the call the store is `before`; executed there, the submission
answers `outcome` and leaves `after`. -/
inductive Closes (o : ExecOptions) (b : Batch) (before : Store) (outcome : Outcome)
    (after : Store) : Except Failure (List Datum) → Batch → Queue → Prop
  | timedOut {q : Queue} : Closes o b before outcome after (.error (.ofStatus .timeout))
      { b with state := .failed } q
  | ended {result : Except Failure (List Datum)} {b' : Batch} {q : Queue}
      (hEnds : Ends o b before outcome after .carried result b' after) (hIdle : q.Idle)
      (hStore : q.store = .memory after) : Closes o b before outcome after result b' q

/-- Nothing about the batch changes but its state. -/
theorem Closes.batch_eq {o : ExecOptions} {b b' : Batch} {before after : Store} {outcome : Outcome}
    {result : Except Failure (List Datum)} {q : Queue}
    (h : Closes o b before outcome after result b' q) :
    ∃ state, state ≠ .submitted ∧ b' = { b with state } := by
  cases h with
  | timedOut => exact ⟨.failed, BatchState.noConfusion, rfl⟩
  | ended hEnds _ _ => exact hEnds.batch_eq

theorem call_carried (hStart : start.Sound) (hOpen : client.closed = false) (h : σ.Kept now start)
    (count : Int) (k : Call) (hCommands : (σ.batches k.which).commands ≠ [])
    (hRoom : σ.HasRoom now k) :
    let ticket : Ticket := ⟨σ.asked.length, σ.submission k.which⟩
    let before := Queue.left now start σ.asked
    let direct := Store.submission now ticket.submission before
    let done := call client now count k σ
    done.2.asked = σ.asked ++ [ticket] ∧ done.2.Kept now start ∧
      done.2.submission = σ.submission ∧
      Closes k.options (σ.batches k.which) before direct.1.1 direct.2 done.1.result done.1.batch
        done.2.link := by
  intro ticket before direct done
  have hAsked : done.2.asked = σ.asked ++ [ticket] := by
    show (if (σ.batches k.which).commands.isEmpty then _ else _) = _
    rw [if_neg (by simpa using hCommands)]
  have hLabels : (σ.asked ++ [ticket]).map (·.label) = List.range (σ.asked.length + 1) := by
    rw [List.map_append, h.labels, List.range_succ]
    rfl
  obtain ⟨executed, handed, hCarries⟩ := h.found hStart k
  obtain ⟨⟨executed', handed', hCarried⟩, hOutcome⟩ := Queue.carryAmid_ends hStart hCarries
    (hRoom hCommands) (hLabels ▸ List.nodup_range) count k.rounds
  obtain ⟨hResult, hBatch, hLink⟩ := Client.exec_carried (s := σ.submission k.which) hOpen
    (h.batches k.which) hCommands rfl (Queue.carryAmid k.rounds now σ.asked.length count) k.options
    (σ.found now k)
  have hCarriedOn :
      Queue.Carries now start executed' (σ.asked ++ [ticket]) handed' done.2.link := by
    show Queue.Carries _ _ _ _ _ (client.exec _ _ _ _).2
    rw [hLink]
    exact hCarried
  have hCloses : Closes k.options (σ.batches k.which) before direct.1.1 direct.2 done.1.result
      done.1.batch done.2.link := by
    show Closes _ _ _ _ _ (client.exec _ _ _ _).1.result (client.exec _ _ _ _).1.batch
      (client.exec _ _ _ _).2
    rw [hResult, hBatch, hLink]
    rcases hOutcome with hLate | ⟨hOwn, hIdle⟩
    · rw [hLate]
      exact .timedOut
    · rw [hOwn]
      have hLength (replies : Replies) (hOk : direct.1.1 = .ok replies) :
          replies.length = (σ.batches k.which).commands.length :=
        (Store.submission_ok (Queue.left_sound now hStart σ.asked) hOk).1
      refine .ended (Client.conclude_ends k.options (σ.batches k.which) before direct.2 direct.1.1
        hLength .carried) hIdle ?_
      rw [hCarried.store_of_idle hIdle.taken hIdle.queued, Queue.left_append]
      rfl
  obtain ⟨hStates, hSame⟩ := settled_update h.batches k.which hCloses.batch_eq
  refine ⟨hAsked, ⟨hStates, ?_, ?_⟩, hSame, hCloses⟩
  · rw [hAsked, hLabels, List.length_append]
    rfl
  · rw [hAsked]
    exact ⟨executed', handed', hCarriedOn⟩

/-! ## Rows of calls -/

/-- The submissions of a row of calls; empty ones are not handed in. -/
def submissions (submission : Nat → Submission) (ks : List Call) : List Submission :=
  (ks.map fun k => submission k.which).filter fun b => !b.commands.isEmpty

/-- A row of calls leaves a caller as it should be, and asks for the submissions in their order. -/
theorem calls_kept (hStart : start.Sound) (hOpen : client.closed = false) (count : Int)
    (ks : List Call) (h : σ.Kept now start) (hRoom : NeverFull client now count ks σ) :
    let past := (calls client now count ks σ).2
    past.Kept now start ∧ past.submission = σ.submission ∧
      past.asked.map (·.submission) =
        σ.asked.map (·.submission) ++ submissions σ.submission ks := by
  induction ks generalizing σ with
  | nil => exact ⟨h, rfl, by simp [calls, submissions]⟩
  | cons k ks ih =>
      obtain ⟨hHere, hLater⟩ := hRoom
      by_cases hEmpty : (σ.batches k.which).commands = []
      · obtain ⟨-, -, hAsked, hKept, hSame⟩ := call_empty hStart hOpen h count k hEmpty
        obtain ⟨hPast, hPastSame, hPastAsked⟩ := ih hKept hLater
        refine ⟨hPast, hPastSame.trans hSame, hPastAsked.trans ?_⟩
        rw [hAsked, hSame]
        simp [submissions, submission, hEmpty]
      · obtain ⟨hAsked, hKept, hSame, -⟩ := call_carried hStart hOpen h count k hEmpty hHere
        obtain ⟨hPast, hPastSame, hPastAsked⟩ := ih hKept hLater
        refine ⟨hPast, hPastSame.trans hSame, hPastAsked.trans ?_⟩
        rw [hAsked, hSame]
        simp [submissions, submission, hEmpty]

/-- A client over a queue with a worker, after any row of calls that never found the queue full.

No batch is submitted. The store is left by the first of the submissions in the order of the
calls, each executed once and directly; the others wait or are taken by the worker, and when there
are none of these, all are executed. A further call on a batch with commands loses patience, or it
ends with the outcome that its own submission has behind all those before it, whether their calls
lost patience or not; and then nothing of an earlier call is on its way any more. -/
theorem each_call_its_own_outcome (hOpen : client.closed = false) {start : Store}
    (hStart : start.Reachable) (now : Float) (count : Int) (capacity batchSize room : Int)
    {batches : Nat → Batch} (hBatches : ∀ i, (batches i).state ≠ .submitted) (earlier : List Call) :
    let queue : Queue := { capacity, batchSize, room, worker := .running, store := .memory start }
    let σ : Caller := { batches, link := queue }
    NeverFull client now count earlier σ →
      let past := (calls client now count earlier σ).2
      past.asked.map (·.submission) = submissions σ.submission earlier ∧
      (∀ i, (past.batches i).state ≠ .submitted) ∧
      (∃ executed, past.asked = executed ++ past.link.taken ++ past.link.queued ∧
        past.link.store = .memory (Queue.left now start executed)) ∧
      (past.link.taken = [] → past.link.queued = [] →
        past.link.store = .memory (Queue.left now start past.asked)) ∧
      ∀ k, let b := past.batches k.which
        let ticket : Ticket := ⟨past.asked.length, past.submission k.which⟩
        let before := Queue.left now start past.asked
        let direct := Store.submission now ticket.submission before
        let done := call client now count k past
        (b.commands = [] → done.1.result = .ok [] ∧
          done.1.batch = { b with state := .completed } ∧ done.2.asked = past.asked) ∧
        (b.commands ≠ [] → past.HasRoom now k → done.2.asked = past.asked ++ [ticket] ∧
          Closes k.options b before direct.1.1 direct.2 done.1.result done.1.batch
            done.2.link) := by
  intro queue σ hRoom past
  have hSound := Store.reachable_sound hStart
  have hNew : σ.Kept now start := ⟨hBatches, rfl, [], [], rfl, rfl, rfl, rfl, rfl⟩
  obtain ⟨hKept, hSame, hAsked⟩ := calls_kept hSound hOpen count earlier hNew hRoom
  obtain ⟨executed, handed, hCarries⟩ := hKept.carries
  refine ⟨hAsked, hKept.batches, ⟨executed, hCarries.accepted, hCarries.store⟩,
    hCarries.store_of_idle, fun k => ⟨?_, ?_⟩⟩
  · intro hEmpty
    obtain ⟨hResult, hBatch, hSameAsked, -⟩ := call_empty hSound hOpen hKept count k hEmpty
    exact ⟨hResult, hBatch, hSameAsked⟩
  · intro hCommands hHere
    obtain ⟨hMore, -, -, hCloses⟩ := call_carried hSound hOpen hKept count k hCommands hHere
    exact ⟨hMore, hCloses⟩

end

/-- A call that loses patience after a round, and one behind it that drops the delivery to the
first and waits for its own. -/
theorem each_call_its_own_outcome_pings :
    let new : Store := { databases := [.empty] }
    let batches : Nat → Batch := fun _ => { atomic := true, commands := [⟨.ping, []⟩] }
    let queue : Queue :=
      { capacity := 1, batchSize := 10, room := 1, worker := .running, store := .memory new }
    let late : Call := ⟨0, {}, [], [[.take 9]]⟩
    let prompt : Call := ⟨0, {}, [.work, .put], [[.take 9, .work], [.put]]⟩
    let past := (calls { started := true } 0.0 10 [late, prompt] { batches, link := queue }).2
    new.Reachable ∧ NeverFull { started := true } 0.0 10 [late, prompt] { batches, link := queue } ∧
      past.asked.map (·.submission) = [⟨[⟨.ping, []⟩], true⟩, ⟨[⟨.ping, []⟩], true⟩] := by
  intro new batches queue late prompt past
  have hReachable : new.Reachable := ⟨1, new, [], rfl, rfl⟩
  have hRoom : NeverFull { started := true } 0.0 10 [late, prompt] { batches, link := queue } :=
    ⟨fun _ => rfl, fun _ => rfl, trivial⟩
  exact ⟨hReachable, hRoom, (each_call_its_own_outcome rfl hReachable 0.0 10 1 10 1
    (fun _ => BatchState.noConfusion) [late, prompt] hRoom).1⟩

/-- The delivery to a call that lost patience does not end the next call. -/
example :
    (calls { started := true } 0.0 10
      [⟨0, {}, [], [[.take 9]]⟩, ⟨0, {}, [.work, .put], [[.take 9, .work], [.put]]⟩]
      { batches := fun _ => { atomic := true, commands := [⟨.ping, []⟩] }
        link := { capacity := 1, room := 1, worker := .running,
                  store := .memory { databases := [.empty] } } }).1.map (·.result) =
      [.error (.ofStatus .timeout), .ok [.text "PONG"]] := by rfl

end Caller

end BatchStore
