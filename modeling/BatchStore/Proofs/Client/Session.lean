import Mathlib.Logic.Function.Basic
import BatchStore.Client
import BatchStore.Proofs.Transport.Shuffle

/-!
# Calls of a client over a transport that loses

A client executes batches over a transport that shuffles and loses, one call after another:
new batches and batches that were executed before, transactions and pipelines, whatever its
callers ask for. `calls` executes a row of calls, each at a reading of the clock of its own.

The store behind such a client goes through the states of a store that is asked directly.
`exec_refines` says this of a client after any row of calls. The transport is idle, before
and after each call, so that the first round of waiting brings the outcome. The store is the
one that the submissions leave, executed directly and in order, that were not lost before
they reached it. And the next call on a batch that has commands ends in exactly one of three
ways (`Ends`): lost before, lost after, or with what the store answers when it is asked
directly. No call leaves a batch submitted, so that each batch can be executed again.
-/

namespace BatchStore

/-- What a caller gets of the replies: the first refusal, if it asked for that and there is
one, or a result for each command. -/
inductive Handed (o : ExecOptions) (replies : Replies) : Except Failure (List Datum) → Prop
  | raised {before after : List Datum} {r : Refusal} (hRaise : o.raiseOnError = true)
      (hFirst : replies = before ++ .refusal r :: after)
      (hBefore : ∀ d ∈ before, d.isRefusal = false) : Handed o replies (.error (.request r))
  | given (hNone : o.raiseOnError = true → ∀ d ∈ replies, d.isRefusal = false) :
      Handed o replies (.ok (if o.binary then replies else replies.map Datum.readable))

/-- The ways in which a call on a batch ends, by the fate of its submission: with which
result, batch and store. The store that is asked directly answers `outcome` and is `after`
behind it. -/
inductive Ends (o : ExecOptions) (b : Batch) (before : Store) (outcome : Outcome)
    (after : Store) : Fate → Except Failure (List Datum) → Batch → Store → Prop
  | lostBefore : Ends o b before outcome after .lostBefore (.error (.fault .lostBefore))
      { b with state := .failed } before
  | lostAfter : Ends o b before outcome after .lostAfter (.error (.fault .lostAfter))
      { b with state := .failed } after
  | failed {e : Failure} (hOutcome : outcome = .error e) :
      Ends o b before outcome after .carried (.error e) { b with state := .failed } after
  | answered {replies : Replies} {result : Except Failure (List Datum)}
      (hOutcome : outcome = .ok replies) (hLength : replies.length = b.commands.length)
      (hHanded : Handed o replies result) :
      Ends o b before outcome after .carried result { b with state := .completed } after

section Ends

variable {o : ExecOptions} {b b' : Batch} {before after left : Store} {outcome : Outcome}
  {fate : Fate} {result : Except Failure (List Datum)}

/-- Nothing about the batch changes but its state. -/
theorem Ends.batch_eq (h : Ends o b before outcome after fate result b' left) :
    ∃ state, state ≠ .submitted ∧ b' = { b with state } := by
  cases h with
  | answered _ _ _ => exact ⟨.completed, BatchState.noConfusion, rfl⟩
  | _ => exact ⟨.failed, BatchState.noConfusion, rfl⟩

theorem Ends.left_eq (h : Ends o b before outcome after fate result b' left) :
    left = Shuffle.leftBy fate before after := by
  cases h <;> rfl

/-- The fate of a submission, told from the result of the call. -/
def fateOf : Except Failure (List Datum) → Fate
  | .error (.fault .lostBefore) => .lostBefore
  | .error (.fault .lostAfter) => .lostAfter
  | _ => .carried

/-- The store never answers with a bare fault, so there is one fate for each result. -/
theorem Ends.fate_eq (hFault : ∀ e, outcome = .error e → ∀ f, e ≠ .fault f)
    (h : Ends o b before outcome after fate result b' left) : fate = fateOf result := by
  cases h with
  | lostBefore => rfl
  | lostAfter => rfl
  | @failed e hOutcome =>
      cases e with
      | fault f => exact (hFault _ hOutcome f rfl).elim
      | _ => rfl
  | answered _ _ hHanded =>
      cases hHanded with
      | raised _ _ _ => rfl
      | given _ => rfl

end Ends

namespace Client

/-- The replies up to the first refusal, if there is one. -/
theorem firstRefusal?_cases (replies : List Datum) :
    (firstRefusal? replies = none ∧ ∀ d ∈ replies, d.isRefusal = false) ∨
      ∃ before r after, firstRefusal? replies = some r ∧
        replies = before ++ .refusal r :: after ∧ ∀ d ∈ before, d.isRefusal = false := by
  induction replies with
  | nil => exact .inl ⟨rfl, fun _ hMem => nomatch hMem⟩
  | cons d rest ih =>
      by_cases hRefusal : ∃ r, d = .refusal r
      · obtain ⟨r, rfl⟩ := hRefusal
        exact .inr ⟨[], r, rest, rfl, rfl, fun _ hMem => nomatch hMem⟩
      · have hFirst : firstRefusal? (d :: rest) = firstRefusal? rest := by
          cases d with
          | refusal r => exact (hRefusal ⟨r, rfl⟩).elim
          | _ => rfl
        have hHead : d.isRefusal = false := by
          cases d with
          | refusal r => exact (hRefusal ⟨r, rfl⟩).elim
          | _ => rfl
        rw [hFirst]
        rcases ih with ⟨hNone, hClean⟩ | ⟨before, r, after, hSome, hSplit, hClean⟩
        · exact .inl ⟨hNone, List.forall_mem_cons.2 ⟨hHead, hClean⟩⟩
        · refine .inr ⟨d :: before, r, after, hSome, ?_, List.forall_mem_cons.2 ⟨hHead, hClean⟩⟩
          rw [hSplit]
          rfl

theorem handOver_handed (o : ExecOptions) (replies : Replies) :
    Handed o replies (handOver o replies) := by
  unfold handOver
  by_cases hRaise : o.raiseOnError = true
  · rw [if_pos hRaise]
    rcases firstRefusal?_cases replies with
      ⟨hNone, hClean⟩ | ⟨before, r, after, hSome, hSplit, hClean⟩
    · rw [hNone]
      exact .given fun _ => hClean
    · rw [hSome]
      exact .raised hRaise hSplit hClean
  · rw [if_neg hRaise]
    exact .given fun h => (hRaise h).elim

/-- A reply for each command is handed over. -/
theorem conclude_ok (o : ExecOptions) {b : Batch} {replies : Replies}
    (hLength : replies.length = b.commands.length) :
    conclude o { b with state := .submitted } (.ok replies) =
      ⟨handOver o replies, { b with state := .completed }, []⟩ := by
  have hSize : (replies.length != b.size) = false := by
    rw [hLength]
    exact bne_self_eq_false b.commands.length
  unfold conclude
  exact if_neg (ne_true_of_eq_false hSize)

/-- What is recorded of an outcome, by the fate of the submission. -/
theorem conclude_ends (o : ExecOptions) (b : Batch) (before after : Store) (outcome : Outcome)
    (hLength : ∀ replies, outcome = .ok replies → replies.length = b.commands.length)
    (fate : Fate) :
    let done := conclude o { b with state := .submitted } (Shuffle.answer fate outcome)
    Ends o b before outcome after fate done.result done.batch
      (Shuffle.leftBy fate before after) := by
  intro done
  cases fate with
  | lostBefore => exact .lostBefore
  | lostAfter => exact .lostAfter
  | carried =>
      cases outcome with
      | error e => exact .failed rfl
      | ok replies =>
          have hReplies := hLength replies rfl
          have hDone : done = ⟨handOver o replies, { b with state := .completed }, []⟩ :=
            conclude_ok o hReplies
          rw [hDone]
          exact .answered rfl hReplies (handOver_handed o replies)

section Execution

variable {σ : Type} {c : Client} {b : Batch}

theorem submit_eq (hState : b.state ≠ .submitted) :
    b.submit = .ok ({ b with state := .submitted }, ⟨b.commands, b.atomic⟩) := by
  unfold Batch.submit
  exact if_neg (by simpa using hState)

/-- An empty batch is completed without the transport. -/
theorem exec_empty (hOpen : c.closed = false) (hState : b.state ≠ .submitted)
    (hEmpty : b.commands = []) (carry : Submission → σ → (Outcome × List Report) × σ)
    (o : ExecOptions) (t : σ) :
    (c.exec carry o b t).1.result = .ok [] ∧
      (c.exec carry o b t).1.batch = { b with state := .completed } ∧
      (c.exec carry o b t).2 = t := by
  simp [exec, hOpen, submit_eq hState, hEmpty]

/-- A batch with commands is carried and concluded. -/
theorem exec_carried (hOpen : c.closed = false) (hState : b.state ≠ .submitted)
    (hCommands : b.commands ≠ []) {s : Submission} (hSubmission : s = ⟨b.commands, b.atomic⟩)
    (carry : Submission → σ → (Outcome × List Report) × σ) (o : ExecOptions) (t : σ) :
    let done := conclude o { b with state := .submitted } (carry s t).1.1
    (c.exec carry o b t).1.result = done.result ∧ (c.exec carry o b t).1.batch = done.batch ∧
      (c.exec carry o b t).2 = (carry s t).2 := by
  subst hSubmission
  simp [exec, hOpen, submit_eq hState, hCommands]

end Execution

end Client

/-- One of the batches was executed and is not submitted any more. Then none is submitted, and the
same goes to the store for each of them. -/
theorem settled_update {batches : Nat → Batch} (h : ∀ i, (batches i).state ≠ .submitted) (i : Nat)
    {b : Batch} (hBatch : ∃ state, state ≠ .submitted ∧ b = { batches i with state }) :
    let after := Function.update batches i b
    (∀ j, (after j).state ≠ .submitted) ∧
      (fun j => (⟨(after j).commands, (after j).atomic⟩ : Submission)) =
        fun j => ⟨(batches j).commands, (batches j).atomic⟩ := by
  intro after
  have hEach (j : Nat) : ∃ state, state ≠ .submitted ∧ after j = { batches j with state } := by
    by_cases hSame : j = i
    · obtain ⟨state, hState, hb⟩ := hBatch
      refine ⟨state, hState, ?_⟩
      rw [hSame, ← hb]
      exact Function.update_self i b batches
    · exact ⟨(batches j).state, h j, Function.update_of_ne hSame b batches⟩
  constructor
  · intro j
    obtain ⟨state, hState, hb⟩ := hEach j
    rw [hb]
    exact hState
  · funext j
    obtain ⟨state, -, hb⟩ := hEach j
    rw [hb]

/-! ## One call -/

/-- The caller's batches, and the transport. -/
structure Session where
  batches : Nat → Batch
  link : Shuffle

namespace Session

/-- A call of `exec`: on which of the caller's batches, what is asked for, the reading of the
clock, and the label that the transport gives. -/
structure Call where
  which : Nat
  options : ExecOptions
  now : Float
  label : Nat

/-- What goes to the store for a batch. -/
def submission (σ : Session) (i : Nat) : Submission :=
  ⟨(σ.batches i).commands, (σ.batches i).atomic⟩

/-- No batch is submitted, and the transport is idle before a store. -/
structure Ready (σ : Session) (s : Store) : Prop where
  batches : ∀ i, (σ.batches i).state ≠ .submitted
  link : σ.link.Idle s

/-- How the transport carries the submission of a call, for a client that takes `count`
deliveries at a time. -/
def carry (count : Int) (k : Call) (b : Submission) (t : Shuffle) :
    (Outcome × List Report) × Shuffle :=
  t.carry k.now k.label b count

/-- A call of a client. -/
def call (client : Client) (count : Int) (k : Call) (σ : Session) : Executed × Session :=
  let r := client.exec (carry count k) k.options (σ.batches k.which) σ.link
  (r.1, ⟨Function.update σ.batches k.which r.1.batch, r.2⟩)

/-- Calls one after another. -/
def calls (client : Client) (count : Int) : List Call → Session → List Executed × Session
  | [], σ => ([], σ)
  | k :: ks, σ =>
    let r := call client count k σ
    let later := calls client count ks r.2
    (r.1 :: later.1, later.2)

section

variable {client : Client} {count : Int} {σ : Session} {s : Store}

/-- A session in which a batch was executed and is not submitted any more. -/
theorem ready_update (h : σ.Ready s) (i : Nat) {b : Batch} {t : Shuffle} {s' : Store}
    (hBatch : ∃ state, state ≠ .submitted ∧ b = { σ.batches i with state }) (hLink : t.Idle s') :
    Ready ⟨Function.update σ.batches i b, t⟩ s' ∧
      submission ⟨Function.update σ.batches i b, t⟩ = σ.submission := by
  obtain ⟨hStates, hSame⟩ := settled_update h.batches i hBatch
  exact ⟨⟨hStates, hLink⟩, hSame⟩

theorem call_empty (count : Int) (hOpen : client.closed = false) (h : σ.Ready s) (k : Call)
    (hEmpty : (σ.batches k.which).commands = []) :
    let done := call client count k σ
    done.1.result = .ok [] ∧ done.2.Ready s ∧ done.2.submission = σ.submission := by
  obtain ⟨hResult, hBatch, hLink⟩ :=
    Client.exec_empty hOpen (h.batches k.which) hEmpty (carry count k) k.options σ.link
  refine ⟨hResult, ready_update h k.which ⟨.completed, BatchState.noConfusion, hBatch⟩ ?_⟩
  rw [hLink]
  exact h.link

/-- A call on a batch with commands ends in one of the three ways. -/
theorem call_ends (hOpen : client.closed = false) (hCount : 1 ≤ count) (h : σ.Ready s)
    (hs : s.Sound) (k : Call) (hCommands : (σ.batches k.which).commands ≠ []) :
    let direct := Store.submission k.now (σ.submission k.which) s
    let done := call client count k σ
    ∃ fate after, Ends k.options (σ.batches k.which) s direct.1.1 direct.2 fate done.1.result
      done.1.batch after ∧ done.2.Ready after ∧ done.2.submission = σ.submission := by
  intro direct done
  obtain ⟨fate, hAnswer, hIdle, -⟩ :=
    Shuffle.carry_idle h.link hs k.now k.label (σ.submission k.which) hCount
  have hAnswered : (carry count k (σ.submission k.which) σ.link).1.1 =
      Shuffle.answer fate direct.1.1 := hAnswer
  obtain ⟨hResult, hBatch, hLink⟩ := Client.exec_carried (s := σ.submission k.which) hOpen
    (h.batches k.which) hCommands rfl (carry count k) k.options σ.link
  rw [hAnswered] at hResult hBatch
  have hLength (replies : Replies) (hOk : direct.1.1 = .ok replies) :
      replies.length = (σ.batches k.which).commands.length := (Store.submission_ok hs hOk).1
  have hEnds : Ends k.options (σ.batches k.which) s direct.1.1 direct.2 fate done.1.result
      done.1.batch (Shuffle.leftBy fate s direct.2) := by
    show Ends _ _ _ _ _ _ (client.exec (carry count k) _ _ _).1.result
      (client.exec (carry count k) _ _ _).1.batch _
    rw [hResult, hBatch]
    exact Client.conclude_ends k.options (σ.batches k.which) s direct.2 direct.1.1 hLength fate
  refine ⟨fate, _, hEnds, ready_update h k.which hEnds.batch_eq ?_⟩
  rw [hLink]
  exact hIdle

/-! ## Rows of calls -/

/-- The submissions of a row of calls that reached the store, told from the results. -/
def reached (submission : Nat → Submission) : List Call → List Executed → Timeline
  | k :: ks, done :: rest =>
    if (submission k.which).commands.isEmpty || fateOf done.result == .lostBefore then
      reached submission ks rest
    else (k.now, submission k.which) :: reached submission ks rest
  | _, _ => []

/-- After a row of calls the session is ready before the store that the submissions leave
that reached it. -/
theorem calls_ready (hOpen : client.closed = false) (hCount : 1 ≤ count) (h : σ.Ready s)
    (hs : s.Sound) (ks : List Call) :
    (calls client count ks σ).2.Ready
      (Store.history Store.run (reached σ.submission ks (calls client count ks σ).1) s).2 := by
  induction ks generalizing σ s with
  | nil => exact h
  | cons k ks ih =>
      by_cases hEmpty : (σ.batches k.which).commands = []
      · obtain ⟨hResult, hReady, hSame⟩ := call_empty count hOpen h k hEmpty
        have hRest := ih hReady hs
        have hSkip : (σ.submission k.which).commands.isEmpty = true := by
          rw [submission, hEmpty]
          rfl
        rw [hSame] at hRest
        rw [calls, reached, hSkip]
        exact hRest
      · obtain ⟨fate, after, hEnds, hReady, hSame⟩ := call_ends hOpen hCount h hs k hEmpty
        have hFate : fate = fateOf (call client count k σ).1.result :=
          hEnds.fate_eq fun e hError => Store.submission_error hs hError
        have hKeep : (σ.submission k.which).commands.isEmpty = false := by
          rw [← Bool.not_eq_true, List.isEmpty_iff]
          exact hEmpty
        have hAfter : after.Sound := by
          rw [hEnds.left_eq]
          cases fate with
          | lostBefore => exact hs
          | _ => exact Store.submission_sound k.now (σ.submission k.which) hs
        have hRest := ih hReady hAfter
        rw [hSame, hEnds.left_eq] at hRest
        rw [calls, reached, hKeep, Bool.false_or, ← hFate]
        cases fate with
        | lostBefore => exact hRest
        | lostAfter => exact hRest
        | carried => exact hRest

/-- A client over a transport that loses, after any row of calls.

The transport is idle, no batch is submitted, and the store is the one that the submissions
leave, executed directly and in order, that were not lost before they reached it.

A further call on a batch with commands waits for one round and ends in exactly one of the
three ways of `Ends`. Behind it the session is ready again. An empty batch does not go to the
transport. -/
theorem exec_refines (hOpen : client.closed = false) (hCount : 1 ≤ count) (h : σ.Ready s)
    (hs : s.Reachable) (earlier : List Call) :
    let past := calls client count earlier σ
    let before := (Store.history Store.run (reached σ.submission earlier past.1) s).2
    past.2.Ready before ∧ ∀ k : Call,
      let b := past.2.batches k.which
      let submission := past.2.submission k.which
      let direct := Store.submission k.now submission before
      let done := call client count k past.2
      (b.commands = [] → done.1.result = .ok [] ∧ done.2.Ready before) ∧
      (b.commands ≠ [] →
        (past.2.link.dispatch ⟨k.label, submission⟩).AtOnce k.now k.label count ∧
        ∃! fate, ∃ after, Ends k.options b before direct.1.1 direct.2 fate done.1.result
          done.1.batch after ∧ done.2.Ready after) := by
  intro past before
  have hReady : past.2.Ready before :=
    calls_ready hOpen hCount h (Store.reachable_sound hs) earlier
  have hSound : before.Sound := Store.history_sound _ (Store.reachable_sound hs)
  refine ⟨hReady, fun k => ?_⟩
  intro b submission direct done
  constructor
  · intro hEmpty
    obtain ⟨hResult, hAgain, -⟩ := call_empty count hOpen hReady k hEmpty
    exact ⟨hResult, hAgain⟩
  · intro hCommands
    obtain ⟨-, -, -, hRound⟩ :=
      Shuffle.carry_idle hReady.link hSound k.now k.label submission hCount
    obtain ⟨fate, after, hEnds, hAgain, -⟩ := call_ends hOpen hCount hReady hSound k hCommands
    have hFault (e : Failure) (hError : direct.1.1 = .error e) (f : Fault) : e ≠ .fault f :=
      Store.submission_error hSound hError f
    refine ⟨hRound, fate, ⟨after, hEnds, hAgain⟩, ?_⟩
    rintro fate' ⟨after', hEnds', -⟩
    rw [hEnds'.fate_eq hFault, hEnds.fate_eq hFault]

end

/-- A batch that is executed twice, over a transport that loses the first submission. -/
theorem exec_refines_ping :
    let b : Batch := { atomic := true, commands := [⟨.ping, []⟩] }
    let chance : Chance := { uniform := fun i => if i = 0 then 0.0 else 1.0, pick := fun _ => 0 }
    let new : Store := { databases := [.empty] }
    let σ : Session := ⟨fun _ => b, { chance, risk := 0.5, store := .memory new }⟩
    let k : Call := ⟨0, {}, 0.0, 0⟩
    let past := calls { started := true } 10 [k, k] σ
    new.Reachable ∧ σ.Ready new ∧
      past.2.Ready (Store.history Store.run (reached σ.submission [k, k] past.1) new).2 := by
  intro b chance new σ k past
  have hReachable : new.Reachable := ⟨1, new, [], rfl, rfl⟩
  have hReady : σ.Ready new := ⟨fun _ => BatchState.noConfusion, rfl, rfl, rfl, rfl⟩
  exact ⟨hReachable, hReady, (exec_refines rfl (by decide) hReady hReachable [k, k]).1⟩

end Session

end BatchStore
