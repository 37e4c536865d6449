import BatchStore.Proofs.Client.Session
import BatchStore.Proofs.Transport.Flushes
import BatchStore.Transport.Queue

/-!
# No answer out of place

Replies travel a long way: from the store through the checks of an executor, over a transport and
through the hands of its worker, to a client that counts them once more. Each part relies on the
one before to keep replies and commands together, and asserts it.

An executor hands on nothing that does not fit, whatever the store is. And before a store in memory
no assertion can fail: what the store answers fits (`Store.aligned_oneByOne`), a transport delivers
to each label what was answered to its submission, and so a client finds as many replies as it sent
commands. On the way, `Under` says what a label stands for: one submission, in whatever tickets are
under it, and outcomes that are `Fair` to that submission. Every move of a transport keeps this.

`completions_aligned` puts the three together.
-/

namespace BatchStore

open Store

/-- An outcome that a caller of a submission may get: one that fits, and no broken promise. -/
structure Fair (b : Submission) (o : Outcome) : Prop where
  aligned : Aligned Datum.isRefusal b o
  kept : ∀ breach, o ≠ .error (.fault (.breach breach))

namespace Fair

variable {b : Submission}

theorem of_error {e : Failure} (h : ∀ breach, e ≠ .fault (.breach breach)) :
    Fair b (.error e) :=
  ⟨trivial, fun breach hSame => h breach (Except.error.inj hSame)⟩

/-- What a sound store answers to a submission is fair to it. -/
theorem of_submission (now : Float) (b : Submission) {s : Store} (hs : s.Sound) :
    Fair b (submission now b s).1.1 :=
  ⟨aligned_submission hs, fun breach hSame => submission_error hs hSame (.breach breach) rfl⟩

/-- So is what chance makes of it. -/
theorem of_answer (now : Float) (b : Submission) {s : Store} (hs : s.Sound) (fate : Fate) :
    Fair b (Shuffle.answer fate (submission now b s).1.1) := by
  cases fate with
  | carried => exact of_submission now b hs
  | lostBefore | lostAfter => exact of_error fun _ h => nomatch h

end Fair

/-! ## What is under a label -/

/-- No ticket and no delivery is under a label. -/
structure Unused (label : Nat) (ts : List Ticket) (ds : List Delivery) : Prop where
  tickets : ∀ t ∈ ts, t.label ≠ label
  deliveries : ∀ d ∈ ds, d.label ≠ label

/-- The tickets under a label are of one submission, and the deliveries under it are fair to it. -/
structure Under (label : Nat) (b : Submission) (ts : List Ticket) (ds : List Delivery) : Prop where
  tickets : ∀ t ∈ ts, t.label = label → t.submission = b
  deliveries : ∀ d ∈ ds, d.label = label → Fair b d.outcome

namespace Under

variable {label : Nat} {b : Submission} {ts us : List Ticket} {ds es : List Delivery}

theorem of_unused (h : Unused label ts ds) (b : Submission) : Under label b ts ds :=
  ⟨fun t ht hLabel => absurd hLabel (h.tickets t ht),
    fun d hd hLabel => absurd hLabel (h.deliveries d hd)⟩

theorem mono (h : Under label b ts ds) (hTickets : us ⊆ ts) (hDeliveries : es ⊆ ds) :
    Under label b us es :=
  ⟨fun t ht => h.tickets t (hTickets ht), fun d hd => h.deliveries d (hDeliveries hd)⟩

/-- A ticket of the submission itself. -/
theorem put (h : Under label b ts ds) : Under label b (⟨label, b⟩ :: ts) ds :=
  ⟨List.forall_mem_cons.2 ⟨fun _ => rfl, h.tickets⟩, h.deliveries⟩

/-- The delivery that a caller waits for is fair. -/
theorem found (h : Under label b ts ds) {o : Outcome} (hFound : Delivery.to? label ds = some o) :
    Fair b o := by
  obtain ⟨d, hFirst, rfl⟩ := Option.map_eq_some_iff.1 hFound
  exact h.deliveries d (List.mem_of_find?_eq_some hFirst) (by simpa using List.find?_some hFirst)

/-- Outcomes that are fair to the submissions of some tickets. -/
theorem answered (h : Under label b ts ds) {os : List Outcome}
    (hFair : List.Forall₂ Fair (ts.map (·.submission)) os) :
    Under label b [] (Ticket.deliveries ts os) := by
  refine ⟨fun _ hNone => (List.not_mem_nil hNone).elim, fun d hd hLabel => ?_⟩
  obtain ⟨i, hi, rfl⟩ := List.getElem_of_mem hd
  have hLength : i < ts.length ∧ i < os.length := by
    simpa [Ticket.deliveries, List.length_zipWith, Nat.lt_min] using hi
  have hTicket : (Ticket.deliveries ts os)[i] = ts[i].delivery os[i] := List.getElem_zipWith
  rw [hTicket] at hLabel ⊢
  have hOwn : Fair ts[i].submission os[i] := by
    have hGet := (List.forall₂_iff_get.1 hFair).2 i (by simpa using hLength.1) hLength.2
    simpa using hGet
  rw [h.tickets ts[i] (List.getElem_mem hLength.1) hLabel] at hOwn
  exact hOwn

end Under

/-! ## A transport that shuffles and loses -/

namespace Shuffle

/-- A transport before a sound store, with a submission under a label. -/
structure Serves (label : Nat) (b : Submission) (t : Shuffle) : Prop where
  hasExecutor : t.hasExecutor = true
  store : ∃ s, s.Sound ∧ t.store = .memory s
  under : Under label b t.pending t.done

variable {label : Nat} {b : Submission} {t : Shuffle}

theorem serves_dispatch (hExecutor : t.hasExecutor = true) {s : Store} (hs : s.Sound)
    (hStore : t.store = .memory s) (hUnused : Unused label t.pending t.done) (b : Submission) :
    (t.dispatch ⟨label, b⟩).Serves label b :=
  ⟨hExecutor, ⟨s, hs, hStore⟩,
    (Under.of_unused hUnused b).put.mono (dispatch_perm t ⟨label, b⟩).subset (List.Subset.refl _)⟩

theorem serves_flush (h : t.Serves label b) (now : Float) :
    (t.flush now).1.1 = .ok () ∧ (t.flush now).2.Serves label b := by
  obtain ⟨s, hs, hStore⟩ := h.store
  obtain ⟨hFlushed, hPending, hExecutor, hAfter, hDone⟩ := flush_told hs now h.hasExecutor hStore
  refine ⟨hFlushed, hExecutor, ⟨_, told_sound (t.next now) hs, hAfter⟩, ?_, fun d hd hLabel => ?_⟩
  · rw [hPending]
    exact fun _ hNone => nomatch hNone
  · rcases List.mem_append.1 (hDone.subset hd) with hEarlier | hTold
    · exact h.under.deliveries d hEarlier hLabel
    · -- The ticket that was taken up for it has waited under the same label.
      obtain ⟨before, e, later, hDrawn, rfl⟩ := mem_told hTold
      have hWaited : e.ticket ∈ t.pending := by
        rw [← next_tickets now t, hDrawn]
        simp
      have hSame : e.ticket.submission = b := h.under.tickets e.ticket hWaited hLabel
      subst hSame
      exact Fair.of_answer e.now e.ticket.submission (told_sound before hs) e.fate

theorem serves_dequeue (h : t.Serves label b) (n : Int) :
    Under label b [] (t.dequeue n).1 ∧ (t.dequeue n).2.Serves label b := by
  have hTaken : (t.dequeue n).1 ⊆ t.done :=
    ((List.drop_sublist _ _).trans (List.take_sublist _ _)).subset
  have hLeft : (t.dequeue n).2.done ⊆ t.done := (List.drop_sublist _ _).subset
  exact ⟨h.under.mono (List.nil_subset _) hTaken, h.hasExecutor, h.store,
    h.under.mono (List.Subset.refl _) hLeft⟩

/-- However long a caller waits, the outcome is fair. -/
theorem await_fair (h : t.Serves label b) (now : Float) (count : Int) (rounds : Nat) :
    Fair b (t.await now label count rounds).1.1 := by
  induction rounds generalizing t with
  | zero => exact Fair.of_error fun _ hTimeout => nomatch hTimeout
  | succ rounds ih =>
      obtain ⟨hFlushed, hServes⟩ := serves_flush h now
      obtain ⟨hTaken, hLeft⟩ := serves_dequeue hServes count
      rw [await]
      rcases hFlush : t.flush now with ⟨⟨flushed, reports⟩, t'⟩
      rw [hFlush] at hFlushed hTaken hLeft
      subst hFlushed
      dsimp only
      rcases hFound : Delivery.to? label (t'.dequeue count).1 with _ | outcome
      · exact ih hLeft
      · exact hTaken.found hFound

end Shuffle

/-! ## A queue with a worker -/

namespace Queue

/-- A queue before a sound store, with a submission under a label. -/
structure Serves (label : Nat) (b : Submission) (q : Queue) : Prop where
  store : ∃ s, s.Sound ∧ q.store = .memory s
  under : Under label b (q.queued ++ q.taken) (q.inHand ++ q.done)

variable {label : Nat} {b : Submission} {q : Queue}

theorem serves_take (h : q.Serves label b) (more : Nat) : (q.take more).Serves label b := by
  unfold take
  split
  · refine ⟨h.store, h.under.mono ?_ (List.Subset.refl _)⟩
    intro t ht
    rcases List.mem_append.1 ht with hLeft | hTaken
    · exact List.mem_append_left _ (List.mem_of_mem_drop hLeft)
    · exact List.mem_append_left _ (List.mem_of_mem_take hTaken)
  · exact h

theorem serves_join (h : q.Serves label b) : q.join.Serves label b := by
  unfold join
  split
  · exact h
  · refine ⟨h.store, h.under.mono ?_ (List.Subset.refl _)⟩
    intro t ht
    rcases List.mem_append.1 ht with hLeft | hTaken
    · exact List.mem_append_left _ (List.mem_of_mem_drop hLeft)
    · rcases List.mem_append.1 hTaken with hEarlier | hJoined
      · exact List.mem_append_right _ hEarlier
      · exact List.mem_append_left _ (List.mem_of_mem_take hJoined)

theorem serves_work (h : q.Serves label b) (now : Float) : (q.work now).2.Serves label b := by
  unfold work
  split
  · exact h
  · obtain ⟨s, hs, hStore⟩ := h.store
    obtain ⟨hAnswer, hAfter⟩ := serve_oneByOne now (q.taken.map (·.submission)) hs
    have hTaken : Under label b q.taken q.done :=
      h.under.mono (List.subset_append_right _ _) (List.subset_append_right _ _)
    have hNew := hTaken.answered
      (forall₂_oneByOne (Fair.of_submission now) (q.taken.map (·.submission)) hs)
    rw [hStore]
    refine ⟨⟨_, oneByOne_sound now _ hs, hAfter⟩, ?_, ?_⟩
    · rw [List.append_nil]
      exact fun t ht => h.under.tickets t (List.mem_append_left _ ht)
    · simp only [hAnswer]
      intro d hd
      rcases List.mem_append.1 hd with hHand | hDone
      · rcases List.mem_append.1 hHand with hEarlier | hAnswered
        · exact h.under.deliveries d (List.mem_append_left _ hEarlier)
        · exact hNew.deliveries d hAnswered
      · exact h.under.deliveries d (List.mem_append_right _ hDone)

theorem serves_put (h : q.Serves label b) : q.put.Serves label b := by
  unfold put
  split
  · exact h
  · rename_i d ds hHand
    split
    · exact h
    · refine ⟨h.store, h.under.mono (List.Subset.refl _) ?_⟩
      rw [hHand, ← List.append_assoc]
      exact (List.perm_append_singleton d (ds ++ q.done)).subset

theorem serves_move (h : q.Serves label b) (now : Float) (m : Move) :
    (q.move now m).2.Serves label b := by
  unfold move
  split
  · cases m with
    | take more => exact serves_take h more
    | join => exact serves_join h
    | work => exact serves_work h now
    | put => exact serves_put h
  · exact h

theorem serves_moves (h : q.Serves label b) (now : Float) (ms : List Move) :
    (q.moves now ms).2.Serves label b := by
  induction ms generalizing q with
  | nil => exact h
  | cons m ms ih => exact ih (serves_move h now m)

theorem serves_dequeue (h : q.Serves label b) (n : Int) :
    Under label b [] (q.dequeue n).1 ∧ (q.dequeue n).2.Serves label b := by
  have hTaken : (q.dequeue n).1 ⊆ q.inHand ++ q.done := fun d hd =>
    List.mem_append_right _ (List.mem_of_mem_take hd)
  refine ⟨h.under.mono (List.nil_subset _) hTaken, h.store,
    h.under.mono (List.Subset.refl _) ?_⟩
  exact List.append_subset.2 ⟨List.subset_append_left _ _, fun d hd =>
    List.mem_append_right _ (List.mem_of_mem_drop hd)⟩

/-- Whatever the worker does, and however long a caller waits, the outcome is fair. -/
theorem await_fair (h : q.Serves label b) (now : Float) (count : Int)
    (rounds : List (List Move)) : Fair b (q.await now label count rounds).1.1 := by
  induction rounds generalizing q with
  | nil => exact Fair.of_error fun _ hTimeout => nomatch hTimeout
  | cons ms rounds ih =>
      obtain ⟨hTaken, hLeft⟩ := serves_dequeue (serves_moves h now ms) count
      unfold await
      dsimp only
      rcases hFound : Delivery.to? label ((q.moves now ms).2.dequeue count).1 with _ | outcome
      · exact ih hLeft
      · exact hTaken.found hFound

theorem carryAmid_fair (hExecutor : q.hasExecutor = true) {s : Store} (hs : s.Sound)
    (hStore : q.store = .memory s)
    (hUnused : Unused label (q.queued ++ q.taken) (q.inHand ++ q.done)) (b : Submission)
    (rounds : List (List Move)) (now : Float) (count : Int) :
    Fair b (q.carryAmid rounds now label count b).1.1 := by
  unfold carryAmid
  by_cases hTurned : (decide (q.worker = .dismissed) || q.isFull) = true
  · have hDispatch : q.dispatch ⟨label, b⟩ = (.ok (some turnedAway, [.queueFull]), q) := by
      simp [dispatch, hExecutor, hTurned]
    rw [hDispatch]
    exact Fair.of_error fun _ hSame => nomatch hSame
  · have hDispatch : q.dispatch ⟨label, b⟩ =
        (.ok (none, []), { q with queued := q.queued ++ [⟨label, b⟩] }) := by
      simp [dispatch, hExecutor, hTurned]
    rw [hDispatch]
    have hServes : Serves label b { q with queued := q.queued ++ [⟨label, b⟩] } := by
      refine ⟨⟨s, hs, hStore⟩, (Under.of_unused hUnused b).put.mono ?_ (List.Subset.refl _)⟩
      rw [List.append_assoc]
      exact List.perm_middle.subset
    exact await_fair hServes now count rounds

end Queue

/-! ## The client -/

/-- Over a transport that is fair to its submission, a call of a client breaks no promise. -/
theorem Client.exec_kept {σ : Type} (c : Client)
    (carry : Submission → σ → (Outcome × List Report) × σ) (o : ExecOptions) (b : Batch) (t : σ)
    (hFair : Fair ⟨b.commands, b.atomic⟩ (carry ⟨b.commands, b.atomic⟩ t).1.1) (breach : Breach) :
    (c.exec carry o b t).1.result ≠ .error (.fault (.breach breach)) := by
  by_cases hClosed : c.closed = true
  · simp [exec, hClosed, Failure.ofStatus]
  · have hOpen : c.closed = false := by simpa using hClosed
    by_cases hState : b.state = .submitted
    · simp [exec, hOpen, Batch.submit, hState]
    · by_cases hEmpty : b.commands = []
      · rw [(exec_empty hOpen hState hEmpty carry o t).1]
        intro hSame
        cases hSame
      · rw [(exec_carried hOpen hState hEmpty rfl carry o t).1]
        cases hOutcome : (carry ⟨b.commands, b.atomic⟩ t).1.1 with
        | error e =>
            intro hSame
            exact hFair.kept breach (hOutcome.trans (congrArg _ (Except.error.inj hSame)))
        | ok replies =>
            have hFits := hFair.aligned
            rw [hOutcome] at hFits
            rw [conclude_ok o hFits.1]
            intro hSame
            have hHanded := handOver_handed o replies
            rw [show handOver o replies = _ from hSame] at hHanded
            cases hHanded

/-- Replies and commands stay together.

* Whatever a store answers to the submissions of some tickets, and whatever stands in the place of
  its replies, an executor either finds a broken promise, and then the answers do not fit. Or each
  ticket has one outcome, in order and under its label: if the store broke down, the failure of the
  store in each case, and else its answers, which fit the submissions.
* A sound store in memory breaks no promise to the executor, whatever the submissions.
* Nor does a call of a client find one broken, over either transport before such a store, in
  whatever state the transport is, if the label of the submission is its own. -/
theorem completions_aligned :
    (∀ {ρ : Type} (isFailure : ρ → Bool) (ts : List Ticket)
      (answer : Except Failure (List (Except Failure (List ρ)))),
      match Executor.process isFailure ts answer with
      | .error f => (∃ breach, f = .breach breach) ∧ ∃ outcomes, answer = .ok outcomes ∧
          ¬ List.Forall₂ (Aligned isFailure) (ts.map (·.submission)) outcomes
      | .ok delivered => delivered.map (·.1) = ts.map (·.label) ∧
          match answer with
          | .error e => ∀ d ∈ delivered, d.2 = .error (.storeFailed e)
          | .ok outcomes => delivered.map (·.2) = outcomes ∧
              List.Forall₂ (Aligned isFailure) (ts.map (·.submission)) outcomes) ∧
      ∀ s : Store, s.Sound →
        (∀ (now : Float) (ts : List Ticket), ∃ outcomes,
          ((Backend.memory s).execute now (ts.map (·.submission))).1.1 = .ok outcomes ∧
          Executor.process Datum.isRefusal ts (.ok outcomes) =
            .ok ((ts.map (·.label)).zip outcomes)) ∧
        ∀ (client : Client) (o : ExecOptions) (batch : Batch) (now : Float) (label : Nat)
          (count : Int) (breach : Breach),
          (∀ t : Shuffle, t.hasExecutor = true → t.store = .memory s →
            Unused label t.pending t.done →
            (client.exec (fun b t => t.carry now label b count) o batch t).1.result ≠
              .error (.fault (.breach breach))) ∧
          ∀ (q : Queue) (rounds : List (List Queue.Move)), q.hasExecutor = true →
            q.store = .memory s → Unused label (q.queued ++ q.taken) (q.inHand ++ q.done) →
            (client.exec (Queue.carryAmid rounds now label count) o batch q).1.result ≠
              .error (.fault (.breach breach)) := by
  refine ⟨fun isFailure ts answer => Executor.process_cases ts answer, fun s hs => ⟨?_, ?_⟩⟩
  · intro now ts
    have hFits := aligned_oneByOne now (ts.map (·.submission)) hs
    rw [← (execute_oneByOne now _ s).1] at hFits
    refine ⟨_, rfl, ?_⟩
    unfold Executor.process
    rw [Executor.deliverBy_ok hFits]
    rfl
  · intro client o batch now label count breach
    constructor
    · intro t hExecutor hStore hUnused
      refine client.exec_kept _ o batch t ?_ breach
      exact Shuffle.await_fair (Shuffle.serves_dispatch hExecutor hs hStore hUnused _) now count _
    · intro q rounds hExecutor hStore hUnused
      refine client.exec_kept _ o batch q ?_ breach
      exact Queue.carryAmid_fair hExecutor hs hStore hUnused _ rounds now count

/-- Two tickets before a store in memory, and a call over a queue on which one of them waits. -/
theorem completions_aligned_pings :
    let new : Store := { databases := [.empty] }
    let ping : Submission := ⟨[⟨.ping, []⟩], true⟩
    let queue : Queue := { worker := .running, store := .memory new, queued := [⟨0, ping⟩] }
    let batch : Batch := { atomic := true, commands := [⟨.ping, []⟩] }
    new.Sound ∧
      (∃ outcomes, ((Backend.memory new).execute 0.0 [ping, ping]).1.1 = .ok outcomes ∧
        Executor.process Datum.isRefusal [⟨0, ping⟩, ⟨1, ping⟩] (.ok outcomes) =
          .ok ([0, 1].zip outcomes)) ∧
      Unused 1 (queue.queued ++ queue.taken) (queue.inHand ++ queue.done) ∧
      (({ started := true } : Client).exec (Queue.carryAmid [[.take 9, .work, .put, .put]] 0.0 1 10)
        {} batch queue).1.result ≠ .error (.fault (.breach .resultsPerCommand)) := by
  intro new ping queue batch
  have hSound : new.Sound := sound_new (n := 1) rfl
  have hUnused : Unused 1 (queue.queued ++ queue.taken) (queue.inHand ++ queue.done) :=
    ⟨by simp [queue], by simp [queue]⟩
  obtain ⟨-, hMemory⟩ := completions_aligned
  obtain ⟨hExecutor, hClient⟩ := hMemory new hSound
  refine ⟨hSound, hExecutor 0.0 [⟨0, ping⟩, ⟨1, ping⟩], hUnused, ?_⟩
  exact (hClient { started := true } {} batch 0.0 1 10 .resultsPerCommand).2 queue _ rfl rfl hUnused

end BatchStore
