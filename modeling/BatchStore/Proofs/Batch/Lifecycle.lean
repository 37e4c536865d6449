import BatchStore.Proofs.Batch.Cluster

/-!
# The life of a batch

A batch is called, submitted and finished, in whatever order its holder likes. It takes commands
only while it is being built, and it is never built again once it was submitted. So it grows at the
end and nowhere else, and what its first submission carries is what every later one carries.

`Event` is one thing that a holder may do and `take` what comes of it. `take_eq_ok` says what each
kind of event does if it succeeds, and all that is kept is read from there. `through` is a run over
any events, failing ones included, and `trace` what its events came to: the commands are those of
the calls that came through (`commands_through`), each of them as it ought to be (`Takes`), and a
batch that is no longer being built stays frozen (`Frozen.through`).
-/

namespace BatchStore

/-- The ways of a batch's state: it is submitted, the submission ends one way or the other, and then
it may be submitted again. -/
inductive BatchState.Moves : BatchState → BatchState → Prop where
  | submit : Moves .building .submitted
  | complete : Moves .submitted .completed
  | fail : Moves .submitted .failed
  | submitCompleted : Moves .completed .submitted
  | submitFailed : Moves .failed .submitted

/-- With enough arguments a command is made again from them, taken for values of any type. -/
theorem Command.ofData_self {c : Command} (h : c.type.minArity ≤ c.args.length) :
    Command.ofData c.type (c.args.map Arg.toDatum) = .ok c := by
  have hArgs (args : ArgList) : argsOf c.type (args.map Arg.toDatum) = .ok args := by
    induction args with
    | nil => rfl
    | cons a args ih =>
        rw [List.map_cons, argsOf, Arg.ofDatum?_toDatum, ih]
        rfl
  rw [ofData, List.length_map, if_neg (Nat.not_lt.2 h), hArgs]
  show build c.type c.args = .ok c
  rw [build, if_neg (Nat.not_lt.2 h)]

namespace Batch

/-! ## Events -/

/-- What the holder of a batch may do with it. -/
inductive Event where
  | call (c : Call)
  | submit
  | finish (failed : Bool)

/-- What comes of an event: the batch after it, and a submission if one was handed out. -/
def take (b : Batch) : Event → Except Failure (Batch × Option Submission)
  | .call c => (b.call c).map fun after => (after, none)
  | .submit => b.submit.map fun r => (r.1, some r.2)
  | .finish failed => (b.finish failed).map fun after => (after, none)

/-- The batch after an event. One that fails leaves it as it is. -/
def after (b : Batch) (e : Event) : Batch :=
  match b.take e with
  | .ok r => r.1
  | .error _ => b

/-- The batch after events, one after another. -/
def through (b : Batch) (es : List Event) : Batch := es.foldl after b

/-- What the events came to. -/
def trace : Batch → List Event → List (Event × Except Failure (Option Submission))
  | _, [] => []
  | b, e :: es => (e, (b.take e).map Prod.snd) :: (b.after e).trace es

/-- The command of a call that came through. -/
def addedBy? (cluster : Bool) : Event × Except Failure (Option Submission) → Option Command
  | (.call c, .ok _) => (c.request cluster).toOption.map fun r => ⟨r.1, r.2⟩
  | _ => none

/-- The submission of an event that handed one out. -/
def handedOut? : Event × Except Failure (Option Submission) → Option Submission
  | (_, .ok submission?) => submission?
  | _ => none

@[simp] theorem through_nil (b : Batch) : b.through [] = b := rfl

@[simp] theorem through_cons (b : Batch) (e : Event) (es : List Event) :
    b.through (e :: es) = (b.after e).through es := rfl

/-! ## One event -/

/-- A command that a batch takes: it has enough arguments, each of them a text or octets, and in a
cluster it names no database, whether by its type or spelled out. -/
structure Takes (cluster : Bool) (c : Command) : Prop where
  enough : c.type.minArity ≤ c.args.length
  allowed : cluster = true → c.type.allowedInCluster = true
  keepsDatabase : cluster = true → c.KeepsDatabase

section Event

variable {b after : Batch} {e : Event} {submission? : Option Submission}

theorem append_allowed {t : CommandType} {args : ArgList} (h : b.append t args = .ok after)
    (hCluster : b.cluster = true) : t.allowedInCluster = true := by
  obtain ⟨hBuilding, -, -⟩ := append_eq_ok h
  cases hAllowed : t.allowedInCluster with
  | true => rfl
  | false =>
      unfold append at h
      rw [hBuilding, hCluster, hAllowed] at h
      cases h

/-- A call that comes through adds its command, which is as it ought to be, to a batch that is being
built. -/
theorem call_adds {c : Call} (h : b.call c = .ok after) :
    ∃ args, c.request b.cluster = .ok (c.commandType, args) ∧ b.state = .building ∧
      Takes b.cluster ⟨c.commandType, args⟩ ∧
      after = { b with commands := b.commands ++ [⟨c.commandType, args⟩] } := by
  obtain ⟨args, hRequest, hAppend⟩ := call_eq_ok h
  obtain ⟨hBuilding, hEnough, hAfter⟩ := append_eq_ok hAppend
  have hAllowed := append_allowed hAppend
  refine ⟨args, hRequest, hBuilding, ⟨hEnough, hAllowed, fun hCluster => ?_⟩, hAfter⟩
  rw [hCluster] at hRequest
  exact Call.keepsDatabase_of_request hRequest (hAllowed hCluster)

theorem finish_eq_ok {failed : Bool} (h : b.finish failed = .ok after) :
    b.state = .submitted ∧ after = { b with state := if failed then .failed else .completed } := by
  unfold finish at h
  split at h
  · cases h
  · rename_i hState
    cases h
    exact ⟨by simpa using hState, rfl⟩

/-- What an event does if it succeeds. -/
theorem take_eq_ok (h : b.take e = .ok (after, submission?)) :
    (∃ c args, e = .call c ∧ submission? = none ∧ c.request b.cluster = .ok (c.commandType, args) ∧
        b.state = .building ∧ Takes b.cluster ⟨c.commandType, args⟩ ∧
        after = { b with commands := b.commands ++ [⟨c.commandType, args⟩] }) ∨
      (e = .submit ∧ submission? = some ⟨b.commands, b.atomic⟩ ∧ b.state ≠ .submitted ∧
        after = { b with state := .submitted }) ∨
      ∃ failed, e = .finish failed ∧ submission? = none ∧ b.state = .submitted ∧
        after = { b with state := if failed then .failed else .completed } := by
  cases e with
  | call c =>
      cases hCall : b.call c with
      | error failure =>
          rw [take, hCall] at h
          cases h
      | ok called =>
          rw [take, hCall] at h
          cases h
          obtain ⟨args, hRequest, hBuilding, hTakes, hAfter⟩ := call_adds hCall
          exact .inl ⟨c, args, rfl, rfl, hRequest, hBuilding, hTakes, hAfter⟩
  | submit =>
      cases hSubmit : b.submit with
      | error failure =>
          rw [take, hSubmit] at h
          cases h
      | ok submitted =>
          rw [take, hSubmit] at h
          cases h
          obtain ⟨hState, hAfter, hHanded⟩ := submit_eq_ok (s := submitted.2) hSubmit
          exact .inr (.inl ⟨rfl, congrArg some hHanded, hState, hAfter⟩)
  | finish failed =>
      cases hFinish : b.finish failed with
      | error failure =>
          rw [take, hFinish] at h
          cases h
      | ok finished =>
          rw [take, hFinish] at h
          cases h
          obtain ⟨hState, hAfter⟩ := finish_eq_ok hFinish
          exact .inr (.inr ⟨failed, rfl, rfl, hState, hAfter⟩)

theorem after_of_ok (h : b.take e = .ok (after, submission?)) : b.after e = after := by
  rw [Batch.after, h]

theorem after_of_error {failure : Failure} (h : b.take e = .error failure) : b.after e = b := by
  rw [Batch.after, h]

/-- The mode of a batch is never changed, and its commands only by a call that comes through, which
adds one at the end. -/
theorem after_grows (b : Batch) (e : Event) :
    (b.after e).atomic = b.atomic ∧ (b.after e).cluster = b.cluster ∧
      (b.after e).commands =
        b.commands ++ (addedBy? b.cluster (e, (b.take e).map Prod.snd)).toList := by
  cases hTake : b.take e with
  | error failure =>
      rw [after_of_error hTake]
      cases e <;> exact ⟨rfl, rfl, (List.append_nil _).symm⟩
  | ok r =>
      rw [after_of_ok hTake]
      obtain ⟨c, args, rfl, -, hRequest, -, -, hAfter⟩ | ⟨rfl, -, -, hAfter⟩ |
        ⟨failed, rfl, -, -, hAfter⟩ := take_eq_ok hTake <;> rw [hAfter]
      · refine ⟨rfl, rfl, ?_⟩
        show _ = b.commands ++ (Option.map _ (c.request b.cluster).toOption).toList
        rw [hRequest]
        rfl
      · exact ⟨rfl, rfl, (List.append_nil _).symm⟩
      · exact ⟨rfl, rfl, (List.append_nil _).symm⟩

/-- The state moves on its way or stays. -/
theorem after_moves (b : Batch) (e : Event) :
    (b.after e).state = b.state ∨ b.state.Moves (b.after e).state := by
  cases hTake : b.take e with
  | error failure => exact .inl (by rw [after_of_error hTake])
  | ok r =>
      rw [after_of_ok hTake]
      obtain ⟨c, args, -, -, -, -, -, hAfter⟩ | ⟨-, -, hState, hAfter⟩ |
        ⟨failed, -, -, hState, hAfter⟩ := take_eq_ok hTake <;> rw [hAfter]
      · exact .inl rfl
      · right
        cases hNow : b.state with
        | building => exact .submit
        | submitted => exact absurd hNow hState
        | completed => exact .submitCompleted
        | failed => exact .submitFailed
      · right
        rw [hState]
        cases failed with
        | false => exact .complete
        | true => exact .fail

/-- A call leaves the state. -/
theorem state_after_call (b : Batch) (c : Call) : (b.after (.call c)).state = b.state := by
  cases hCall : b.call c with
  | error failure => rw [after_of_error (by rw [take, hCall]; rfl)]
  | ok called =>
      obtain ⟨args, -, -, -, hAfter⟩ := call_adds hCall
      rw [after_of_ok (by rw [take, hCall]; rfl), hAfter]

theorem submit_fails_iff (b : Batch) :
    (∃ failure, b.submit = .error failure) ↔ b.state = .submitted := by
  cases hState : b.state <;> simp [submit, hState]

theorem finish_fails_iff (b : Batch) (failed : Bool) :
    (∃ failure, b.finish failed = .error failure) ↔ b.state ≠ .submitted := by
  cases hState : b.state <;> simp [finish, hState]

end Event

/-! ## Any events -/

/-- The mode stays, and the commands are those that there were and those of the calls that came
through, in order. -/
theorem through_grows (b : Batch) (es : List Event) :
    (b.through es).atomic = b.atomic ∧ (b.through es).cluster = b.cluster ∧
      (b.through es).commands = b.commands ++ (b.trace es).filterMap (addedBy? b.cluster) := by
  induction es generalizing b with
  | nil => exact ⟨rfl, rfl, (List.append_nil _).symm⟩
  | cons e es ih =>
      obtain ⟨hAtomic, hCluster, hCommands⟩ := after_grows b e
      obtain ⟨hAtomic', hCluster', hCommands'⟩ := ih (b.after e)
      rw [hAtomic] at hAtomic'
      rw [hCluster] at hCluster' hCommands'
      refine ⟨hAtomic', hCluster', ?_⟩
      rw [through_cons, hCommands', hCommands, trace, List.append_assoc, List.filterMap_cons]
      cases addedBy? b.cluster (e, (b.take e).map Prod.snd) <;> rfl

/-- Every command is one that the batch takes. -/
theorem through_takes {b : Batch} (hb : ∀ c ∈ b.commands, Takes b.cluster c) (es : List Event) :
    ∀ c ∈ (b.through es).commands, Takes b.cluster c := by
  induction es generalizing b with
  | nil => exact hb
  | cons e es ih =>
      obtain ⟨-, hCluster, -⟩ := after_grows b e
      have hAfter : ∀ c ∈ (b.after e).commands, Takes (b.after e).cluster c := by
        rw [hCluster]
        cases hTake : b.take e with
        | error failure => rwa [after_of_error hTake]
        | ok r =>
            rw [after_of_ok hTake]
            obtain ⟨c, args, -, -, -, -, hTakes, hAfter⟩ | ⟨-, -, -, hAfter⟩ |
              ⟨failed, -, -, -, hAfter⟩ := take_eq_ok hTake <;> rw [hAfter]
            · intro d hd
              rcases List.mem_append.1 hd with hOld | hNew
              · exact hb d hOld
              · rw [List.mem_singleton.1 hNew]
                exact hTakes
            · exact hb
            · exact hb
      have hRest := ih hAfter
      rwa [hCluster] at hRest

/-! ## Frozen batches -/

/-- A batch that is no longer being built and has the commands and the mode of a submission. -/
structure Frozen (s : Submission) (b : Batch) : Prop where
  notBuilding : b.state ≠ .building
  commands : b.commands = s.commands
  atomic : b.atomic = s.atomic

section Frozen

variable {s : Submission} {b : Batch}

/-- Submitting freezes a batch. -/
theorem frozen_of_submit {after : Batch} (h : b.submit = .ok (after, s)) : after.Frozen s := by
  obtain ⟨-, rfl, rfl⟩ := submit_eq_ok h
  exact ⟨nofun, rfl, rfl⟩

/-- A frozen batch takes no command, stays frozen, and hands out the same submission again. -/
theorem Frozen.take (hb : b.Frozen s) {e : Event} {after : Batch} {submission? : Option Submission}
    (h : b.take e = .ok (after, submission?)) :
    after.Frozen s ∧ ∀ again ∈ submission?, again = s := by
  obtain ⟨-, -, -, -, -, hBuilding, -, -⟩ | ⟨-, rfl, -, rfl⟩ | ⟨failed, -, rfl, -, rfl⟩ :=
    take_eq_ok h
  · exact absurd hBuilding hb.notBuilding
  · refine ⟨⟨nofun, hb.commands, hb.atomic⟩, ?_⟩
    rintro again ⟨⟩
    rw [hb.commands, hb.atomic]
  · refine ⟨⟨?_, hb.commands, hb.atomic⟩, fun _ hNone => nomatch hNone⟩
    cases failed <;> nofun

theorem Frozen.after (hb : b.Frozen s) (e : Event) : (b.after e).Frozen s := by
  cases hTake : b.take e with
  | error failure => rwa [after_of_error hTake]
  | ok r =>
      rw [after_of_ok hTake]
      exact (hb.take hTake).1

/-- Whatever is done with a frozen batch, it stays frozen, and what it hands out is the same. -/
theorem Frozen.through (hb : b.Frozen s) (es : List Event) :
    (b.through es).Frozen s ∧ ∀ again ∈ (b.trace es).filterMap handedOut?, again = s := by
  induction es generalizing b with
  | nil => exact ⟨hb, fun _ hNone => absurd hNone List.not_mem_nil⟩
  | cons e es ih =>
      obtain ⟨hFrozen, hRest⟩ := ih (hb.after e)
      refine ⟨hFrozen, fun again hAgain => ?_⟩
      obtain ⟨entry, hEntry, hOut⟩ := List.mem_filterMap.1 hAgain
      rcases List.mem_cons.1 hEntry with rfl | hLater
      · cases hTake : b.take e with
        | error failure =>
            rw [hTake] at hOut
            cases hOut
        | ok r =>
            rw [hTake] at hOut
            exact (hb.take hTake).2 again hOut
      · exact hRest again (List.mem_filterMap.2 ⟨entry, hLater, hOut⟩)

end Frozen

/-- A batch that is new and does whatever its holder asks for, in any order.

* Its commands are those of the calls that came through, in order, and its mode is the one it was
  made with. Each command has enough arguments and is what its type makes of them, be they values of
  any type. In a cluster none is SELECT, MOVE or SCAN, nor spells one.
* A submission carries the commands of the batch and its mode. From then on, whatever is done, the
  commands stay and every submission is this one again.
* Submitting fails if the batch is submitted and only then, finishing if it is not.
* The state goes its way or stays. It stays in every call, and what fails leaves the whole batch. -/
theorem grows_until_submitted (atomic cluster : Bool) (es : List Event) :
    let new : Batch := { atomic, cluster }
    let b := new.through es
    (b.atomic = atomic ∧ b.cluster = cluster ∧
        b.commands = (new.trace es).filterMap (addedBy? cluster)) ∧
      (∀ c ∈ b.commands,
        c.type.minArity ≤ c.args.length ∧
          Command.ofData c.type (c.args.map Arg.toDatum) = .ok c ∧
          (cluster = true → c.type ∉ [.select, .move, .scan] ∧
            ∀ t words, c.request? = some (t, words) → t ∉ [.select, .move, .scan])) ∧
      (∀ submitted s, b.submit = .ok (submitted, s) →
        s = ⟨b.commands, atomic⟩ ∧
          ∀ later, (submitted.through later).commands = b.commands ∧
            (submitted.through later).atomic = atomic ∧
            ∀ again ∈ (submitted.trace later).filterMap handedOut?, again = s) ∧
      ((∃ failure, b.submit = .error failure) ↔ b.state = .submitted) ∧
      (∀ failed, (∃ failure, b.finish failed = .error failure) ↔ b.state ≠ .submitted) ∧
      (∀ e, (b.after e).state = b.state ∨ b.state.Moves (b.after e).state) ∧
      (∀ c, (b.after (.call c)).state = b.state) ∧
      ∀ e failure, b.take e = .error failure → b.after e = b := by
  intro new b
  obtain ⟨hAtomic, hCluster, hCommands⟩ := through_grows new es
  have hTakes : ∀ c ∈ b.commands, Takes cluster c :=
    through_takes (fun _ hNone => absurd hNone List.not_mem_nil) es
  refine ⟨⟨hAtomic, hCluster, hCommands⟩, ?_, ?_, submit_fails_iff b, finish_fails_iff b,
    after_moves b, state_after_call b, fun e failure => after_of_error⟩
  · intro c hc
    obtain ⟨hEnough, hAllowed, hKeeps⟩ := hTakes c hc
    have hNamed {t : CommandType} (h : t.allowedInCluster = true) :
        t ∉ [.select, .move, .scan] := by
      cases t <;> first | decide | cases h
    exact ⟨hEnough, Command.ofData_self hEnough, fun h =>
      ⟨hNamed (hAllowed h), fun t words hRequest => hNamed (hKeeps h t words hRequest).1⟩⟩
  · intro submitted s hSubmit
    obtain ⟨-, -, hSubmission⟩ := submit_eq_ok hSubmit
    have hMode : s = ⟨b.commands, atomic⟩ := by
      rw [hSubmission]
      exact congrArg (Submission.mk b.commands) hAtomic
    refine ⟨hMode, fun later => ?_⟩
    obtain ⟨hFrozen, hAgain⟩ := (frozen_of_submit hSubmit).through later
    rw [hFrozen.commands, hFrozen.atomic, hMode]
    exact ⟨rfl, rfl, hMode ▸ hAgain⟩

/-- A batch for a cluster that is refused a scan, and whose first submission fails, is submitted
again as it was. -/
theorem grows_until_submitted_twice :
    let once : Event := .call (.get (.text "key"))
    let b := ({ atomic := true, cluster := true } : Batch).through
      [.call (.scan (.text "0") none), once, .submit, once, .finish true]
    let s : Submission := ⟨[⟨.get, [.text "key"]⟩], true⟩
    b.submit = .ok ({ b with state := .submitted }, s) ∧
      (∀ later, (({ b with state := .submitted } : Batch).through later).commands = s.commands) ∧
      ∀ c ∈ b.commands, c.type ∉ [.select, .move, .scan] := by
  intro once b s
  have hSubmit : b.submit = .ok ({ b with state := .submitted }, s) := rfl
  obtain ⟨-, hCommands, hFrozen, -⟩ := grows_until_submitted true true
    [.call (.scan (.text "0") none), once, .submit, once, .finish true]
  refine ⟨hSubmit, fun later => ?_, fun c hc => ((hCommands c hc).2.2 rfl).1⟩
  obtain ⟨-, hLater⟩ := hFrozen _ s hSubmit
  exact (hLater later).1

end Batch

end BatchStore
