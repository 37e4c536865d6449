import BatchStore.Batch
import BatchStore.Journal
import BatchStore.Store.Run

/-!
# Executing submissions

A pipeline runs its commands one by one; a refused command has the refusal in its place
and the others keep their effects. A transaction runs against the store as it is, and
the first command that fails puts everything back. A fault ends either.

Both ask a runner to carry the commands out and know nothing else about them, nor about the state
that the runner works on.
-/

namespace BatchStore

/-- The replies to a submission, one for each command. -/
abbrev Replies := List Datum

/-- How a submission ended: with its replies, or with one failure for all. -/
abbrev Outcome := Except Failure Replies

/-- What carries a command out on a state of some kind. The store's own is `Store.run` at a reading
of the clock. -/
abbrev Runner (σ : Type) := Command → ActOn σ Datum

namespace Store

variable {σ : Type}

/-- Runs commands one by one. A fault leaves what was done so far. -/
def pipeline (carryOut : Runner σ) : List Command → σ → Except Fault Replies × σ
  | [], s => (.ok [], s)
  | c :: cs, s =>
    match carryOut c s with
    | (.error (.faulted f), s) => (.error f, s)
    | (.error (.refused r), s) => follow (.refusal r) (pipeline carryOut cs s)
    | (.ok reply, s) => follow reply (pipeline carryOut cs s)
where
  /-- Puts a reply in front of the replies of the commands behind it. -/
  follow (reply : Datum) : Except Fault Replies × σ → Except Fault Replies × σ
    | (.ok replies, s) => (.ok (reply :: replies), s)
    | (.error f, s) => (.error f, s)

/-- Where and how a transaction failed. -/
structure Stop where
  place : Nat
  command : CommandType
  halt : Halt

/-- Runs commands up to the first that fails. -/
def attempt (carryOut : Runner σ) (place : Nat) : List Command → σ → Except Stop Replies × σ
  | [], s => (.ok [], s)
  | c :: cs, s =>
    match carryOut c s with
    | (.error halt, s) => (.error ⟨place, c.type, halt⟩, s)
    | (.ok reply, s) =>
      match attempt carryOut (place + 1) cs s with
      | (.ok replies, s) => (.ok (reply :: replies), s)
      | (.error stop, s) => (.error stop, s)

/-- How a submission that ended with a fault answers. -/
def brokenDown (f : Fault) : Outcome × List Report :=
  (.error (.storeFailed (.fault f)), [.submissionFailed f])

/-- Executes a submission by means of a runner. -/
def submissionBy (carryOut : Runner σ) (b : Submission) (s : σ) : (Outcome × List Report) × σ :=
  if b.atomic then
    match attempt carryOut 0 b.commands s with
    | (.ok replies, after) => ((.ok replies, []), after)
    | (.error ⟨place, command, .refused r⟩, _) =>
      ((.error (.discarded r), [.rolledBack place b.commands.length command r]), s)
    | (.error ⟨_, _, .faulted f⟩, _) => (brokenDown f, s)
  else
    match pipeline carryOut b.commands s with
    | (.ok replies, after) => ((.ok replies, []), after)
    | (.error f, after) => (brokenDown f, after)

/-- Executes a submission. -/
def submission (now : Float) : Submission → Store → (Outcome × List Report) × Store :=
  submissionBy (run now)

/-- Executes submissions in order. -/
def execute (now : Float) : List Submission → Store → (List Outcome × List Report) × Store
  | [], s => (([], []), s)
  | b :: bs, s =>
    let ((outcome, reports), s) := submission now b s
    let ((outcomes, others), s) := execute now bs s
    ((outcome :: outcomes, reports ++ others), s)

end Store

end BatchStore
