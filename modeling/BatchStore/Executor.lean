import BatchStore.Store.Execute

/-!
# Between transports and stores

An executor hands submissions to a store and checks the answers before it passes them
on: there must be one answer for each submission, one reply for each command, and no
refusal among the replies to a transaction. A store that breaks down answers every
submission with one failure.
-/

namespace BatchStore

/-- A store behind an executor: one in memory, or one that breaks down at every call. -/
inductive Backend where
  | memory (s : Store)
  | broken (e : Failure)

namespace Backend

/-- Executes submissions. -/
def execute (now : Float) (bs : List Submission) :
    Backend → (Except Failure (List Outcome) × List Report) × Backend
  | memory s =>
    let ((outcomes, reports), s) := s.execute now bs
    ((.ok outcomes, reports), memory s)
  | broken e => ((.error e, []), broken e)

end Backend

namespace Executor

section Checks

-- What a store puts in the place of a reply may be anything, as long as failures can be told.
variable {ρ : Type} (isFailure : ρ → Bool)

/-- What is wrong with an answer to a submission. -/
def breachBy? (b : Submission) : Except Failure (List ρ) → Option Breach
  | .error _ => none
  | .ok replies =>
    if replies.length != b.commands.length then some .resultsPerCommand
    else if b.atomic && replies.any isFailure then some .failureInTransaction
    else none

/-- The first thing that is wrong with answers to submissions of equal number. -/
def firstBreachBy? : List Submission → List (Except Failure (List ρ)) → Option Breach
  | b :: bs, o :: os =>
    match breachBy? isFailure b o with
    | some breach => some breach
    | none => firstBreachBy? bs os
  | _, _ => none

/-- What a store's answer means for each of the submissions. -/
def deliverBy (bs : List Submission) (answer : Except Failure (List (Except Failure (List ρ)))) :
    Except Fault (List (Except Failure (List ρ))) :=
  match answer with
  | .error e => .ok (bs.map fun _ => .error (.storeFailed e))
  | .ok outcomes =>
    if bs.length != outcomes.length then .error (.breach .resultsPerSubmission)
    else
      match firstBreachBy? isFailure bs outcomes with
      | some breach => .error (.breach breach)
      | none => .ok outcomes

end Checks

/-- The same for replies as the store in memory gives them. -/
def deliver : List Submission → Except Failure (List Outcome) → Except Fault (List Outcome) :=
  deliverBy Datum.isRefusal

/-- What is reported of a store's answer. -/
def reportsOf (bs : List Submission) : Except Failure (List Outcome) → List Report
  | .error e => [.executorFailed bs.length e]
  | .ok _ => []

/-- Has a store execute submissions. -/
def serve (now : Float) (bs : List Submission) (store : Backend) :
    (Except Fault (List Outcome) × List Report) × Backend :=
  let ((answer, reports), store) := store.execute now bs
  ((deliver bs answer, reports ++ reportsOf bs answer), store)

/-- Takes at most `n` waiting things off the front of a queue. -/
def takeUpTo {α : Type} (queue : List α) (n : Int) : Except Fault (List α × List α) :=
  if n ≤ 0 then .error (.breach .emptyCollect)
  else .ok (queue.take n.toNat, queue.drop n.toNat)

end Executor

end BatchStore
