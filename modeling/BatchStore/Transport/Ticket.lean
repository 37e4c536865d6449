import BatchStore.Executor

/-!
# Tickets and deliveries

A transport gives each submission a label of its own, and delivers one outcome to each
label.
-/

namespace BatchStore

/-- A submission on its way to the store. -/
structure Ticket where
  label : Nat
  submission : Submission

/-- An outcome on its way back. -/
structure Delivery where
  label : Nat
  outcome : Outcome

namespace Ticket

/-- The delivery of an outcome to the ticket's label. -/
def delivery (t : Ticket) (o : Outcome) : Delivery := ⟨t.label, o⟩

/-- The deliveries of outcomes to tickets, in order. -/
def deliveries (ts : List Ticket) (os : List Outcome) : List Delivery :=
  ts.zipWith delivery os

end Ticket

/-- What an executor makes of a store's answer to the submissions of some tickets: an outcome for
the label of each, in order. -/
def Executor.process {ρ : Type} (isFailure : ρ → Bool) (ts : List Ticket)
    (answer : Except Failure (List (Except Failure (List ρ)))) :
    Except Fault (List (Nat × Except Failure (List ρ))) :=
  (deliverBy isFailure (ts.map (·.submission)) answer).map fun outcomes =>
    (ts.map (·.label)).zip outcomes

/-- The outcome that was delivered to a label. -/
def Delivery.to? (label : Nat) (ds : List Delivery) : Option Outcome :=
  (ds.find? fun d => d.label == label).map (·.outcome)

end BatchStore
