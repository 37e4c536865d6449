import BatchStore.Transport.Ticket
import BatchStore.Transport.Worker
import BatchStore.Window

/-!
# A transport that shuffles and loses

For trying things out: submissions wait in a random order until the transport is
flushed. Then each is lost with some probability, either before the store sees it or on
its way back when the store has executed it; in both cases the caller gets a fault.
Chance is a stream of draws, so a run can be repeated.
-/

namespace BatchStore

/-- Streams of draws: numbers between 0 and 1, and whole numbers from which a choice
among several is made. -/
structure Chance where
  uniform : Nat → Float
  pick : Nat → Int
  /-- How many draws were made from each stream. -/
  uniforms : Nat := 0
  picks : Nat := 0

namespace Chance

/-- A stream that goes through a list again and again. -/
def cycle {α : Type} (default : α) (xs : List α) (i : Nat) : α :=
  xs.getD (i % xs.length) default

/-- Draws a number between 0 and 1. -/
def draw (c : Chance) : Float × Chance :=
  (c.uniform c.uniforms, { c with uniforms := c.uniforms + 1 })

/-- Chooses one of `n + 1` places. -/
def choose (c : Chance) (n : Nat) : Nat × Chance :=
  ((c.pick c.picks % (n + 1 : Int)).toNat, { c with picks := c.picks + 1 })

end Chance

/-- What becomes of a submission at a flush. -/
inductive Fate where
  | carried
  | lostBefore
  | lostAfter
deriving DecidableEq, Repr

/-- The transport with the store behind it. -/
structure Shuffle where
  chance : Chance
  /-- The probability of a loss. -/
  risk : Float
  hasExecutor : Bool := true
  /-- The executor's worker, which has nothing to do here. -/
  worker : Worker := .idle
  store : Backend
  pending : List Ticket := []
  done : List Delivery := []

namespace Shuffle

/-- Puts a submission among those that wait, at a random place. -/
def dispatch (t : Shuffle) (ticket : Ticket) : Shuffle :=
  let (i, chance) := t.chance.choose t.pending.length
  { t with chance, pending := t.pending.take i ++ ticket :: t.pending.drop i }

/-- Registers an executor, in place of the one before if there was one. -/
def register (t : Shuffle) : Shuffle := { t with hasExecutor := true, worker := .idle }

/-- Starts the worker, if there is an executor. -/
def start (t : Shuffle) : Except Fault Shuffle :=
  if t.hasExecutor then t.worker.start.map fun worker => { t with worker } else .ok t

/-- Dismisses the worker, if there is an executor. -/
def stop (t : Shuffle) : Shuffle := if t.hasExecutor then { t with worker := .dismissed } else t

/-- Draws what becomes of each of some tickets. -/
def fates (risk : Float) : Chance → List Ticket → List (Ticket × Fate) × Chance
  | chance, [] => ([], chance)
  | chance, ticket :: rest =>
    let (x, chance) := chance.draw
    let (fate, chance) :=
      if x < risk then
        let (i, chance) := chance.choose 1
        (if i = 0 then Fate.lostBefore else .lostAfter, chance)
      else (.carried, chance)
    let (others, chance) := fates risk chance rest
    ((ticket, fate) :: others, chance)

/-- What a caller gets for an outcome that may have been lost. -/
def received (e : Ticket × Fate) (o : Outcome) : Delivery :=
  e.1.delivery (if e.2 = .lostAfter then .error (.fault .lostAfter) else o)

/-- Has the store execute what waits; what was lost before is delivered first. A broken
promise of the executor leaves everything waiting. -/
def flush (now : Float) (t : Shuffle) : (Except Fault Unit × List Report) × Shuffle :=
  if t.pending.isEmpty then ((.ok (), []), t)
  else if !t.hasExecutor then ((.error (.breach .noExecutor), []), t)
  else
    let (drawn, chance) := fates t.risk t.chance t.pending
    let lost := drawn.filter fun e => e.2 = .lostBefore
    let sent := drawn.filter fun e => e.2 ≠ .lostBefore
    let lostDeliveries := lost.map fun e => e.1.delivery (.error (.fault .lostBefore))
    let ((answer, reports), store) := Executor.serve now (sent.map (·.1.submission)) t.store
    match answer with
    | .error f =>
      ((.error f, reports), { t with chance, store, done := t.done ++ lostDeliveries })
    | .ok outcomes =>
      ((.ok (), reports),
        { t with chance, store, pending := [],
                 done := t.done ++ lostDeliveries ++ sent.zipWith received outcomes })

/-- Takes at most `n` deliveries. -/
def dequeue (t : Shuffle) (n : Int) : List Delivery × Shuffle :=
  (window t.done 0 n, { t with done := windowFrom t.done n })

/-- How many deliveries a caller takes at a time, unless it says otherwise. -/
def handful : Int := 10

/-- Flushes and takes `count` deliveries, until the one to a label is among them. Every round
takes one at least, so there are no more rounds than deliveries. -/
def await (now : Float) (label : Nat) (count : Int) :
    Nat → Shuffle → (Outcome × List Report) × Shuffle
  | 0, t => ((.error (.ofStatus .timeout), []), t)
  | rounds + 1, t =>
    match t.flush now with
    | ((.error f, reports), t) => ((.error (.fault f), reports), t)
    | ((.ok (), reports), t) =>
      let (ds, t) := t.dequeue count
      match Delivery.to? label ds with
      | some outcome => ((outcome, reports), t)
      | none =>
        let ((outcome, others), t) := await now label count rounds t
        ((outcome, reports ++ others), t)

/-- Carries a submission to the store and its outcome back. -/
def carry (now : Float) (label : Nat) (b : Submission) (t : Shuffle) (count : Int := handful) :
    (Outcome × List Report) × Shuffle :=
  (t.dispatch ⟨label, b⟩).await now label count (t.done.length + t.pending.length + 1)

end Shuffle

end BatchStore
