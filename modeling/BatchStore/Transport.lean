import BatchStore.Transport.Queue
import BatchStore.Transport.Shuffle

/-!
# Transports

A transport carries submissions to the store and outcomes back: a queue with a worker, or
one that shuffles and loses. Both are used in one way. What only one of the two can do is
nothing for the other: a queue has nothing to flush, and chance holds nothing up.
-/

namespace BatchStore

/-- What carries submissions to the store. -/
inductive Transport where
  | shuffle (t : Shuffle)
  | queue (q : Queue)

namespace Transport

/-- The store at the other end. -/
def store : Transport → Backend
  | shuffle t => t.store
  | queue q => q.store

/-- The transport with another store at its end. -/
def withStore (store : Backend) : Transport → Transport
  | shuffle t => shuffle { t with store }
  | queue q => queue { q with store }

/-- Carries a submission to the store and its outcome back. -/
def carry (now : Float) (label : Nat) (s : Submission) :
    Transport → (Outcome × List Report) × Transport
  | shuffle t => let (r, t) := t.carry now label s; (r, shuffle t)
  | queue q => let (r, q) := q.carry now label Shuffle.handful s; (r, queue q)

/-- Sends a submission on its way. Whoever is turned away hears so at once. -/
def dispatch (now : Float) (ticket : Ticket) :
    Transport → Except Fault (List Delivery) × Transport
  | shuffle t => (.ok [], shuffle (t.dispatch ticket))
  | queue q =>
    let (r, q) := q.dispatch ticket
    let (_, q) := q.settle now
    (r.map fun r => (r.1.map ticket.delivery).toList, queue q)

/-- Takes at most `n` deliveries. -/
def dequeue (n : Int) : Transport → List Delivery × Transport
  | shuffle t => let (ds, t) := t.dequeue n; (ds, shuffle t)
  | queue q => let (ds, q) := q.dequeue n; (ds, queue q)

/-- Registers an executor. A queue keeps the one that it has. -/
def register (capacity batchSize : Int) : Transport → Except Fault Transport
  | shuffle t => .ok (shuffle t.register)
  | queue q =>
    if q.hasExecutor then .error (.breach .executorTaken)
    else .ok (queue { q with hasExecutor := true, capacity, batchSize })

/-- Has what waits carried to the store. -/
def flush (now : Float) : Transport → Except Fault Unit × Transport
  | shuffle t => let ((r, _), t) := t.flush now; (r, shuffle t)
  | queue q => (.ok (), queue q)

/-- Starts the worker. -/
def start (now : Float) : Transport → Except Fault Unit × Transport
  | shuffle t =>
    match t.start with
    | .ok t => (.ok (), shuffle t)
    | .error f => (.error f, shuffle t)
  | queue q => let (r, q) := q.start now; (r.map fun _ => (), queue q)

/-- Dismisses the worker. -/
def stop (now : Float) : Transport → List Report × Transport
  | shuffle t => ([], shuffle t.stop)
  | queue q => let (r, q) := q.stop now; (r, queue q)

/-- Lets a store go on that was held up. -/
def release (now : Float) : Transport → List Report × Transport
  | shuffle t => ([], shuffle t)
  | queue q => let (r, q) := q.release now; (r, queue q)

end Transport

end BatchStore
