import BatchStore.Transport.Ticket
import BatchStore.Transport.Worker

/-!
# A bounded queue with a worker

Submissions wait in a queue of limited length. The worker takes the oldest, and with it
as many more as make up a batch, has the store execute them, and puts the outcomes one by
one into a second queue of limited length, in the same order. A submission that finds the
queue full, or closed, is turned away at once. The store may be held up; the worker then
keeps what it has taken until the store is free. A second queue that is full holds the
worker up until deliveries are fetched from it.

The worker and the callers go about their work side by side. What the worker does between
two things that a caller does is a row of `Move`s, and it may be any row: a move that
cannot be made changes nothing. In a `shift` the worker does all that it can.
-/

namespace BatchStore

/-- The queue, its worker, and the store behind it. -/
structure Queue where
  /-- The length of the queue; without a positive one it is not limited. -/
  capacity : Int := 100
  /-- How many submissions the worker takes at a time. -/
  batchSize : Int := 10
  /-- The length of the queue of deliveries; without a positive one it is not limited. -/
  room : Int := 100
  hasExecutor : Bool := true
  worker : Worker := .idle
  /-- Whether the store is held up. -/
  held : Bool := false
  store : Backend
  queued : List Ticket := []
  /-- What the worker has taken for the store. -/
  taken : List Ticket := []
  /-- What the worker has yet to put into the queue of deliveries. -/
  inHand : List Delivery := []
  done : List Delivery := []

namespace Queue

/-- Whether no more than `n` fit into a queue of limited length. -/
def isReached (limit : Int) (n : Nat) : Bool := 0 < limit && limit ≤ n

/-- Whether no more submissions fit in. -/
def isFull (q : Queue) : Bool := isReached q.capacity q.queued.length

/-- What a caller gets who is turned away. -/
def turnedAway : Outcome := .error (.ofStatus .submissionQueueFull)

/-- Puts a submission at the end of the queue, which is closed once the worker is
dismissed. If the submission is turned away, the outcome is known at once. -/
def dispatch (q : Queue) (ticket : Ticket) :
    Except Fault (Option Outcome × List Report) × Queue :=
  if !q.hasExecutor then (.error (.breach .noExecutor), q)
  else if q.worker = .dismissed || q.isFull then (.ok (some turnedAway, [.queueFull]), q)
  else (.ok (none, []), { q with queued := q.queued ++ [ticket] })

/-- Takes at most `n` deliveries. -/
def dequeue (q : Queue) (n : Int) : List Delivery × Queue :=
  (q.done.take n.toNat, { q with done := q.done.drop n.toNat })

/-! ## The worker -/

/-- A move of the worker. -/
inductive Move where
  /-- An idle worker takes the oldest submission, and up to `more` others with it. -/
  | take (more : Nat)
  /-- A worker that has not turned to the store yet takes one more that has come. -/
  | join
  /-- The store executes what the worker has taken. -/
  | work
  /-- The worker puts a delivery into the queue of deliveries. -/
  | put
deriving DecidableEq, Repr

/-- The most that the worker takes at a time: a batch, and one at least. -/
def most (q : Queue) : Nat := max q.batchSize.toNat 1

/-- An idle worker takes the oldest submission, and up to `more` others with it. -/
def take (more : Nat) (q : Queue) : Queue :=
  if q.taken.isEmpty && q.inHand.isEmpty then
    let n := min (more + 1) q.most
    { q with queued := q.queued.drop n, taken := q.queued.take n }
  else q

/-- A worker with less than a batch takes one more. -/
def join (q : Queue) : Queue :=
  if q.taken.isEmpty || q.most ≤ q.taken.length then q
  else { q with queued := q.queued.drop 1, taken := q.taken ++ q.queued.take 1 }

/-- The worker has the store execute what it has taken, unless the store is held up. A
broken promise of the executor leaves nothing to deliver. -/
def work (now : Float) (q : Queue) : List Report × Queue :=
  if q.taken.isEmpty || q.held then ([], q)
  else
    let ((answer, reports), store) :=
      Executor.serve now (q.taken.map (·.submission)) q.store
    let outcomes :=
      match answer with
      | .ok outcomes => outcomes
      | .error _ => []
    (reports,
      { q with store, taken := [], inHand := q.inHand ++ Ticket.deliveries q.taken outcomes })

/-- The worker puts a delivery into the queue of deliveries, if there is room. -/
def put (q : Queue) : Queue :=
  match q.inHand with
  | [] => q
  | d :: ds =>
    if isReached q.room q.done.length then q else { q with inHand := ds, done := q.done ++ [d] }

/-- Makes a move, if the worker runs. -/
def move (now : Float) (m : Move) (q : Queue) : List Report × Queue :=
  if q.worker = .running then
    match m with
    | .take more => ([], q.take more)
    | .join => ([], q.join)
    | .work => q.work now
    | .put => ([], q.put)
  else ([], q)

/-- Makes moves one after another. -/
def moves (now : Float) : List Move → Queue → List Report × Queue
  | [], q => ([], q)
  | m :: ms, q =>
    let (reports, q) := q.move now m
    let (others, q) := moves now ms q
    (reports ++ others, q)

/-- The moves with which a worker gets through `n` submissions, however it stands. Each
round takes one submission at least. -/
def shift (n : Nat) : List Move :=
  (List.replicate (n + 1) (.take n :: .work :: List.replicate n .put)).flatten

/-- How many submissions wait or are in the hands of the worker. -/
def onTheWay (q : Queue) : Nat := q.queued.length + q.taken.length + q.inHand.length

/-- Lets the worker do all that it can. -/
def settle (now : Float) (q : Queue) : List Report × Queue := q.moves now (shift q.onTheWay)

/-- Starts the worker, if there is an executor. -/
def start (now : Float) (q : Queue) : Except Fault (List Report) × Queue :=
  if !q.hasExecutor then (.ok [], q)
  else
    match q.worker.start with
    | .error f => (.error f, q)
    | .ok worker =>
      let (reports, q) := { q with worker }.settle now
      (.ok reports, q)

/-- Dismisses the worker when it is through with the queue. -/
def stop (now : Float) (q : Queue) : List Report × Queue :=
  let (reports, q) := q.settle now
  (reports, if q.hasExecutor then { q with worker := .dismissed } else q)

/-- Lets the store go on. -/
def release (now : Float) (q : Queue) : List Report × Queue :=
  { q with held := false }.settle now

/-! ## Waiting for an outcome -/

/-- Waits for the delivery to a label, for so many rounds as there are rows of moves. In a
round the worker makes its moves, and then at most `count` deliveries are fetched; one that
nobody waits for any more is dropped. Behind the last round the caller's patience ends. -/
def await (now : Float) (label : Nat) (count : Int) :
    List (List Move) → Queue → (Outcome × List Report) × Queue
  | [], q => ((.error (.ofStatus .timeout), []), q)
  | ms :: rounds, q =>
    let (reports, q) := q.moves now ms
    let (ds, q) := q.dequeue count
    match Delivery.to? label ds with
    | some outcome => ((outcome, reports), q)
    | none =>
      let ((outcome, others), q) := await now label count rounds q
      ((outcome, reports ++ others), q)

/-- Carries a submission to the store and its outcome back, while the worker makes the moves
of some rounds. A submission whose caller has lost patience stays on its way. -/
def carryAmid (rounds : List (List Move)) (now : Float) (label : Nat) (count : Int)
    (b : Submission) (q : Queue) : (Outcome × List Report) × Queue :=
  match q.dispatch ⟨label, b⟩ with
  | (.error f, q) => ((.error (.fault f), []), q)
  | (.ok (some outcome, reports), q) => ((outcome, reports), q)
  | (.ok (none, reports), q) =>
    let ((outcome, others), q) := q.await now label count rounds
    ((outcome, reports ++ others), q)

/-- The same while the worker does all that it can. Every round brings a delivery at least,
unless the store is held up. -/
def carry (now : Float) (label : Nat) (count : Int) (b : Submission) (q : Queue) :
    (Outcome × List Report) × Queue :=
  let n := q.onTheWay + 1
  q.carryAmid (List.replicate (q.done.length + n) (shift n)) now label count b

end Queue

end BatchStore
