import BatchStore.Executor

/-!
# The client

A client submits a batch through a transport, waits for the outcome, records on the
batch how it ended, and hands the replies to the caller: as they came, or with octets
turned into text where they are text.
-/

namespace BatchStore

/-! ## Readable replies -/

mutual

/-- A reply with octets turned into text, at every depth; octets that are no text stay.
Tuples are left alone. -/
def Datum.readable : Datum → Datum
  | .octets w =>
    match w.decode? with
    | .ok s => .text s
    | .error _ => .octets w
  | .list xs => .list (Datum.readableRow xs)
  | .set xs => Datum.ofElements (Datum.readableRow xs)
  | .mapping ps => Datum.ofPairs (Datum.readablePairs ps)
  | d => d

/-- Replies in a row made readable. -/
def Datum.readableRow : List Datum → List Datum
  | [] => []
  | x :: xs => x.readable :: Datum.readableRow xs

/-- Keys and values made readable. -/
def Datum.readablePairs : List (Datum × Datum) → List (Datum × Datum)
  | [] => []
  | (k, v) :: ps => (k.readable, v.readable) :: Datum.readablePairs ps

end

/-! ## Executing a batch -/

/-- What is reported of a submission when it is handed out. -/
def Submission.report (s : Submission) : Report := .submitting s.commands.length s.atomic

/-- Whether a client works. -/
structure Client where
  started : Bool := false
  closed : Bool := false
deriving DecidableEq, Repr

/-- What a caller of `exec` asks for. -/
structure ExecOptions where
  /-- Whether a refused command fails the call. -/
  raiseOnError : Bool := false
  /-- Whether replies are handed over as they came. -/
  binary : Bool := false

/-- What a call of `exec` leaves: the replies or a failure, the batch, and the reports. -/
structure Executed where
  result : Except Failure (List Datum)
  batch : Batch
  reports : List Report

namespace Client

/-- Starts a client, once. -/
def start (c : Client) : Except Fault Client :=
  if c.started then .error (.breach .clientStarted) else .ok { c with started := true }

/-- Closes a client; a second time nothing happens. -/
def close (c : Client) : Client := { c with closed := true }

/-- The first refusal among replies. -/
def firstRefusal? (replies : List Datum) : Option Refusal :=
  replies.findSome? fun | .refusal r => some r | _ => none

/-- What a caller gets of the replies. -/
def handOver (o : ExecOptions) (replies : List Datum) : Except Failure (List Datum) :=
  match if o.raiseOnError then firstRefusal? replies else none with
  | some r => .error (.request r)
  | none => .ok (if o.binary then replies else replies.map Datum.readable)

/-- Records an outcome on a submitted batch and hands it over. -/
def conclude (o : ExecOptions) (b : Batch) (outcome : Outcome) : Executed :=
  match outcome with
  | .error e =>
    ⟨.error e, { b with state := .failed }, [.batchFailed b.size e]⟩
  | .ok replies =>
    if replies.length != b.size then ⟨.error (.fault (.breach .resultsPerCommand)), b, []⟩
    else ⟨handOver o replies, { b with state := .completed }, []⟩

/-- Executes a batch over a transport that `carry` describes. An empty batch does not go
there. -/
def exec {σ : Type} (c : Client) (carry : Submission → σ → (Outcome × List Report) × σ)
    (o : ExecOptions) (b : Batch) (t : σ) : Executed × σ :=
  if c.closed then (⟨.error (.ofStatus .clientClosed), b, []⟩, t)
  else
    match b.submit with
    | .error e => (⟨.error e, b, []⟩, t)
    | .ok (b, s) =>
      let submitting := s.report
      if s.commands.isEmpty then (⟨.ok [], { b with state := .completed }, [submitting]⟩, t)
      else
        let ((outcome, reports), t) := carry s t
        let done := conclude o b outcome
        ({ done with reports := submitting :: reports ++ done.reports }, t)

end Client

end BatchStore
