import BatchStore.Batch.State
import BatchStore.Fault
import BatchStore.Refusal
import BatchStore.Status

/-!
# Failures

Everything that can be wrong with a request, from its first argument to its
transport, is a `Failure`: a status of the library, perhaps with the failure that
caused it, or a bare fault. Each cause is a value of its own, and `message` words it.
-/

namespace BatchStore

/-- What is wrong with an option or a collection of arguments. -/
inductive OptionFlaw where
  /-- A collection that may not be empty, by what it holds. -/
  | nothingGiven (what : String)
  | expiryType (word : String)
  | negativeExpiry
  | missingTimestamp (word : String)
  | missingComparison
  | scanCount
  | longitude (value : String)
  | latitude (value : String)
  | geoCondition (word : String)
  | other (message : String)
deriving DecidableEq, Repr

/-- The wording of a flaw in an option. -/
def OptionFlaw.message : OptionFlaw → String
  | nothingGiven what => what ++ " must not be empty"
  | expiryType word => "invalid expiry type " ++ word
  | negativeExpiry => "expiry time must not be negative"
  | missingTimestamp word => word ++ " expiry requires a timestamp"
  | missingComparison => "IFEQ requires a comparison value"
  | scanCount => "scan count must be positive"
  | longitude value => "longitude " ++ value ++ " out of range"
  | latitude value => "latitude " ++ value ++ " out of range"
  | geoCondition word => "GEOADD does not support " ++ word
  | other message => message

/-- Why a command does not go into a batch for a cluster. -/
inductive ClusterFlaw where
  | type (t : CommandType)
  | copyToDatabase
  | other (message : String)
deriving DecidableEq, Repr

/-- The wording of a flaw in a cluster batch. -/
def ClusterFlaw.message : ClusterFlaw → String
  | type t => t.name ++ " is not supported in cluster mode"
  | copyToDatabase => "COPY with a destination database is not supported in cluster mode"
  | other message => message

/-- Why a batch in its state does not take a call. -/
inductive BatchFlaw where
  | notBuilding (t : CommandType) (state : BatchState)
  | running
  | other (message : String)
deriving DecidableEq, Repr

/-- The wording of a call at the wrong time. -/
def BatchFlaw.message : BatchFlaw → String
  | notBuilding t state => "cannot add " ++ t.name ++ " to a batch in state " ++ state.name
  | running => "batch is already being executed"
  | other message => message

/-- What is wrong with a list of arguments. -/
inductive ListFlaw where
  | tooFew (t : CommandType) (got : Nat)
  | argumentType (t : CommandType) (found : String)
  | other (message : String)
deriving DecidableEq, Repr

/-- The wording of a flaw in a list of arguments. -/
def ListFlaw.message : ListFlaw → String
  | tooFew t got =>
    t.name ++ " requires at least " ++ toString t.minArity ++ " arguments, got " ++ toString got
  | argumentType t found => t.name ++ " argument must be str or bytes, got " ++ found
  | other message => message

/-- Whatever can go wrong with a request. -/
inductive Failure where
  | fault (f : Fault)
  /-- A bare status with a sentence, and the failure behind it if there is one. -/
  | status (s : Status) (cause : Option Failure) (message : String)
  /-- A value that is neither text nor octets, by its type. -/
  | argumentType (found : String)
  | option (flaw : OptionFlaw)
  | cluster (flaw : ClusterFlaw)
  | batch (flaw : BatchFlaw)
  | arguments (flaw : ListFlaw)
  /-- A command that the store refused. -/
  | request (r : Refusal)
  /-- A transaction that was undone. -/
  | aborted (message : String) (cause : Option Failure)
deriving Inhabited

namespace Failure

/-- A status with nothing more to say. -/
def ofStatus (s : Status) : Failure := .status s none s.message

/-- A transaction was undone for one of its commands. -/
def discarded (r : Refusal) : Failure :=
  .aborted ("EXECABORT Transaction discarded because of: " ++ r.message) (some (.request r))

/-- The wording of a failure. -/
def message : Failure → String
  | fault f => f.message
  | status _ _ message => message
  | argumentType found => "expected str or bytes argument, got " ++ found
  | option flaw => flaw.message
  | cluster flaw => flaw.message
  | batch flaw => flaw.message
  | arguments flaw => flaw.message
  | request r => r.message
  | aborted message _ => message

/-- The store broke down. -/
def storeFailed (cause : Failure) : Failure :=
  .status .storeError (some cause) ("store execution failed: " ++ cause.message)

/-- The status of a failure; a bare fault has none. -/
def status? : Failure → Option Status
  | fault _ => none
  | status s _ _ => some s
  | argumentType _ => some .invalidArgumentType
  | option _ => some .invalidOption
  | cluster _ => some .unsupportedCommand
  | batch _ => some .batchAlreadySubmitted
  | arguments _ => some .malformedArgumentList
  | request _ => some .requestError
  | aborted _ _ => some .execAbort

/-- The failure behind a failure. -/
def cause? : Failure → Option Failure
  | status _ cause _ => cause
  | aborted _ cause => cause
  | _ => none

/-- The kind of a failure, as the journal names it. -/
def label : Failure → String
  | fault f => f.label
  | status _ _ _ => "Error"
  | argumentType _ => "InvalidArgumentTypeError"
  | option _ => "InvalidOptionError"
  | cluster _ => "UnsupportedCommandError"
  | batch _ => "BatchStateError"
  | arguments _ => "MalformedArgumentListError"
  | request _ => "RequestError"
  | aborted _ _ => "ExecAbortError"

/-- How the journal shows a failure. -/
def shown (e : Failure) : String :=
  match e, e.status? with
  | .fault f, _ => f.shown
  | e, some s => e.label ++ "(" ++ s.name ++ ", " ++ Text.quoted e.message ++ ")"
  | e, none => e.label ++ "(" ++ Text.quoted e.message ++ ")"

/-- Whether two failures have one status. -/
def sameStatus (a b : Failure) : Bool :=
  match a.status?, b.status? with
  | some s, some t => s == t
  | _, _ => false

/-- Whether two separate failures count as equal: refusals of one wording do, no others. -/
def alike : Failure → Failure → Bool
  | request a, request b => a.message == b.message
  | _, _ => false

/-- Whether the failure blames the type of a value. -/
def blamesType : Failure → Bool
  | argumentType _ => true
  | _ => false

/-- Whether the failure blames a value. -/
def blamesValue : Failure → Bool
  | option _ => true
  | _ => false

end Failure

/-! ## What passed its checks

Whatever can fail is checked step by step, here and in the store. Of a result that came about, each
step can be taken off in turn.
-/

section Passed

variable {ε α β : Type} {x : Except ε α} {b : β}

/-- A result behind two steps, of which the first came through. -/
theorem ok_of_bind {f : α → Except ε β} (h : x >>= f = .ok b) : ∃ a, x = .ok a ∧ f a = .ok b := by
  cases x with
  | error e => cases h
  | ok a => exact ⟨a, rfl, h⟩

theorem ok_of_map {f : α → β} (h : x.map f = .ok b) : ∃ a, x = .ok a ∧ b = f a := by
  cases x with
  | error e => cases h
  | ok a => exact ⟨a, rfl, (Except.ok.inj h).symm⟩

end Passed

end BatchStore
