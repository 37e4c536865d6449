import BatchStore.Failure

/-!
# The journal

What the parts of the system report on the way. A report says what happened; `message`
words it, `source` says which part speaks, and `severity` how much it matters.
-/

namespace BatchStore

/-- How much a report matters. -/
inductive Severity where
  | trace
  | debug
  | info
  | success
  | warning
  | error
  | critical
deriving DecidableEq, Repr

namespace Severity

/-- Reports are passed on from a certain weight up. -/
def weight : Severity → Nat
  | trace => 5
  | debug => 10
  | info => 20
  | success => 25
  | warning => 30
  | error => 40
  | critical => 50

def name : Severity → String
  | trace => "TRACE"
  | debug => "DEBUG"
  | info => "INFO"
  | success => "SUCCESS"
  | warning => "WARNING"
  | error => "ERROR"
  | critical => "CRITICAL"

def ofName? (s : String) : Option Severity :=
  [trace, debug, info, success, warning, error, critical].find? fun v => v.name == s

end Severity

/-- The parts of the system that report. -/
inductive Source where
  | batch
  | client
  | transport
  | executor
  | store
deriving DecidableEq, Repr

/-- Something worth reporting. -/
inductive Report where
  | submitting (commands : Nat) (atomic : Bool)
  | batchFailed (commands : Nat) (failure : Failure)
  | queueFull
  | executorFailed (submissions : Nat) (failure : Failure)
  /-- A command made a transaction void. -/
  | rolledBack (place commands : Nat) (command : CommandType) (refusal : Refusal)
  | submissionFailed (fault : Fault)

namespace Report

def severity : Report → Severity
  | submitting _ _ | batchFailed _ _ => .debug
  | rolledBack _ _ _ _ => .info
  | queueFull | executorFailed _ _ | submissionFailed _ => .warning

def source : Report → Source
  | submitting _ _ => .batch
  | batchFailed _ _ => .client
  | queueFull => .transport
  | executorFailed _ _ => .executor
  | rolledBack _ _ _ _ | submissionFailed _ => .store

/-- The wording of a report. -/
def message : Report → String
  | submitting commands atomic =>
    "submitting batch of " ++ toString commands ++ " commands (atomic="
      ++ Text.shownBool atomic ++ ")"
  | batchFailed commands failure =>
    "batch of " ++ toString commands ++ " commands failed: " ++ failure.shown
  | queueFull => "store submission queue full"
  | executorFailed submissions failure =>
    "store failed executing " ++ toString submissions ++ " submissions: " ++ failure.shown
  | rolledBack place commands command refusal =>
    "transaction rolled back at command " ++ toString place ++ " of " ++ toString commands
      ++ " (" ++ command.name ++ "): " ++ refusal.message
  | submissionFailed fault => "store failed executing a submission: " ++ fault.shown

end Report

end BatchStore
