/-!
# Status codes

What became of a request, as a number for machines and a sentence for people.
-/

namespace BatchStore

/-- The outcome of a request. -/
inductive Status where
  | ok
  | invalidArgumentType
  | invalidOption
  | unsupportedCommand
  | batchAlreadySubmitted
  | requestError
  | execAbort
  | internalServerError
  | malformedArgumentList
  | storeError
  | clientClosed
  | submissionQueueFull
  | timeout
deriving DecidableEq, Repr

namespace Status

/-- Every status, by increasing code. -/
def all : List Status :=
  [.ok, .invalidArgumentType, .invalidOption, .unsupportedCommand, .batchAlreadySubmitted,
   .requestError, .execAbort, .internalServerError, .malformedArgumentList, .storeError,
   .clientClosed, .submissionQueueFull, .timeout]

/-- Requests answer from 20000, faults of a request from 40000, of the platform from 50000. -/
def code : Status → Nat
  | .ok => 20000
  | .invalidArgumentType => 40000
  | .invalidOption => 40001
  | .unsupportedCommand => 40002
  | .batchAlreadySubmitted => 40900
  | .requestError => 42000
  | .execAbort => 42001
  | .internalServerError => 50000
  | .malformedArgumentList => 50001
  | .storeError => 50004
  | .clientClosed => 50300
  | .submissionQueueFull => 50302
  | .timeout => 50400

/-- The name that the journal shows. -/
def name : Status → String
  | .ok => "STATUS_OK"
  | .invalidArgumentType => "STATUS_INVALID_ARGUMENT_TYPE"
  | .invalidOption => "STATUS_INVALID_OPTION"
  | .unsupportedCommand => "STATUS_UNSUPPORTED_COMMAND"
  | .batchAlreadySubmitted => "STATUS_BATCH_ALREADY_SUBMITTED"
  | .requestError => "STATUS_REQUEST_ERROR"
  | .execAbort => "STATUS_EXEC_ABORT"
  | .internalServerError => "STATUS_INTERNAL_SERVER_ERROR"
  | .malformedArgumentList => "STATUS_MALFORMED_ARGUMENT_LIST"
  | .storeError => "STATUS_STORE_ERROR"
  | .clientClosed => "STATUS_CLIENT_CLOSED"
  | .submissionQueueFull => "STATUS_SUBMISSION_QUEUE_FULL"
  | .timeout => "STATUS_TIMEOUT"

/-- The sentence that stands for a status where nothing more is known. -/
def message : Status → String
  | .ok => "The request was successful"
  | .invalidArgumentType => "The argument type is invalid"
  | .invalidOption => "The command option is invalid"
  | .unsupportedCommand => "The command is not supported in this mode"
  | .batchAlreadySubmitted => "The batch was already submitted"
  | .requestError => "The command failed"
  | .execAbort => "The transaction was aborted"
  | .internalServerError => "There was an internal server error"
  | .malformedArgumentList => "The argument list is malformed"
  | .storeError => "There was an error in the store subsystem"
  | .clientClosed => "The client is closed"
  | .submissionQueueFull => "The store submission queue is full"
  | .timeout => "The batch timed out"

/-- Codes from 20000 up to 30000 stand for success. -/
def isSuccessful (s : Status) : Bool := 20000 ≤ s.code && s.code < 30000

/-- The status with a given code. -/
def ofCode? (code : Int) : Option Status := all.find? fun s => (s.code : Int) == code

theorem ofCode?_code (s : Status) : ofCode? s.code = some s := by
  cases s <;> rfl

/-- Success is one status only. -/
theorem isSuccessful_iff (s : Status) : s.isSuccessful = true ↔ s = .ok := by
  cases s <;> decide

end Status

end BatchStore
