/-!
# The life of a batch

A batch is built, submitted, and then completed or failed; after that it can be
submitted again, but no longer added to.
-/

namespace BatchStore

/-- Where a batch stands. -/
inductive BatchState where
  | building
  | submitted
  | completed
  | failed
deriving DecidableEq, Repr

/-- The name of a state. -/
def BatchState.name : BatchState → String
  | building => "BUILDING"
  | submitted => "SUBMITTED"
  | completed => "COMPLETED"
  | failed => "FAILED"

end BatchStore
