import BatchStore.Fault

/-!
# Workers

An executor has a worker, which is started once and dismissed for good. Starting a worker
that was dismissed does nothing, and starting one that runs is a fault.
-/

namespace BatchStore

/-- What a worker is doing. -/
inductive Worker where
  | idle
  | running
  | dismissed
deriving DecidableEq, Repr

/-- Starts an idle worker. -/
def Worker.start : Worker → Except Fault Worker
  | idle => .ok running
  | running => .error .workerStarted
  | dismissed => .ok dismissed

end BatchStore
