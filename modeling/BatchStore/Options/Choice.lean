import BatchStore.Command.Type
import BatchStore.Options.Backup
import BatchStore.Options.Lookup
import BatchStore.Options.Range
import BatchStore.Options.Section
import BatchStore.Options.Write

/-!
# Choices

Where a command takes a word out of a fixed list, the word goes into the argument list as
it is. No list is asked for by name there, so a word out of any list will do, and so will
an end of a range, which is a word as well.
-/

namespace BatchStore

/-- A word that goes into an argument list as it is. -/
inductive Choice where
  | infoSection (s : InfoSection)
  | flushMode (m : FlushMode)
  | restorePolicy (p : RestorePolicy)
  | condition (c : Condition)
  | expiryType (t : ExpiryType)
  | evictionType (t : EvictionType)
  | objectType (t : ObjectType)
  | unbounded (u : Unbounded)
  | commandType (t : CommandType)
  | bound (b : Bound)
deriving DecidableEq

namespace Choice

/-- The word as an argument. -/
def arg : Choice → Arg
  | infoSection s => .text s.word
  | flushMode m => m.keyword.arg
  | restorePolicy p => p.keyword.arg
  | condition c => c.keyword.arg
  | expiryType t => t.keyword.arg
  | evictionType t => t.keyword.arg
  | objectType t => .text t.word
  | unbounded u => .text u.sign
  | commandType t => .text t.name
  | bound b => b.word

end Choice

end BatchStore
