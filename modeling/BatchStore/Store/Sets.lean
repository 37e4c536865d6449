import BatchStore.Store.Words

/-!
# Sets

A set holds each member once. A set that loses its last member is gone.
-/

namespace BatchStore.Sets

/-- Adds a member unless it is there. -/
def insert (members : List Datum) (m : Octets) : List Datum :=
  if members.contains (.octets m) then members else members ++ [.octets m]

/-- Adds members one after another. -/
def insertAll (members : List Datum) (ms : List Octets) : List Datum :=
  ms.foldl insert members

/-- Takes members out. -/
def eraseAll (members : List Datum) (ms : List Octets) : List Datum :=
  members.filter fun x => !(ms.map Datum.octets).contains x

/-- SADD key member …: answers how many members are new. -/
def sadd (ms : List Octets) : KeyStep := fun seen => do
  let old := (← expect Value.set? seen).getD []
  let new := insertAll old ms
  return (.int (new.length - old.length), some (.replace seen (.set new)))

/-- SREM key member …: answers how many members were there. -/
def srem (ms : List Octets) : KeyStep := fun seen => do
  match ← expect Value.set? seen with
  | none => keep seen (.int 0)
  | some old =>
    let new := eraseAll old ms
    return (.int (old.length - new.length), Entry.replaceUnlessEmpty seen (.set new))

/-- SMEMBERS key. -/
def smembers : KeyStep := fun seen => do
  keep seen (.set ((← expect Value.set? seen).getD []))

/-- SISMEMBER key member. -/
def sismember (m : Octets) : KeyStep := fun seen => do
  keep seen (.bool (((← expect Value.set? seen).getD []).contains (.octets m)))

/-- SCARD key. -/
def scard : KeyStep := fun seen => do
  keep seen (.int ((← expect Value.set? seen).getD []).length)

end BatchStore.Sets
