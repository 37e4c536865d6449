import BatchStore.Options.Expiry

/-!
# Options of writes

A write can hang on what the key holds, can hand back the value it replaces and can
set the lifetime of the new one. Each record has one function, `toArgs`, that writes
it as arguments or says what is wrong with it.
-/

namespace BatchStore

/-- When a write takes place. -/
inductive Condition where
  | onlyIfExists
  | onlyIfMissing
  | onlyIfEquals
deriving DecidableEq, Repr

namespace Condition

def keyword : Condition → Keyword
  | onlyIfExists => .xx
  | onlyIfMissing => .nx
  | onlyIfEquals => .ifeq

/-- The condition of a keyword in capitals. -/
def ofWord? (s : String) : Option Condition :=
  [onlyIfExists, onlyIfMissing, onlyIfEquals].find? fun c => c.keyword.word == s

end Condition

/-- Options of SET. -/
structure SetOptions where
  condition? : Option Condition := none
  /-- What the stored value is compared with under `onlyIfEquals`. -/
  comparison : Datum := .null
  returnOld : Bool := false
  expiry? : Option Expiry := none

namespace SetOptions

/-- The arguments of the condition. -/
def conditionArgs (o : SetOptions) : Except Failure ArgList :=
  match o.condition? with
  | none => .ok []
  | some .onlyIfEquals =>
    match o.comparison with
    | .null => .error (.option .missingComparison)
    | v => do return [Keyword.ifeq.arg, ← Arg.check v]
  | some c => .ok [c.keyword.arg]

def toArgs (o : SetOptions) : Except Failure ArgList := do
  let condition ← o.conditionArgs
  let old := if o.returnOld then [Keyword.get.arg] else []
  let expiry ←
    match o.expiry? with
    | none => .ok []
    | some e => e.toArgs (ExpiryType.timed ++ [.keepExisting])
  return condition ++ old ++ expiry

end SetOptions

/-- Options of GETEX. -/
structure GetExOptions where
  expiry? : Option Expiry := none

def GetExOptions.toArgs (o : GetExOptions) : Except Failure ArgList :=
  match o.expiry? with
  | none => .ok []
  | some e => e.toArgs (ExpiryType.timed ++ [.persist])

end BatchStore
