import BatchStore.Store.Words

/-!
# Strings

A string is a row of octets. SET writes under a condition and may answer with what was
there; GETEX reads and changes the deadline; the counters read the string as a whole
number and write it back in plain decimal form.
-/

namespace BatchStore.Strings

/-- The reply that a string or its absence is. -/
def shown : Option Octets → Datum
  | some w => .octets w
  | none => .null

/-! ## SET -/

/-- When SET takes effect. -/
inductive Guard where
  | always
  | ifMissing
  | ifExists
  | ifEquals (w : Octets)
deriving DecidableEq, Repr

/-- Whether a guard lets a write pass over what is there. -/
def Guard.allows (g : Guard) (seen : Option Entry) : Bool :=
  match g with
  | always => true
  | ifMissing => seen.isNone
  | ifExists => seen.isSome
  | ifEquals w =>
    match seen with
    | some e => e.value == .string w
    | none => false

/-- What the words behind the value of SET ask for. -/
structure SetPlan where
  guard : Guard := .always
  returnOld : Bool := false
  keepDeadline : Bool := false
  deadline? : Option Float := none

/-- Reads the options of SET in order; a later one overrides an earlier one. -/
def SetPlan.read (now : Float) (plan : SetPlan) : List Octets → Except Halt SetPlan
  | [] => .ok plan
  | w :: rest =>
    match Keyword.ofOctets? w, rest with
    | some .nx, rest => SetPlan.read now { plan with guard := .ifMissing } rest
    | some .xx, rest => SetPlan.read now { plan with guard := .ifExists } rest
    | some .ifeq, v :: rest => SetPlan.read now { plan with guard := .ifEquals v } rest
    | some .get, rest => SetPlan.read now { plan with returnOld := true } rest
    | some .keepttl, rest => SetPlan.read now { plan with keepDeadline := true } rest
    | some k, v :: rest =>
      if k.setsDeadline then do
        let amount ← readInt v
        let deadline ← deadlineOf now k amount
        SetPlan.read now { plan with deadline? := some deadline } rest
      else refuse .syntaxError
    | _, _ => refuse .syntaxError

/-- The deadline after a write. -/
def SetPlan.newDeadline (plan : SetPlan) (seen : Option Entry) : Option Float :=
  match plan.deadline? with
  | some t => some t
  | none => if plan.keepDeadline then seen.bind (·.deadline?) else none

/-- Writes a string as planned. -/
def SetPlan.step (plan : SetPlan) (value : Octets) : KeyStep := fun seen => do
  let old ← if plan.returnOld then expect Value.string? seen else pure none
  let allowed := plan.guard.allows seen
  let after :=
    if allowed then some { value := .string value, deadline? := plan.newDeadline seen } else seen
  let reply :=
    if plan.returnOld then shown old else if allowed then okReply else .null
  return (reply, after)

/-- SET key value options. -/
def set (now : Float) (key value : Octets) (options : List Octets) : Step :=
  Store.given (SetPlan.read now {} options) fun plan => Store.onKey now key (plan.step value)

/-! ## Reading -/

/-- GET key. -/
def get : KeyStep := fun seen => do
  keep seen (shown (← expect Value.string? seen))

/-- GETEX key options: the kind of the value is looked at before the options. Only the
capital form of PERSIST counts. -/
def getex (now : Float) (options : List Octets) : KeyStep := fun seen => do
  let value ← expect Value.string? seen
  match options with
  | [] => keep seen (shown value)
  | [w] =>
    if w == Keyword.persist.octets then
      return (shown value, seen.map fun e => { e with deadline? := none })
    else refuse .syntaxError
  | [w, v] =>
    match Keyword.ofOctets? w with
    | some k =>
      if k.setsDeadline then do
        let amount ← readInt v
        let deadline ← deadlineOf now k amount
        return (shown value, seen.map fun e => { e with deadline? := some deadline })
      else refuse .syntaxError
    | none => refuse .syntaxError
  | _ => refuse .syntaxError

/-- STRLEN key. -/
def strlen : KeyStep := fun seen => do
  let value ← expect Value.string? seen
  keep seen (.int (value.getD []).length)

/-- MGET asks each key for its string; another kind counts as nothing. -/
def peek : KeyStep := fun seen => keep seen (shown (seen.bind fun e => e.value.string?))

/-! ## Writing -/

/-- APPEND key value: the deadline stays. -/
def append (value : Octets) : KeyStep := fun seen => do
  let old := (← expect Value.string? seen).getD []
  return (.int (old.length + value.length), some (.replace seen (.string (old ++ value))))

/-- Writes a whole number to a key in digits, and answers it. -/
def writeInt (seen : Option Entry) (number : Int) : Except Halt (Datum × Option Entry) :=
  match Number.intText? number with
  | none => breakDown .tooManyDigits
  | some s => .ok (.int number, some (.replace seen (.string (Octets.ofText s))))

/-- Adds to the whole number at a key; a missing key counts as zero. -/
def add (amount : Int) : KeyStep := fun seen => do
  match ← expect Value.string? seen with
  | none => writeInt seen amount
  | some w => writeInt seen ((← readInt w) + amount)

/-- Writes strings to keys one after another, over whatever is there and without a deadline.
No key is looked at. -/
def writeAll (pairs : List (Octets × Octets)) (s : Store) : Store :=
  pairs.foldl (fun s e => s.setEntry s.selected e.1 (some { value := .string e.2 })) s

/-- MSET key value key value … -/
def mset (words : List Octets) : Step :=
  match pairUp words with
  | none => fun s => (refuse (.wrongArity .mset), s)
  | some pairs => fun s => (.ok okReply, writeAll pairs s)

end BatchStore.Strings
