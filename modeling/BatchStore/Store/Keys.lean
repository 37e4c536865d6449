import BatchStore.Store.Words

/-!
# Keys of any kind

Commands that look at keys, their kinds and their deadlines, whatever they hold, and the
three that carry a key over: RENAME within a database, MOVE and COPY also to another.
-/

namespace BatchStore.Keys

/-! ## One key -/

/-- DEL takes a key out and answers whether it was there. -/
def delete : KeyStep := fun seen => .ok (.int (if seen.isSome then 1 else 0), none)

/-- EXISTS answers whether a key is there. -/
def exists? : KeyStep := fun seen => keep seen (.int (if seen.isSome then 1 else 0))

/-- EXPIRE sets a deadline some seconds ahead; without any the key goes at once. -/
def expireStep (now : Float) (seconds : Int) : KeyStep := fun seen =>
  match seen with
  | none => keep seen (.bool false)
  | some e =>
    if seconds ≤ 0 then .ok (.bool true, none)
    else do
      let span ← asReal seconds
      return (.bool true, some { e with deadline? := some (now + span) })

/-- EXPIRE key seconds. -/
def expire (now : Float) (key seconds : Octets) : Step :=
  Store.given (readInt seconds) fun seconds => Store.onKey now key (expireStep now seconds)

/-- The whole number nearest to a double, a tie going to the even one. -/
def roundReal (x : Float) : Except Halt Int :=
  match Number.Dyadic.ofFloat? x with
  | some d => .ok d.round
  | none => breakDown (if x.isNaN then .nanToInteger else .infinityToInteger)

/-- TTL answers the seconds that are left: -1 without a deadline, -2 without a key. -/
def ttl (now : Float) : KeyStep := fun seen =>
  match seen with
  | none => keep seen (.int (-2))
  | some e =>
    match e.deadline? with
    | none => keep seen (.int (-1))
    | some t => do keep seen (.int (← roundReal (t - now)))

/-- PERSIST takes the deadline away and answers whether there was one. -/
def persist : KeyStep := fun seen =>
  .ok (.bool (seen.any fun e => e.deadline?.isSome),
    seen.map fun e => { e with deadline? := none })

/-- TYPE answers the kind of the value. -/
def type : KeyStep := fun seen =>
  keep seen (.text (match seen with | some e => e.value.kindName | none => "none"))

/-! ## Carrying over -/

/-- RENAME key newKey: the new key gets value and deadline, whatever it held. -/
def rename (now : Float) (key newKey : Octets) : Step :=
  Store.withSelected fun i => Store.lookUp now i key fun
    | none => fun s => (refuse .noSuchKey, s)
    | some e => fun s => (.ok okReply, (s.setEntry i key none).setEntry i newKey (some e))

/-- Moves a key of a database to another database, unless that holds the key. -/
def moveTo (now : Float) (key : Octets) (target i : Nat) : Step :=
  if target = i then fun s => (refuse .sameObject, s)
  else Store.lookUp now i key fun
    | none => fun s => (.ok (.bool false), s)
    | some e => Store.lookUp now target key fun taken s =>
      if taken.isSome then (.ok (.bool false), s)
      else (.ok (.bool true), (s.setEntry target key (some e)).setEntry i key none)

/-- MOVE key index. -/
def move (now : Float) (key index : Octets) : Step := fun s =>
  Store.given ((readInt index).bind s.index?)
    (fun target => Store.withSelected (moveTo now key target)) s

/-- What the words behind the keys of COPY ask for. -/
structure CopyPlan where
  target : Nat
  replace : Bool := false

/-- Reads the options of COPY in a store. -/
def CopyPlan.read (s : Store) (plan : CopyPlan) : List Octets → Except Halt CopyPlan
  | [] => .ok plan
  | w :: rest =>
    match Keyword.ofOctets? w, rest with
    | some .db, index :: rest => do
      let index ← readInt index
      let target ← s.index? index
      CopyPlan.read s { plan with target } rest
    | some .replace, rest => CopyPlan.read s { plan with replace := true } rest
    | _, _ => refuse .syntaxError

/-- Copies a key of a database as planned. -/
def CopyPlan.run (plan : CopyPlan) (now : Float) (source destination : Octets) (i : Nat) : Step :=
  if plan.target = i ∧ source = destination then fun s => (refuse .sameObject, s)
  else Store.lookUp now i source fun
    | none => fun s => (.ok (.bool false), s)
    | some e => Store.lookUp now plan.target destination fun taken s =>
      if taken.isSome && !plan.replace then (.ok (.bool false), s)
      else (.ok (.bool true), s.setEntry plan.target destination (some e))

/-- COPY source destination options. -/
def copy (now : Float) (source destination : Octets) (options : List Octets) : Step := fun s =>
  Store.given (CopyPlan.read s { target := s.selected } options)
    (fun plan => Store.withSelected (plan.run now source destination)) s

end BatchStore.Keys
