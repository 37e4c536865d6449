import BatchStore.Store.Halves
import BatchStore.Store.Strings

/-!
# Strings in two tables

What the commands on strings do to the two tables of a database.
-/

namespace BatchStore.Halves

/-- SET key value, with the options read. -/
def setString (now : Float) (key value : Octets) (plan : Strings.SetPlan) : Edit Datum :=
  lookUp now key fun current? =>
    let old := if plan.returnOld then expect Value.string? (bare current?) else .ok none
    let allowed := plan.guard.allows (bare current?)
    Store.given old fun old db =>
      (.ok (if plan.returnOld then Strings.shown old else if allowed then okReply else .null),
        if allowed then
          (db.store key (.string value) plan.keepDeadline).expireAt key plan.deadline?
        else db)

/-- GETEX key options. The options are looked at behind the kind of the value, and nothing is
written for a key that is not there. -/
def getex (now : Float) (key : Octets) (options : List Octets) : Edit Datum :=
  lookUpKind now key Value.string? fun value? =>
    let answerWith (edit : Halves → Halves) : Edit Datum := fun db =>
      (.ok (Strings.shown value?), if value?.isSome then edit db else db)
    match options with
    | [] => answer (.ok (Strings.shown value?))
    | [w] =>
      if w == Keyword.persist.octets then answerWith (·.persist key)
      else answer (refuse .syntaxError)
    | [w, v] =>
      match Keyword.ofOctets? w with
      | some k =>
        if k.setsDeadline then
          Store.given (readInt v) fun amount =>
            Store.given (deadlineOf now k amount) fun t => answerWith (·.expireAt key (some t))
        else answer (refuse .syntaxError)
      | none => answer (refuse .syntaxError)
    | _ => answer (refuse .syntaxError)

/-- APPEND key value. -/
def append (now : Float) (key value : Octets) : Edit Datum :=
  lookUpKind now key Value.string? fun old? db =>
    let old := old?.getD []
    (.ok (.int (old.length + value.length)), db.store key (.string (old ++ value)) true)

/-- Stores a whole number in digits, if they are not too many. -/
def storeInt (key : Octets) (number : Int) : Edit Datum :=
  match Number.intText? number with
  | none => answer (breakDown .tooManyDigits)
  | some s => fun db => (.ok (.int number), db.store key (.string (Octets.ofText s)) true)

/-- Adds to the whole number at a key; a missing key counts as zero. -/
def add (now : Float) (key : Octets) (amount : Int) : Edit Datum :=
  lookUpKind now key Value.string? fun
    | none => storeInt key amount
    | some w => Store.given (readInt w) fun number => storeInt key (number + amount)

end BatchStore.Halves
