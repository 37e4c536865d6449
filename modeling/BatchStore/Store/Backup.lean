import BatchStore.Store.Payload
import BatchStore.Store.Words

/-!
# Dumping and restoring keys

DUMP answers the payload of a value; RESTORE puts the value of a payload at a key. Neither knows
more of payloads than their form.
-/

namespace BatchStore.Backup

/-- Answers the payload of a value in a form. -/
def dumpBy (form : Payload.Form) : KeyStep := fun seen =>
  keep seen (seen.elim .null fun e => .octets (form.write (Payload.contentOf e.value)))

/-- DUMP key. -/
def dump : KeyStep := dumpBy Payload.form

/-- What the words behind the payload of RESTORE ask for. -/
structure RestorePlan where
  replace : Bool := false
  absolute : Bool := false

/-- Reads the options of RESTORE. The eviction hints must have a number each and are
otherwise passed over. -/
def RestorePlan.read (plan : RestorePlan) : List Octets → Except Halt RestorePlan
  | [] => .ok plan
  | w :: rest =>
    match Keyword.ofOctets? w, rest with
    | some .replace, rest => RestorePlan.read { plan with replace := true } rest
    | some .absttl, rest => RestorePlan.read { plan with absolute := true } rest
    | some .idletime, v :: rest => do
      let _ ← readInt v
      RestorePlan.read plan rest
    | some .freq, v :: rest => do
      let _ ← readInt v
      RestorePlan.read plan rest
    | _, _ => refuse .syntaxError

/-- Puts the value of a payload at a key, without a deadline. -/
def RestorePlan.stepBy (form : Payload.Form) (plan : RestorePlan) (payload : Octets) :
    KeyStep := fun seen =>
  if seen.isSome && !plan.replace then refuse .busyKey
  else
    match (form.read? payload).bind Payload.valueOf? with
    | none => refuse .badPayload
    | some value => .ok (okReply, some { value })

/-- The same for payloads as DUMP answers them. -/
def RestorePlan.step : RestorePlan → Octets → KeyStep := RestorePlan.stepBy Payload.form

/-- The deadline of a restored key, if it has one. -/
def RestorePlan.deadline? (plan : RestorePlan) (now : Float) (lifetime : Int) :
    Except Halt (Option Float) :=
  if lifetime ≤ 0 then .ok none
  else do
    let seconds ← asSeconds lifetime
    return some (if plan.absolute then seconds else now + seconds)

/-- Sets the deadline of a key that is there. -/
def withDeadline (t : Float) : KeyStep := fun seen =>
  .ok (okReply, seen.map fun e => { e with deadline? := some t })

/-- Restores a key from a payload in a form. The value is in place before the deadline is
worked out. -/
def restoreBy (form : Payload.Form) (now : Float) (key lifetime payload : Octets)
    (options : List Octets) : Step :=
  Store.given (readInt lifetime) fun lifetime =>
    Store.given (RestorePlan.read {} options) fun plan =>
      Store.andThen (Store.onKey now key (plan.stepBy form payload)) fun reply =>
        Store.given (plan.deadline? now lifetime) fun
          | none => fun s => (.ok reply, s)
          | some t => Store.onKey now key (withDeadline t)

/-- RESTORE key lifetime payload options. -/
def restore : Float → Octets → Octets → Octets → List Octets → Step := restoreBy Payload.form

end BatchStore.Backup
