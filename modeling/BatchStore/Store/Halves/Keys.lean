import BatchStore.Store.Backup
import BatchStore.Store.Halves
import BatchStore.Store.Keys

/-!
# Keys of any kind in two tables

What DEL, EXPIRE, PERSIST and RESTORE do to the two tables of a database.
-/

namespace BatchStore.Halves

/-- DEL takes a key out of both tables. -/
def delete (now : Float) (key : Octets) : Edit Datum :=
  lookUp now key fun
    | none => answer (.ok (.int 0))
    | some _ => fun db => (.ok (.int 1), db.remove key)

/-- EXPIRE key seconds. -/
def expire (now : Float) (key : Octets) (seconds : Int) : Edit Datum :=
  lookUp now key fun
    | none => answer (.ok (.bool false))
    | some _ =>
      if seconds ≤ 0 then fun db => (.ok (.bool true), db.remove key)
      else Store.given (asReal seconds) fun span db =>
        (.ok (.bool true), db.expireAt key (some (now + span)))

/-- PERSIST takes a key out of the table of deadlines and answers whether it was there. -/
def unexpire (now : Float) (key : Octets) : Edit Datum :=
  lookUp now key fun
    | none => answer (.ok (.bool false))
    | some _ => fun db => (.ok (.bool (db.expires.contains key)), db.persist key)

/-- RESTORE key, with the words read: the value is stored before the deadline is worked out. -/
def restore (now : Float) (key : Octets) (lifetime : Int) (plan : Backup.RestorePlan)
    (payload : Octets) : Edit Datum :=
  lookUp now key fun taken? =>
    if taken?.isSome && !plan.replace then answer (refuse .busyKey)
    else
      match (Payload.form.read? payload).bind Payload.valueOf? with
      | none => answer (refuse .badPayload)
      | some value => fun db =>
        Store.given (plan.deadline? now lifetime)
          (fun t? db => (.ok okReply, db.expireAt key t?)) (db.store key value false)

end BatchStore.Halves
