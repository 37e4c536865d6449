import BatchStore.Proofs.Store.Halves
import BatchStore.Store.Halves.Collections
import BatchStore.Store.Halves.Keys
import BatchStore.Store.Halves.Strings

/-!
# Edits of two tables do what steps do to an entry

A command on one key is a step on the entry at the key, and an edit of two tables. `Follows` says
that the edit does what the step does: it answers the same, and the two tables hold the one table
again.

An edit looks at its key first. What it does then on a consistent database is told by `Ends`,
against what the step answers to the entry: it fails where the step fails and has written nothing,
or it answers the same and has written the value and the deadline that the step leaves
(`follows_of_ends`). The deadline is the point of every proof: what the row of edits does to it, and
that it is gone when the value is.
-/

namespace BatchStore

/-- Carries out a step on a key of a database. -/
def Database.onKey (now : Float) (key : Octets) (step : KeyStep) : ActOn Database Datum :=
  fun one =>
    Store.given (step (one.live? now key)) (fun a one => (.ok a.1, one.set key a.2))
      (one.settle now key)

/-- What RESTORE does to a database: a step puts the value there, and another the deadline. -/
def Database.restore (now : Float) (key : Octets) (lifetime : Int) (plan : Backup.RestorePlan)
    (payload : Octets) : ActOn Database Datum :=
  Store.andThen (Database.onKey now key (plan.step payload)) fun reply =>
    Store.given (plan.deadline? now lifetime) fun
      | none => fun one => (.ok reply, one)
      | some t => Database.onKey now key (Backup.withDeadline t)

/-- A deadline is given to a key that was written without one. -/
theorem Database.onKey_withDeadline (one : Database) (now : Float) (key : Octets) (value : Value)
    (t : Float) :
    Database.onKey now key (Backup.withDeadline t) (one.set key (some ⟨value, none⟩)) =
      (.ok okReply, (one.set key (some ⟨value, none⟩)).set key (some ⟨value, some t⟩)) := by
  have hThere : Table.get? (one.set key (some ⟨value, none⟩)) key = some ⟨value, none⟩ := by
    rw [Table.get?_set, beq_self_eq_true, if_pos rfl]
  have hSettled : Database.settle (one.set key (some ⟨value, none⟩)) now key =
      one.set key (some ⟨value, none⟩) := by
    unfold Database.settle
    rw [hThere]
    rfl
  have hLive : Database.live? (one.set key (some ⟨value, none⟩)) now key = some ⟨value, none⟩ := by
    unfold Database.live?
    rw [hThere]
    rfl
  unfold Database.onKey
  rw [hSettled, hLive]
  rfl

namespace Halves

variable {db after : Halves} {now : Float} {key : Octets}

/-! ## Ends of an edit -/

/-- How an edit of a key ends on a database, by what a step answers to the entry at the key. -/
inductive Ends (db : Halves) (key : Octets) :
    Except Halt (Datum × Option Entry) → Except Halt Datum × Halves → Prop where
  | failed (h : Halt) : Ends db key (.error h) (.error h, db)
  | wrote {reply : Datum} {value? : Option Value} {deadline? : Option Float} {after : Halves}
      (hWrites : db.Writes key value? deadline? after)
      (hCovered : value? = none → deadline? = none) :
      Ends db key (.ok (reply, value?.map fun value => ⟨value, deadline?⟩)) (.ok reply, after)

/-- An edit follows a step if it ends so behind the lookup of its key. -/
theorem follows_of_ends {next : Option Value → Edit Datum} {step : KeyStep}
    (h : ∀ db : Halves, db.Consistent →
      Ends db key (step (db.held? key)) (next (db.data.get? key) db)) :
    Store.Follows Holds (lookUp now key next) (Database.onKey now key step) := by
  intro db one hHolds
  have hSettled := hHolds.settle now key
  have hEnds := h _ hSettled.toConsistent
  rw [hHolds.held?_settle] at hEnds
  unfold lookUp Database.onKey
  dsimp only
  generalize step (one.live? now key) = answered at hEnds ⊢
  generalize next ((db.settle now key).data.get? key) (db.settle now key) = ended at hEnds ⊢
  cases hEnds with
  | failed halt => exact ⟨rfl, hSettled⟩
  | wrote hWrites hCovered => exact ⟨rfl, hSettled.writes hWrites hCovered⟩

namespace Ends

/-- Nothing is written. -/
theorem kept (h : db.Consistent) (reply : Datum) :
    Ends db key (.ok (reply, db.held? key)) (.ok reply, db) :=
  .wrote (.refl db key) (h.covered key)

/-- The key goes out of both tables. -/
theorem removed (reply : Datum) : Ends db key (.ok (reply, none)) (.ok reply, db.remove key) :=
  .wrote (Writes.refl db key).remove fun _ => rfl

/-- A value is written, and a deadline or none. -/
theorem put {reply : Datum} {value : Value} {deadline? : Option Float}
    (h : db.Writes key (some value) deadline? after) :
    Ends db key (.ok (reply, some ⟨value, deadline?⟩)) (.ok reply, after) :=
  .wrote h nofun

/-- Both go on with a result that they are given, or end with its failure. -/
theorem given {α : Type} {x : Except Halt α} {f : α → Except Halt (Datum × Option Entry)}
    {next : α → Edit Datum} (h : ∀ a, x = .ok a → Ends db key (f a) (next a db)) :
    Ends db key (x >>= f) (Store.given x next db) := by
  cases x with
  | error halt => exact .failed halt
  | ok a => exact h a rfl

end Ends

/-! ## What is seen of a key -/

/-- A key without a value has no entry. -/
theorem held?_none (h : db.data.get? key = none) : db.held? key = none := by
  unfold held?
  rw [h]
  rfl

/-- A key with a value has an entry with its deadline. -/
theorem held?_some {value : Value} (h : db.data.get? key = some value) :
    db.held? key = some ⟨value, db.expires.get? key⟩ := by
  unfold held?
  rw [h]
  rfl

/-- In a consistent database the deadline of a key is that of its entry. -/
theorem Consistent.deadline?_held? (h : db.Consistent) (key : Octets) :
    (db.held? key).bind (·.deadline?) = db.expires.get? key := by
  cases hValue : db.data.get? key with
  | none =>
      rw [held?_none hValue, h.covered key hValue]
      rfl
  | some value =>
      rw [held?_some hValue]
      rfl

/-- The kind of a value is looked at without its deadline. -/
theorem expect_held? {α : Type} (kind? : Value → Option α) (db : Halves) (key : Octets) :
    expect kind? (db.held? key) = expect kind? (bare (db.data.get? key)) := by
  unfold held?
  cases db.data.get? key <;> rfl

/-- Nothing of the kind is seen only where nothing is. -/
theorem held?_of_expect_none {α : Type} {kind? : Value → Option α}
    (h : expect kind? (db.held? key) = .ok none) : db.held? key = none := by
  cases hEntry : db.held? key with
  | none => rfl
  | some e =>
      rw [hEntry] at h
      unfold expect at h
      dsimp only at h
      cases hKind : kind? e.value with
      | none =>
          rw [hKind] at h
          cases h
      | some a =>
          rw [hKind] at h
          cases h

/-- Both look at the kind of the value first. -/
theorem Ends.ofKind {α : Type} {kind? : Value → Option α}
    {f : Option α → Except Halt (Datum × Option Entry)} {next : Option α → Edit Datum}
    (h : ∀ a?, expect kind? (db.held? key) = .ok a? → Ends db key (f a?) (next a? db)) :
    Ends db key (expect kind? (db.held? key) >>= f)
      (Store.given (expect kind? (bare (db.data.get? key))) next db) := by
  rw [← expect_held?]
  exact .given h

/-! ## Keys that are only looked at -/

/-- An answer that leaves what was seen. -/
def Leaves (seen : Option Entry) (answered : Except Halt (Datum × Option Entry)) : Prop :=
  ∀ reply after?, answered = .ok (reply, after?) → after? = seen

theorem Leaves.keep {seen : Option Entry} (reply : Datum) : Leaves seen (keep seen reply) := by
  rintro _ _ ⟨⟩
  rfl

theorem Leaves.bind {α : Type} {seen : Option Entry} {x : Except Halt α}
    {f : α → Except Halt (Datum × Option Entry)} (h : ∀ a, Leaves seen (f a)) :
    Leaves seen (x >>= f) := by
  cases x with
  | error halt => exact fun _ _ hOk => nomatch hOk
  | ok a => exact h a

/-- A step that leaves what it sees is followed by reading. -/
theorem follows_read {step : KeyStep} (h : ∀ seen, Leaves seen (step seen)) :
    Store.Follows Holds (read now key step) (Database.onKey now key step) := by
  refine follows_of_ends fun db hdb => ?_
  have hLeaves := h (db.held? key)
  cases hAnswer : step (db.held? key) with
  | error halt => exact .failed halt
  | ok a =>
      obtain ⟨reply, after?⟩ := a
      have hAfter : after? = db.held? key := hLeaves reply after? hAnswer
      rw [hAfter]
      exact .kept hdb reply

/-! ## Keys of any kind -/

theorem follows_delete :
    Store.Follows Holds (delete now key) (Database.onKey now key Keys.delete) := by
  refine follows_of_ends fun db hdb => ?_
  cases hValue : db.data.get? key with
  | none =>
      have hKept : Ends db key (.ok (.int 0, db.held? key)) (.ok (.int 0), db) := .kept hdb _
      rw [held?_none hValue] at hKept ⊢
      exact hKept
  | some value =>
      rw [held?_some hValue]
      exact .removed (.int 1)

theorem follows_expire (seconds : Int) :
    Store.Follows Holds (expire now key seconds)
      (Database.onKey now key (Keys.expireStep now seconds)) := by
  refine follows_of_ends fun db hdb => ?_
  cases hValue : db.data.get? key with
  | none =>
      have hKept : Ends db key (.ok (.bool false, db.held? key)) (.ok (.bool false), db) :=
        .kept hdb _
      rw [held?_none hValue] at hKept ⊢
      exact hKept
  | some value =>
      rw [held?_some hValue]
      unfold Keys.expireStep
      dsimp only
      by_cases hGone : seconds ≤ 0
      · rw [if_pos hGone, if_pos hGone]
        exact .removed (.bool true)
      · rw [if_neg hGone, if_neg hGone]
        refine .given fun span _ => .put ?_
        have hWrites := (Writes.refl db key).expireAt (some (now + span))
        rwa [hValue] at hWrites

theorem follows_unexpire :
    Store.Follows Holds (unexpire now key) (Database.onKey now key Keys.persist) := by
  refine follows_of_ends fun db hdb => ?_
  cases hValue : db.data.get? key with
  | none =>
      have hKept : Ends db key (.ok (.bool false, db.held? key)) (.ok (.bool false), db) :=
        .kept hdb _
      rw [held?_none hValue] at hKept ⊢
      exact hKept
  | some value =>
      rw [held?_some hValue]
      have hWrites := (Writes.refl db key).persist
      rw [hValue] at hWrites
      exact .put hWrites

/-- RESTORE stores the value, and behind it gives the deadline to the key that is there then. -/
theorem follows_restore (lifetime : Int) (plan : Backup.RestorePlan) (payload : Octets) :
    Store.Follows Holds (restore now key lifetime plan payload)
      (Database.restore now key lifetime plan payload) := by
  intro db one hHolds
  have hSettled := hHolds.settle now key
  have hTaken : ((db.settle now key).data.get? key).isSome = (one.live? now key).isSome :=
    hHolds.contains_settle now key
  unfold restore lookUp Database.restore Database.onKey Store.andThen Backup.RestorePlan.step
    Backup.RestorePlan.stepBy
  dsimp only
  rw [hTaken]
  by_cases hBusy : ((one.live? now key).isSome && !plan.replace) = true
  · rw [if_pos hBusy, if_pos hBusy]
    exact ⟨rfl, hSettled⟩
  · rw [if_neg hBusy, if_neg hBusy]
    cases (Payload.form.read? payload).bind Payload.valueOf? with
    | none => exact ⟨rfl, hSettled⟩
    | some value =>
        have hStored := hSettled.writes ((Writes.refl _ key).store value false) nofun
        have hThere : ((db.settle now key).store key value false).data.get? key = some value := by
          rw [((Writes.refl (db.settle now key) key).store value false).data, beq_self_eq_true,
            if_pos rfl]
        cases plan.deadline? now lifetime with
        | error halt => exact ⟨rfl, hStored⟩
        | ok t? =>
            cases t? with
            | none => exact ⟨rfl, hStored⟩
            | some t =>
                have hGiven := hStored.writes ((Writes.refl _ key).expireAt (some t)) fun hNone =>
                  nomatch hThere.symm.trans hNone
                rw [hThere] at hGiven
                have hOnKey := Database.onKey_withDeadline (one.settle now key) now key value t
                show Store.Related Holds
                  (Except.ok okReply,
                    ((db.settle now key).store key value false).expireAt key (some t))
                  (Database.onKey now key (Backup.withDeadline t)
                    ((one.settle now key).set key (some ⟨value, none⟩)))
                rw [hOnKey]
                exact ⟨rfl, hGiven⟩

/-! ## Strings -/

theorem follows_setString (value : Octets) (plan : Strings.SetPlan) :
    Store.Follows Holds (setString now key value plan)
      (Database.onKey now key (plan.step value)) := by
  refine follows_of_ends fun db hdb => ?_
  have hOld :
      (if plan.returnOld then expect Value.string? (bare (db.data.get? key)) else .ok none) =
      if plan.returnOld then expect Value.string? (db.held? key) else .ok none := by
    rw [expect_held?]
  have hAllowed :
      plan.guard.allows (bare (db.data.get? key)) = plan.guard.allows (db.held? key) := by
    unfold held?
    cases db.data.get? key <;> rfl
  have hDeadline : plan.newDeadline (db.held? key) =
      plan.deadline?.or (if plan.keepDeadline then db.expires.get? key else none) := by
    unfold Strings.SetPlan.newDeadline
    rw [hdb.deadline?_held?]
    cases plan.deadline? <;> rfl
  have hWrites := ((Writes.refl db key).store (.string value) plan.keepDeadline).expireAt
    plan.deadline?
  rw [← hDeadline] at hWrites
  have hStep : plan.step value (db.held? key) =
      (if plan.returnOld then expect Value.string? (db.held? key) else .ok none) >>= fun old =>
        .ok (if plan.returnOld then Strings.shown old
          else if plan.guard.allows (db.held? key) then okReply else .null,
          if plan.guard.allows (db.held? key) then
            some ⟨.string value, plan.newDeadline (db.held? key)⟩
          else db.held? key) := by
    unfold Strings.SetPlan.step
    cases plan.returnOld <;> rfl
  rw [hOld, hAllowed, hStep]
  refine .given fun old _ => ?_
  by_cases hWritten : plan.guard.allows (db.held? key) = true
  · rw [if_pos hWritten, if_pos hWritten, if_pos hWritten]
    exact .put hWrites
  · rw [if_neg hWritten, if_neg hWritten, if_neg hWritten]
    exact .kept hdb _

/-- What GETEX writes: the deadline of a key that is there. -/
theorem ends_getex {reply : Datum} {value? : Option Octets} {deadline? : Option Float}
    (hdb : db.Consistent) (hSeen : expect Value.string? (db.held? key) = .ok value?)
    (hEdit : db.Writes key (db.data.get? key) deadline? after) :
    Ends db key
      (.ok (reply, (db.held? key).map fun e => { e with deadline? := deadline? }))
      (.ok reply, if value?.isSome then after else db) := by
  cases hValue : db.data.get? key with
  | none =>
      have hKept : Ends db key (.ok (reply, db.held? key)) (.ok reply, db) := .kept hdb reply
      rw [held?_none hValue] at hKept hSeen ⊢
      cases hSeen
      exact hKept
  | some value =>
      have hThere : value?.isSome = true := by
        cases value? with
        | some w => rfl
        | none =>
            have hNone := held?_of_expect_none hSeen
            rw [held?_some hValue] at hNone
            cases hNone
      rw [held?_some hValue, if_pos hThere]
      rw [hValue] at hEdit
      exact .put hEdit

theorem follows_getex (options : List Octets) :
    Store.Follows Holds (getex now key options)
      (Database.onKey now key (Strings.getex now options)) := by
  refine follows_of_ends fun db hdb => .ofKind fun value? hSeen => ?_
  match options with
  | [] => exact .kept hdb _
  | [w] =>
      dsimp only
      by_cases hPersist : (w == Keyword.persist.octets) = true
      · rw [if_pos hPersist, if_pos hPersist]
        exact ends_getex hdb hSeen (Writes.refl db key).persist
      · rw [if_neg hPersist, if_neg hPersist]
        exact .failed _
  | [w, v] =>
      dsimp only
      cases Keyword.ofOctets? w with
      | none => exact .failed _
      | some k =>
          dsimp only
          by_cases hSets : k.setsDeadline = true
          · rw [if_pos hSets, if_pos hSets]
            exact .given fun amount _ => .given fun t _ =>
              ends_getex hdb hSeen ((Writes.refl db key).expireAt (some t))
          · rw [if_neg hSets, if_neg hSets]
            exact .failed _
  | _ :: _ :: _ :: _ => exact .failed _

/-- A value that takes the place of another comes under its deadline. -/
theorem Consistent.writes_replace (hdb : db.Consistent) (value : Value) :
    Ends db key (.ok (reply, some (.replace (db.held? key) value)))
      (.ok reply, db.store key value true) := by
  unfold Entry.replace
  rw [hdb.deadline?_held?]
  exact .put ((Writes.refl db key).store value true)

theorem follows_append (value : Octets) :
    Store.Follows Holds (append now key value) (Database.onKey now key (Strings.append value)) :=
  follows_of_ends fun _ hdb => .ofKind fun _ _ => hdb.writes_replace _

/-- What the commands on counters write: the number in digits, unless it has too many. -/
theorem Consistent.ends_writeInt (hdb : db.Consistent) (number : Int) :
    Ends db key (Strings.writeInt (db.held? key) number) (storeInt key number db) := by
  unfold Strings.writeInt storeInt
  generalize Number.intText? number = digits?
  cases digits? with
  | none => exact .failed _
  | some s => exact hdb.writes_replace _

theorem follows_add (amount : Int) :
    Store.Follows Holds (add now key amount) (Database.onKey now key (Strings.add amount)) := by
  refine follows_of_ends fun db hdb => .ofKind fun old? _ => ?_
  cases old? with
  | none => exact hdb.ends_writeInt amount
  | some w => exact .given fun number _ => hdb.ends_writeInt (number + amount)

/-! ## Collections -/

/-- A key with a value that may be empty: it goes out of both tables if the value is. -/
theorem Ends.putUnlessEmpty {reply : Datum} {value : Value} {deadline? : Option Float}
    (h : db.Writes key (some value) deadline? after) :
    Ends db key (.ok (reply, if value.isEmpty then none else some ⟨value, deadline?⟩))
      (.ok reply, after.dropIfEmpty key) := by
  have hWrites := h.dropIfEmpty
  by_cases hEmpty : value.isEmpty = true
  · rw [if_pos hEmpty, if_pos hEmpty] at hWrites
    rw [if_pos hEmpty]
    exact .wrote hWrites fun _ => rfl
  · rw [if_neg hEmpty, if_neg hEmpty] at hWrites
    rw [if_neg hEmpty]
    exact .put hWrites

/-- A collection that grows keeps the deadline that it had. One that was missing comes under none,
for it is stored before it is changed. -/
theorem Consistent.writes_grown {α : Type} {k : Holding α} {old? : Option α} (hdb : db.Consistent)
    (hSeen : expect k.of? (db.held? key) = .ok old?) (new : α) :
    db.Writes key (some (k.make new)) ((db.held? key).bind (·.deadline?))
      ((if old?.isNone then db.store key (k.make k.empty) false else db).assign key
        (k.make new)) := by
  cases old? with
  | none =>
      rw [held?_of_expect_none hSeen]
      exact ((Writes.refl db key).store (k.make k.empty) false).assign (k.make new)
  | some old =>
      rw [hdb.deadline?_held?]
      exact (Writes.refl db key).assign (k.make new)

/-- A step that changes a collection, or the empty one in place of none, is followed by growing. -/
theorem follows_grow {α : Type} (k : Holding α) (change : α → Datum × α) {step : KeyStep}
    (hStep : ∀ seen, step seen = expect k.of? seen >>= fun old? =>
      .ok ((change (old?.getD k.empty)).1,
        some (.replace seen (k.make (change (old?.getD k.empty)).2)))) :
    Store.Follows Holds (grow k now key change) (Database.onKey now key step) := by
  refine follows_of_ends fun db hdb => ?_
  rw [hStep]
  exact .ofKind fun old? hSeen => .put (hdb.writes_grown hSeen _)

/-- A step that changes a collection and drops it when it is empty is followed by shrinking. -/
theorem follows_shrink {α : Type} (k : Holding α) (missing : Datum)
    (change : α → Except Halt (Datum × α)) {step : KeyStep}
    (hStep : ∀ seen, step seen = expect k.of? seen >>= fun
      | none => keep seen missing
      | some old => change old >>= fun r =>
        .ok (r.1, Entry.replaceUnlessEmpty seen (k.make r.2))) :
    Store.Follows Holds (shrink k now key missing change) (Database.onKey now key step) := by
  refine follows_of_ends fun db hdb => ?_
  rw [hStep]
  refine .ofKind fun old? hSeen => ?_
  cases old? with
  | none => exact .kept hdb missing
  | some old => exact .given fun r _ => .putUnlessEmpty (hdb.writes_grown hSeen r.2)

/-- Two ways to go on from what was looked for are one if they agree where nothing was found and
where something was. -/
theorem bind_eq_of_found {α β : Type} {x : Except Halt (Option α)} {f g : Option α → Except Halt β}
    (hNone : f none = g none) (hSome : ∀ a, f (some a) = g (some a)) : (x >>= f) = x >>= g := by
  rw [funext (Option.rec hNone hSome : ∀ a?, f a? = g a?)]

theorem follows_push (e : Lists.End) (elements : List Octets) :
    Store.Follows Holds (push e now key elements)
      (Database.onKey now key (Lists.pushStep e elements)) :=
  follows_grow _ _ fun _ => rfl

theorem follows_sadd (members : List Octets) :
    Store.Follows Holds (sadd now key members) (Database.onKey now key (Sets.sadd members)) :=
  follows_grow _ _ fun _ => rfl

theorem follows_hset (pairs : List (Octets × Octets)) :
    Store.Follows Holds (hset now key pairs) (Database.onKey now key (Hashes.hsetStep pairs)) :=
  follows_grow _ _ fun _ => rfl

theorem follows_zadd (pairs : List (Datum × Datum)) :
    Store.Follows Holds (zadd now key pairs)
      (Database.onKey now key (SortedSets.zaddStep pairs)) := by
  refine follows_grow _ _ fun seen => ?_
  show (expect Value.zset? seen >>= _) >>= _ = expect Value.zset? seen >>= _
  cases expect Value.zset? seen <;> rfl

theorem follows_srem (members : List Octets) :
    Store.Follows Holds (srem now key members) (Database.onKey now key (Sets.srem members)) :=
  follows_shrink _ _ _ fun _ => bind_eq_of_found rfl fun _ => rfl

theorem follows_hdel (fields : List Octets) :
    Store.Follows Holds (hdel now key fields) (Database.onKey now key (Hashes.hdel fields)) :=
  follows_shrink _ _ _ fun _ => bind_eq_of_found rfl fun _ => rfl

theorem follows_zrem (members : List Octets) :
    Store.Follows Holds (zrem now key members) (Database.onKey now key (SortedSets.zrem members)) :=
  follows_shrink _ _ _ fun _ => bind_eq_of_found rfl fun _ => rfl

theorem follows_zpop (e : SortedSets.Extreme) (count : Int) :
    Store.Follows Holds (zpop e now key count)
      (Database.onKey now key (SortedSets.zpopStep e count)) := by
  refine follows_shrink _ _ _ fun _ => bind_eq_of_found rfl fun old => ?_
  dsimp only
  cases SortedSets.extremes old e count <;> rfl

/-- An empty list is neither popped from nor taken out. -/
theorem follows_pop (e : Lists.End) :
    Store.Follows Holds (pop e now key) (Database.onKey now key (Lists.popStep e)) := by
  refine follows_of_ends fun db hdb => .ofKind fun old? hSeen => ?_
  dsimp only
  cases hPop : Lists.pop? (old?.getD []) e with
  | none => exact .kept hdb .null
  | some popped =>
      cases old? with
      | none => cases e <;> cases hPop
      | some old => exact .putUnlessEmpty (hdb.writes_grown (k := .list) hSeen popped.2)

/-- A sorted set that was stored for places and got none goes out of both tables again. -/
theorem follows_geoadd (flags : Places.Flags) (places : List (Datum × Datum)) :
    Store.Follows Holds (geoadd now key flags places)
      (Database.onKey now key (Places.geoaddStep flags places)) := by
  have hEdit : geoadd now key flags places = lookUpKind now key Value.zset? fun old? db =>
      (.ok (.int (flags.write (old?.getD .empty) places).2),
        ((if old?.isNone then db.store key (.zset .empty) false else db).assign key
          (.zset (flags.write (old?.getD .empty) places).1)).dropIfEmpty key) := by
    funext db
    unfold geoadd grow lookUpKind lookUp Store.andThen
    have hKind : Holding.zset.of? = Value.zset? := rfl
    rw [hKind]
    dsimp only
    cases expect Value.zset? (bare ((db.settle now key).data.get? key)) <;> rfl
  rw [hEdit]
  refine follows_of_ends fun db hdb => ?_
  have hStep : Places.geoaddStep flags places (db.held? key) =
      expect Value.zset? (db.held? key) >>= fun old? =>
        .ok (.int (flags.write (old?.getD .empty) places).2,
          Entry.replaceUnlessEmpty (db.held? key)
            (.zset (flags.write (old?.getD .empty) places).1)) := by
    show (expect Value.zset? _ >>= _) >>= _ = expect Value.zset? _ >>= _
    cases expect Value.zset? (db.held? key) <;> rfl
  rw [hStep]
  exact .ofKind fun old? hSeen => .putUnlessEmpty (hdb.writes_grown (k := .zset) hSeen _)

end Halves

end BatchStore
