import Mathlib.Data.List.Forall2
import Mathlib.Data.List.GetD
import BatchStore.Proofs.Store.Edits
import BatchStore.Proofs.Store.History
import BatchStore.Proofs.Store.Script
import BatchStore.Store.Split.Run

/-!
# Stores of databases in two tables do what stores of one do

A store of databases in two tables `Holds` a store if both have the same frame and each database
holds its counterpart. Every command then answers the same on both, and leaves stores that hold
again (`run_refines`).

A command on one key is an edit of the selected database, so what is known of edits is lifted to the
store once (`follows_onKey`). RENAME, MOVE and COPY edit one key or two, in one database or two: a
row of edits of one key is one write of its entry (`Holds.edit`). MOVE and COPY need for this that a
key without a value has no deadline either, for they give a deadline to the target only if the
source has one.

## Main results

* `run_refines`: every command answers the same on both and keeps them together.
* `history_refines`: so does every timeline, from new stores on.
-/

namespace BatchStore

/-! ## Acts on one database -/

/-- Does something to a database of a store. -/
def Store.onDatabase {α : Type} (i : Nat) (q : ActOn Database α) : Act α := fun s =>
  let (a, db) := q (s.database i)
  (a, s.setDatabase i db)

namespace Store

theorem setDatabase_setDatabase (s : Store) (i : Nat) (a b : Database) :
    (s.setDatabase i a).setDatabase i b = s.setDatabase i b := by
  simp [setDatabase]

/-- A database behind another one in its place is the same written once. -/
theorem setDatabase_again (s : Store) (i : Nat) (a : Database) (f : Database → Database) :
    (s.setDatabase i a).setDatabase i (f ((s.setDatabase i a).database i)) =
      s.setDatabase i (f a) := by
  by_cases hi : i < s.databases.length
  · rw [setDatabase_setDatabase, database_setDatabase, if_pos ⟨rfl, hi⟩]
  · simp [setDatabase, List.set_eq_of_length_le (Nat.le_of_not_lt hi)]

/-- A step on a key is carried out in its database. -/
theorem onKeyIn_eq (now : Float) (i : Nat) (key : Octets) (step : KeyStep) :
    onKeyIn now i key step = onDatabase i (Database.onKey now key step) := by
  funext s
  unfold onKeyIn lookUp onDatabase Database.onKey live? given andThen
  dsimp only
  cases step ((s.database i).live? now key) with
  | error halt => rfl
  | ok a => exact congrArg _ (setDatabase_again s i _ fun db => db.set key a.2)

/-- RESTORE is carried out in the selected database. -/
theorem restore_eq {s : Store} (hSelected : s.selected < s.databases.length) (now : Float)
    (key : Octets) (lifetime : Int) (plan : Backup.RestorePlan) (payload : Octets) :
    andThen (onKey now key (plan.step payload)) (fun reply =>
        given (plan.deadline? now lifetime) fun
          | none => fun s => (.ok reply, s)
          | some t => onKey now key (Backup.withDeadline t)) s =
      onDatabase s.selected (Database.restore now key lifetime plan payload) s := by
  unfold onKey
  simp only [onKeyIn_eq]
  unfold onDatabase Database.restore withSelected andThen
  dsimp only
  rcases Database.onKey now key (plan.step payload) (s.database s.selected) with ⟨halt | reply, db⟩
  · rfl
  · cases plan.deadline? now lifetime with
    | error halt => rfl
    | ok t? =>
        cases t? with
        | none => rfl
        | some t =>
            have hThere : (s.setDatabase s.selected db).database s.selected = db := by
              rw [database_setDatabase, if_pos ⟨rfl, hSelected⟩]
            simp only [given, andThen, selected_setDatabase, hThere, setDatabase_setDatabase]

end Store

namespace Split

variable {m : Split} {s : Store} {now : Float} {i : Nat} {key : Octets}

/-! ## Stores that hold the same -/

/-- The same frame, a database selected that is there, and each database holds its counterpart. -/
structure Holds (m : Split) (s : Store) : Prop where
  selected : m.selected = s.selected
  libraries : m.libraries = s.libraries
  count : m.databases.length = s.databases.length
  within : m.selected < m.databases.length
  database : ∀ i, (m.database i).Holds (s.database i)

/-- Putting a database in place changes that one alone, if there is such a one. -/
theorem database_setDatabase (m : Split) (i j : Nat) (db : Halves) :
    (m.setDatabase i db).database j =
      if j = i ∧ i < m.databases.length then db else m.database j := by
  unfold database setDatabase
  simp only [List.getD_eq_getElem?_getD, List.getElem?_set]
  by_cases hj : i = j
  · subst hj
    by_cases hi : i < m.databases.length
    · simp [hi]
    · simp [hi]
  · simp [hj, Ne.symm hj]

/-- Another database is as it was. -/
theorem database_edit_ne {j : Nat} (h : j ≠ i) (m : Split) (f : Halves → Halves) :
    (m.edit i f).database j = m.database j := by
  unfold edit
  rw [database_setDatabase, if_neg fun hBoth => h hBoth.1]

/-- An edit of a database that there is shows there. -/
theorem database_edit (hi : i < m.databases.length) (f : Halves → Halves) :
    (m.edit i f).database i = f (m.database i) := by
  unfold edit
  rw [database_setDatabase, if_pos ⟨rfl, hi⟩]

@[simp] theorem length_edit (m : Split) (i : Nat) (f : Halves → Halves) :
    (m.edit i f).databases.length = m.databases.length := List.length_set

/-- Two edits of a database in a row are one. -/
theorem edit_edit (m : Split) (i : Nat) (f g : Halves → Halves) :
    (m.edit i f).edit i g = m.edit i fun db => g (f db) := by
  by_cases hi : i < m.databases.length
  · unfold edit
    rw [database_setDatabase, if_pos ⟨rfl, hi⟩]
    simp [setDatabase]
  · simp [edit, setDatabase, List.set_eq_of_length_le (Nat.le_of_not_lt hi)]

/-- The stores without their keys have the same frame. -/
theorem Holds.outline (h : m.Holds s) : m.outline.SameFrame s :=
  ⟨h.selected, h.libraries, (List.length_map _).trans h.count⟩

namespace Holds

/-- A database is put in its place on both sides. -/
theorem setDatabase (h : m.Holds s) (i : Nat) {db : Halves} {one : Database}
    (hHolds : db.Holds one) : (m.setDatabase i db).Holds (s.setDatabase i one) where
  selected := h.selected
  libraries := h.libraries
  count := by
    rw [Store.length_setDatabase, ← h.count]
    exact List.length_set
  within := by
    unfold Split.setDatabase
    rw [List.length_set]
    exact h.within
  database j := by
    rw [database_setDatabase, Store.database_setDatabase, h.count]
    split
    · exact hHolds
    · exact h.database j

/-- Edits that leave a value at a key are one write of its entry. -/
theorem put (h : m.Holds s) (i : Nat) {value : Value} {deadline? : Option Float}
    (f : Halves → Halves)
    (hWrites : (m.database i).Writes key (some value) deadline? (f (m.database i))) :
    (m.edit i f).Holds (s.setEntry i key (some ⟨value, deadline?⟩)) :=
  h.setDatabase i ((h.database i).writes hWrites nofun)

/-- A key goes out on both sides. -/
theorem remove (h : m.Holds s) (i : Nat) (key : Octets) :
    (m.edit i (·.remove key)).Holds (s.setEntry i key none) :=
  h.setDatabase i ((h.database i).writes (Halves.Writes.refl _ key).remove fun _ => rfl)

/-- As many databases on both sides, each holding its counterpart. -/
theorem forall₂ (h : m.Holds s) : List.Forall₂ Halves.Holds m.databases s.databases := by
  refine List.forall₂_iff_get.2 ⟨h.count, fun i hi hj => ?_⟩
  have hHolds := h.database i
  unfold Split.database Store.database at hHolds
  rwa [List.getD_eq_getElem _ _ hi, List.getD_eq_getElem _ _ hj] at hHolds

/-- All databases are put in their place on both sides. -/
theorem withDatabases (h : m.Holds s) {dbs : List Halves} {ones : List Database}
    (hAll : List.Forall₂ Halves.Holds dbs ones) (hLength : dbs.length = m.databases.length) :
    Split.Holds { m with databases := dbs } { s with databases := ones } where
  selected := h.selected
  libraries := h.libraries
  count := hAll.length_eq
  within := hLength ▸ h.within
  database i := by
    show (dbs.getD i {}).Holds (ones.getD i .empty)
    by_cases hi : i < dbs.length
    · have hj : i < ones.length := hAll.length_eq ▸ hi
      rw [List.getD_eq_getElem _ _ hi, List.getD_eq_getElem _ _ hj]
      exact (List.forall₂_iff_get.1 hAll).2 i hi hj
    · rw [List.getD_eq_default _ _ (Nat.le_of_not_lt hi),
        List.getD_eq_default _ _ (hAll.length_eq ▸ Nat.le_of_not_lt hi)]
      exact .empty

/-- A new store holds a new store. -/
theorem new {n : Int} {new : Split} (h : Split.new n = .ok new) :
    ∃ s, Store.new n = .ok s ∧ new.Holds s := by
  unfold Split.new at h
  split at h
  · cases h
  · rename_i hCount
    cases h
    refine ⟨_, if_neg hCount, rfl, rfl, ?_, ?_, fun i => ?_⟩
    · rw [List.length_replicate, List.length_replicate]
    · show 0 < (List.replicate n.toNat _).length
      rw [List.length_replicate]
      omega
    · unfold Split.database Store.database
      rw [List.getD_eq_getElem?_getD, List.getD_eq_getElem?_getD,
        List.getElem?_getD_replicate_default_eq, List.getElem?_getD_replicate_default_eq]
      exact .empty

end Holds

/-! ## Commands on keys -/

/-- What is followed in a database is followed in the selected one of a store. -/
theorem follows_onSelected {α : Type} {p : Edit α} {q : ActOn Database α}
    (h : Store.Follows Halves.Holds p q) :
    Store.Follows Holds (onSelected p) (Store.withSelected fun i => Store.onDatabase i q) := by
  intro m s hHolds
  have hEnd := h _ _ (hHolds.database m.selected)
  unfold onSelected Store.withSelected Store.onDatabase
  rw [← hHolds.selected]
  exact ⟨hEnd.1, hHolds.setDatabase m.selected hEnd.2⟩

/-- An edit that follows a step on an entry, in the selected database. -/
theorem follows_onKey {p : Edit Datum} {step : KeyStep}
    (h : Store.Follows Halves.Holds p (Database.onKey now key step)) :
    Store.Follows Holds (onSelected p) (Store.onKey now key step) := by
  have hFollows := follows_onSelected h
  simp only [← Store.onKeyIn_eq] at hFollows
  exact hFollows

/-- A step that leaves what it sees, in the selected database. -/
theorem follows_read {step : KeyStep} (h : ∀ seen, Halves.Leaves seen (step seen)) :
    Store.Follows Holds (read now key step) (Store.onKey now key step) :=
  follows_onKey (Halves.follows_read h)

section Each

variable {p : Octets → Edit Datum} {step : KeyStep}
  (h : ∀ key, Store.Follows Halves.Holds (p key) (Database.onKey now key step))

include h

/-- A step on key after key follows the step that it refines. -/
theorem follows_onEach (keys : List Octets) :
    Store.Follows Holds (onEach p keys) (Store.onEach now step keys) := by
  induction keys with
  | nil => exact .answer (.ok [])
  | cons key keys ih =>
      exact .andThen (follows_onKey (h key)) fun reply => .andThen ih fun replies =>
        .answer (.ok (reply :: replies))

theorem follows_countKeys (keys : List Octets) :
    Store.Follows Holds (countKeys p keys) (Store.countKeys now step keys) :=
  .andThen (follows_onEach h keys) fun replies => .answer (.ok (Datum.int (total replies)))

theorem follows_listKeys (keys : List Octets) :
    Store.Follows Holds (listKeys p keys) (Store.listKeys now step keys) :=
  .andThen (follows_onEach h keys) fun replies => .answer (.ok (Datum.list replies))

end Each

/-- RESTORE in two tables follows RESTORE in one, its words being read the same. -/
theorem follows_restore (key lifetime payload : Octets) (options : List Octets) :
    Store.Follows Holds
      (Store.given (readInt lifetime) fun lifetime =>
        Store.given (Backup.RestorePlan.read {} options) fun plan =>
          onSelected (Halves.restore now key lifetime plan payload))
      (Backup.restore now key lifetime payload options) := by
  refine .given fun lifetime => .given fun plan => fun m s hHolds => ?_
  have hSelected : s.selected < s.databases.length := by
    rw [← hHolds.selected, ← hHolds.count]
    exact hHolds.within
  have hFollows := follows_onSelected (p := Halves.restore now key lifetime plan payload)
    (Halves.follows_restore lifetime plan payload) m s hHolds
  unfold Store.withSelected at hFollows
  dsimp only at hFollows
  rw [← Store.restore_eq hSelected] at hFollows
  exact hFollows

/-! ## Carrying over -/

section Carried

variable {db : Halves} {value : Value} (deadline? : Option Float)

/-- A value that is stored and then given a deadline comes under that one alone. -/
theorem writes_stored (db : Halves) (key : Octets) (value : Value) :
    db.Writes key (some value) deadline? ((db.store key value false).expireAt key deadline?) := by
  have hWrites := ((Halves.Writes.refl db key).store value false).expireAt deadline?
  simpa using hWrites

/-- A value that is assigned to a key without one, too: the key had no deadline either. -/
theorem writes_assigned (h : db.Consistent) (hFree : db.data.get? key = none) (value : Value) :
    db.Writes key (some value) deadline? ((db.assign key value).expireAt key deadline?) := by
  have hWrites := ((Halves.Writes.refl db key).assign value).expireAt deadline?
  rw [h.covered key hFree] at hWrites
  simpa using hWrites

/-- And a value that is assigned to a key that was removed. -/
theorem writes_replaced (db : Halves) (key : Octets) (value : Value) :
    db.Writes key (some value) deadline?
      (((db.remove key).assign key value).expireAt key deadline?) := by
  have hWrites := ((Halves.Writes.refl db key).remove.assign value).expireAt deadline?
  simpa using hWrites

end Carried

/-- A lookup sees the same on both sides, and the stores hold behind it. -/
theorem related_lookUp {α : Type} {next : Option Value → ActOn Split α}
    {next' : Option Entry → Act α} (h : m.Holds s) (hi : i < m.databases.length)
    (hNext : ∀ settled, settled = m.edit i (·.settle now key) →
      settled.Holds (s.settle now i key) →
      Store.Related Holds (next ((settled.database i).data.get? key) settled)
        (next' ((settled.database i).held? key) (s.settle now i key))) :
    Store.Related Holds (lookUp now i key next m) (Store.lookUp now i key next' s) := by
  have hSettled := hNext _ rfl (h.setDatabase i ((h.database i).settle now key))
  rw [database_edit hi, (h.database i).held?_settle] at hSettled
  exact hSettled

/-- RENAME in two tables follows RENAME in one: removing, storing and then setting the deadline
comes to writing the entry. -/
theorem follows_rename (key newKey : Octets) :
    Store.Follows Holds (rename now key newKey) (Keys.rename now key newKey) := by
  intro m s h
  unfold rename Keys.rename Store.withSelected
  dsimp only
  rw [← h.selected]
  refine related_lookUp h h.within fun settled _ hSettled => ?_
  cases hValue : (settled.database m.selected).data.get? key with
  | none =>
      rw [Halves.held?_none hValue]
      exact ⟨rfl, hSettled⟩
  | some value =>
      rw [Halves.held?_some hValue]
      refine ⟨rfl, ?_⟩
      dsimp only
      rw [edit_edit]
      exact (hSettled.remove m.selected key).put m.selected _ (writes_stored _ _ newKey value)

/-- MOVE in two tables comes to moving the entry, its deadline being set only where it has one. -/
theorem related_moveTo {target : Nat} (hTarget : target < m.databases.length)
    (hi : i < m.databases.length) (h : m.Holds s) (key : Octets) :
    Store.Related Holds (moveTo now key target i m) (Keys.moveTo now key target i s) := by
  unfold moveTo Keys.moveTo
  by_cases hSame : target = i
  · rw [if_pos hSame, if_pos hSame]
    exact ⟨rfl, h⟩
  · rw [if_neg hSame, if_neg hSame]
    refine related_lookUp h hi fun first hFirst hHolds => ?_
    cases hValue : (first.database i).data.get? key with
    | none =>
        rw [Halves.held?_none hValue]
        exact ⟨rfl, hHolds⟩
    | some value =>
        rw [Halves.held?_some hValue]
        have hThere : target < first.databases.length := by rwa [hFirst, length_edit]
        refine related_lookUp hHolds hThere fun second hSecond hHolds => ?_
        have hSource : second.database i = first.database i := by
          rw [hSecond, database_edit_ne (Ne.symm hSame)]
        cases hTaken : (second.database target).data.get? key with
        | some other =>
            rw [Halves.held?_some hTaken]
            exact ⟨rfl, hHolds⟩
        | none =>
            rw [Halves.held?_none hTaken]
            refine ⟨rfl, ?_⟩
            dsimp only
            rw [edit_edit, database_edit_ne (Ne.symm hSame), hSource]
            refine Holds.remove ?_ i key
            exact hHolds.put target _
              (writes_assigned _ (hHolds.database target).toConsistent hTaken value)

/-- MOVE reads its index by the number of databases, in which both stores agree. -/
theorem follows_move (key index : Octets) :
    Store.Follows Holds (move now key index) (Keys.move now key index) := by
  intro m s h
  unfold move Keys.move
  rw [Scripted.index?_congr h.outline.count]
  cases hIndex : (readInt index).bind s.index? with
  | error halt => exact ⟨rfl, h⟩
  | ok target =>
      obtain ⟨n, -, hTarget⟩ := ok_of_bind hIndex
      have hThere : target < m.databases.length := h.count ▸ Store.index?_lt hTarget
      show Store.Related Holds (moveTo now key target m.selected m)
        (Keys.moveTo now key target s.selected s)
      rw [← h.selected]
      exact related_moveTo hThere h.within h key

/-- The deadline of another key is left by edits of a key. -/
theorem expires_edit_of_ne {j : Nat} {k : Octets} {value? : Option Value}
    {deadline? : Option Float} {f : Halves → Halves}
    (hWrites : (m.database i).Writes key value? deadline? (f (m.database i)))
    (hOther : ¬ (i = j ∧ k = key)) :
    ((m.edit i f).database j).expires.get? k = (m.database j).expires.get? k := by
  unfold edit
  rw [database_setDatabase]
  split
  · rename_i hj
    rw [hWrites.expires, if_neg (by simpa [hj.1] using hOther), hj.1]
  · rfl

/-- COPY in two tables comes to copying the entry: what was at the destination is removed with its
deadline first. -/
theorem related_runCopy {plan : Keys.CopyPlan} (hTarget : plan.target < m.databases.length)
    (hi : i < m.databases.length) (h : m.Holds s) (source destination : Octets) :
    Store.Related Holds (runCopy plan now source destination i m)
      (plan.run now source destination i s) := by
  unfold runCopy Keys.CopyPlan.run
  by_cases hSame : plan.target = i ∧ source = destination
  · rw [if_pos hSame, if_pos hSame]
    exact ⟨rfl, h⟩
  · rw [if_neg hSame, if_neg hSame]
    refine related_lookUp h hi fun first hFirst hHolds => ?_
    cases hValue : (first.database i).data.get? source with
    | none =>
        rw [Halves.held?_none hValue]
        exact ⟨rfl, hHolds⟩
    | some value =>
        rw [Halves.held?_some hValue]
        have hThere : plan.target < first.databases.length := by rwa [hFirst, length_edit]
        refine related_lookUp hHolds hThere fun second hSecond hHolds => ?_
        have hSource : (second.database i).expires.get? source =
            (first.database i).expires.get? source := by
          obtain ⟨value?, deadline?, hSettle⟩ :=
            (first.database plan.target).writes_settle now destination
          rw [hSecond, expires_edit_of_ne hSettle hSame]
        have hShown : ((second.database plan.target).held? destination).isSome =
            ((second.database plan.target).data.get? destination).isSome := Option.isSome_map
        dsimp only
        rw [hShown]
        by_cases hBusy :
            (((second.database plan.target).data.get? destination).isSome && !plan.replace) = true
        · rw [if_pos hBusy, if_pos hBusy]
          exact ⟨rfl, hHolds⟩
        · rw [if_neg hBusy, if_neg hBusy]
          refine ⟨rfl, ?_⟩
          cases hTaken : (second.database plan.target).data.get? destination with
          | some other =>
              simp only [Option.isSome_some, if_true]
              rw [edit_edit second, expires_edit_of_ne
                ((Halves.Writes.refl _ destination).remove.assign value) hSame, hSource, edit_edit]
              exact hHolds.put plan.target _ (writes_replaced _ _ destination value)
          | none =>
              simp only [Option.isSome_none, Bool.false_eq_true, if_false]
              rw [expires_edit_of_ne
                ((Halves.Writes.refl _ destination).assign value) hSame, hSource, edit_edit]
              exact hHolds.put plan.target _
                (writes_assigned _ (hHolds.database plan.target).toConsistent hTaken value)

/-- COPY reads its options by the number of databases, in which both stores agree. -/
theorem follows_copy (source destination : Octets) (options : List Octets) :
    Store.Follows Holds (copy now source destination options)
      (Keys.copy now source destination options) := by
  intro m s h
  unfold copy Keys.copy
  rw [h.selected, Scripted.copyPlan_read_congr h.outline.count]
  cases hRead : Keys.CopyPlan.read s { target := s.selected } options with
  | error halt => exact ⟨rfl, h⟩
  | ok plan =>
      have hSelected : s.selected < s.databases.length := h.selected ▸ h.count ▸ h.within
      have hThere : plan.target < m.databases.length :=
        h.count ▸ Scripted.copyPlan_read_lt hSelected hRead
      show Store.Related Holds (runCopy plan now source destination m.selected m)
        (plan.run now source destination s.selected s)
      rw [← h.selected]
      exact related_runCopy hThere h.within h source destination

/-! ## Many keys at once -/

/-- Pairs written one after another leave values without deadlines in both stores. -/
theorem holds_writeAll (pairs : List (Octets × Octets)) (h : m.Holds s) :
    (writeAll pairs m).Holds (Strings.writeAll pairs s) := by
  induction pairs generalizing m s with
  | nil => exact h
  | cons e pairs ih =>
      refine ih ?_
      dsimp only
      rw [← h.selected]
      exact h.put m.selected _ ((Halves.Writes.refl _ e.1).store (.string e.2) false)

theorem follows_mset (words : List Octets) :
    Store.Follows Holds (mset words) (Strings.mset words) := by
  unfold mset Strings.mset
  cases pairUp words with
  | none => exact .answer _
  | some pairs => exact fun m s h => ⟨rfl, holds_writeAll pairs h⟩

theorem follows_dbsize : Store.Follows Holds (dbsize now) (Server.dbsize now) := by
  intro m s h
  have hHolds := h.database m.selected
  unfold dbsize onSelected Server.dbsize Store.withSelected
  dsimp only
  rw [Store.database_settleAll, ← h.selected, hHolds.length_liveKeys]
  exact ⟨rfl, h.setDatabase m.selected (hHolds.liveKeys now)⟩

theorem follows_flushdb : Store.Follows Holds flushdb Server.flushdb := by
  intro m s h
  unfold flushdb onSelected Server.flushdb Store.withSelected
  rw [← h.selected]
  exact ⟨rfl, h.setDatabase m.selected .empty⟩

/-- SCAN sweeps its database in both stores, which then have the same keys. -/
theorem follows_scan (cursor : Octets) (options : List Octets) :
    Store.Follows Holds (scan now cursor options) (Scan.scan now cursor options) := by
  unfold scan Scan.scan Scan.scanBy
  cases Number.int? cursor with
  | none => exact .answer _
  | some cursor =>
      refine .given fun plan => fun m s h => ?_
      have hLive := (h.database m.selected).liveKeys now
      have hReply := Scripted.planReply_eq plan Octets.fitsGlob hLive.reordered_merged
      unfold onSelected Store.withSelected
      dsimp only
      rw [Store.database_settleAll, ← h.selected, hReply]
      exact ⟨rfl, h.setDatabase m.selected hLive⟩

/-- The texts of INFO are one, and every database holds its counterpart again. -/
theorem forall₂_liveKeys (now : Float) {dbs : List Halves} {ones : List Database}
    (h : List.Forall₂ Halves.Holds dbs ones) (n : Nat) :
    List.Forall₂ Halves.Holds ((dbs.map (·.liveKeys now)).map (·.2)) (ones.map (·.settleAll now)) ∧
      (((dbs.map (·.liveKeys now)).zipIdx n).flatMap fun e => infoLine e.2 e.1) =
        (((ones.map (·.settleAll now)).zipIdx n).flatMap fun e => Server.infoLine e.2 e.1) := by
  induction h generalizing n with
  | nil => exact ⟨.nil, rfl⟩
  | @cons db one dbs ones hHolds _ ih =>
      obtain ⟨hRest, hLines⟩ := ih (n + 1)
      have hLive := hHolds.liveKeys now
      have hLine : infoLine n (db.liveKeys now) = Server.infoLine n (one.settleAll now) := by
        unfold infoLine Server.infoLine Server.deadlines
        rw [hHolds.length_liveKeys, hLive.expires_size]
      refine ⟨.cons hLive hRest, ?_⟩
      simp only [List.map_cons, List.zipIdx_cons, List.flatMap_cons, hLine, hLines]

/-- INFO sweeps all databases in both stores, which then count the same. -/
theorem follows_info : Store.Follows Holds (info now) (Server.info now) := by
  intro m s h
  obtain ⟨hDatabases, hLines⟩ := forall₂_liveKeys now h.forall₂ 0
  unfold info Server.info Server.infoText Store.sweep
  dsimp only
  rw [hLines]
  exact ⟨rfl, h.withDatabases hDatabases (by simp)⟩

/-! ## What concerns no key -/

/-- A step on the frame of a store: it does the same whatever the databases hold, and selects only
what is there. -/
structure OffKeys (step : Step) : Prop where
  same : ∀ (s : Store) (dbs : List Database), dbs.length = s.databases.length →
    step { s with databases := dbs } = ((step s).1, { (step s).2 with databases := dbs })
  within : ∀ s : Store, s.selected < s.databases.length →
    (step s).2.selected < s.databases.length

/-- A command that has nothing to do with keys runs on what the two stores share. -/
theorem follows_onOutline {step : Step} (h : OffKeys step) :
    Store.Follows Holds (onOutline step) step := by
  intro m s hHolds
  have hOutline : m.outline = { s with databases := m.databases.map fun _ => .empty } := by
    unfold outline
    rw [hHolds.selected, hHolds.libraries]
  have hSelf := h.same s s.databases rfl
  have hThere := h.same s (m.databases.map fun _ => .empty) ((List.length_map _).trans hHolds.count)
  have hWithin := h.within s (hHolds.selected ▸ hHolds.count ▸ hHolds.within)
  have hDatabases : (step s).2.databases = s.databases :=
    congrArg (fun p : Except Halt Datum × Store => p.2.databases) hSelf
  unfold onOutline
  rw [hOutline, hThere]
  refine ⟨rfl, rfl, rfl, ?_, ?_, fun i => ?_⟩
  · rw [hDatabases]
    exact hHolds.count
  · exact Nat.lt_of_lt_of_eq hWithin hHolds.count.symm
  · have hDatabase : (step s).2.database i = s.database i := by
      unfold Store.database
      rw [hDatabases]
    rw [hDatabase]
    exact hHolds.database i

namespace OffKeys

/-- A step that leaves the selection. -/
theorem of_selected {step : Step}
    (hSame : ∀ (s : Store) (dbs : List Database), dbs.length = s.databases.length →
      step { s with databases := dbs } = ((step s).1, { (step s).2 with databases := dbs }))
    (hSelected : ∀ s, (step s).2.selected = s.selected) : OffKeys step :=
  ⟨hSame, fun s hWithin => (hSelected s).symm ▸ hWithin⟩

theorem answer (reply : Reply) : OffKeys fun s => (reply, s) :=
  .of_selected (fun _ _ _ => rfl) fun _ => rfl

theorem select (index : Octets) : OffKeys (Server.select index) where
  same s dbs hCount := by
    have hIndex : Store.index? { s with databases := dbs } = s.index? :=
      Scripted.index?_congr hCount
    unfold Server.select
    rw [hIndex]
    cases (readInt index).bind s.index? <;> rfl
  within s hWithin := by
    unfold Server.select
    cases hIndex : (readInt index).bind s.index? with
    | error halt => exact hWithin
    | ok i =>
        obtain ⟨n, -, hRange⟩ := ok_of_bind hIndex
        exact Store.index?_lt hRange

/-- A step that only goes on with the libraries. -/
theorem withLibraries {next : Table Datum Datum → Step}
    (h : ∀ libraries, OffKeys (next libraries)) :
    OffKeys (Store.withLibraries next) where
  same s dbs hCount := (h s.libraries).same s dbs hCount
  within s hWithin := (h s.libraries).within s hWithin

theorem relabel (reply : Reply) (libraries : Table Datum Datum) :
    OffKeys fun s => (reply, { s with libraries }) :=
  .of_selected (fun _ _ _ => rfl) fun _ => rfl

/-- A check before a step that is off the keys is off the keys. -/
theorem given {α : Type} {x : Except Halt α} {next : α → Step} (h : ∀ a, OffKeys (next a)) :
    OffKeys (Store.given x next) := by
  cases x with
  | error halt => exact answer (.error halt)
  | ok a => exact h a

/-- FUNCTION LOAD has to do with the libraries alone. -/
theorem load (first code : Octets) : OffKeys (Libraries.load first code) := by
  unfold Libraries.load
  cases Libraries.nameOf? code with
  | none => exact answer _
  | some name =>
      refine withLibraries fun libraries => ?_
      dsimp only
      split
      · exact given fun _ => answer _
      · exact relabel _ _

/-- FUNCTION RESTORE has to do with the libraries alone. -/
theorem restore (payload : Octets) (policy? : Option Octets) :
    OffKeys (Libraries.restore payload policy?) := by
  unfold Libraries.restore Libraries.restoreBy
  split
  · exact answer _
  · exact withLibraries fun _ => given fun libraries => relabel _ libraries
  · exact answer _

theorem dump : OffKeys Libraries.dump := by
  unfold Libraries.dump Libraries.dumpBy
  exact withLibraries fun _ => answer _

theorem call (function numkeys : Octets) (words : List Octets) :
    OffKeys (Libraries.call function numkeys words) := withLibraries fun _ => answer _

end OffKeys

/-! ## All commands -/

theorem follows_addRead (key amount : Octets) (sign : Int) :
    Store.Follows Holds (addRead now key amount sign) (Store.addRead now key amount sign) :=
  .given fun amount => follows_onKey (Halves.follows_add (sign * amount))

theorem follows_hset (key : Octets) (words : List Octets) :
    Store.Follows Holds (hset now key words) (Hashes.hset now key words) := by
  unfold hset Hashes.hset
  cases pairUp words with
  | none => exact .answer _
  | some pairs => exact follows_onKey (Halves.follows_hset pairs)

theorem follows_zadd (key : Octets) (words : List Octets) :
    Store.Follows Holds (zadd now key words) (SortedSets.zadd now key words) := by
  unfold zadd SortedSets.zadd
  cases pairUp words with
  | none => exact .answer _
  | some pairs => exact .given fun pairs => follows_onKey (Halves.follows_zadd pairs)

theorem follows_geoadd (key : Octets) (words : List Octets) :
    Store.Follows Holds (geoadd now key words) (Places.geoadd now key words) := by
  unfold geoadd Places.geoadd
  dsimp only
  generalize Places.triples (Places.Flags.read {} words).2 = places?
  match places? with
  | none => exact .answer _
  | some [] => exact .answer _
  | some (_ :: _) => exact .given fun places => follows_onKey (Halves.follows_geoadd _ places)

theorem follows_zpop (e : SortedSets.Extreme) (key : Octets) (count? : Option Octets) :
    Store.Follows Holds (zpop now e key count?) (SortedSets.zpop now e key count?) :=
  .given fun count? => follows_onKey (Halves.follows_zpop e (count?.getD 1))

/-- TTL leaves what it sees. -/
theorem leaves_ttl (seen : Option Entry) : Halves.Leaves seen (Keys.ttl now seen) := by
  unfold Keys.ttl
  split
  · exact .keep _
  · split
    · exact .keep _
    · exact .bind fun _ => .keep _

/-- Every type of command does to two tables what it does to one. -/
theorem follows_step (t : CommandType) (args : List Octets) :
    Store.Follows Holds (step now t args) (Store.step now t args) := by
  unfold step
  split
  · exact follows_onOutline (.answer _)
  · exact .answer _
  · exact follows_onOutline (.select _)
  · exact follows_info
  · exact follows_dbsize
  · exact follows_flushdb
  · exact follows_countKeys (fun _ => Halves.follows_delete) _
  · exact follows_countKeys (fun _ => Halves.follows_read fun _ => .keep _) _
  · exact .given fun seconds => follows_onKey (Halves.follows_expire seconds)
  · exact follows_read leaves_ttl
  · exact follows_onKey Halves.follows_unexpire
  · exact follows_read fun _ => .keep _
  · exact follows_rename _ _
  · exact follows_move _ _
  · exact follows_copy _ _ _
  · exact follows_scan _ _
  · exact follows_read fun _ => .keep _
  · exact follows_restore _ _ _ _
  · exact .given fun plan => follows_onKey (Halves.follows_setString _ plan)
  · exact follows_read fun _ => .bind fun _ => .keep _
  · exact follows_onKey (Halves.follows_getex _)
  · exact follows_onKey (Halves.follows_append _)
  · exact follows_onKey (Halves.follows_add 1)
  · exact follows_addRead _ _ 1
  · exact follows_onKey (Halves.follows_add (-1))
  · exact follows_addRead _ _ (-1)
  · exact follows_mset _
  · exact follows_listKeys (fun _ => Halves.follows_read fun _ => .keep _) _
  · exact follows_read fun _ => .bind fun _ => .keep _
  · exact follows_hset _ _
  · exact follows_read fun _ => .bind fun _ => .keep _
  · exact follows_onKey (Halves.follows_hdel _)
  · exact follows_read fun _ => .bind fun _ => .keep _
  · exact follows_read fun _ => .bind fun _ => .keep _
  · exact follows_read fun _ => .bind fun _ => .keep _
  · exact follows_onKey (Halves.follows_push .left _)
  · exact follows_onKey (Halves.follows_push .right _)
  · exact follows_onKey (Halves.follows_pop .left)
  · exact follows_onKey (Halves.follows_pop .right)
  · exact follows_read fun _ => .bind fun _ => .keep _
  · exact follows_read fun _ => .bind fun _ => .bind fun _ => .bind fun _ => .keep _
  · exact .given fun q => follows_read fun _ => .bind fun _ => .keep _
  · exact follows_onKey (Halves.follows_sadd _)
  · exact follows_onKey (Halves.follows_srem _)
  · exact follows_read fun _ => .bind fun _ => .keep _
  · exact follows_read fun _ => .bind fun _ => .keep _
  · exact follows_read fun _ => .bind fun _ => .keep _
  · exact follows_zadd _ _
  · exact follows_onKey (Halves.follows_zrem _)
  · exact follows_read fun _ => .bind fun _ => .keep _
  · exact follows_read fun _ => .bind fun _ => .keep _
  · exact .given fun plan => follows_read fun _ => .bind fun _ => .bind fun _ => .keep _
  · exact follows_zpop .least _ _
  · exact follows_zpop .greatest _ _
  · exact follows_geoadd _ _
  · exact follows_onOutline (.load _ _)
  · exact follows_onOutline (.relabel _ _)
  · exact follows_onOutline .dump
  · exact follows_onOutline (.restore _ _)
  · exact follows_onOutline (.call _ _ _)
  · exact follows_onOutline (.call _ _ _)
  · have hRest : Store.step now t args = fun s => (refuse (.wrongArity t), s) := by
      rw [Store.step] <;> assumption
    rw [hRest]
    exact .answer _

/-- Each type of command in two tables follows the same type in one, with any arguments. -/
theorem follows_runType (t : CommandType) (args : List Octets) :
    Store.Follows Holds (runType now t args) (Store.runType now t args) := by
  intro m s h
  unfold runType Store.runType
  split
  · exact follows_step t args m s h
  · exact ⟨rfl, h⟩

/-- A custom command is resolved alike in both stores, and then runs as its type. -/
theorem follows_runCustom (args : List Octets) :
    Store.Follows Holds (runCustom now args) (Store.runCustom now args) := by
  intro m s h
  unfold runCustom Store.runCustom
  cases CommandType.resolve? (args.map .octets) with
  | none => exact ⟨rfl, h⟩
  | some found => exact follows_runType found.1 (args.drop found.2) m s h

/-- Every command does to databases in two tables what it does to databases in one: the replies are
the same, and the two tables hold the one again. -/
theorem run_refines (now : Float) : Store.Simulates Holds (run now) (Store.run now) := by
  rintro ⟨t, args⟩ m s h
  by_cases hCustom : t = .customCommand
  · subst hCustom
    exact follows_runCustom (args.map Arg.toOctets) m s h
  · have hTyped : Store.Related Holds (runType now t (args.map Arg.toOctets) m)
        (Store.runType now t (args.map Arg.toOctets) s) := follows_runType t _ m s h
    cases t <;> first | exact hTyped | exact absurd rfl hCustom

/-! ## Timelines -/

/-- What a timeline comes to is the same on both sides: what every command answered, how every
submission ended, and what is held at the end. -/
theorem history_refines {n : Int} {new : Split} (hNew : Split.new n = .ok new)
    (timeline : Timeline) :
    ∃ first, Store.new n = .ok first ∧
      Store.Related Holds (Store.history run timeline new)
        (Store.history Store.run timeline first) := by
  obtain ⟨first, hFirst, hHolds⟩ := Holds.new hNew
  exact ⟨first, hFirst, Store.history_related run_refines timeline hHolds⟩

/-- A store of databases in two tables that a timeline leads to from a new one. -/
def Reachable (m : Split) : Prop :=
  ∃ n new timeline, Split.new n = .ok new ∧ m = (Store.history run timeline new).2

/-- What is reachable holds a store that is. -/
theorem Reachable.holds {m : Split} (h : m.Reachable) : ∃ s : Store, s.Reachable ∧ m.Holds s := by
  obtain ⟨n, new, timeline, hNew, rfl⟩ := h
  obtain ⟨first, hFirst, hRelated⟩ := history_refines hNew timeline
  exact ⟨_, ⟨n, first, timeline, hFirst, rfl⟩, hRelated.2⟩

end Split

end BatchStore
