import BatchStore.Proofs.Store.Trace
import BatchStore.Proofs.Store.View
import BatchStore.Store.Halves

/-!
# Two tables that hold the entries of one

A database in two tables is `Consistent` if each table holds each key once and no key has a deadline
without a value. It `Holds` a database in one table if it is consistent and says the same of every
key. The order of the keys may be another: who writes two tables may take a key out and put it back
where who writes one leaves it in its place.

`Writes` tells what edits of one key come to: the value and the deadline that the key has behind
them. It has a rule for each edit (`Writes.store`, `Writes.remove` and so on), and `Holds.writes`
leads from it to the one table. So a command needs no more than the row of its edits, and the
deadline that is left at the end.

## Main results

* `Holds.settle`: a key that is looked up goes out of both tables when it goes out of the one.
* `Holds.liveKeys`, `Holds.expires_size`: after every key was looked up the keys are those that
  show, and the table of deadlines is as long as there are entries with a deadline.
-/

namespace BatchStore

namespace Halves

/-- Each table holds each key once, and a key without a value has no deadline. -/
structure Consistent (db : Halves) : Prop where
  data : db.data.Distinct
  expires : db.expires.Distinct
  covered : ∀ key, db.data.get? key = none → db.expires.get? key = none

/-- Two tables that say of every key what one table says. -/
structure Holds (db : Halves) (one : Database) : Prop extends Consistent db where
  distinct : one.Distinct
  entry : ∀ key, one.get? key = db.held? key

/-- Two tables are those before but for one key, which has this value and this deadline. -/
structure Writes (db : Halves) (key : Octets) (value? : Option Value) (deadline? : Option Float)
    (after : Halves) : Prop where
  data : ∀ k, after.data.get? k = if k == key then value? else db.data.get? k
  expires : ∀ k, after.expires.get? k = if k == key then deadline? else db.expires.get? k
  distinctData : db.data.Distinct → after.data.Distinct
  distinctExpires : db.expires.Distinct → after.expires.Distinct

/-! ## What edits of one key come to -/

namespace Writes

variable {db after : Halves} {key : Octets} {value? : Option Value} {deadline? : Option Float}

/-- Without an edit a key keeps its value and its deadline. -/
theorem refl (db : Halves) (key : Octets) :
    db.Writes key (db.data.get? key) (db.expires.get? key) db where
  data k := by
    by_cases hk : k = key
    · simp [hk]
    · simp [hk]
  expires k := by
    by_cases hk : k = key
    · simp [hk]
    · simp [hk]
  distinctData h := h
  distinctExpires h := h

/-- A value that is assigned leaves the deadline. -/
theorem assign (h : db.Writes key value? deadline? after) (value : Value) :
    db.Writes key (some value) deadline? (after.assign key value) where
  data k := by
    unfold Halves.assign
    rw [Table.get?_put, h.data]
    split <;> rfl
  expires := h.expires
  distinctData hData := Table.distinct_put (h.distinctData hData) key value
  distinctExpires := h.distinctExpires

/-- A key that persists keeps its value. -/
theorem persist (h : db.Writes key value? deadline? after) :
    db.Writes key value? none (after.persist key) where
  data := h.data
  expires k := by
    unfold Halves.persist
    rw [Table.get?_erase, h.expires]
    split <;> rfl
  distinctData := h.distinctData
  distinctExpires hExpires := Table.distinct_erase (h.distinctExpires hExpires) key

/-- A key that is removed has neither a value nor a deadline. -/
theorem remove (h : db.Writes key value? deadline? after) :
    db.Writes key none none (after.remove key) where
  data k := by
    unfold Halves.remove
    rw [Table.get?_erase, h.data]
    split <;> rfl
  expires k := by
    unfold Halves.remove
    rw [Table.get?_erase, h.expires]
    split <;> rfl
  distinctData hData := Table.distinct_erase (h.distinctData hData) key
  distinctExpires hExpires := Table.distinct_erase (h.distinctExpires hExpires) key

/-- A value that is stored comes under no deadline, unless the old one is to stay. -/
theorem store (h : db.Writes key value? deadline? after) (value : Value) (keepDeadline : Bool) :
    db.Writes key (some value) (if keepDeadline then deadline? else none)
      (after.store key value keepDeadline) := by
  unfold Halves.store
  cases keepDeadline with
  | true => exact h.assign value
  | false => exact (h.assign value).persist

/-- A deadline that is given takes the place of the old one, if there is one to give. -/
theorem expireAt (h : db.Writes key value? deadline? after) (new? : Option Float) :
    db.Writes key value? (new?.or deadline?) (after.expireAt key new?) := by
  cases new? with
  | none => exact h
  | some t =>
      refine ⟨h.data, fun k => ?_, h.distinctData, fun hExpires =>
        Table.distinct_put (h.distinctExpires hExpires) key t⟩
      show (after.expires.put key t).get? k = _
      rw [Table.get?_put, h.expires]
      split <;> rfl

/-- A key with an empty value goes out of both tables, and with another value stays. -/
theorem dropIfEmpty {value : Value} (h : db.Writes key (some value) deadline? after) :
    db.Writes key (if value.isEmpty then none else some value)
      (if value.isEmpty then none else deadline?) (after.dropIfEmpty key) := by
  have hValue : after.data.get? key = some value := by
    rw [h.data, beq_self_eq_true, if_pos rfl]
  unfold Halves.dropIfEmpty
  rw [hValue, Option.all_some]
  by_cases hEmpty : value.isEmpty = true
  · rw [if_pos hEmpty, if_pos hEmpty, if_pos hEmpty]
    exact h.remove
  · rw [if_neg hEmpty, if_neg hEmpty, if_neg hEmpty]
    exact h

end Writes

/-- A lookup is an edit of its key. -/
theorem writes_settle (db : Halves) (now : Float) (key : Octets) :
    ∃ value? deadline?, db.Writes key value? deadline? (db.settle now key) := by
  unfold settle
  split
  · split
    · exact ⟨_, _, (Writes.refl db key).remove⟩
    · exact ⟨_, _, .refl db key⟩
  · exact ⟨_, _, .refl db key⟩

/-! ## The one table behind an edit -/

namespace Holds

variable {db after : Halves} {one : Database} {key : Octets}

/-- Two empty tables hold an empty one. -/
theorem empty : Halves.Holds {} .empty :=
  ⟨⟨Table.distinct_empty, Table.distinct_empty, fun _ _ => rfl⟩, Table.distinct_empty,
    fun _ => rfl⟩

/-- The order of the one table does not matter. -/
theorem congr (h : db.Holds one) {other : Database} (hOther : other.Distinct)
    (hSame : ∀ k, other.get? k = one.get? k) : db.Holds other :=
  ⟨h.toConsistent, hOther, fun k => (hSame k).trans (h.entry k)⟩

/-- What edits of one key come to is done to the one table by one write, if no deadline is left
without a value. -/
theorem writes (h : db.Holds one) {value? : Option Value} {deadline? : Option Float}
    (hWrites : db.Writes key value? deadline? after) (hCovered : value? = none → deadline? = none) :
    after.Holds (one.set key (value?.map fun value => ⟨value, deadline?⟩)) where
  data := hWrites.distinctData h.data
  expires := hWrites.distinctExpires h.expires
  covered k := by
    rw [hWrites.data, hWrites.expires]
    split
    · exact hCovered
    · exact h.covered k
  distinct := Table.distinct_set h.distinct key _
  entry k := by
    unfold Halves.held?
    rw [Table.get?_set, hWrites.data, hWrites.expires]
    split
    · rfl
    · exact h.entry k

/-! ## Looking at keys -/

/-- An expired key goes out of both tables when it goes out of the one. -/
theorem settle (h : db.Holds one) (now : Float) (key : Octets) :
    (db.settle now key).Holds (one.settle now key) := by
  have hEntry := h.entry key
  unfold Halves.settle Database.settle
  unfold Halves.held? at hEntry
  cases hDeadline : db.expires.get? key with
  | none =>
      rw [hDeadline] at hEntry
      rw [hEntry]
      cases db.data.get? key with
      | none => exact h
      | some value => exact h
  | some t =>
      cases hValue : db.data.get? key with
      | none =>
          have hNone : db.expires.get? key = none := h.covered key hValue
          rw [hNone] at hDeadline
          cases hDeadline
      | some value =>
          rw [hDeadline, hValue] at hEntry
          rw [hEntry]
          show Halves.Holds (if t ≤ now then db.remove key else db)
            (if decide (t ≤ now) = true then one.erase key else one)
          by_cases hExpired : t ≤ now
          · rw [if_pos hExpired, if_pos (decide_eq_true hExpired)]
            exact h.writes (Writes.refl db key).remove fun _ => rfl
          · rw [if_neg hExpired, if_neg (by simpa using hExpired)]
            exact h

/-- What the two tables say of a key behind a lookup is what showed of it. -/
theorem held?_settle (h : db.Holds one) (now : Float) (key : Octets) :
    (db.settle now key).held? key = one.live? now key := by
  rw [← (h.settle now key).entry key, Database.get?_settle_eq, if_pos rfl]
  rfl

/-- A key has a value behind a lookup if it showed. -/
theorem contains_settle (h : db.Holds one) (now : Float) (key : Octets) :
    (db.settle now key).data.contains key = (one.live? now key).isSome := by
  rw [← h.held?_settle, Halves.held?, Option.isSome_map]
  rfl

/-- Keys that are looked at one after another: those that showed are gathered. -/
theorem gather (h : db.Holds one) (now : Float) (keys : List Octets) :
    (Halves.gather now keys db).1 = keys.filter (fun key => (one.live? now key).isSome) ∧
      (Halves.gather now keys db).2.Holds (keys.foldl (fun one key => one.settle now key) one) := by
  induction keys generalizing db one with
  | nil => exact ⟨rfl, h⟩
  | cons key keys ih =>
      obtain ⟨hKeys, hAfter⟩ := ih (h.settle now key)
      have hSame (k : Octets) : (one.settle now key).live? now k = one.live? now k :=
        Database.live?_settle one now key k
      refine ⟨?_, hAfter⟩
      simp only [hSame] at hKeys
      rw [List.filter_cons, ← h.contains_settle, ← hKeys]
      rfl

end Holds

/-- Of the keys that were looked at what shows is left, and of the others everything. -/
theorem get?_foldl_settle (now : Float) (keys : List Octets) (one : Database) (k : Octets) :
    (keys.foldl (fun one key => one.settle now key) one).get? k =
      if k ∈ keys then one.live? now k else one.get? k := by
  induction keys generalizing one with
  | nil => rfl
  | cons key keys ih =>
      rw [List.foldl_cons, ih, Database.live?_settle, Database.get?_settle_eq]
      by_cases hKey : k = key
      · subst hKey
        simp [Database.live?_eq]
      · simp [hKey]

namespace Holds

variable {db : Halves} {one : Database}

/-- The keys with a value are the keys of the one table. -/
theorem mem_keys (h : db.Holds one) (key : Octets) : key ∈ db.data.keys ↔ key ∈ one.keys := by
  rw [Table.mem_keys_iff, Table.mem_keys_iff, h.entry, Halves.held?, Option.isSome_map]

/-- Once every key was looked at, all expired keys are out of both tables. -/
theorem liveKeys (h : db.Holds one) (now : Float) :
    (db.liveKeys now).2.Holds (one.settleAll now) := by
  refine (h.gather now db.data.keys).2.congr (Table.distinct_filter h.distinct _) fun k => ?_
  rw [Database.get?_settleAll h.distinct, get?_foldl_settle]
  by_cases hKey : k ∈ db.data.keys
  · rw [if_pos hKey]
  · have hNone : one.get? k = none := by
      rw [h.mem_keys, Table.mem_keys_iff] at hKey
      simpa using hKey
    rw [if_neg hKey, Database.live?_eq, hNone]
    rfl

/-- As many keys are gathered as are left. -/
theorem length_liveKeys (h : db.Holds one) (now : Float) :
    (db.liveKeys now).1.length = (one.settleAll now).size := by
  have hDistinct : (one.settleAll now).Distinct := Table.distinct_filter h.distinct _
  have hPerm : (db.liveKeys now).1.Perm (one.settleAll now).keys := by
    refine (List.perm_ext_iff_of_nodup ?_ hDistinct).2 fun k => ?_
    · unfold Halves.liveKeys
      rw [(h.gather now db.data.keys).1]
      exact h.data.sublist List.filter_sublist
    · unfold Halves.liveKeys
      rw [(h.gather now db.data.keys).1, List.mem_filter, h.mem_keys, Table.mem_keys_iff,
        Table.mem_keys_iff, Database.get?_settleAll h.distinct, Database.live?_eq]
      cases one.get? k with
      | none => simp [Entry.shown?]
      | some e => simp
  rw [hPerm.length_eq]
  exact List.length_map _

/-- The table of deadlines is as long as there are entries with a deadline. -/
theorem expires_size (h : db.Holds one) :
    db.expires.size = (one.values.filter fun e => e.deadline?.isSome).length := by
  have hPerm : db.expires.keys.Perm (one.filter fun _ e => e.deadline?.isSome).keys := by
    refine (List.perm_ext_iff_of_nodup h.expires (Table.distinct_filter h.distinct _)).2 fun k => ?_
    rw [Table.mem_keys_iff, Table.mem_keys_iff, Table.get?_filter h.distinct, h.entry, Halves.held?]
    cases hValue : db.data.get? k with
    | none => simp [h.covered k hValue]
    | some value => cases db.expires.get? k <;> simp [Option.filter]
  have hLength := hPerm.length_eq
  unfold Table.keys Table.filter at hLength
  unfold Table.size Table.values
  rw [List.length_map, List.length_map] at hLength
  rw [hLength, List.filter_map, List.length_map]
  rfl

/-- The two tables in one have the entries of the one table. -/
theorem reordered_merged (h : db.Holds one) : db.merged.Reordered one := by
  refine Table.reordered_of_get? ?_ h.distinct fun key => ?_
  · unfold merged Table.Distinct Table.keys
    rw [List.map_map]
    exact h.data
  · rw [h.entry]
    unfold merged Halves.held? Table.get?
    generalize db.data.entries = entries
    induction entries with
    | nil => rfl
    | cons e entries ih =>
        rw [List.map_cons, List.lookup_cons, List.lookup_cons]
        cases hKey : key == e.1 with
        | true =>
            rw [eq_of_beq hKey]
            rfl
        | false => exact ih

end Holds

end Halves

end BatchStore
