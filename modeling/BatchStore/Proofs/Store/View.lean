import BatchStore.Proofs.Table
import BatchStore.Store.Keyspace

/-!
# What shows of a store

`live?` is all that a command sees of the keys. Below, each operation on a store is
described by what it does to `live?`: `live?_setEntry` writes what shows of an entry at one
key, and taking expired keys out changes nothing (`live?_settle`, `live?_settleAll`). Of
`held?`, which also finds the expired, `settle` takes out expired entries only
(`held?_settle`).

`Sound` is the invariant of a store: no database holds a key twice, and every entry is
`Clean`, so that nothing a command takes out of it and answers can be mistaken for a refusal.
-/

namespace BatchStore

/-- What shows of an entry. -/
def Entry.shown? (now : Float) (e? : Option Entry) : Option Entry :=
  e?.filter fun e => !e.isExpired now

/-- A value that is written with the deadline of what shows, shows. -/
theorem Entry.shown?_replace {now : Float} {seen : Option Entry} (h : shown? now seen = seen)
    (v : Value) : shown? now (some (replace seen v)) = some (replace seen v) := by
  cases seen with
  | none => rfl
  | some e =>
      have hLive : e.isExpired now = false := by simpa [shown?, Option.filter_some] using h
      have hSame : (replace (some e) v).isExpired now = e.isExpired now := rfl
      simp [shown?, Option.filter_some, hSame, hLive]

namespace Database

theorem live?_eq (db : Database) (now : Float) (key : Octets) :
    db.live? now key = Entry.shown? now (db.get? key) := rfl

/-- A write to a table shows at its key. -/
theorem live?_set (db : Database) (now : Float) (key k : Octets) (e? : Option Entry) :
    live? (db.set key e?) now k = if k = key then Entry.shown? now e? else db.live? now k := by
  rw [live?_eq, Table.get?_set]
  by_cases h : k = key
  · simp [h]
  · simp [h, live?_eq]

/-- What shows of what shows is all of it. -/
theorem shown?_shown? (now : Float) (e? : Option Entry) :
    Entry.shown? now (Entry.shown? now e?) = Entry.shown? now e? := by
  simp [Entry.shown?, Option.filter_filter]

/-- Once the expired keys are out, all that is left shows. -/
theorem get?_settleAll {db : Database} (h : db.Distinct) (now : Float) (key : Octets) :
    (db.settleAll now).get? key = db.live? now key :=
  Table.get?_filter h _ key

/-- Nothing that shows goes out. -/
theorem live?_settleAll {db : Database} (h : db.Distinct) (now : Float) (key : Octets) :
    (db.settleAll now).live? now key = db.live? now key := by
  rw [live?_eq, get?_settleAll h, live?_eq, shown?_shown?]

theorem distinct_settle {db : Database} (h : db.Distinct) (now : Float) (key : Octets) :
    (db.settle now key).Distinct := by
  unfold settle
  split
  · split
    · exact Table.distinct_erase h key
    · exact h
  · exact h

/-- What is left behind a lookup was there before. -/
theorem mem_values_settle {db : Database} {now : Float} {key : Octets} {e : Entry}
    (h : e ∈ (db.settle now key).values) : e ∈ db.values := by
  unfold settle at h
  split at h
  · split at h
    · exact Table.mem_values_erase h
    · exact h
  · exact h

/-- After a key was looked up, what shows of its entry is left, and every other entry. -/
theorem get?_settle_eq (db : Database) (now : Float) (key k : Octets) :
    (db.settle now key).get? k = if k = key then Entry.shown? now (db.get? key) else db.get? k := by
  unfold settle
  split
  · rename_i e hEntry
    split
    · rename_i hExpired
      have hShown : Entry.shown? now (some e) = none := by
        simp [Entry.shown?, Option.filter_some, hExpired]
      rw [Table.get?_erase, hEntry, hShown]
      simp only [beq_iff_eq]
    · rename_i hLive
      have hShown : Entry.shown? now (some e) = some e := by
        simp [Entry.shown?, Option.filter_some, hLive]
      rw [hEntry, hShown]
      split
      · rename_i hk
        rw [hk, hEntry]
      · rfl
  · rename_i hNone
    split
    · rename_i hk
      rw [hk, hNone]
      rfl
    · rfl

/-- Looking a key up takes nothing out but the expired entry at it. -/
theorem get?_settle (db : Database) (now : Float) (key k : Octets) :
    (db.settle now key).get? k = db.get? k ∨
      (db.settle now key).get? k = none ∧ ∃ e, db.get? k = some e ∧ e.isExpired now = true := by
  rw [get?_settle_eq]
  by_cases hk : k = key
  · subst hk
    cases hEntry : db.get? k with
    | none => exact .inl (by simp [Entry.shown?])
    | some e =>
        cases hExpired : e.isExpired now with
        | false => exact .inl (by simp [Entry.shown?, Option.filter_some, hExpired])
        | true =>
            exact .inr ⟨by simp [Entry.shown?, Option.filter_some, hExpired], e, rfl, hExpired⟩
  · exact .inl (if_neg hk)

end Database

namespace Store

/-! ## Frames -/

@[simp] theorem selected_setDatabase (s : Store) (i : Nat) (db : Database) :
    (s.setDatabase i db).selected = s.selected := rfl

@[simp] theorem libraries_setDatabase (s : Store) (i : Nat) (db : Database) :
    (s.setDatabase i db).libraries = s.libraries := rfl

@[simp] theorem length_setDatabase (s : Store) (i : Nat) (db : Database) :
    (s.setDatabase i db).databases.length = s.databases.length := List.length_set

@[simp] theorem length_settle (s : Store) (now : Float) (i : Nat) (key : Octets) :
    (s.settle now i key).databases.length = s.databases.length := length_setDatabase s i _

@[simp] theorem length_setEntry (s : Store) (i : Nat) (key : Octets) (e? : Option Entry) :
    (s.setEntry i key e?).databases.length = s.databases.length := length_setDatabase s i _

/-- A database is found where it was put, if there is such a place. -/
theorem database_setDatabase (s : Store) (i j : Nat) (db : Database) :
    (s.setDatabase i db).database j =
      if j = i ∧ i < s.databases.length then db else s.database j := by
  unfold database setDatabase
  simp only [List.getD_eq_getElem?_getD, List.getElem?_set]
  by_cases hj : i = j
  · subst hj
    by_cases hi : i < s.databases.length
    · simp [hi]
    · simp [hi]
  · simp [hj, Ne.symm hj]

/-- The number of a database that is there. -/
theorem index?_lt {s : Store} {i : Int} {j : Nat} (h : s.index? i = .ok j) :
    j < s.databases.length := by
  unfold index? at h
  split at h
  · rename_i hRange
    cases h
    omega
  · cases h

/-- A database of a store, or the empty one in place of one that is not there. -/
theorem database_mem (s : Store) (i : Nat) :
    s.database i ∈ s.databases ∨ s.database i = .empty := by
  unfold database
  rw [List.getD_eq_getElem?_getD]
  by_cases hi : i < s.databases.length
  · exact .inl (by simp [hi])
  · exact .inr (by simp [List.getElem?_eq_none (Nat.le_of_not_lt hi)])

/-! ## What the operations do to the view -/

/-- What shows of a database that was put in its place is what shows of it. -/
theorem live?_setDatabase (s : Store) (now : Float) (i j : Nat) (db : Database) (k : Octets) :
    (s.setDatabase i db).live? now j k =
      if j = i ∧ i < s.databases.length then db.live? now k else s.live? now j k := by
  unfold live?
  rw [database_setDatabase]
  split <;> rfl

/-- A write shows at the key written, if the database is there. -/
theorem live?_setEntry (s : Store) (now : Float) (i j : Nat) (key k : Octets)
    (e? : Option Entry) :
    (s.setEntry i key e?).live? now j k =
      if j = i ∧ i < s.databases.length ∧ k = key then Entry.shown? now e?
      else s.live? now j k := by
  unfold setEntry
  rw [live?_setDatabase, Database.live?_set]
  by_cases hj : j = i ∧ i < s.databases.length
  · obtain ⟨rfl, hi⟩ := hj
    by_cases hk : k = key
    · simp [hi, hk]
    · simp [hi, hk, live?]
  · have hNot : ¬ (j = i ∧ i < s.databases.length ∧ k = key) := fun h => hj ⟨h.1, h.2.1⟩
    rw [if_neg hj, if_neg hNot]

/-- Looking a key up changes nothing that shows. -/
theorem live?_settle (s : Store) (now : Float) (i j : Nat) (key k : Octets) :
    (s.settle now i key).live? now j k = s.live? now j k := by
  unfold settle
  rw [live?_setDatabase]
  split
  · rename_i h
    rw [Database.live?_settle, h.1, live?]
  · rfl

/-- Looking a key up takes nothing out but an expired entry. -/
theorem held?_settle (s : Store) (now : Float) (i j : Nat) (key k : Octets) :
    (s.settle now i key).held? j k = s.held? j k ∨
      (s.settle now i key).held? j k = none ∧
        ∃ e, s.held? j k = some e ∧ e.isExpired now = true := by
  unfold settle held?
  rw [database_setDatabase]
  split
  · rename_i h
    rw [h.1]
    exact Database.get?_settle (s.database i) now key k
  · exact .inl rfl

/-- After a key was looked up, what shows of its entry is left, and every other entry. -/
theorem held?_settle_eq (s : Store) (now : Float) (i j : Nat) (key k : Octets) :
    (s.settle now i key).held? j k =
      if j = i ∧ k = key then Entry.shown? now (s.held? i key) else s.held? j k := by
  unfold settle held?
  rw [database_setDatabase]
  by_cases hj : j = i
  · subst hj
    by_cases hi : j < s.databases.length
    · simp [hi, Database.get?_settle_eq]
    · -- A database that is not there holds nothing, before and after.
      have hEmpty : s.database j = .empty := by
        simp [database, Nat.le_of_not_lt hi]
      simp [hi, hEmpty, Entry.shown?]
  · simp [hj]

/-- A write is held at the key written, if the database is there. -/
theorem held?_setEntry (s : Store) (i j : Nat) (key k : Octets) (e? : Option Entry) :
    (s.setEntry i key e?).held? j k =
      if j = i ∧ i < s.databases.length ∧ k = key then e? else s.held? j k := by
  unfold setEntry held?
  rw [database_setDatabase]
  by_cases hj : j = i ∧ i < s.databases.length
  · obtain ⟨rfl, hi⟩ := hj
    simp [hi, Table.get?_set]
  · have hNot : ¬ (j = i ∧ i < s.databases.length ∧ k = key) := fun h => hj ⟨h.1, h.2.1⟩
    rw [if_neg hj, if_neg hNot]

theorem live?_eq_shown? (s : Store) (now : Float) (i : Nat) (key : Octets) :
    s.live? now i key = Entry.shown? now (s.held? i key) := rfl

/-- An entry that shows is there, and has not expired. -/
theorem live?_eq_some_iff (s : Store) (now : Float) (i : Nat) (key : Octets) (e : Entry) :
    s.live? now i key = some e ↔ s.held? i key = some e ∧ e.isExpired now = false := by
  unfold live? held?
  rw [Database.live?_eq, Entry.shown?, Option.filter_eq_some_iff, Bool.not_eq_true']

/-- A database in which a key shows is there. -/
theorem lt_of_live? {s : Store} {now : Float} {i : Nat} {key : Octets} {e : Entry}
    (h : s.live? now i key = some e) : i < s.databases.length := by
  by_contra hBeyond
  have hEmpty : s.database i = .empty := by
    simp [database, Nat.le_of_not_lt hBeyond]
  rw [live?, hEmpty] at h
  cases h

/-- A database in its own place changes nothing. -/
theorem setDatabase_self (s : Store) (i : Nat) : s.setDatabase i (s.database i) = s := by
  by_cases hi : i < s.databases.length
  · simp [setDatabase, database, hi]
  · simp [setDatabase, List.set_eq_of_length_le (Nat.le_of_not_lt hi)]

/-- Looking up what has not expired changes nothing. -/
theorem settle_eq_self {s : Store} {now : Float} {i : Nat} {key : Octets}
    (h : ∀ e, s.held? i key = some e → e.isExpired now = false) : s.settle now i key = s := by
  have hDatabase : (s.database i).settle now key = s.database i := by
    unfold Database.settle
    split
    · rename_i e hEntry
      rw [h e hEntry]
      rfl
    · rfl
  rw [settle, hDatabase, setDatabase_self]

/-- Of two writes to a key the first is lost, if it does not take the key from its place. -/
theorem setEntry_setEntry (s : Store) (i : Nat) (key : Octets) {old? new? : Option Entry}
    (h : old? = none → new? = none) :
    (s.setEntry i key old?).setEntry i key new? = s.setEntry i key new? := by
  by_cases hi : i < s.databases.length
  · unfold setEntry
    rw [database_setDatabase, if_pos ⟨rfl, hi⟩, Table.set_set _ _ h]
    simp [setDatabase]
  · simp [setEntry, setDatabase, List.set_eq_of_length_le (Nat.le_of_not_lt hi)]

/-! ## The invariant -/

end Store

/-- The parts of a value that a command may answer by themselves. -/
def Value.alone : Value → List Datum
  | .string _ | .set _ => []
  | .list items => items
  | .hash fields => fields.values
  | .zset scores => scores.values

/-- No part of a value that may be answered by itself is a refusal. -/
def Value.Clean (v : Value) : Prop := ∀ d ∈ v.alone, d.isRefusal = false

namespace Value

/-- A string has no part that is answered by itself. -/
theorem clean_string (w : Octets) : (string w).Clean := fun _ h => nomatch h

theorem clean_set (members : List Datum) : (set members).Clean := fun _ h => nomatch h

theorem clean_list_nil : (list []).Clean := fun _ h => nomatch h

theorem clean_hash_empty : (hash .empty).Clean := fun _ h => nomatch h

theorem clean_zset_empty : (zset .empty).Clean := fun _ h => nomatch h

end Value

/-- What holds a clean value, if it holds one at all. -/
def Entry.Clean (e? : Option Entry) : Prop := ∀ e ∈ e?, e.value.Clean

namespace Store

/-- No database holds a key twice. -/
def KeysApart (s : Store) : Prop := ∀ db ∈ s.databases, db.Distinct

namespace KeysApart

variable {s : Store}

/-- The keys of each database stand apart, those of one that is not there as well. -/
theorem database (h : s.KeysApart) (i : Nat) : (s.database i).Distinct := by
  rcases database_mem s i with hMem | hEmpty
  · exact h _ hMem
  · rw [hEmpty]
    exact Table.distinct_empty

theorem setDatabase (h : s.KeysApart) (i : Nat) {db : Database} (hDistinct : db.Distinct) :
    (s.setDatabase i db).KeysApart := by
  intro db' hMem
  rcases List.mem_or_eq_of_mem_set hMem with hOld | hNew
  · exact h db' hOld
  · exact hNew ▸ hDistinct

/-- A key that is looked up may go, and no other comes. -/
theorem settle (h : s.KeysApart) (now : Float) (i : Nat) (key : Octets) :
    (s.settle now i key).KeysApart :=
  h.setDatabase i (Database.distinct_settle (h.database i) now key)

theorem setEntry (h : s.KeysApart) (i : Nat) (key : Octets) (e? : Option Entry) :
    (s.setEntry i key e?).KeysApart :=
  h.setDatabase i (Table.distinct_set (h.database i) key e?)

end KeysApart

/-- No key stands twice, and every value is clean. -/
structure Sound (s : Store) : Prop where
  distinct : ∀ db ∈ s.databases, db.Distinct
  clean : ∀ db ∈ s.databases, ∀ e ∈ db.values, e.value.Clean

namespace Sound

variable {s : Store}

theorem keysApart (h : s.Sound) : s.KeysApart := h.distinct

theorem database_distinct (h : s.Sound) (i : Nat) : (s.database i).Distinct :=
  h.keysApart.database i

/-- The values of each database are clean. -/
theorem database_clean (h : s.Sound) (i : Nat) {e : Entry} (he : e ∈ (s.database i).values) :
    e.value.Clean := by
  rcases database_mem s i with hMem | hEmpty
  · exact h.clean _ hMem e he
  · rw [hEmpty] at he
    exact absurd he List.not_mem_nil

/-- What shows at a key is clean. -/
theorem live?_clean (h : s.Sound) (now : Float) (i : Nat) (key : Octets) :
    Entry.Clean (s.live? now i key) := by
  intro e he
  have hHeld := ((live?_eq_some_iff s now i key e).1 he).1
  exact h.database_clean i (Table.mem_values_of_get? hHeld)

theorem setDatabase (h : s.Sound) (i : Nat) {db : Database} (hDistinct : db.Distinct)
    (hClean : ∀ e ∈ db.values, e.value.Clean) : (s.setDatabase i db).Sound where
  distinct := h.keysApart.setDatabase i hDistinct
  clean := by
    intro db' hMem
    rcases List.mem_or_eq_of_mem_set hMem with hOld | hNew
    · exact h.clean db' hOld
    · exact hNew ▸ hClean

theorem settle (h : s.Sound) (now : Float) (i : Nat) (key : Octets) :
    (s.settle now i key).Sound :=
  h.setDatabase i (Database.distinct_settle (h.database_distinct i) now key)
    fun _ he => h.database_clean i (Database.mem_values_settle he)

theorem settleAll (h : s.Sound) (now : Float) (i : Nat) : (s.settleAll now i).Sound :=
  h.setDatabase i (Table.distinct_filter (h.database_distinct i) _)
    fun _ he => h.database_clean i (Table.mem_values_filter he)

/-- A clean entry keeps a store sound. -/
theorem setEntry (h : s.Sound) (i : Nat) (key : Octets) {e? : Option Entry}
    (hClean : Entry.Clean e?) : (s.setEntry i key e?).Sound := by
  refine h.setDatabase i (Table.distinct_set (h.database_distinct i) key e?) ?_
  intro e he
  cases e? with
  | none => exact h.database_clean i (Table.mem_values_erase he)
  | some new =>
      rcases Table.mem_values_put he with hNew | hOld
      · exact hNew ▸ hClean new rfl
      · exact h.database_clean i hOld

theorem sweep (h : s.Sound) (now : Float) : (s.sweep now).Sound where
  distinct := by
    intro db hMem
    obtain ⟨old, hOld, rfl⟩ := List.mem_map.1 hMem
    exact Table.distinct_filter (h.distinct old hOld) _
  clean := by
    intro db hMem e he
    obtain ⟨old, hOld, rfl⟩ := List.mem_map.1 hMem
    exact h.clean old hOld e (Table.mem_values_filter he)

end Sound

/-- A store with empty databases is sound. -/
theorem sound_new {n : Int} {s : Store} (h : Store.new n = .ok s) : s.Sound := by
  unfold Store.new at h
  split at h
  · cases h
  · cases h
    constructor
    · intro db hMem
      rw [List.eq_of_mem_replicate hMem]
      exact Table.distinct_empty
    · intro db hMem e he
      rw [List.eq_of_mem_replicate hMem] at he
      exact absurd he List.not_mem_nil

end Store

end BatchStore
