import BatchStore.Proofs.Store.KeySteps

/-!
# Well-formed values

What commands put into the store is of few types: the elements of a list, the members of a set,
and the fields and values of a hash are strings of octets, and the scores of a sorted set are
doubles. A list, set, hash or sorted set that is left without parts goes away with its key. A
value that keeps to this is `WellFormed`. Values that a foreign payload brought in need not be.
-/

namespace BatchStore

namespace Datum

/-- A string of octets. -/
def IsOctets (d : Datum) : Prop := ∃ w, d = .octets w

/-- A double. -/
def IsReal (d : Datum) : Prop := ∃ x, d = .real x

theorem isOctets_octets (w : Octets) : (octets w).IsOctets := ⟨w, rfl⟩

theorem isReal_real (x : Float) : (real x).IsReal := ⟨x, rfl⟩

end Datum

/-! ## Tables all of whose entries are good -/

namespace Table

variable {κ ν : Type}

/-- Every entry is good. -/
def Each (good : κ × ν → Prop) (t : Table κ ν) : Prop := ∀ e ∈ t.entries, good e

theorem each_empty {good : κ × ν → Prop} : Each good (empty : Table κ ν) := fun _ h => nomatch h

variable [BEq κ] {good : κ × ν → Prop} {t : Table κ ν}

/-- An entry of the table that was put to is the new one or an old one. -/
theorem mem_entries_put [LawfulBEq κ] {key : κ} {value : ν} {e : κ × ν}
    (h : e ∈ (t.put key value).entries) : e = (key, value) ∨ e ∈ t.entries := by
  obtain ⟨entries⟩ := t
  induction entries with
  | nil => exact .inl (List.mem_singleton.1 h)
  | cons first rest ih =>
      obtain ⟨k, v⟩ := first
      have hUnfold : (put ⟨(k, v) :: rest⟩ key value).entries =
          if key == k then (k, value) :: rest else (k, v) :: putEntry key value rest := rfl
      rw [hUnfold] at h
      split at h
      · rename_i hKey
        rw [← eq_of_beq hKey] at h
        rcases List.mem_cons.1 h with hNew | hOld
        · exact .inl hNew
        · exact .inr (List.mem_cons_of_mem _ hOld)
      · rcases List.mem_cons.1 h with hFirst | hRest
        · exact .inr (hFirst ▸ List.mem_cons_self)
        · exact (ih hRest).imp_right (List.mem_cons_of_mem _)

/-- What holds of all entries and of a new one holds of all. -/
theorem Each.put [LawfulBEq κ] (h : Each good t) {key : κ} {value : ν} (hNew : good (key, value)) :
    Each good (t.put key value) := by
  intro e he
  rcases mem_entries_put he with rfl | hOld
  · exact hNew
  · exact h e hOld

/-- What holds of all entries and of some new ones holds of all. -/
theorem Each.putAll [LawfulBEq κ] (h : Each good t) {pairs : List (κ × ν)}
    (hNew : ∀ e ∈ pairs, good e) : Each good (t.putAll pairs) := by
  induction pairs generalizing t with
  | nil => exact h
  | cons e pairs ih =>
      exact ih (h.put (hNew e List.mem_cons_self))
        fun e' he' => hNew e' (List.mem_cons_of_mem _ he')

theorem Each.erase (h : Each good t) (key : κ) : Each good (t.erase key) :=
  fun e he => h e (List.mem_filter.1 he).1

/-- What holds of all entries holds of those that are left. -/
theorem Each.withoutEntries [BEq ν] (h : Each good t) (pairs : List (κ × ν)) :
    Each good (t.withoutEntries pairs) := by
  obtain ⟨entries⟩ := t
  unfold Table.withoutEntries
  induction pairs generalizing entries with
  | nil => exact h
  | cons e pairs ih =>
      have hErased : Each good (⟨entries.erase e⟩ : Table κ ν) :=
        fun e' he' => h e' (List.mem_of_mem_erase he')
      exact ih (entries.erase e) hErased

/-! ## Tables with something in them -/

theorem isEmpty_put (key : κ) (value : ν) : (t.put key value).isEmpty = false := by
  obtain ⟨entries⟩ := t
  cases entries with
  | nil => rfl
  | cons e rest =>
      obtain ⟨k, v⟩ := e
      unfold put putEntry
      split <;> rfl

/-- A table that is put something, or that holds something, is not empty. -/
theorem isEmpty_putAll {pairs : List (κ × ν)} (h : pairs ≠ [] ∨ t.isEmpty = false) :
    (t.putAll pairs).isEmpty = false := by
  induction pairs generalizing t with
  | nil =>
      rcases h with hPairs | hTable
      · exact absurd rfl hPairs
      · exact hTable
  | cons e pairs ih => exact ih (.inr (isEmpty_put e.1 e.2))

end Table

/-! ## Values -/

namespace Value

/-- Every part is of the type that commands write. -/
def Typed : Value → Prop
  | string _ => True
  | list items => ∀ d ∈ items, d.IsOctets
  | set members => ∀ d ∈ members, d.IsOctets
  | hash fields => fields.Each fun e => e.1.IsOctets ∧ e.2.IsOctets
  | zset scores => scores.Each fun e => e.1.IsOctets ∧ e.2.IsReal

/-- Whether a value is made of parts. -/
def isCollection : Value → Bool
  | string _ => false
  | _ => true

/-- The parts are of the types that commands write, and a collection has some. -/
structure WellFormed (v : Value) : Prop where
  typed : v.Typed
  filled : v.isCollection = true → v.isEmpty = false

theorem wellFormed_string (w : Octets) : (string w).WellFormed :=
  ⟨trivial, fun hNever => nomatch hNever⟩

end Value

namespace Entry

/-- What holds a well-formed value, if it holds one at all. -/
def WellFormed (e? : Option Entry) : Prop := ∀ e ∈ e?, e.value.WellFormed

theorem wellFormed_none : WellFormed none := fun _ h => nomatch h

theorem wellFormed_some {e : Entry} (h : e.value.WellFormed) : WellFormed (some e) := by
  intro e' h'
  cases h'
  exact h

/-- A change of deadlines leaves well-formed what was well-formed. -/
theorem wellFormed_map {seen : Option Entry} (h : WellFormed seen) {f : Entry → Entry}
    (hValue : ∀ e, (f e).value = e.value) : WellFormed (seen.map f) := by
  intro e he
  obtain ⟨old, hOld, rfl⟩ := Option.map_eq_some_iff.1 he
  rw [hValue]
  exact h old hOld

/-- A well-formed value may replace any entry. -/
theorem wellFormed_replace (old? : Option Entry) {v : Value} (h : v.WellFormed) :
    WellFormed (some (replace old? v)) :=
  wellFormed_some h

/-- Where an empty value gives way, the parts are all that matters. -/
theorem wellFormed_replaceUnlessEmpty (old? : Option Entry) {v : Value} (h : v.Typed) :
    WellFormed (replaceUnlessEmpty old? v) := by
  unfold replaceUnlessEmpty
  split
  · exact wellFormed_none
  · rename_i hFilled
    exact wellFormed_replace old? ⟨h, fun _ => by simpa using hFilled⟩

end Entry

/-- The parts of a well-formed value of the expected kind. -/
theorem expect_typed {α : Type} {kind? : Value → Option α} (make : α → Value)
    (hMake : ∀ v a, kind? v = some a → v = make a) {seen : Option Entry}
    (hSeen : Entry.WellFormed seen) {a : α} (h : expect kind? seen = .ok (some a)) :
    (make a).Typed := by
  obtain ⟨e, hEntry, hKind⟩ := expect_eq_some h
  rw [← hMake e.value a hKind]
  exact (hSeen e hEntry).typed

theorem eq_set_of_set? {v : Value} {members : List Datum} (h : v.set? = some members) :
    v = .set members := by
  cases v <;> simp_all [Value.set?]

/-- The list at a key; a missing one is empty. -/
theorem list_typed {seen : Option Entry} (hSeen : Entry.WellFormed seen)
    {items? : Option (List Datum)} (h : expect Value.list? seen = .ok items?) :
    (Value.list (items?.getD [])).Typed := by
  cases items? with
  | none => exact fun _ hNever => nomatch hNever
  | some items => exact expect_typed .list (fun _ _ => eq_list_of_list?) hSeen h

/-- The set at a key; a missing one is empty. -/
theorem set_typed {seen : Option Entry} (hSeen : Entry.WellFormed seen)
    {members? : Option (List Datum)} (h : expect Value.set? seen = .ok members?) :
    (Value.set (members?.getD [])).Typed := by
  cases members? with
  | none => exact fun _ hNever => nomatch hNever
  | some members => exact expect_typed .set (fun _ _ => eq_set_of_set?) hSeen h

/-- The hash at a key; a missing one is empty. -/
theorem hash_typed {seen : Option Entry} (hSeen : Entry.WellFormed seen)
    {fields? : Option (Table Datum Datum)} (h : expect Value.hash? seen = .ok fields?) :
    (Value.hash (fields?.getD .empty)).Typed := by
  cases fields? with
  | none => exact Table.each_empty
  | some fields => exact expect_typed .hash (fun _ _ => eq_hash_of_hash?) hSeen h

/-- The sorted set at a key; a missing one is empty. -/
theorem zset_typed {seen : Option Entry} (hSeen : Entry.WellFormed seen)
    {scores? : Option (Table Datum Datum)} (h : expect Value.zset? seen = .ok scores?) :
    (Value.zset (scores?.getD .empty)).Typed := by
  cases scores? with
  | none => exact Table.each_empty
  | some scores => exact expect_typed .zset (fun _ _ => eq_zset_of_zset?) hSeen h

end BatchStore
