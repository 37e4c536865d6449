/-!
# Tables

A table holds pairs of a key and a value, each key once, in the order in which the
keys came in. Writing to a key that is there keeps its place; a key that was erased
and comes back goes to the end.

A table is read through `get?`, and its operations are known by what they do to
`get?`: `get?_put`, `get?_erase` and `get?_empty`. `withoutEntries` looks at the values too
and is known by `perm_withoutEntries`.
-/

namespace BatchStore

/-- Pairs of key and value in the order of the keys' arrival. -/
structure Table (κ ν : Type) where
  entries : List (κ × ν)
deriving DecidableEq

namespace Table

variable {κ ν : Type} [BEq κ]

/-- The table without keys. -/
def empty : Table κ ν := ⟨[]⟩

instance : EmptyCollection (Table κ ν) := ⟨empty⟩

instance : Inhabited (Table κ ν) := ⟨empty⟩

/-- The keys, in order. -/
def keys (t : Table κ ν) : List κ := t.entries.map (·.1)

/-- The values, in the order of their keys. -/
def values (t : Table κ ν) : List ν := t.entries.map (·.2)

/-- The count of keys. -/
def size (t : Table κ ν) : Nat := t.entries.length

def isEmpty (t : Table κ ν) : Bool := t.entries.isEmpty

/-- The value at a key. -/
def get? (t : Table κ ν) (key : κ) : Option ν := t.entries.lookup key

def contains (t : Table κ ν) (key : κ) : Bool := (t.get? key).isSome

/-- Writes into a list of pairs: in place if the key is there, else at the end. -/
def putEntry (key : κ) (value : ν) : List (κ × ν) → List (κ × ν)
  | [] => [(key, value)]
  | (k, v) :: rest => if key == k then (k, value) :: rest else (k, v) :: putEntry key value rest

/-- Writes a value to a key. -/
def put (t : Table κ ν) (key : κ) (value : ν) : Table κ ν := ⟨putEntry key value t.entries⟩

/-- Takes a key out. -/
def erase (t : Table κ ν) (key : κ) : Table κ ν := ⟨t.entries.filter fun e => !(key == e.1)⟩

/-- Takes given entries out, each as often as it is given. Where every key stands once, their
keys are gone then; of keys that are built alike but are not one, the others stay. -/
def withoutEntries [BEq ν] (t : Table κ ν) (pairs : List (κ × ν)) : Table κ ν :=
  ⟨pairs.foldl List.erase t.entries⟩

/-- Writes a value to a key, or takes the key out. -/
def set (t : Table κ ν) (key : κ) : Option ν → Table κ ν
  | some value => t.put key value
  | none => t.erase key

/-- Keeps the pairs that satisfy a condition. -/
def filter (t : Table κ ν) (keep : κ → ν → Bool) : Table κ ν :=
  ⟨t.entries.filter fun e => keep e.1 e.2⟩

/-- Writes the pairs of a list one after another. -/
def putAll (t : Table κ ν) (pairs : List (κ × ν)) : Table κ ν :=
  pairs.foldl (fun t e => t.put e.1 e.2) t

/-- The table of a list of pairs; of pairs with one key the first gives the place and
the last the value. -/
def ofList (pairs : List (κ × ν)) : Table κ ν := empty.putAll pairs

/-! ## What the operations do to `get?` -/

@[simp] theorem get?_empty (key : κ) : (empty : Table κ ν).get? key = none := rfl

theorem lookup_putEntry [LawfulBEq κ] (key k : κ) (value : ν) (pairs : List (κ × ν)) :
    (putEntry key value pairs).lookup k = if k == key then some value else pairs.lookup k := by
  induction pairs with
  | nil =>
    by_cases h : k = key
    · simp [putEntry, h]
    · have hFalse : (k == key) = false := beq_eq_false_iff_ne.2 h
      simp [putEntry, List.lookup_cons, hFalse]
  | cons e rest ih =>
    obtain ⟨k', v⟩ := e
    by_cases hKey : key = k'
    · subst hKey
      simp only [putEntry, beq_self_eq_true, if_true, List.lookup_cons]
      cases k == key <;> simp
    · have hFalse : (key == k') = false := beq_eq_false_iff_ne.2 hKey
      simp only [putEntry, hFalse, Bool.false_eq_true, if_false, List.lookup_cons]
      by_cases hk : k = k'
      · subst hk
        have hBack : (k == key) = false := beq_eq_false_iff_ne.2 (Ne.symm hKey)
        simp [hBack]
      · have hOther : (k == k') = false := beq_eq_false_iff_ne.2 hk
        simp only [hOther, ih]

/-- After a write, the key written to has the new value and the others theirs. -/
theorem get?_put [LawfulBEq κ] (t : Table κ ν) (key k : κ) (value : ν) :
    (t.put key value).get? k = if k == key then some value else t.get? k :=
  lookup_putEntry key k value t.entries

theorem lookup_filter_ne [LawfulBEq κ] (key k : κ) (pairs : List (κ × ν)) :
    (pairs.filter fun e => !(key == e.1)).lookup k =
      if k == key then none else pairs.lookup k := by
  induction pairs with
  | nil => simp
  | cons e rest ih =>
    obtain ⟨k', v⟩ := e
    by_cases hKey : key = k'
    · subst hKey
      simp only [List.filter, beq_self_eq_true, Bool.not_true, ih, List.lookup_cons]
      cases k == key <;> simp
    · have hFalse : (key == k') = false := beq_eq_false_iff_ne.2 hKey
      simp only [List.filter, hFalse, Bool.not_false, List.lookup_cons, ih]
      by_cases hk : k = k'
      · subst hk
        have hBack : (k == key) = false := beq_eq_false_iff_ne.2 (Ne.symm hKey)
        simp [hBack]
      · have hOther : (k == k') = false := beq_eq_false_iff_ne.2 hk
        simp only [hOther]

/-- After an erasure, the key erased has no value and the others theirs. -/
theorem get?_erase [LawfulBEq κ] (t : Table κ ν) (key k : κ) :
    (t.erase key).get? k = if k == key then none else t.get? k :=
  lookup_filter_ne key k t.entries

/-- Writes and erasures in one. -/
theorem get?_set [LawfulBEq κ] (t : Table κ ν) (key k : κ) (value : Option ν) :
    (t.set key value).get? k = if k == key then value else t.get? k := by
  cases value with
  | some value => exact get?_put t key k value
  | none => exact get?_erase t key k

/-! ## What is left without some entries -/

/-- Entries taken out and those that are left make up the table. -/
theorem perm_withoutEntries [BEq ν] [LawfulBEq κ] [LawfulBEq ν] (pairs rest : List (κ × ν)) :
    ∀ t : Table κ ν, t.entries.Perm (pairs ++ rest) →
      t.entries.Perm (pairs ++ (t.withoutEntries pairs).entries) := by
  induction pairs with
  | nil => intro t _; exact List.Perm.refl _
  | cons e es ih =>
    intro t h
    have hFirst := List.perm_cons_erase (h.symm.subset (List.mem_cons_self (a := e)))
    have hOthers : (t.entries.erase e).Perm (es ++ rest) :=
      (hFirst.symm.trans h).cons_inv
    exact hFirst.trans ((ih ⟨t.entries.erase e⟩ hOthers).cons e)

end Table

end BatchStore
