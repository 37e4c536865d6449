import Mathlib.Data.List.Dedup
import Mathlib.Data.List.Perm.Basic
import BatchStore.Table

/-!
# Tables that hold each key once

`put` and `erase` keep the keys of a table apart (`distinct_put`, `distinct_erase`), so a
table that was empty once holds each key once. Of such a table `get?` tells everything but
the order of the keys: `mem_entries_iff` reads an entry as a value of `get?`, and tables
that agree in `get?` are `Reordered`, one a permutation of the other (`reordered_of_get?`).
-/

namespace BatchStore.Table

variable {κ ν : Type}

/-- Every key stands once. -/
def Distinct (t : Table κ ν) : Prop := t.keys.Nodup

theorem distinct_empty : (empty : Table κ ν).Distinct := List.nodup_nil

private theorem keys_putEntry [BEq κ] [LawfulBEq κ] (key : κ) (value : ν) (pairs : List (κ × ν)) :
    (putEntry key value pairs).map (·.1) =
      if key ∈ pairs.map (·.1) then pairs.map (·.1) else pairs.map (·.1) ++ [key] := by
  induction pairs with
  | nil => simp [putEntry]
  | cons e rest ih =>
      obtain ⟨k, v⟩ := e
      by_cases hKey : key = k
      · subst hKey
        simp [putEntry]
      · have hFalse : (key == k) = false := beq_eq_false_iff_ne.2 hKey
        simp only [putEntry, hFalse, Bool.false_eq_true, if_false, List.map_cons, ih,
          List.mem_cons, hKey, false_or]
        split <;> simp

/-- A key that is there keeps its one place, and one that is not gets one. -/
theorem distinct_put [BEq κ] [LawfulBEq κ] {t : Table κ ν} (h : t.Distinct) (key : κ) (value : ν) :
    (t.put key value).Distinct := by
  unfold Distinct keys put at *
  rw [keys_putEntry]
  split
  · exact h
  · rename_i hNew
    refine List.nodup_append.2 ⟨h, List.nodup_singleton key, ?_⟩
    intro k hk k' hk' hSame
    rw [List.mem_singleton.1 hk'] at hSame
    exact hNew (hSame ▸ hk)

theorem distinct_filter {t : Table κ ν} (h : t.Distinct) (keep : κ → ν → Bool) :
    (t.filter keep).Distinct :=
  h.sublist (List.filter_sublist.map _)

theorem distinct_erase [BEq κ] {t : Table κ ν} (h : t.Distinct) (key : κ) :
    (t.erase key).Distinct :=
  h.sublist (List.filter_sublist.map _)

theorem distinct_set [BEq κ] [LawfulBEq κ] {t : Table κ ν} (h : t.Distinct) (key : κ)
    (value? : Option ν) : (t.set key value?).Distinct := by
  cases value? with
  | some value => exact distinct_put h key value
  | none => exact distinct_erase h key

/-- A write makes a table longer if the key is new. -/
theorem size_put [BEq κ] (t : Table κ ν) (key : κ) (value : ν) :
    (t.put key value).size = t.size + (t.get? key).isNone.toNat := by
  unfold put size get?
  dsimp only
  generalize t.entries = pairs
  induction pairs with
  | nil => rfl
  | cons e rest ih =>
      obtain ⟨k, v⟩ := e
      rw [putEntry, List.lookup_cons]
      split
      · simp [*]
      · simp [*]
        omega

/-! ## Writing a key again -/

section Again

variable [BEq κ] [LawfulBEq κ]

private theorem putEntry_putEntry (key : κ) (old new : ν) (pairs : List (κ × ν)) :
    putEntry key new (putEntry key old pairs) = putEntry key new pairs := by
  induction pairs with
  | nil => simp [putEntry]
  | cons e rest ih =>
      simp only [putEntry]
      split <;> simp_all [putEntry]

private theorem filter_putEntry (key : κ) (old : ν) (pairs : List (κ × ν)) :
    ((putEntry key old pairs).filter fun e => !(key == e.1)) =
      pairs.filter fun e => !(key == e.1) := by
  induction pairs with
  | nil => simp [putEntry]
  | cons e rest ih =>
      simp only [putEntry]
      split <;> simp_all

/-- Of two writes to a key the first is lost, if it does not take the key from its place. -/
theorem set_set (t : Table κ ν) (key : κ) {old? new? : Option ν} (h : old? = none → new? = none) :
    (t.set key old?).set key new? = t.set key new? := by
  rcases old? with _ | old
  · rw [h rfl]
    exact congrArg Table.mk (by simp [set, erase])
  · rcases new? with _ | new
    · exact congrArg Table.mk (filter_putEntry key old t.entries)
    · exact congrArg Table.mk (putEntry_putEntry key old new t.entries)

end Again

/-! ## What stands in a table -/

/-- A value after a write is the one written or one from before. -/
theorem mem_values_put [BEq κ] {t : Table κ ν} {key : κ} {value v : ν}
    (h : v ∈ (t.put key value).values) : v = value ∨ v ∈ t.values := by
  unfold put values at *
  generalize t.entries = pairs at *
  induction pairs with
  | nil =>
      left
      simpa [putEntry] using h
  | cons e rest ih =>
      obtain ⟨k, v'⟩ := e
      simp only [putEntry] at h
      split at h
      · simp only [List.map_cons, List.mem_cons] at h ⊢
        tauto
      · simp only [List.map_cons, List.mem_cons] at h ⊢
        rcases h with h | h
        · exact .inr (.inl h)
        · exact (ih h).imp_right .inr

/-- A value after a row of writes is one of those written or one from before. -/
theorem mem_values_putAll [BEq κ] {t : Table κ ν} {pairs : List (κ × ν)} {v : ν}
    (h : v ∈ (t.putAll pairs).values) : v ∈ pairs.map (·.2) ∨ v ∈ t.values := by
  induction pairs generalizing t with
  | nil => exact .inr h
  | cons e rest ih =>
      rcases ih (t := t.put e.1 e.2) h with hRest | hPut
      · exact .inl (List.mem_cons_of_mem _ hRest)
      · rcases mem_values_put hPut with hNew | hOld
        · exact .inl (hNew ▸ List.mem_cons_self)
        · exact .inr hOld

/-- What is left after some entries are taken out was there. -/
theorem mem_values_withoutEntries [BEq κ] [BEq ν] {t : Table κ ν} {pairs : List (κ × ν)} {v : ν}
    (h : v ∈ (t.withoutEntries pairs).values) : v ∈ t.values := by
  have hSublist (taken : List (κ × ν)) :
      ∀ entries : List (κ × ν), (taken.foldl List.erase entries).Sublist entries := by
    induction taken with
    | nil => exact fun entries => List.Sublist.refl entries
    | cons e rest ih => exact fun entries => (ih _).trans List.erase_sublist
  exact ((hSublist pairs t.entries).map _).subset h

theorem mem_values_filter {t : Table κ ν} {keep : κ → ν → Bool} {v : ν}
    (h : v ∈ (t.filter keep).values) : v ∈ t.values :=
  (List.filter_sublist.map _).subset h

theorem mem_values_erase [BEq κ] {t : Table κ ν} {key : κ} {v : ν}
    (h : v ∈ (t.erase key).values) : v ∈ t.values :=
  (List.filter_sublist.map _).subset h

/-- What `get?` finds is a value of the table. -/
theorem mem_values_of_get? [BEq κ] {t : Table κ ν} {key : κ} {v : ν} (h : t.get? key = some v) :
    v ∈ t.values := by
  unfold get? values at *
  generalize t.entries = pairs at *
  induction pairs with
  | nil => simp at h
  | cons e rest ih =>
      obtain ⟨k, v'⟩ := e
      rw [List.lookup_cons] at h
      split at h
      · simp_all
      · exact List.mem_cons_of_mem _ (ih h)

/-- Where each key stands once, its entry is the one that `get?` finds. -/
theorem mem_entries_iff [BEq κ] [LawfulBEq κ] {t : Table κ ν} (h : t.Distinct) (key : κ)
    (value : ν) : (key, value) ∈ t.entries ↔ t.get? key = some value := by
  unfold Distinct keys get? at *
  generalize t.entries = pairs at *
  induction pairs with
  | nil => simp
  | cons e rest ih =>
      obtain ⟨k, v⟩ := e
      have hNodup := List.nodup_cons.1 h
      rw [List.lookup_cons, List.mem_cons, Prod.mk.injEq]
      by_cases hKey : key = k
      · subst hKey
        have hNot : (key, value) ∉ rest := fun hMem =>
          hNodup.1 (List.mem_map.2 ⟨(key, value), hMem, rfl⟩)
        simp [hNot, eq_comm]
      · have hFalse : (key == k) = false := beq_eq_false_iff_ne.2 hKey
        simp [hKey, hFalse, ih hNodup.2]

/-- The keys of a table are those at which `get?` finds something. -/
theorem mem_keys_iff [BEq κ] [LawfulBEq κ] {t : Table κ ν} {key : κ} :
    key ∈ t.keys ↔ (t.get? key).isSome = true := by
  unfold keys get?
  induction t.entries with
  | nil => simp
  | cons e rest ih =>
      obtain ⟨k, v⟩ := e
      rw [List.map_cons, List.mem_cons, List.lookup_cons, ih]
      by_cases hKey : key = k
      · simp [hKey]
      · simp [hKey, beq_eq_false_iff_ne.2 hKey]

/-- A filter of entries is a filter of what `get?` finds. -/
theorem get?_filter [BEq κ] [LawfulBEq κ] {t : Table κ ν} (h : t.Distinct)
    (keep : κ → ν → Bool) (key : κ) :
    (t.filter keep).get? key = (t.get? key).filter (keep key) := by
  ext value
  rw [← mem_entries_iff (distinct_filter h keep), Option.filter_eq_some_iff,
    ← mem_entries_iff h, filter, List.mem_filter]

/-! ## Tables that differ in order alone -/

/-- The same keys with the same values, perhaps in another order. -/
structure Reordered [BEq κ] (a b : Table κ ν) : Prop where
  perm : a.entries.Perm b.entries
  get? : ∀ key, a.get? key = b.get? key

/-- Tables with the same values at the same keys differ in order alone. -/
theorem reordered_of_get? [BEq κ] [LawfulBEq κ] {a b : Table κ ν} (ha : a.Distinct)
    (hb : b.Distinct) (h : ∀ key, a.get? key = b.get? key) : a.Reordered b := by
  refine ⟨?_, h⟩
  refine (List.perm_ext_iff_of_nodup (List.Nodup.of_map _ ha) (List.Nodup.of_map _ hb)).2 ?_
  rintro ⟨key, value⟩
  rw [mem_entries_iff ha, mem_entries_iff hb, h]

namespace Reordered

variable [BEq κ] {a b : Table κ ν}

theorem size_eq (h : a.Reordered b) : a.size = b.size := h.perm.length_eq

theorem isEmpty_eq (h : a.Reordered b) : a.isEmpty = b.isEmpty := h.perm.isEmpty_eq

/-- Tables that hold the same in another order have the same keys. -/
theorem keys_perm (h : a.Reordered b) : a.keys.Perm b.keys := h.perm.map _

theorem values_perm (h : a.Reordered b) : a.values.Perm b.values := h.perm.map _

end Reordered

end BatchStore.Table
