import Mathlib.Data.List.Forall2
import BatchStore.Proofs.Store.View

/-!
# Stores that show the same

Two stores are `Alike` at a reading of the clock if they agree in the selected database, in
the libraries, in the number of databases, and in what shows at every key. They may differ
in expired keys, and in the order in which their keys stand. Whatever takes expired keys out
leaves a store alike (`Alike.settle`, `Alike.settleAll`, `Alike.sweep`), and whatever writes
the same to two that are alike leaves them so (`Alike.setEntry`, `Alike.setDatabase`).

Once the expired keys are out of two sound stores that are alike, they are the `Same`: their
databases differ in the order of keys alone (`SoundAlike.same_sweep`).

`Untouched` is stronger and is not symmetric: the second store is the first, perhaps without
some keys that are expired.
-/

namespace BatchStore

namespace Store

/-- What a command may consult without looking at keys is the same in two stores. -/
structure SameFrame (s t : Store) : Prop where
  selected : s.selected = t.selected
  libraries : s.libraries = t.libraries
  count : s.databases.length = t.databases.length

/-- Two stores of which the same shows at a reading of the clock. -/
structure Alike (now : Float) (s t : Store) : Prop extends SameFrame s t where
  live : ∀ i key, s.live? now i key = t.live? now i key

/-- The second store is the first, perhaps without some keys that are expired. -/
structure Untouched (now : Float) (s t : Store) : Prop extends SameFrame s t where
  held : ∀ i key, t.held? i key = s.held? i key ∨
    t.held? i key = none ∧ ∃ e, s.held? i key = some e ∧ e.isExpired now = true

theorem SameFrame.refl (s : Store) : s.SameFrame s := ⟨rfl, rfl, rfl⟩

theorem SameFrame.trans {s t u : Store} (hst : s.SameFrame t) (htu : t.SameFrame u) :
    s.SameFrame u :=
  ⟨hst.selected.trans htu.selected, hst.libraries.trans htu.libraries, hst.count.trans htu.count⟩

theorem SameFrame.symm {s t : Store} (h : s.SameFrame t) : t.SameFrame s :=
  ⟨h.selected.symm, h.libraries.symm, h.count.symm⟩

/-- A database that is put in its place leaves the frame. -/
theorem sameFrame_setDatabase (s : Store) (i : Nat) (db : Database) :
    (s.setDatabase i db).SameFrame s :=
  ⟨selected_setDatabase s i db, libraries_setDatabase s i db, length_setDatabase s i db⟩

theorem SameFrame.setDatabase {s t : Store} (h : s.SameFrame t) (i : Nat) (a b : Database) :
    (s.setDatabase i a).SameFrame (t.setDatabase i b) :=
  (sameFrame_setDatabase s i a).trans (h.trans (sameFrame_setDatabase t i b).symm)

theorem sameFrame_sweep (s : Store) (now : Float) : (s.sweep now).SameFrame s :=
  ⟨rfl, rfl, List.length_map _⟩

/-! ## Taking expired keys out shows nothing -/

/-- Looking at every key of a database settles that database. -/
theorem database_settleAll (s : Store) (now : Float) (i : Nat) :
    (s.settleAll now i).database i = (s.database i).settleAll now := by
  unfold settleAll
  rw [database_setDatabase]
  by_cases hi : i < s.databases.length
  · simp [hi]
  · have hEmpty : s.database i = .empty := by
      unfold database
      rw [List.getD_eq_getElem?_getD, List.getElem?_eq_none (Nat.le_of_not_lt hi)]
      rfl
    simp only [hi, and_false, if_false]
    rw [hEmpty]
    rfl

/-- And a sweep settles each. -/
theorem database_sweep (s : Store) (now : Float) (i : Nat) :
    (s.sweep now).database i = (s.database i).settleAll now := by
  unfold sweep database
  dsimp only
  rw [List.getD_eq_getElem?_getD, List.getD_eq_getElem?_getD, List.getElem?_map]
  cases s.databases[i]? <;> rfl

/-- As many databases, each a reordering of its counterpart. -/
theorem forall₂_reordered {s t : Store} (hCount : s.databases.length = t.databases.length)
    (h : ∀ i, (s.database i).Reordered (t.database i)) :
    List.Forall₂ Table.Reordered s.databases t.databases := by
  have hGet (r : Store) (i : Nat) (hi : i < r.databases.length) :
      r.databases.get ⟨i, hi⟩ = r.database i := by
    rw [database, List.getD_eq_getElem?_getD, List.getElem?_eq_getElem hi]
    rfl
  refine List.forall₂_iff_get.2 ⟨hCount, fun i hi hj => ?_⟩
  rw [hGet s i hi, hGet t i hj]
  exact h i

namespace Alike

variable {now : Float} {s t u : Store}

/-- Alike is an equivalence, for a reading of the clock. -/
theorem refl (now : Float) (s : Store) : s.Alike now s := ⟨.refl s, fun _ _ => rfl⟩

theorem symm (h : s.Alike now t) : t.Alike now s :=
  ⟨h.toSameFrame.symm, fun i key => (h.live i key).symm⟩

theorem trans (hst : s.Alike now t) (htu : t.Alike now u) : s.Alike now u :=
  ⟨hst.toSameFrame.trans htu.toSameFrame, fun i key => (hst.live i key).trans (htu.live i key)⟩

/-- An expired key that goes out did not show. -/
theorem settle (now : Float) (s : Store) (i : Nat) (key : Octets) :
    (s.settle now i key).Alike now s :=
  ⟨sameFrame_setDatabase s i _, fun j k => live?_settle s now i j key k⟩

/-- Nor did those of a whole database. -/
theorem settleAll (hs : s.Sound) (now : Float) (i : Nat) : (s.settleAll now i).Alike now s := by
  refine ⟨sameFrame_setDatabase s i _, fun j key => ?_⟩
  unfold Store.settleAll
  rw [live?_setDatabase]
  split
  · rename_i h
    rw [Database.live?_settleAll (hs.database_distinct i), h.1, live?]
  · rfl

/-- Nor those of all databases. -/
theorem sweep (hs : s.Sound) (now : Float) : (s.sweep now).Alike now s := by
  refine ⟨sameFrame_sweep s now, fun i key => ?_⟩
  rw [live?, database_sweep, Database.live?_settleAll (hs.database_distinct i), live?]

theorem setDatabase (h : s.Alike now t) (i : Nat) (db : Database) :
    (s.setDatabase i db).Alike now (t.setDatabase i db) := by
  refine ⟨h.toSameFrame.setDatabase i db db, fun j key => ?_⟩
  rw [live?_setDatabase, live?_setDatabase, h.count, h.live]

/-- The same entry is written to both. -/
theorem setEntry (h : s.Alike now t) (i : Nat) (key : Octets) (e? : Option Entry) :
    (s.setEntry i key e?).Alike now (t.setEntry i key e?) := by
  refine ⟨h.toSameFrame.setDatabase i _ _, fun j k => ?_⟩
  rw [live?_setEntry, live?_setEntry, h.count, h.live]

/-- Once the expired keys are out, a database of two stores that are alike has the same keys
with the same entries. -/
theorem reordered (h : s.Alike now t) (hs : s.Sound) (ht : t.Sound) (i : Nat) :
    ((s.database i).settleAll now).Reordered ((t.database i).settleAll now) := by
  refine Table.reordered_of_get? (Table.distinct_filter (hs.database_distinct i) _)
    (Table.distinct_filter (ht.database_distinct i) _) fun key => ?_
  rw [Database.get?_settleAll (hs.database_distinct i),
    Database.get?_settleAll (ht.database_distinct i)]
  exact h.live i key

/-- Swept stores that were alike differ in the order of keys alone. -/
theorem reordered_sweep (h : s.Alike now t) (hs : s.Sound) (ht : t.Sound) :
    List.Forall₂ Table.Reordered (s.sweep now).databases (t.sweep now).databases := by
  have hCount : (s.sweep now).databases.length = (t.sweep now).databases.length :=
    ((sameFrame_sweep s now).trans (h.toSameFrame.trans (sameFrame_sweep t now).symm)).count
  refine forall₂_reordered hCount fun i => ?_
  rw [database_sweep, database_sweep]
  exact h.reordered hs ht i

end Alike

/-! ## Stores that are the same -/

/-- The same selected database and libraries, and databases that have the same keys with the
same entries, perhaps in another order. -/
structure Same (s t : Store) : Prop where
  selected : s.selected = t.selected
  libraries : s.libraries = t.libraries
  databases : List.Forall₂ Table.Reordered s.databases t.databases

/-- Two sound stores that are alike. -/
structure SoundAlike (now : Float) (s t : Store) : Prop extends Alike now s t where
  left : s.Sound
  right : t.Sound

/-- Sound stores that are alike are the same once the expired keys are out. -/
theorem SoundAlike.same_sweep {now : Float} {s t : Store} (h : SoundAlike now s t) :
    (s.sweep now).Same (t.sweep now) :=
  ⟨h.selected, h.libraries, h.toAlike.reordered_sweep h.left h.right⟩

/-! ## Stores that were left alone -/

namespace Untouched

variable {now : Float} {s t u : Store}

theorem refl (now : Float) (s : Store) : s.Untouched now s := ⟨.refl s, fun _ _ => .inl rfl⟩

/-- What was left alone twice was left alone. -/
theorem trans (hst : s.Untouched now t) (htu : t.Untouched now u) : s.Untouched now u := by
  refine ⟨hst.toSameFrame.trans htu.toSameFrame, fun i key => ?_⟩
  rcases htu.held i key with hSame | ⟨hNone, e, hEntry, hExpired⟩
  · rw [hSame]
    exact hst.held i key
  · rcases hst.held i key with hSame | ⟨hGone, _⟩
    · exact .inr ⟨hNone, e, hSame ▸ hEntry, hExpired⟩
    · rw [hGone] at hEntry
      cases hEntry

/-- Looking at a key leaves a store alone, but for the key if it is expired. -/
theorem settle (now : Float) (s : Store) (i : Nat) (key : Octets) :
    s.Untouched now (s.settle now i key) :=
  ⟨(sameFrame_setDatabase s i _).symm, fun j k => held?_settle s now i j key k⟩

/-- What shows is still there, and nothing else shows. -/
theorem alike (h : s.Untouched now t) : s.Alike now t := by
  refine ⟨h.toSameFrame, fun i key => ?_⟩
  rw [live?_eq_shown?, live?_eq_shown?]
  rcases h.held i key with hSame | ⟨hNone, e, hEntry, hExpired⟩
  · rw [hSame]
  · rw [hNone, hEntry]
    simp [Entry.shown?, hExpired]

end Untouched

end Store

end BatchStore
