import BatchStore.Proofs.Store.Invariant
import BatchStore.Proofs.Store.Split

/-!
# What holds of two tables at all times

A store of databases in two tables begins with some databases, all empty and the first of them
selected. Whatever submissions are executed then, at whatever readings of the clock, it keeps its
shape (`history_invariant`): there are as many databases as in the beginning, one of them is
selected, and in each the keys with a deadline are among those with a value.

This is not in the type, for nothing ties one table to the other: every command edits both, in an
order of its own, and some edit one alone. It is part of what `Holds` says of two tables and one,
and commands keep that (`run_refines`). What the values are like is then known from the one table.
-/

namespace BatchStore

namespace Halves

variable {db : Halves} {one : Database}

/-- The keys of the second table are among those of the first. -/
theorem Consistent.keys_subset (h : db.Consistent) : db.expires.keys ⊆ db.data.keys := by
  intro key hKey
  rw [Table.mem_keys_iff] at hKey ⊢
  by_contra hNever
  have hNone : db.data.get? key = none := by simpa using hNever
  rw [h.covered key hNone] at hKey
  cases hKey

/-- Every value of the first table is the value of an entry. -/
theorem Holds.mem_values (h : db.Holds one) {value : Value} (hMem : value ∈ db.data.values) :
    ∃ e ∈ one.values, e.value = value := by
  obtain ⟨⟨key, _⟩, hEntry, rfl⟩ := List.mem_map.1 hMem
  have hValue := (Table.mem_entries_iff h.data key _).1 hEntry
  have hOne : one.get? key = some ⟨_, db.expires.get? key⟩ :=
    (h.entry key).trans (held?_some hValue)
  exact ⟨_, Table.mem_values_of_get? hOne, rfl⟩

end Halves

namespace Split

/-- Every value is well-formed: a list, a set, a hash or a sorted set has parts, and these are
octets, the scores doubles. -/
def WellFormed (m : Split) : Prop :=
  ∀ db ∈ m.databases, ∀ value ∈ db.data.values, value.WellFormed

/-- Each database holds one of those on the other side. -/
theorem Holds.of_mem {m : Split} {s : Store} (h : m.Holds s) {db : Halves}
    (hMem : db ∈ m.databases) : ∃ one ∈ s.databases, db.Holds one := by
  obtain ⟨i, hi, rfl⟩ := List.mem_iff_getElem.1 hMem
  have hj : i < s.databases.length := h.count ▸ hi
  exact ⟨s.databases[i], List.getElem_mem hj, (List.forall₂_iff_get.1 h.forall₂).2 i hi hj⟩

/-- Well-formed values on one side are well-formed on the other. -/
theorem Holds.wellFormed {m : Split} {s : Store} (h : m.Holds s) (hs : s.WellFormed) :
    m.WellFormed := by
  intro db hMem value hValue
  obtain ⟨one, hOne, hHolds⟩ := h.of_mem hMem
  obtain ⟨e, he, rfl⟩ := hHolds.mem_values hValue
  exact hs one hOne e he

/-- What holds of a store in two tables whenever it has begun with `n` databases, whatever was
executed since.

* There are `n` databases, and one of them is selected.
* In each database both tables hold each key once, and every key that has a deadline has a value.
* If every payload that was restored had been dumped before, all values are well-formed: every
  list, set, hash and sorted set has parts, and these are octets, the scores doubles. -/
theorem history_invariant {n : Int} {new : Split} (hNew : Split.new n = .ok new)
    (timeline : Timeline) :
    let ran := Store.history run timeline new
    (ran.2.databases.length : Int) = n ∧ ran.2.selected < ran.2.databases.length ∧
      (∀ db ∈ ran.2.databases, db.data.Distinct ∧ db.expires.Distinct ∧
        db.expires.keys ⊆ db.data.keys) ∧
      (RestoresDumps [] (timeline.chronicle ran.1) → ran.2.WellFormed) := by
  intro ran
  obtain ⟨first, hFirst, hReplies, hHolds⟩ := history_refines hNew timeline
  have hShaped := Store.history_shaped timeline (Store.new_shaped hFirst)
  have hCount : 0 < n := by
    unfold Split.new at hNew
    split at hNew
    · cases hNew
    · omega
  refine ⟨?_, hHolds.within, fun db hMem => ?_, fun hDumped => ?_⟩
  · rw [hHolds.count, hShaped.count]
    omega
  · obtain ⟨one, -, hTables⟩ := hHolds.of_mem hMem
    exact ⟨hTables.data, hTables.expires, hTables.keys_subset⟩
  · have hSame : RestoresDumps [] (timeline.chronicle (Store.history Store.run timeline first).1) :=
      hReplies ▸ hDumped
    exact hHolds.wellFormed (Store.history_wellFormed timeline (Store.new_wellFormed hFirst)
      (List.forall_mem_nil _) hSame)

/-- A list with a deadline is dumped by a transaction and removed. A pipeline restores it elsewhere
with another deadline and then over the key itself without one. -/
theorem history_invariant_restore :
    let dump : Submission := ⟨[⟨.rpush, [.text "k", .text "v"]⟩, ⟨.expire, [.text "k", .text "9"]⟩,
      ⟨.dump, [.text "k"]⟩, ⟨.del, [.text "k"]⟩], true⟩
    let payload := Payload.write (Payload.contentOf (.list [.octets [118]]))
    let restore : Submission := ⟨[⟨.restore, [.text "l", .text "9", .octets payload]⟩,
      ⟨.restore, [.text "k", .text "0", .octets payload]⟩], false⟩
    let timeline : Timeline := [(0.0, dump), (1.0, restore)]
    let new : Split := { databases := [{}, {}] }
    let ran := Store.history run timeline new
    Split.new 2 = .ok new ∧ (ran.2.databases.length : Int) = 2 ∧
      RestoresDumps [] (timeline.chronicle ran.1) ∧ ran.2.WellFormed ∧
      (ran.2.database 0).data.keys = [[108], [107]] ∧
      (ran.2.database 0).expires.keys = [[108]] := by
  intro dump payload restore timeline new ran
  have hNew : Split.new 2 = .ok new := rfl
  have hDumped : RestoresDumps [] (timeline.chronicle ran.1) := by decide +kernel
  obtain ⟨hCount, -, -, hWellFormed⟩ := history_invariant hNew timeline
  exact ⟨hNew, hCount, hDumped, hWellFormed hDumped, by decide +kernel, by decide +kernel⟩

end Split

end BatchStore
