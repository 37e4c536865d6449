import BatchStore.Proofs.Store.Elements
import BatchStore.Proofs.Store.Maps

/-!
# The collections of the store

The four kinds of collection are what `Collection.Refined` asks for, one command at a time, so rows
of their commands are tracked by the objects (`Collection.Tracked`): lists by double-ended queues,
sets by finite sets, hashes by finite maps to octet strings and sorted sets by finite maps to
doubles. A row cut short is a row as well, so what holds behind a row holds behind each of its
commands.

Nothing is asked of the elements. A command may name an element more than once, elements may be
empty octet strings and scores may be zero or NaN, and the clock may go back.
-/

namespace BatchStore

open Collection

/-- Rows of the commands of one kind, on a key that is free at first, answer as the operations of
the object do. Behind them the key holds the object, or is free if the object is empty, and the
object has as many elements as were added by the replies, less those that were removed. -/
theorem collections_tracked :
    Lists.deque.Tracked ∧ Sets.finiteSet.Tracked ∧ Hashes.finiteMap.Tracked ∧
      SortedSets.finiteMap.Tracked :=
  ⟨Lists.deque_refined.tracked, Sets.finiteSet_refined.tracked, Hashes.finiteMap_refined.tracked,
    SortedSets.finiteMap_refined.tracked⟩

/-- A member named twice, an empty member that goes again and a member that never was: one member
is left. -/
theorem collections_tracked_set :
    let s : Store := { databases := [⟨[]⟩] }
    let rows : List (Request Sets.Op) := [
      ⟨1.0, ⟨.sadd, [.text "k", .text "a", .text "", .text "a"]⟩, .add [[97], [], [97]]⟩,
      ⟨0.5, ⟨.srem, [.text "k", .text "", .text "b"]⟩, .remove [[], [98]]⟩,
      ⟨2.0, ⟨.scard, [.text "k"]⟩, .card⟩]
    ∃ ds, (runRow rows s).1 = ds.map .ok ∧
      Sets.finiteSet.Replied ∅ [.add [[97], [], [97]], .remove [[], [98]], .card] ds ∧
      Sets.finiteSet.total [.add [[97], [], [97]], .remove [[], [98]], .card] ds = 1 := by
  intro s rows
  have hAsks : ∀ r ∈ rows, Sets.finiteSet.AsksOf [107] r := by
    intro r hr
    rcases List.mem_cons.1 hr with rfl | hr
    · exact ⟨.sadd, [[97], [], [97]], by decide +kernel, rfl, rfl, List.cons_ne_nil _ _⟩
    rcases List.mem_cons.1 hr with rfl | hr
    · exact ⟨.srem, [[], [98]], by decide +kernel, rfl, rfl, List.cons_ne_nil _ _⟩
    rcases List.mem_cons.1 hr with rfl | hr
    · exact ⟨.scard, [], by decide +kernel, rfl, rfl⟩
    · cases hr
  obtain ⟨ds, hReplies, hReplied, hCard, -⟩ :=
    collections_tracked.2.1 s [107] rows Nat.zero_lt_one hAsks fun _ _ => rfl
  exact ⟨ds, hReplies, hReplied, hCard.symm.trans (by decide +kernel)⟩

end BatchStore
