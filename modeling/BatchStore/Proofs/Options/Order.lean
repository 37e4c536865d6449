import Mathlib.Data.List.Pairwise
import Mathlib.Data.List.Perm.Basic
import BatchStore.Store.Keyspace

/-!
# Groups of option words in any order

The options of a command are groups of words: a keyword, perhaps with values behind it. A reader
takes the words from left to right, and what it does at a group is the same whatever stands
behind it (`Reads`). Where these effects do not get in each other's way, the order of the groups
does not matter (`read_perm`).
-/

namespace BatchStore

section Order

variable {α β : Type} {read : α → List Octets → Except Halt β}

/-- What a reader does at a group of words, whatever stands behind it. -/
def Reads (read : α → List Octets → Except Halt β) (group : List Octets)
    (effect : α → Except Halt α) : Prop :=
  ∀ a rest, read a (group ++ rest) = effect a >>= fun b => read b rest

/-- Two effects that come to the same in either order. -/
def Commute (f g : α → Except Halt α) : Prop := ∀ a, f a >>= g = g a >>= f

instance : Std.Symm (Commute (α := α)) := ⟨fun _ _ h a => (h a).symm⟩

theorem commute_pair {f g : α → Except Halt α} (h : Commute f g) :
    List.Pairwise Commute [f, g] := by
  refine .cons (fun k hMem => ?_) (List.pairwise_singleton _ _)
  rw [List.mem_singleton.1 hMem]
  exact h

theorem commute_triple {f g h : α → Except Halt α} (hfg : Commute f g) (hfh : Commute f h)
    (hgh : Commute g h) : List.Pairwise Commute [f, g, h] := by
  refine .cons (fun k hMem => ?_) (commute_pair hgh)
  rcases List.mem_cons.1 hMem with rfl | hMem
  · exact hfg
  · rw [List.mem_singleton.1 hMem]
    exact hfh

/-- Effects one after another. -/
def inTurn : List (α → Except Halt α) → α → Except Halt α
  | [] => .ok
  | f :: fs => fun a => f a >>= inTurn fs

/-- A row of groups is read one after another. -/
theorem read_flatten {groups : List (List Octets)} {effects : List (α → Except Halt α)}
    (h : List.Forall₂ (Reads read) groups effects) (tail : List Octets) (a : α) :
    read a (groups.flatten ++ tail) = inTurn effects a >>= fun b => read b tail := by
  induction h generalizing a with
  | nil => rfl
  | @cons group effect groups effects hGroup _ ih =>
      have hFirst : read a (group ++ (groups.flatten ++ tail)) =
          effect a >>= fun b => read b (groups.flatten ++ tail) := hGroup a _
      have hRest : (fun b => read b (groups.flatten ++ tail)) =
          fun b => inTurn effects b >>= fun c => read c tail := funext ih
      rw [List.flatten_cons, List.append_assoc, hFirst, hRest]
      exact (bind_assoc _ _ _).symm

/-- Commuting effects may be put in any order. -/
theorem inTurn_perm {fs gs : List (α → Except Halt α)} (h : fs.Perm gs)
    (hCommute : ∀ f ∈ fs, ∀ g ∈ fs, Commute f g) : inTurn fs = inTurn gs := by
  induction h with
  | nil => rfl
  | @cons f fs gs _ ih =>
      have hRest := ih fun f hf g hg =>
        hCommute f (List.mem_cons_of_mem _ hf) g (List.mem_cons_of_mem _ hg)
      show (fun a => f a >>= inTurn fs) = fun a => f a >>= inTurn gs
      rw [hRest]
  | swap f g fs =>
      funext a
      show g a >>= (fun b => f b >>= inTurn fs) = f a >>= fun b => g b >>= inTurn fs
      have hSwap := hCommute g List.mem_cons_self f
        (List.mem_cons_of_mem _ List.mem_cons_self) a
      rw [← bind_assoc, ← bind_assoc, hSwap]
  | trans hFirst _ ihFirst ihSecond =>
      rw [ihFirst hCommute]
      exact ihSecond fun f hf g hg => hCommute f (hFirst.mem_iff.2 hf) g (hFirst.mem_iff.2 hg)

/-- Groups of words are read alike in whatever order they stand. -/
theorem read_perm {groups words : List (List Octets)} {effects : List (α → Except Halt α)}
    (h : List.Forall₂ (Reads read) groups effects) (hCommute : effects.Pairwise Commute)
    (hPerm : words.Perm groups) (tail : List Octets) (a : α) :
    read a (words.flatten ++ tail) = inTurn effects a >>= fun b => read b tail := by
  obtain ⟨others, hOthers, hSame⟩ := List.perm_comp_forall₂ hPerm h
  have hAll := hCommute.forall_of_forall fun _ _ _ => rfl
  rw [read_flatten hOthers, ← inTurn_perm hSame.symm fun f hf g hg => hAll hf hg]

end Order

end BatchStore
