import BatchStore.Datum.Same
import Mathlib.Logic.Basic

/-!
# What is worth the same

Sets and mappings go by the worth of what they hold. `Apart` says that no value of a row is worth
the same as one before it, as among the elements of a set or the keys of a mapping. `Comparable`
says that values are worth the same as each other or not at all, which numbers of mixed types need
not be. Simple values always are (`comparable_simple`).

With names that are comparable, pairs that are written over others are found before them
(`valueIn?_putPairs`). What is apart from all that is there comes behind it (`putPairs_free`,
`addElements_free`).
-/

namespace BatchStore

namespace Datum

/-! ## Names -/

/-- Values of which none is worth the same as one before it. -/
def Apart (ds : List Datum) : Prop := ds.Pairwise fun a b => same b a = false

instance (ds : List Datum) : Decidable (Apart ds) := inferInstanceAs (Decidable (ds.Pairwise _))

/-- Among some values, to be worth the same goes both ways and on from one to the next. -/
structure Comparable (among : Datum → Prop) : Prop where
  symm {a b : Datum} (ha : among a) (hb : among b) (h : same a b = true) : same b a = true
  trans {a b c : Datum} (ha : among a) (hb : among b) (hc : among c) (hab : same a b = true)
    (hbc : same b c = true) : same a c = true

theorem Comparable.mono {among others : Datum → Prop} (h : Comparable others)
    (hSub : ∀ d, among d → others d) : Comparable among where
  symm ha hb := h.symm (hSub _ ha) (hSub _ hb)
  trans ha hb hc := h.trans (hSub _ ha) (hSub _ hb) (hSub _ hc)

/-- Names of the simplest kinds. -/
def isSimple : Datum → Bool
  | null | bool _ | int _ | text _ | octets _ => true
  | _ => false

/-- A truth value counts as a number. -/
def worth : Datum → Datum
  | bool b => int (if b then 1 else 0)
  | d => d

theorem same_simple {a b : Datum} (ha : a.isSimple = true) (hb : b.isSimple = true) :
    same a b = (a.worth == b.worth) := by
  cases a <;> cases b <;> first
    | exact absurd ha Bool.false_ne_true
    | exact absurd hb Bool.false_ne_true
    | simp [same, whole?, worth]

/-- Simple names are comparable. -/
theorem comparable_simple : Comparable fun d => d.isSimple = true where
  symm ha hb h := by
    rw [same_simple ha hb, beq_iff_eq] at h
    rw [same_simple hb ha, beq_iff_eq, h]
  trans ha hb hc hab hbc := by
    rw [same_simple ha hb, beq_iff_eq] at hab
    rw [same_simple hb hc, beq_iff_eq] at hbc
    rw [same_simple ha hc, beq_iff_eq, hab, hbc]

/-! ## Pairs that are written over others -/

/-- The value at a key of some pairs. -/
def valueIn? (ps : List (Datum × Datum)) (key : Datum) : Option Datum :=
  (ps.find? fun e => same key e.1).map (·.2)

theorem valueIn?_cons (k v : Datum) (ps : List (Datum × Datum)) (key : Datum) :
    valueIn? ((k, v) :: ps) key = if same key k = true then some v else valueIn? ps key := by
  unfold valueIn?
  by_cases h : same key k = true <;> simp [h]

theorem valueIn?_eq_none {ps : List (Datum × Datum)} {key : Datum}
    (h : ∀ d ∈ ps.map Prod.fst, same key d = false) : valueIn? ps key = none := by
  unfold valueIn?
  rw [Option.map_eq_none_iff, List.find?_eq_none]
  intro e he
  simp [h e.1 (List.mem_map_of_mem he)]

theorem forall_keys_putPair {among : Datum → Prop} {k v : Datum} {ps : List (Datum × Datum)}
    (hk : among k) (hps : ∀ d ∈ ps.map Prod.fst, among d) :
    ∀ d ∈ (putPair k v ps).map Prod.fst, among d := by
  induction ps with
  | nil => exact List.forall_mem_singleton.2 hk
  | cons e ps ih =>
      obtain ⟨k', v'⟩ := e
      obtain ⟨hk', hRest⟩ := List.forall_mem_cons.1 hps
      unfold putPair
      split
      · exact List.forall_mem_cons.2 ⟨hk', hRest⟩
      · exact List.forall_mem_cons.2 ⟨hk', ih hRest⟩

section Written

variable {among : Datum → Prop} (hNames : Comparable among) {k v key : Datum}
  {ps old new : List (Datum × Datum)}

include hNames

/-- What is worth the same as one of two equals is worth the same as the other. -/
theorem Comparable.same_eq {a b c : Datum} (ha : among a) (hb : among b) (hc : among c)
    (h : same b c = true) : same a b = same a c := by
  rw [Bool.eq_iff_iff]
  exact ⟨fun hab => hNames.trans ha hb hc hab h,
    fun hac => hNames.trans ha hc hb hac (hNames.symm hb hc h)⟩

/-- A pair that is written is found at its key, and nothing changes at other keys. -/
theorem valueIn?_putPair (hKey : among key) (hk : among k) (hps : ∀ d ∈ ps.map Prod.fst, among d) :
    valueIn? (putPair k v ps) key = if same key k = true then some v else valueIn? ps key := by
  induction ps with
  | nil => exact valueIn?_cons k v [] key
  | cons e ps ih =>
      obtain ⟨k', v'⟩ := e
      obtain ⟨hk', hRest⟩ := List.forall_mem_cons.1 hps
      by_cases hHere : same k k' = true
      · have hSame : same key k = same key k' := hNames.same_eq hKey hk hk' hHere
        rw [putPair, if_pos hHere, valueIn?_cons, valueIn?_cons, hSame]
        by_cases hFound : same key k' = true <;> simp [hFound]
      · rw [putPair, if_neg hHere, valueIn?_cons, valueIn?_cons, ih hRest]
        by_cases hFound : same key k = true
        · have hSame : same k key = true := hNames.symm hKey hk hFound
          have hNot : same key k' ≠ true := fun h => hHere (hNames.trans hk hKey hk' hSame h)
          rw [if_neg hNot, if_pos hFound, if_pos hFound]
        · rw [if_neg hFound, if_neg hFound]

/-- Of pairs that are written over others, those are found first that were written. -/
theorem valueIn?_putPairs (hApart : Apart (new.map Prod.fst)) (hKey : among key)
    (hOld : ∀ d ∈ old.map Prod.fst, among d) (hNew : ∀ d ∈ new.map Prod.fst, among d) :
    valueIn? (putPairs old new) key = (valueIn? new key).or (valueIn? old key) := by
  induction new generalizing old with
  | nil => rfl
  | cons e new ih =>
      obtain ⟨k, v⟩ := e
      obtain ⟨hFirst, hOthers⟩ := List.pairwise_cons.1 hApart
      obtain ⟨hk, hRest⟩ := List.forall_mem_cons.1 hNew
      show valueIn? (putPairs (putPair k v old) new) key = _
      rw [ih hOthers (forall_keys_putPair hk hOld) hRest, valueIn?_putPair hNames hKey hk hOld,
        valueIn?_cons]
      by_cases hFound : same key k = true
      · -- No other new pair has this key, or it would be worth the same as the one at hand.
        have hNone : valueIn? new key = none := by
          refine valueIn?_eq_none fun d hd => ?_
          have hBack : same d key = same d k := hNames.same_eq (hRest d hd) hKey hk hFound
          rw [hFirst d hd] at hBack
          refine Bool.eq_false_iff.2 fun hSame => ?_
          rw [hNames.symm hKey (hRest d hd) hSame] at hBack
          cases hBack
        rw [if_pos hFound, if_pos hFound, hNone]
        rfl
      · rw [if_neg hFound, if_neg hFound]

end Written

theorem putPair_free {k v : Datum} {ps : List (Datum × Datum)}
    (hFree : k.isAmong (ps.map Prod.fst) = false) : putPair k v ps = ps ++ [(k, v)] := by
  induction ps with
  | nil => rfl
  | cons e ps ih =>
      obtain ⟨k', v'⟩ := e
      obtain ⟨hHere, hRest⟩ : same k k' = false ∧ k.isAmong (ps.map Prod.fst) = false := by
        simpa [isAmong] using hFree
      rw [putPair, if_neg (by simp [hHere]), ih hRest]
      rfl

/-- Pairs with keys of their own come behind the others. -/
theorem putPairs_free {old new : List (Datum × Datum)} (hApart : Apart (new.map Prod.fst))
    (hFree : ∀ k ∈ new.map Prod.fst, k.isAmong (old.map Prod.fst) = false) :
    putPairs old new = old ++ new := by
  induction new generalizing old with
  | nil => exact (List.append_nil old).symm
  | cons e new ih =>
      obtain ⟨hFirst, hOthers⟩ := List.pairwise_cons.1 hApart
      obtain ⟨hHere, hRest⟩ := List.forall_mem_cons.1 hFree
      have hStill : ∀ k ∈ new.map Prod.fst,
          k.isAmong ((old ++ [(e.1, e.2)]).map Prod.fst) = false := by
        intro k hk
        have hOld := hRest k hk
        unfold isAmong at hOld ⊢
        simp [hOld, hFirst k hk]
      show putPairs (putPair e.1 e.2 old) new = _
      rw [putPair_free hHere, ih hOthers hStill]
      simp

/-! ## Elements of a set -/

/-- Elements that are not there yet, and apart from each other, come behind the others. -/
theorem addElements_free {old new : List Datum} (hApart : Apart new)
    (hFree : ∀ x ∈ new, x.isAmong old = false) : new.foldl addElement old = old ++ new := by
  induction new generalizing old with
  | nil => exact (List.append_nil old).symm
  | cons x new ih =>
      obtain ⟨hFirst, hOthers⟩ := List.pairwise_cons.1 hApart
      obtain ⟨hHere, hRest⟩ := List.forall_mem_cons.1 hFree
      have hStill : ∀ y ∈ new, y.isAmong (old ++ [x]) = false := by
        intro y hy
        have hOld := hRest y hy
        unfold isAmong at hOld ⊢
        simp [hOld, hFirst y hy]
      have hAdded : addElement old x = old ++ [x] := by
        rw [addElement, if_neg (by simp [hHere])]
      rw [List.foldl_cons, hAdded, ih hOthers hStill, List.append_assoc]
      rfl

/-- The set of elements that are apart holds each of them. -/
theorem ofElements_apart {xs : List Datum} (h : Apart xs) : ofElements xs = .set xs := by
  rw [ofElements, addElements_free h fun _ _ => rfl, List.nil_append]

/-- The mapping of pairs with keys that are apart holds each of them. -/
theorem ofPairs_apart {ps : List (Datum × Datum)} (h : Apart (ps.map Prod.fst)) :
    ofPairs ps = .mapping ps := by
  rw [ofPairs, putPairs_free h fun _ _ => rfl, List.nil_append]

end Datum

end BatchStore
