import Mathlib.Data.List.Basic
import BatchStore.Proofs.Store.Alike
import BatchStore.Proofs.Store.Footprint

/-!
# Commands that may change places

Of two acts that keep to sites of their own, with none in common, neither can tell whether the
other one came first. Each finds its sites as it would have found them before the other, so both
answer the same in either order, and in the end every key holds the same (`KeepsTo.exchange`).
Stores that hold the same at every key differ in the order of their keys alone (`same_of_held`).

`keyed_commands_local` says this of the commands: every keyed command keeps to its footprint, and
two of them with nothing in common in their footprints may change places.
-/

namespace BatchStore

namespace Store

/-- Two acts answer the same whichever of them comes first, and leave the same at every key. -/
structure Exchange {α β : Type} (p : Act α) (q : Act β) (s : Store) : Prop where
  left : (p s).1 = (p (q s).2).1
  right : (q (p s).2).1 = (q s).1
  kept : (q (p s).2).2.KeptOutside [] (p (q s).2).2

/-- Stores that hold the same at every key are the same. -/
theorem same_of_held {s t : Store} (h : s.KeptOutside [] t) (hs : s.KeysApart)
    (ht : t.KeysApart) : s.Same t := by
  refine ⟨h.selected, h.libraries, forall₂_reordered h.count fun i => ?_⟩
  refine Table.reordered_of_get? (hs.database i) (ht.database i) fun key => ?_
  exact h.held (i, key) List.not_mem_nil

/-- What was changed outside of some sites does not count among them. -/
theorem KeptOutside.agreeOn {others sites : List Site} {s t : Store} (h : s.KeptOutside others t)
    (hApart : sites.Disjoint others) : s.AgreeOn sites t :=
  ⟨h.sameSelection, fun x hx => h.held x fun hOther => hApart hx hOther⟩

/-- Acts without a site in common may change places. Each is compared with itself, in the store
before the other one and in the store after. -/
theorem KeepsTo.exchange {r : Store} {sites others : List Site} {α β : Type} {p : Act α}
    {q : Act β} (hp : KeepsTo r sites p) (hq : KeepsTo r others q) {s : Store}
    (hs : r.SameSelection s) (hApart : sites.Disjoint others) : Exchange p q s := by
  have hAfterP : s.KeptOutside sites (p s).2 := hp.outside s hs
  have hAfterQ : s.KeptOutside others (q s).2 := hq.outside s hs
  have hThenQ := hq.outside (p s).2 (hs.trans hAfterP.sameSelection)
  have hThenP := hp.outside (q s).2 (hs.trans hAfterQ.sameSelection)
  obtain ⟨hLeft, hSites⟩ := hp.inside s (q s).2 hs (hAfterQ.agreeOn hApart)
  obtain ⟨hRight, hOthers⟩ := hq.inside s (p s).2 hs (hAfterP.agreeOn hApart.symm)
  refine ⟨hLeft, hRight.symm, ?_, fun x _ => ?_⟩
  · exact (hAfterP.toSameFrame.trans hThenQ.toSameFrame).symm.trans
      (hAfterQ.toSameFrame.trans hThenP.toSameFrame)
  · by_cases hSite : x ∈ sites
    · have hNot : x ∉ others := fun hOther => hApart hSite hOther
      exact (hThenQ.held x hNot).symm.trans (hSites.held x hSite)
    · have hHere := hThenP.held x hSite
      by_cases hOther : x ∈ others
      · exact (hOthers.held x hOther).symm.trans hHere
      · have hThere := (hAfterP.held x hSite).trans (hThenQ.held x hOther)
        exact hThere.symm.trans ((hAfterQ.held x hOther).trans hHere)

/-- A keyed command changes nothing outside of its footprint; what it answers and leaves there
depends on what its footprint holds and on the selection, and on nothing else. Two keyed
commands without a site in common, each with a reading of the clock of its own, may change
places. -/
theorem keyed_commands_local (now : Float) (s : Store) (c : Command) (sites : List Site)
    (hKeyed : c.footprint? s = some sites) :
    s.KeptOutside sites (run now c s).2 ∧
      (∀ t, s.AgreeOn sites t → c.footprint? t = some sites ∧
        (run now c s).1 = (run now c t).1 ∧
        (run now c s).2.AgreeOn sites (run now c t).2) ∧
      ∀ (later : Float) (d : Command) (others : List Site), d.footprint? s = some others →
        sites.Disjoint others →
          Exchange (run now c) (run later d) s ∧
            (s.KeysApart →
              (run later d (run now c s).2).2.Same (run now c (run later d s).2).2) := by
  have hSelf : s.SameSelection s := ⟨rfl, rfl⟩
  have hc := run_keepsTo now hKeyed
  refine ⟨hc.outside s hSelf, fun t hAgree => ?_, fun later d others hOthers hApart => ?_⟩
  · exact ⟨footprint?_congr hAgree.toSameSelection c ▸ hKeyed, hc.inside s t hSelf hAgree⟩
  · have hd := run_keepsTo later hOthers
    have hExchange := hc.exchange hd hSelf hApart
    refine ⟨hExchange, fun hKeys => same_of_held hExchange.kept ?_ ?_⟩
    · exact hd.apart _ (hc.outside s hSelf).sameSelection (hc.apart s hSelf hKeys)
    · exact hc.apart _ (hd.outside s hSelf).sameSelection (hd.apart s hSelf hKeys)

/-- A copy to another database, and a write at the same name in the selected one. -/
theorem keyed_commands_local_copy :
    let db : Database := .ofList [(Octets.ofText "a", { value := .string [49] })]
    let s : Store := { databases := [db, .empty] }
    let copy : Command := ⟨.copy, [.text "a", .text "b", .text "DB", .text "1"]⟩
    let set : Command := ⟨.set, [.text "b", .text "2"]⟩
    copy.footprint? s = some [(0, Octets.ofText "a"), (1, Octets.ofText "b")] ∧
      s.KeptOutside [(0, Octets.ofText "a"), (1, Octets.ofText "b")] (run 0.0 copy s).2 ∧
      Exchange (run 0.0 copy) (run 1.0 set) s := by
  intro db s copy set
  have hCopy : copy.footprint? s = some [(0, Octets.ofText "a"), (1, Octets.ofText "b")] := by
    decide +kernel
  have hSet : set.footprint? s = some [(0, Octets.ofText "b")] := by decide +kernel
  have hApart : List.Disjoint [(0, Octets.ofText "a"), (1, Octets.ofText "b")]
      [(0, Octets.ofText "b")] := List.disjoint_iff_ne.2 (by decide +kernel)
  obtain ⟨hKept, -, hExchange⟩ := keyed_commands_local 0.0 s copy _ hCopy
  exact ⟨hCopy, hKept, (hExchange 1.0 set _ hSet hApart).1⟩

end Store

end BatchStore
