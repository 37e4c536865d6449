import BatchStore.Proofs.Options.Order
import BatchStore.Proofs.Options.Said
import BatchStore.Proofs.Options.Words
import BatchStore.Proofs.Store.Breaks

/-!
# SET and GETEX read what their options say

The words of a record of options are read by the store to the plan of the record. SET takes its
options in any order: the condition, the flag for the old value and the expiry each set other
parts of the plan.
-/

namespace BatchStore

/-! ## SET -/

namespace Strings.SetPlan

variable {now : Float} (p : SetPlan) (rest : List Octets)

theorem read_nx : read now p (Keyword.nx.octets :: rest) =
    read now { p with guard := .ifMissing } rest := by
  conv => lhs; unfold read
  rw [Keyword.ofOctets?_octets]

theorem read_xx : read now p (Keyword.xx.octets :: rest) =
    read now { p with guard := .ifExists } rest := by
  conv => lhs; unfold read
  rw [Keyword.ofOctets?_octets]

theorem read_ifeq (v : Octets) : read now p (Keyword.ifeq.octets :: v :: rest) =
    read now { p with guard := .ifEquals v } rest := by
  conv => lhs; unfold read
  rw [Keyword.ofOctets?_octets]

theorem read_get : read now p (Keyword.get.octets :: rest) =
    read now { p with returnOld := true } rest := by
  conv => lhs; unfold read
  rw [Keyword.ofOctets?_octets]

theorem read_keepttl : read now p (Keyword.keepttl.octets :: rest) =
    read now { p with keepDeadline := true } rest := by
  conv => lhs; unfold read
  rw [Keyword.ofOctets?_octets]

/-- A deadline is read from the keyword and the number behind it, the last one counting. -/
theorem read_deadline {k : Keyword} (h : k.setsDeadline = true) (v : Octets) :
    read now p (k.octets :: v :: rest) = (do
      let amount ← readInt v
      let deadline ← deadlineOf now k amount
      read now { p with deadline? := some deadline } rest) := by
  conv => lhs; unfold read
  rw [Keyword.ofOctets?_octets]
  cases k <;> first | rfl | cases h

end Strings.SetPlan

namespace SetOptions

open Strings

variable (now : Float) {o : SetOptions}

/-- What the condition does to a plan. -/
def putGuard (o : SetOptions) (p : SetPlan) : SetPlan :=
  { p with guard := if o.condition?.isSome then o.guard else p.guard }

/-- What the flag for the old value does to a plan. -/
def putOld (o : SetOptions) (p : SetPlan) : SetPlan :=
  { p with returnOld := o.returnOld || p.returnOld }

/-- What the expiry does to a plan, the deadline being worked out. -/
def putExpiry (o : SetOptions) (deadline? : Option Float) (p : SetPlan) : SetPlan :=
  { p with
    keepDeadline := (o.expiry?.any fun e => e.type == .keepExisting) || p.keepDeadline
    deadline? := deadline?.or p.deadline? }

/-- The condition goes into the plan, with its value if it compares with one. -/
theorem reads_condition {words : ArgList} (h : o.conditionArgs = .ok words) :
    Reads (SetPlan.read now) (octetsOf words) fun p => .ok (o.putGuard p) := by
  obtain ⟨condition?, comparison, returnOld, expiry?⟩ := o
  intro p rest
  match condition? with
  | none =>
      cases h
      rfl
  | some .onlyIfMissing =>
      cases h
      exact SetPlan.read_nx p rest
  | some .onlyIfExists =>
      cases h
      exact SetPlan.read_xx p rest
  | some .onlyIfEquals =>
      have hNull : comparison ≠ .null := by
        rintro rfl
        cases h
      have hArgs : (do return [Keyword.ifeq.arg, ← Arg.check comparison] :
          Except Failure ArgList) = .ok words := by
        rw [← h]
        cases comparison <;> first | rfl | exact absurd rfl hNull
      obtain ⟨a, hCheck, hRest⟩ := ok_of_bind hArgs
      cases hRest
      have hWord := word_of_check hCheck
      show SetPlan.read now p (Keyword.ifeq.octets :: a.toOctets :: rest) =
        SetPlan.read now { p with guard := .ifEquals comparison.word } rest
      rw [SetPlan.read_ifeq, hWord]

/-- The wish for the old value goes into the plan. -/
theorem reads_old (o : SetOptions) : Reads (SetPlan.read now)
    (octetsOf (if o.returnOld then [Keyword.get.arg] else [])) fun p => .ok (o.putOld p) := by
  intro p rest
  obtain ⟨condition?, comparison, returnOld, expiry?⟩ := o
  cases returnOld
  · rfl
  · exact SetPlan.read_get p rest

/-- The expiry goes into the plan as a deadline, or is refused as one. -/
theorem reads_expiry (hTyped : o.IsTyped) {words : ArgList} (h : o.expiryArgs = .ok words) :
    Reads (SetPlan.read now) (octetsOf words) fun p =>
      (o.expiry?.elim (.ok none) (Expiry.deadline? now)).map fun t? => o.putExpiry t? p := by
  intro p rest
  obtain ⟨condition?, comparison, returnOld, expiry?⟩ := o
  cases expiry? with
  | none =>
      cases h
      rfl
  | some e =>
      obtain ⟨hAllowed, hWords⟩ := Expiry.toArgs_eq_ok (hTyped e rfl) h
      rcases hWords with ⟨hPlain, rfl⟩ | ⟨hSets, s, rfl, hNumber⟩
      · have hKeep : e.type = .keepExisting := by
          cases hType : e.type <;> rw [hType] at hPlain hAllowed <;>
            first | rfl | exact absurd hAllowed (by decide) | cases hPlain
        have hNone : e.deadline? now = .ok none := by
          unfold Expiry.deadline?
          rw [hPlain]
          rfl
        have hPut : putExpiry ⟨condition?, comparison, returnOld, some e⟩ none p =
            { p with keepDeadline := true } := by
          simp [putExpiry, hKeep]
        show SetPlan.read now p (e.type.keyword.octets :: rest) =
          (e.deadline? now).map _ >>= fun b => SetPlan.read now b rest
        rw [hNone, hKeep]
        show _ =
          SetPlan.read now (putExpiry ⟨condition?, comparison, returnOld, some e⟩ none p) rest
        rw [hPut]
        exact SetPlan.read_keepttl p rest
      · have hSpan : e.type ≠ .keepExisting := by
          intro hKeep
          rw [hKeep] at hSets
          cases hSets
        have hSome : e.deadline? now = (deadlineOf now e.type.keyword e.amount).map some := by
          unfold Expiry.deadline?
          exact if_pos hSets
        show SetPlan.read now p (e.type.keyword.octets :: Octets.ofText s :: rest) =
          (e.deadline? now).map _ >>= fun b => SetPlan.read now b rest
        rw [SetPlan.read_deadline p rest hSets, hNumber, hSome]
        show (deadlineOf now e.type.keyword e.amount >>= fun t =>
          SetPlan.read now { p with deadline? := some t } rest) = _
        cases deadlineOf now e.type.keyword e.amount with
        | error halt => rfl
        | ok t =>
            have hPut : putExpiry ⟨condition?, comparison, returnOld, some e⟩ (some t) p =
                { p with deadline? := some t } := by
              simp [putExpiry, hSpan]
            show SetPlan.read now { p with deadline? := some t } rest = SetPlan.read now
              (putExpiry ⟨condition?, comparison, returnOld, some e⟩ (some t) p) rest
            rw [hPut]

/-- The words of a record are its groups, one after another. -/
theorem toArgs_eq (o : SetOptions) : o.toArgs = o.groups.map List.flatten := by
  unfold toArgs groups
  cases o.conditionArgs with
  | error e => rfl
  | ok condition =>
      unfold expiryArgs
      have hFlat (expiry : ArgList) :
          condition ++ (if o.returnOld then [Keyword.get.arg] else []) ++ expiry =
            [condition, if o.returnOld then [Keyword.get.arg] else [], expiry].flatten := by
        simp
      cases o.expiry? with
      | none => exact congrArg Except.ok (hFlat [])
      | some e =>
          dsimp only
          cases e.toArgs (ExpiryType.timed ++ [.keepExisting]) with
          | error f => rfl
          | ok expiry => exact congrArg Except.ok (hFlat expiry)

/-- SET reads its options to what they say, in any order. -/
theorem read_eq (hTyped : o.IsTyped) {groups words : List ArgList} (h : o.groups = .ok groups)
    (hPerm : words.Perm groups) :
    SetPlan.read now {} (octetsOf words.flatten) = o.plan now := by
  obtain ⟨condition, hCondition, hAfter⟩ := ok_of_bind h
  obtain ⟨expiry, hExpiry, hRest⟩ := ok_of_bind hAfter
  cases hRest
  have hReads := List.Forall₂.cons (reads_condition now hCondition)
    (.cons (reads_old now o) (.cons (reads_expiry now hTyped hExpiry) .nil))
  rw [read_groups (fun _ => rfl) hPerm hReads (commute_triple (commute_ok fun _ => rfl)
    (commute_map fun _ _ => rfl) (commute_map fun _ _ => rfl))]
  have hGuard : (if o.condition?.isSome then o.guard else Guard.always) = o.guard := by
    unfold guard
    cases o.condition? <;> rfl
  unfold plan
  show (o.expiry?.elim (.ok none) (Expiry.deadline? now)).map _ >>= _ = _
  cases o.expiry?.elim (.ok none) (Expiry.deadline? now) with
  | error e => rfl
  | ok t? =>
      show Except.ok _ = Except.ok _
      simp [putExpiry, putOld, putGuard, hGuard]

end SetOptions

/-! ## GETEX -/

namespace GetExOptions

/-- Words that an expiry comes to set a deadline or take one away. -/
theorem toArgs_timed {e : Expiry} (hTyped : e.IsTyped) {words : ArgList}
    (h : e.toArgs (ExpiryType.timed ++ [.persist]) = .ok words) :
    e.type = .persist ∧ words = [Keyword.persist.arg] ∨
      e.type.keyword.setsDeadline = true ∧ ∃ s, words = [e.type.keyword.arg, .text s] ∧
        readInt (Octets.ofText s) = .ok e.amount := by
  obtain ⟨hAllowed, ⟨hPlain, rfl⟩ | hTimed⟩ := Expiry.toArgs_eq_ok hTyped h
  · left
    cases hType : e.type <;> rw [hType] at hPlain hAllowed <;>
      first | exact ⟨rfl, rfl⟩ | exact absurd hAllowed (by decide) | cases hPlain
  · exact .inr hTimed

theorem getex_persist (now : Float) (seen : Option Entry) :
    Strings.getex now [Keyword.persist.octets] seen = (do
      let value ← expect Value.string? seen
      return (Strings.shown value, seen.map fun e => { e with deadline? := none })) := by
  unfold Strings.getex
  congr 1

theorem getex_deadline (now : Float) {k : Keyword} (h : k.setsDeadline = true) (v : Octets)
    (seen : Option Entry) :
    Strings.getex now [k.octets, v] seen = (do
      let value ← expect Value.string? seen
      let amount ← readInt v
      let deadline ← deadlineOf now k amount
      return (Strings.shown value, seen.map fun e => { e with deadline? := some deadline })) := by
  unfold Strings.getex
  congr 1
  funext value
  dsimp only
  rw [Keyword.ofOctets?_octets]
  exact if_pos h

/-- GETEX does what its options say. -/
theorem step_eq (now : Float) {o : GetExOptions} (hTyped : o.IsTyped) {words : ArgList}
    (h : o.toArgs = .ok words) : Strings.getex now (octetsOf words) = o.step now := by
  obtain ⟨expiry?⟩ := o
  funext seen
  cases expiry? with
  | none =>
      cases h
      rfl
  | some e =>
      unfold step
      rcases toArgs_timed (hTyped e rfl) h with ⟨hPersist, rfl⟩ | ⟨hSets, s, rfl, hNumber⟩
      · have hNone : e.deadline? now = .ok none := by
          unfold Expiry.deadline?
          rw [hPersist]
          rfl
        show Strings.getex now [Keyword.persist.octets] seen = _
        rw [getex_persist]
        dsimp only
        rw [hNone]
        rfl
      · have hSome : e.deadline? now = (deadlineOf now e.type.keyword e.amount).map some := by
          unfold Expiry.deadline?
          exact if_pos hSets
        show Strings.getex now [e.type.keyword.octets, Octets.ofText s] seen = _
        rw [getex_deadline now hSets, hNumber]
        dsimp only
        rw [hSome]
        cases expect Value.string? seen with
        | error halt => rfl
        | ok value =>
            show (deadlineOf now e.type.keyword e.amount >>= fun t => _) = _
            cases deadlineOf now e.type.keyword e.amount <;> rfl

end GetExOptions

end BatchStore
