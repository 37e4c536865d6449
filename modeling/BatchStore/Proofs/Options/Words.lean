import BatchStore.Proofs.Batch.Requests
import BatchStore.Proofs.Number.Written
import BatchStore.Proofs.Options.Order
import BatchStore.Proofs.Options.Said
import BatchStore.Proofs.Store.Breaks
import BatchStore.Proofs.Store.Request

/-!
# Words of options

What the groups of option words are made of: keywords, numbers that are read back, values that
go as they are. The words of an expiry are a keyword and, if it sets a deadline, its number
(`Expiry.toArgs_eq_ok`).
-/

namespace BatchStore

/-! ## Numbers and words -/

theorem readInt_wholeText {n : Int} {s : String} (h : wholeText n = .ok s) :
    readInt (Octets.ofText s) = .ok n :=
  readInt_of_int? (Number.int?_wholeText h)

/-- A whole number is written as digits that are read back. -/
theorem readInt_numberText {v : Datum} {s : String} (hWhole : v.IsWhole)
    (h : numberText v = .ok s) (other : Int) :
    readInt (Octets.ofText s) = .ok (v.wholeOr other) := by
  obtain ⟨n, rfl⟩ := hWhole
  exact readInt_wholeText h

theorem word_of_check {v : Datum} {a : Arg} (h : Arg.check v = .ok a) : v.word = a.toOctets := by
  unfold Arg.check at h
  unfold Datum.word
  cases hArg : Arg.ofDatum? v with
  | none =>
      rw [hArg] at h
      cases h
  | some b =>
      rw [hArg] at h
      cases h
      rfl

/-- A number behind its keyword. -/
theorem numberOption_eq_ok {k : Keyword} {v : Datum} {words : ArgList}
    (hTyped : v.IsWholeOrNull) (h : numberOption k v = .ok words) :
    v = .null ∧ words = [] ∨
      ∃ n s, v = .int n ∧ words = [k.arg, .text s] ∧ readInt (Octets.ofText s) = .ok n := by
  rcases hTyped with rfl | ⟨n, rfl⟩
  · cases h
    exact .inl ⟨rfl, rfl⟩
  · obtain ⟨s, hText, hRest⟩ := ok_of_bind h
    cases hRest
    exact .inr ⟨n, s, rfl, rfl, readInt_wholeText hText⟩

/-! ## Expiries -/

namespace Expiry

variable {e : Expiry}

theorem time_typed (h : e.IsTyped) {time : Datum} (hTime : e.time = .ok time) :
    time = .int e.amount := by
  have hWhole : time.IsWhole := by
    obtain ⟨n, hDuration⟩ := h
    unfold Expiry.time at hTime
    rw [hDuration] at hTime
    cases hType : e.type with
    | unixSeconds | unixMilliseconds =>
        rw [hType] at hTime
        cases hMoment : e.moment with
        | error f =>
            rw [hMoment] at hTime
            cases hTime
        | ok m =>
            rw [hMoment] at hTime
            cases hTime
            exact ⟨_, rfl⟩
    | seconds | milliseconds | keepExisting | persist =>
        rw [hType] at hTime
        cases hTime
        exact ⟨n, rfl⟩
  obtain ⟨n, rfl⟩ := hWhole
  unfold amount
  rw [hTime]
  rfl

/-- The words of an expiry: a keyword, and a number if the keyword sets a deadline. -/
theorem toArgs_eq_ok (hTyped : e.IsTyped) {allowed : List ExpiryType} {words : ArgList}
    (h : e.toArgs allowed = .ok words) :
    e.type ∈ allowed ∧
      (e.type.keyword.setsDeadline = false ∧ words = [e.type.keyword.arg] ∨
        e.type.keyword.setsDeadline = true ∧ ∃ s, words = [e.type.keyword.arg, .text s] ∧
          readInt (Octets.ofText s) = .ok e.amount) := by
  unfold toArgs at h
  by_cases hAllowed : allowed.contains e.type = true
  · rw [hAllowed] at h
    refine ⟨List.contains_iff_mem.1 hAllowed, ?_⟩
    cases hType : e.type with
    | keepExisting | persist =>
        rw [hType] at h
        cases h
        exact .inl ⟨rfl, rfl⟩
    | seconds | milliseconds | unixSeconds | unixMilliseconds =>
        rw [hType] at h
        obtain ⟨time, hTime, hAfter⟩ := ok_of_bind h
        obtain ⟨negative, -, hAfter⟩ := ok_of_bind hAfter
        cases negative with
        | true => cases hAfter
        | false =>
            obtain ⟨s, hText, hRest⟩ := ok_of_bind hAfter
            cases hRest
            rw [time_typed hTyped hTime] at hText
            exact .inr ⟨rfl, s, rfl, readInt_wholeText hText⟩
  · rw [Bool.not_eq_true] at hAllowed
    rw [hAllowed] at h
    cases h

end Expiry

/-- The octets of a group of words. -/
def octetsOf (words : ArgList) : List Octets := words.map Arg.toOctets

theorem octetsOf_flatten (words : List ArgList) :
    octetsOf words.flatten = (words.map octetsOf).flatten := List.map_flatten

/-- Groups of words that are all there is are read alike in whatever order they stand. -/
theorem read_groups {α : Type} {read : α → List Octets → Except Halt α}
    (hEnd : ∀ a, read a [] = .ok a) {groups words : List ArgList} (hPerm : words.Perm groups)
    {effects : List (α → Except Halt α)}
    (h : List.Forall₂ (Reads read) (groups.map octetsOf) effects)
    (hCommute : effects.Pairwise Commute) (a : α) :
    read a (octetsOf words.flatten) = inTurn effects a := by
  have hRead := read_perm h hCommute (hPerm.map octetsOf) [] a
  rw [List.append_nil, ← octetsOf_flatten] at hRead
  rw [hRead, funext hEnd]
  exact bind_pure _

/-- Effects that never fail commute if what they come to does. -/
theorem commute_ok {α : Type} {f g : α → α} (h : ∀ a, g (f a) = f (g a)) :
    Commute (fun a => .ok (f a)) fun a => .ok (g a) := fun a => congrArg Except.ok (h a)

/-- An effect that never fails commutes with one that depends on a result. -/
theorem commute_map {α β : Type} {f : α → α} {x : Except Halt β} {g : β → α → α}
    (h : ∀ b a, g b (f a) = f (g b a)) :
    Commute (fun a => .ok (f a)) fun a => x.map fun b => g b a := by
  intro a
  cases x with
  | error e => rfl
  | ok b => exact congrArg Except.ok (h b a)

end BatchStore
