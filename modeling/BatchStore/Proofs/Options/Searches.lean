import BatchStore.Proofs.Options.Order
import BatchStore.Proofs.Options.Said
import BatchStore.Proofs.Options.Words
import BatchStore.Proofs.Store.Breaks

/-!
# LPOS and SCAN read what their options say

The options of a search are numbers and words behind keywords, in any order. A rank of zero is
refused, wherever it stands; the count of a scan has been looked at when it was written.
-/

namespace BatchStore

/-! ## LPOS -/

namespace Lists.Search

variable (p : Search) (v : Octets) (rest : List Octets)

theorem read_rank : read p (Keyword.rank.octets :: v :: rest) = (do
    let rank ← readInt v
    if rank = 0 then refuse .zeroRank else read { p with rank } rest) := by
  conv => lhs; unfold read
  rw [Keyword.ofOctets?_octets]

theorem read_maxlen : read p (Keyword.maxlen.octets :: v :: rest) = (do
    let maxLen ← readInt v
    read { p with maxLen } rest) := by
  conv => lhs; unfold read
  rw [Keyword.ofOctets?_octets]

end Lists.Search

namespace LPosOptions

open BatchStore.Lists

variable {o : LPosOptions}

/-- What the rank does to a search. -/
def putRank (o : LPosOptions) (p : Search) : Except Halt Search :=
  (if o.rank = .int 0 then refuse .zeroRank else .ok ()).map fun _ =>
    { p with rank := o.rank.wholeOr p.rank }

/-- What the number of elements does to a search. -/
def putMaxLen (o : LPosOptions) (p : Search) : Search :=
  { p with maxLen := o.maxLen.wholeOr p.maxLen }

/-- The rank goes into the search, a rank of zero being refused. -/
theorem reads_rank (hTyped : o.IsTyped) {words : ArgList}
    (h : numberOption .rank o.rank = .ok words) :
    Reads Search.read (octetsOf words) o.putRank := by
  intro p rest
  unfold putRank
  rcases numberOption_eq_ok hTyped.rank h with ⟨hNull, rfl⟩ | ⟨n, s, hNumber, rfl, hRead⟩
  · rw [hNull]
    rfl
  · show Search.read p (Keyword.rank.octets :: Octets.ofText s :: rest) = _
    rw [Search.read_rank, hRead, hNumber]
    by_cases hZero : n = 0
    · subst hZero
      rfl
    · have hSome : Datum.int n ≠ .int 0 := fun hEq => hZero (Datum.int.inj hEq)
      rw [if_neg hSome]
      exact if_neg hZero

/-- The bound on comparisons goes into the search. -/
theorem reads_maxLen (hTyped : o.IsTyped) {words : ArgList}
    (h : numberOption .maxlen o.maxLen = .ok words) :
    Reads Search.read (octetsOf words) fun p => .ok (o.putMaxLen p) := by
  intro p rest
  unfold putMaxLen
  rcases numberOption_eq_ok hTyped.maxLen h with ⟨hNull, rfl⟩ | ⟨n, s, hNumber, rfl, hRead⟩
  · rw [hNull]
    rfl
  · show Search.read p (Keyword.maxlen.octets :: Octets.ofText s :: rest) = _
    rw [Search.read_maxlen, hRead, hNumber]
    rfl

/-- The words of the options are those of their groups, one after another. -/
theorem toArgs_eq (o : LPosOptions) : o.toArgs = o.groups.map List.flatten := by
  unfold toArgs groups
  cases numberOption .rank o.rank with
  | error e => rfl
  | ok rank =>
      cases numberOption .maxlen o.maxLen with
      | error e => rfl
      | ok maxLen =>
          have hFlat : rank ++ maxLen = [rank, maxLen].flatten := by simp
          exact congrArg Except.ok hFlat

/-- LPOS reads its options to what they say, in any order. -/
theorem read_eq (hTyped : o.IsTyped) {groups words : List ArgList} (h : o.groups = .ok groups)
    (hPerm : words.Perm groups) : Search.read {} (octetsOf words.flatten) = o.plan := by
  obtain ⟨rank, hRank, hAfter⟩ := ok_of_bind h
  obtain ⟨maxLen, hMaxLen, hRest⟩ := ok_of_bind hAfter
  cases hRest
  have hReads := List.Forall₂.cons (reads_rank hTyped hRank)
    (.cons (reads_maxLen hTyped hMaxLen) .nil)
  have hCommute : Commute o.putRank fun p => .ok (o.putMaxLen p) := by
    intro p
    show o.putRank p >>= (fun p => .ok (o.putMaxLen p)) = o.putRank (o.putMaxLen p)
    unfold putRank
    by_cases hZero : o.rank = .int 0
    · rw [if_pos hZero]
      rfl
    · rw [if_neg hZero]
      rfl
  rw [read_groups (fun _ => rfl) hPerm hReads (commute_pair hCommute)]
  unfold plan
  show putRank o {} >>= _ = _
  unfold putRank
  by_cases hZero : o.rank = .int 0
  · rw [if_pos hZero, if_pos hZero]
    rfl
  · rw [if_neg hZero, if_neg hZero]
    rfl

end LPosOptions

/-! ## SCAN -/

namespace Scan.Plan

variable (p : Plan) (v : Octets) (rest : List Octets)

theorem read_pattern : read p (Keyword.pattern.octets :: v :: rest) =
    read { p with pattern? := some v } rest := by
  conv => lhs; unfold read
  rw [Keyword.ofOctets?_octets]

theorem read_count : read p (Keyword.count.octets :: v :: rest) = (do
    let count ← readInt v
    if count ≤ 0 then refuse .syntaxError else read { p with count } rest) := by
  conv => lhs; unfold read
  rw [Keyword.ofOctets?_octets]

theorem read_type : read p (Keyword.type.octets :: v :: rest) = (do
    let kind ← readText v
    read { p with kind? := some kind.toLower } rest) := by
  conv => lhs; unfold read
  rw [Keyword.ofOctets?_octets]

end Scan.Plan

namespace ScanOptions

open Scan

variable {o : ScanOptions}

/-- What the pattern does to a scan. -/
def putPattern (o : ScanOptions) (p : Plan) : Plan :=
  { p with pattern? := if o.pattern = .null then p.pattern? else some o.pattern.word }

/-- What the kind of value does to a scan. -/
def putKind (o : ScanOptions) (p : Plan) : Plan :=
  { p with kind? := (o.type?.map ObjectType.word).or p.kind? }

/-- The pattern goes into the plan as it is. -/
theorem reads_pattern {words : ArgList} (h : o.patternArgs = .ok words) :
    Reads Plan.read (octetsOf words) fun p => .ok (o.putPattern p) := by
  intro p rest
  by_cases hNull : o.pattern = .null
  · have hWords : words = [] := by
      unfold patternArgs at h
      rw [hNull] at h
      cases h
      rfl
    subst hWords
    show Plan.read p rest = Plan.read (o.putPattern p) rest
    unfold putPattern
    rw [if_pos hNull]
  · have hArgs : (do return [Keyword.pattern.arg, ← Arg.check o.pattern] :
        Except Failure ArgList) = .ok words := by
      rw [← h]
      unfold patternArgs
      cases hPattern : o.pattern <;> first | rfl | exact absurd hPattern hNull
    obtain ⟨a, hCheck, hRest⟩ := ok_of_bind hArgs
    cases hRest
    have hWord := word_of_check hCheck
    show Plan.read p (Keyword.pattern.octets :: a.toOctets :: rest) =
      Plan.read (o.putPattern p) rest
    unfold putPattern
    rw [if_neg hNull, Plan.read_pattern, hWord]

theorem admits_atMost (n : Int) :
    Comparison.atMost.admits (some (compare n 0)) = decide (n ≤ 0) := by
  rcases Int.lt_trichotomy n 0 with hLess | hEqual | hMore
  · rw [Int.compare_eq_lt.2 hLess, decide_eq_true (by omega)]
    rfl
  · rw [Int.compare_eq_eq.2 hEqual, decide_eq_true (by omega)]
    rfl
  · rw [Int.compare_eq_gt.2 hMore, decide_eq_false (by omega)]
    rfl

/-- A count that is written is positive. -/
theorem countArgs_eq_ok (hTyped : o.IsTyped) {words : ArgList} (h : o.countArgs = .ok words) :
    o.count = .null ∧ words = [] ∨
      ∃ n s, o.count = .int n ∧ words = [Keyword.count.arg, .text s] ∧ 0 < n ∧
        readInt (Octets.ofText s) = .ok n := by
  rcases hTyped with hNull | ⟨n, hCount⟩
  · unfold countArgs at h
    rw [hNull] at h
    cases h
    exact .inl ⟨hNull, rfl⟩
  · unfold countArgs at h
    rw [hCount] at h
    obtain ⟨none, hNone, hAfter⟩ := ok_of_bind h
    have hTest : none = decide (n ≤ 0) := by
      cases hNone
      exact admits_atMost n
    subst hTest
    by_cases hSmall : n ≤ 0
    · rw [decide_eq_true hSmall] at hAfter
      cases hAfter
    · rw [decide_eq_false hSmall] at hAfter
      obtain ⟨s, hText, hRest⟩ := ok_of_bind hAfter
      cases hRest
      exact .inr ⟨n, s, hCount, rfl, by omega, readInt_wholeText hText⟩

/-- The count goes into the plan, one below one being refused before the words are made. -/
theorem reads_count (hTyped : o.IsTyped) {words : ArgList} (h : o.countArgs = .ok words) :
    Reads Plan.read (octetsOf words) fun p => .ok { p with count := o.count.wholeOr p.count } := by
  intro p rest
  rcases countArgs_eq_ok hTyped h with ⟨hNull, rfl⟩ | ⟨n, s, hNumber, rfl, hPositive, hRead⟩
  · rw [hNull]
    rfl
  · show Plan.read p (Keyword.count.octets :: Octets.ofText s :: rest) = _
    rw [Plan.read_count, hRead, hNumber]
    exact if_neg (by omega)

/-- The names of types are in small letters, as the loop would have them. -/
theorem toLower_word (t : ObjectType) : t.word.toLower = t.word := by
  cases t <;> decide +kernel

/-- The type goes into the plan by its name. -/
theorem reads_type (o : ScanOptions) :
    Reads Plan.read (octetsOf o.typeArgs) fun p => .ok (o.putKind p) := by
  intro p rest
  unfold typeArgs putKind
  cases o.type? with
  | none => rfl
  | some t =>
      show Plan.read p (Keyword.type.octets :: Octets.ofText t.word :: rest) = _
      rw [Plan.read_type, readText_ofText]
      show Plan.read { p with kind? := some t.word.toLower } rest = _
      rw [toLower_word]
      rfl

theorem toArgs_eq (o : ScanOptions) : o.toArgs = o.groups.map List.flatten := by
  unfold toArgs groups
  cases o.patternArgs with
  | error e => rfl
  | ok pattern =>
      cases o.countArgs with
      | error e => rfl
      | ok count =>
          have hFlat : pattern ++ count ++ o.typeArgs = [pattern, count, o.typeArgs].flatten := by
            simp
          exact congrArg Except.ok hFlat

/-- SCAN reads its options to what they say, in any order. -/
theorem read_eq (hTyped : o.IsTyped) {groups words : List ArgList} (h : o.groups = .ok groups)
    (hPerm : words.Perm groups) (cursor : Int) :
    Plan.read { cursor } (octetsOf words.flatten) = .ok (o.plan cursor) := by
  obtain ⟨pattern, hPattern, hAfter⟩ := ok_of_bind h
  obtain ⟨count, hCount, hRest⟩ := ok_of_bind hAfter
  cases hRest
  have hReads := List.Forall₂.cons (reads_pattern hPattern)
    (.cons (reads_count hTyped hCount) (.cons (reads_type o) .nil))
  rw [read_groups (fun _ => rfl) hPerm hReads (commute_triple (commute_ok fun _ => rfl)
    (commute_ok fun _ => rfl) (commute_ok fun _ => rfl))]
  show Except.ok _ = Except.ok _
  simp [putPattern, putKind, plan]

end ScanOptions

end BatchStore
