import BatchStore.Proofs.Options.Order
import BatchStore.Proofs.Options.Said
import BatchStore.Proofs.Options.Words
import BatchStore.Proofs.Store.Breaks

/-!
# ZRANGE and GEOADD read what their options say

A range is written as its two ends and behind them what it goes by, its direction and its window,
in any order. An end at a score is read back to a double that is worth the same, an end at a
member to the member itself; the mark in front tells whether the end is left out.

The flags of GEOADD stand in front of the places, so the reader has to find out where they stop.
It does: a place begins with a number, and no keyword begins like one.
-/

namespace BatchStore

open SortedSets

/-! ## Ends of ranges -/

/-- No number begins with a parenthesis. -/
theorem ScoreEnd.read_inclusive {b : UInt8} {rest : Octets} (h : Number.beginsNumber b = true) :
    ScoreEnd.read (b :: rest) = (do return ⟨← readReal (b :: rest), false⟩) := by
  have hMark : b ≠ 40 := by
    rintro rfl
    exact absurd h (by decide)
  unfold ScoreEnd.read
  split
  · rename_i hEq
    exact absurd (List.cons.inj hEq).1 hMark
  · rfl

namespace Bound

/-- An end at a score is read back as a double that is worth the same. -/
theorem read_ofScore {exclusive : Bool} {x : Float} {b : Bound} (hNumber : x.isNaN = false)
    (h : ofScore exclusive (.real x) = .ok b) :
    ∃ y, ScoreEnd.read b.word.toOctets = .ok ⟨y, exclusive⟩ ∧ (y == x) = true := by
  obtain ⟨y, hRead, hSame⟩ := Number.real?_realText hNumber
  have hReal := readReal_of_real? hRead
  refine ⟨y, ?_, hSame⟩
  cases h
  show ScoreEnd.read (Octets.ofText ((if exclusive then "(" else "") ++ realText x)) = _
  rw [Octets.ofText_append]
  cases exclusive with
  | true =>
      show (readReal (Octets.ofText (realText x)) >>= fun y => .ok (ScoreEnd.mk y true)) = _
      rw [hReal]
      rfl
  | false =>
      obtain ⟨first, rest, hText, hBegins⟩ := Number.begins_realText hNumber
      show ScoreEnd.read (Octets.ofText (realText x)) = _
      rw [hText, ScoreEnd.read_inclusive hBegins, ← hText, hReal]
      rfl

/-- The end of all scores is read as an infinity. -/
theorem read_ofAllScores (u : Unbounded) :
    ScoreEnd.read (ofAllScores u).word.toOctets = .ok ⟨u.infinity, false⟩ := by
  have hSign : (ofAllScores u).word.toOctets.head?.any Number.beginsNumber = true := by
    cases u <;> decide +kernel
  have hReal : Number.real? (ofAllScores u).word.toOctets = some u.infinity := by
    cases u <;> decide +kernel
  revert hSign hReal
  cases (ofAllScores u).word.toOctets with
  | nil => exact fun hNever => nomatch hNever
  | cons b rest =>
      intro hBegins hReal
      rw [ScoreEnd.read_inclusive hBegins, readReal_of_real? hReal]
      rfl

/-- An end at a member is read back as the octets of the member. -/
theorem read_ofMember {exclusive : Bool} {v : Datum} {b : Bound}
    (h : ofMember exclusive v = .ok b) :
    LexEnd.read b.word.toOctets = .ok (.at v.word exclusive) := by
  obtain ⟨a, hCheck, hRest⟩ := ok_of_bind h
  rw [word_of_check hCheck]
  cases a with
  | text s =>
      cases hRest
      show LexEnd.read (Octets.ofText (String.ofList [if exclusive then '(' else '['] ++ s)) = _
      rw [Octets.ofText_append]
      cases exclusive <;> rfl
  | octets w =>
      cases hRest
      cases exclusive <;> rfl

/-- The end of all members is read as no end. -/
theorem read_ofAllMembers (u : Unbounded) :
    LexEnd.read (ofAllMembers u).word.toOctets = .ok (.unbounded u) := by
  cases u <;> rfl

end Bound

/-! ## ZRANGE -/

namespace SortedSets.RangePlan

variable (p : RangePlan) (rest : List Octets)

theorem read_byscore : read p (Keyword.byscore.octets :: rest) =
    read { p with goesBy := .score } rest := by
  conv => lhs; unfold read
  rw [Keyword.ofOctets?_octets]

theorem read_bylex : read p (Keyword.bylex.octets :: rest) =
    read { p with goesBy := .lex } rest := by
  conv => lhs; unfold read
  rw [Keyword.ofOctets?_octets]

theorem read_rev : read p (Keyword.rev.octets :: rest) =
    read { p with reverse := true } rest := by
  conv => lhs; unfold read
  rw [Keyword.ofOctets?_octets]

theorem read_limit (offset count : Octets) :
    read p (Keyword.limit.octets :: offset :: count :: rest) = (do
      let offset ← readInt offset
      let count ← readInt count
      read { p with limit? := some (offset, count) } rest) := by
  conv => lhs; unfold read
  rw [Keyword.ofOctets?_octets]

end SortedSets.RangePlan

namespace RangeQuery

/-- What the order of a range does to a plan. -/
def putOrder (goesBy : RangeBy) (p : RangePlan) : RangePlan := { p with goesBy }

/-- What the direction does to a plan. -/
def putDirection (reverse : Bool) (p : RangePlan) : RangePlan :=
  { p with reverse := reverse || p.reverse }

/-- What the window does to a plan. -/
def putWindow (limit? : Option Limit) (p : RangePlan) : RangePlan :=
  { p with limit? := (limit?.map Limit.numbers).or p.limit? }

theorem reads_reverse (reverse : Bool) :
    Reads RangePlan.read (octetsOf (reverseArgs reverse))
      fun p => .ok (putDirection reverse p) := by
  intro p rest
  cases reverse
  · rfl
  · exact RangePlan.read_rev p rest

theorem reads_limit {limit? : Option Limit} (hTyped : ∀ l ∈ limit?, l.IsTyped) {words : ArgList}
    (h : limitArgs limit? = .ok words) :
    Reads RangePlan.read (octetsOf words) fun p => .ok (putWindow limit? p) := by
  intro p rest
  cases limit? with
  | none =>
      cases h
      rfl
  | some l =>
      have hWhole := hTyped l rfl
      obtain ⟨offset, hOffset, hAfter⟩ := ok_of_bind h
      obtain ⟨count, hCount, hRest⟩ := ok_of_bind hAfter
      cases hRest
      show RangePlan.read p
        (Keyword.limit.octets :: Octets.ofText offset :: Octets.ofText count :: rest) = _
      rw [RangePlan.read_limit, readInt_numberText hWhole.offset hOffset 0,
        readInt_numberText hWhole.count hCount 0]
      rfl

/-- The words of a range: its ends, and its groups one after another. -/
theorem toArgs_eq (q : RangeQuery) : q.toArgs = (do
    let (first, last) ← q.ends
    let groups ← q.groups
    return first :: last :: groups.flatten) := by
  cases q with
  | byIndex first last reverse =>
      show (numberText first >>= fun _ => numberText last >>= fun _ => _) =
        (numberText first >>= fun _ => _) >>= _
      cases numberText first with
      | error e => rfl
      | ok first =>
          show (numberText last >>= _) = (numberText last >>= _) >>= _
          cases numberText last with
          | error e => rfl
          | ok last =>
              show Except.ok _ = Except.ok _
              simp
  | byScore first last reverse limit? | byLex first last reverse limit? =>
      show (limitArgs limit? >>= _) = (limitArgs limit? >>= _) >>= _
      cases limitArgs limit? with
      | error e => rfl
      | ok limit =>
          show Except.ok _ = Except.ok _
          simp

/-- The groups of a range that goes by anything but the place, whose keyword is given. -/
theorem read_ordered {goesBy : RangeBy} {keyword : Keyword}
    (hKeyword : Reads RangePlan.read (octetsOf [keyword.arg]) fun p => .ok (putOrder goesBy p))
    {reverse : Bool} {limit? : Option Limit} (hTyped : ∀ l ∈ limit?, l.IsTyped)
    {limit : ArgList} (hLimit : limitArgs limit? = .ok limit) {words : List ArgList}
    (hPerm : words.Perm [[keyword.arg], reverseArgs reverse, limit]) :
    RangePlan.read {} (octetsOf words.flatten) =
      .ok { goesBy, reverse, limit? := limit?.map Limit.numbers } := by
  have hReads := List.Forall₂.cons hKeyword
    (.cons (reads_reverse reverse) (.cons (reads_limit hTyped hLimit) .nil))
  rw [read_groups (fun _ => rfl) hPerm hReads (commute_triple (commute_ok fun _ => rfl)
    (commute_ok fun _ => rfl) (commute_ok fun _ => rfl))]
  show Except.ok _ = Except.ok _
  simp [putOrder, putDirection, putWindow]

/-- ZRANGE reads its options to what they say, in any order. -/
theorem read_eq {q : RangeQuery} (hTyped : q.IsTyped) {groups words : List ArgList}
    (h : q.groups = .ok groups) (hPerm : words.Perm groups) :
    RangePlan.read {} (octetsOf words.flatten) = .ok q.plan := by
  cases q with
  | byIndex first last reverse =>
      cases h
      rw [List.perm_singleton.1 hPerm, List.flatten_singleton]
      have hRead := reads_reverse reverse {} []
      rw [List.append_nil] at hRead
      rw [hRead]
      show Except.ok _ = Except.ok _
      simp [putDirection, plan]
  | byScore first last reverse limit? =>
      obtain ⟨limit, hLimit, hRest⟩ := ok_of_bind h
      cases hRest
      exact read_ordered (fun p rest => RangePlan.read_byscore p rest) hTyped.2.2 hLimit hPerm
  | byLex first last reverse limit? =>
      obtain ⟨limit, hLimit, hRest⟩ := ok_of_bind h
      cases hRest
      exact read_ordered (fun p rest => RangePlan.read_bylex p rest) hTyped.2.2 hLimit hPerm

/-- The places at which a range by index begins and ends are read back. -/
theorem readInt_ends {m n : Int} {reverse : Bool} {a b : Arg}
    (h : (byIndex (.int m) (.int n) reverse).ends = .ok (a, b)) :
    readInt a.toOctets = .ok m ∧ readInt b.toOctets = .ok n := by
  obtain ⟨s, hFirst, hAfter⟩ := ok_of_bind h
  obtain ⟨t, hLast, hRest⟩ := ok_of_bind hAfter
  cases hRest
  exact ⟨readInt_wholeText hFirst, readInt_wholeText hLast⟩

end RangeQuery

/-! ## GEOADD -/

theorem Keyword.octets_first (k : Keyword) : k.octets.head?.any fun b => 65 ≤ b := by
  cases k <;> decide +kernel

/-- A keyword begins with a letter. -/
theorem Keyword.ofOctets?_below {b : UInt8} {rest : Octets} (h : b.toNat < 65) :
    ofOctets? (b :: rest) = none := by
  unfold ofOctets?
  rw [List.find?_eq_none]
  intro k _ hSame
  rw [beq_iff_eq] at hSame
  have hFirst := Keyword.octets_first k
  rw [hSame] at hFirst
  have hUpper : 65 ≤ Octets.upperOctet b := of_decide_eq_true hFirst
  have hLetter : 65 ≤ (Octets.upperOctet b).toNat := UInt8.le_iff_toNat_le.1 hUpper
  have hSelf : Octets.upperOctet b = b := by
    unfold Octets.upperOctet
    refine if_neg fun hLow => ?_
    have hLarge := UInt8.le_iff_toNat_le.1 hLow.1
    have hLeast : (97 : UInt8).toNat = 97 := rfl
    omega
  rw [hSelf] at hLetter
  omega

/-- No keyword begins like a number. -/
theorem Keyword.ofOctets?_number {b : UInt8} {rest : Octets}
    (h : Number.beginsNumber b = true) : ofOctets? (b :: rest) = none := by
  apply Keyword.ofOctets?_below
  unfold Number.beginsNumber Number.isDigit at h
  simp only [Bool.or_eq_true, Bool.and_eq_true, decide_eq_true_eq, beq_iff_eq] at h
  rcases h with (⟨-, hDigit⟩ | rfl) | rfl
  · have hSmall : b.toNat ≤ 57 := UInt8.le_iff_toNat_le.1 hDigit
    omega
  · decide
  · decide

namespace Places.Flags

variable (f : Flags) (rest : List Octets)

theorem read_nx : read f (Keyword.nx.octets :: rest) = read { f with guard := .onlyNew } rest := by
  conv => lhs; unfold read
  rw [Keyword.ofOctets?_octets]

theorem read_xx : read f (Keyword.xx.octets :: rest) = read { f with guard := .onlyOld } rest := by
  conv => lhs; unfold read
  rw [Keyword.ofOctets?_octets]

theorem read_ch : read f (Keyword.ch.octets :: rest) = read { f with changed := true } rest := by
  conv => lhs; unfold read
  rw [Keyword.ofOctets?_octets]

/-- The flags end where the places begin. -/
theorem read_number {b : UInt8} {w : Octets} (h : Number.beginsNumber b = true) :
    read f ((b :: w) :: rest) = (f, (b :: w) :: rest) := by
  unfold read
  rw [Keyword.ofOctets?_number h]

end Places.Flags

namespace GeoAddOptions

open Places

variable {o : GeoAddOptions}

/-- What the condition does to the flags. -/
def putGuard (o : GeoAddOptions) (f : Flags) : Flags :=
  { f with guard := if o.condition?.isSome then o.guard else f.guard }

/-- What the flag for changed members does to the flags. -/
def putChanged (o : GeoAddOptions) (f : Flags) : Flags :=
  { f with changed := o.changed || f.changed }

theorem toArgs_eq (o : GeoAddOptions) : o.toArgs = o.groups.map List.flatten := by
  have hFlat (condition : ArgList) : condition ++ (if o.changed then [Keyword.ch.arg] else []) =
      [condition, if o.changed then [Keyword.ch.arg] else []].flatten := by
    simp
  unfold toArgs groups conditionArgs
  cases o.condition? with
  | none => exact congrArg Except.ok (hFlat [])
  | some c =>
      cases c with
      | onlyIfEquals => rfl
      | onlyIfExists | onlyIfMissing => exact congrArg Except.ok (hFlat _)

theorem reads_condition {words : ArgList} (h : o.conditionArgs = .ok words) :
    Reads (fun f w => .ok (Flags.read f w)) (octetsOf words) fun f => .ok (o.putGuard f) := by
  obtain ⟨condition?, changed⟩ := o
  intro f rest
  match condition? with
  | none =>
      cases h
      rfl
  | some .onlyIfMissing =>
      cases h
      exact congrArg Except.ok (Flags.read_nx f rest)
  | some .onlyIfExists =>
      cases h
      exact congrArg Except.ok (Flags.read_xx f rest)
  | some .onlyIfEquals => cases h

theorem reads_changed (o : GeoAddOptions) : Reads (fun f w => .ok (Flags.read f w))
    (octetsOf (if o.changed then [Keyword.ch.arg] else [])) fun f => .ok (o.putChanged f) := by
  obtain ⟨condition?, changed⟩ := o
  intro f rest
  cases changed
  · rfl
  · exact congrArg Except.ok (Flags.read_ch f rest)

/-- GEOADD reads its flags to what they say, in any order, and stops at the places. -/
theorem read_eq {groups words : List ArgList} (h : o.groups = .ok groups)
    (hPerm : words.Perm groups) {b : UInt8} {w : Octets} (hNumber : Number.beginsNumber b = true)
    (rest : List Octets) :
    Flags.read {} (octetsOf words.flatten ++ (b :: w) :: rest) = (o.flags, (b :: w) :: rest) := by
  obtain ⟨condition, hCondition, hRest⟩ := ok_of_bind h
  cases hRest
  have hReads := List.Forall₂.cons (reads_condition hCondition) (.cons (reads_changed o) .nil)
  have hCommute := commute_pair (commute_ok (f := o.putGuard) (g := o.putChanged) fun _ => rfl)
  have hRead := read_perm hReads hCommute (hPerm.map octetsOf) ((b :: w) :: rest) {}
  rw [← octetsOf_flatten] at hRead
  refine Except.ok.inj (hRead.trans ?_)
  show Except.ok (Flags.read (o.putChanged (o.putGuard {})) ((b :: w) :: rest)) = _
  rw [Flags.read_number _ _ hNumber]
  have hGuard : (if o.condition?.isSome then o.guard else Guard.any) = o.guard := by
    unfold guard
    cases o.condition? <;> rfl
  simp [putChanged, putGuard, flags, hGuard]

end GeoAddOptions

end BatchStore
