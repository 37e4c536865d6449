import BatchStore.Proofs.Number.Nearest
import BatchStore.Proofs.Options.Words

/-!
# What is written of a moment

An expiry up to a moment is written in seconds or in milliseconds. The moment is known to the
microsecond, but the number that is written goes through doubles: the seconds are the double
nearest to the exact quotient, for milliseconds that double is multiplied by a thousand and
rounded again, and then the fraction is cut off. `Expiry.upTo_words` says what is left of the
moment on this way.

* Seconds are exact for a moment on a whole second.
* Milliseconds may be one off. The two roundings move the number by one part in `2 ^ 52 - 1` at
  most, so the milliseconds are exact as long as the moment is farther than that from the whole
  milliseconds around it: up to the year 2112, wherever it is not on one. On a whole millisecond
  the number may be that millisecond or the one before; an eighth of a second is kept exactly.
-/

namespace BatchStore

open Number

/-! ## The calendar -/

theorem CivilTime.monthLength_le (year month : Int) : CivilTime.monthLength year month ≤ 31 := by
  unfold CivilTime.monthLength
  repeat' split
  all_goals omega

theorem CivilTime.daysBeforeMonth_le (year : Int) (month : Nat) :
    CivilTime.daysBeforeMonth year month ≤ 31 * month := by
  induction month using CivilTime.daysBeforeMonth.induct with
  | case1 => exact le_rfl
  | case2 => exact Int.zero_le_ofNat 31
  | case3 month ih =>
      have hLast := CivilTime.monthLength_le year (Int.ofNat (month + 1))
      rw [CivilTime.daysBeforeMonth]
      push_cast at ih ⊢
      omega

theorem Span.offset?_range {minutes : TimeCount} {span : Int}
    (h : Span.offset? minutes = .ok span) : -86400000000 < span ∧ span < 86400000000 := by
  obtain ⟨tally, -, h⟩ := ok_of_bind h
  obtain ⟨s, -, h⟩ := ok_of_bind h
  split at h
  · rename_i hRange
    cases h
    simpa using hRange
  · cases h

/-- The calendar ends with the year 9999. -/
theorem CivilTime.moment?_lt {t : CivilTime} {m : Int} (h : t.moment? = .ok m) : m < 2 ^ 58 := by
  obtain ⟨offset, hOffset, h⟩ := ok_of_bind h
  have hEast : @LT.lt Int _ (-86400000000) offset := by
    cases hGiven : t.offset? with
    | none =>
        rw [hGiven] at hOffset
        cases hOffset
        decide
    | some minutes =>
        rw [hGiven] at hOffset
        exact (Span.offset?_range hOffset).1
  cases hWidth : t.widthFlaw? with
  | some flaw =>
      rw [hWidth] at h
      cases h
  | none =>
      cases hPart : t.badPart? with
      | some part =>
          rw [hWidth, hPart] at h
          cases h
      | none =>
          rw [hWidth, hPart] at h
          cases h
          have hDays := CivilTime.daysBeforeMonth_le t.year t.month.toNat
          have hMonth := CivilTime.monthLength_le t.year t.month
          unfold CivilTime.badPart? at hPart
          simp only [Bool.or_eq_true, decide_eq_true_eq] at hPart
          unfold CivilTime.epochDays CivilTime.daysBeforeYear
          dsimp only
          repeat' split at hPart
          all_goals first | (cases hPart; done) | (show (_ : Int) < _; omega)

/-! ## Through doubles -/

/-- The number of seconds that is written for a moment. -/
structure SecondsOf (m n : Int) : Prop where
  from_below : m / 1000000 ≤ n
  from_above : n ≤ m / 1000000 + 1
  exact : m < (2 ^ 53 - 1) * (1000000 - m % 1000000) → n = m / 1000000
  whole : 1000000 ∣ m → n = m / 1000000

/-- The number of milliseconds that is written for a moment. -/
structure MillisOf (m n : Int) : Prop where
  from_below : m / 1000 - 1 ≤ n
  from_above : n ≤ m / 1000 + 1
  exact : m < (2 ^ 52 - 1) * min (m % 1000) (1000 - m % 1000) → n = m / 1000
  whole : 1000 ∣ m → n ≤ m / 1000
  eighths : 125000 ∣ m → n = m / 1000

section Doubles

variable {m : Nat}

/-- Numbers of an ordinary size are in the range of the doubles. -/
theorem normal_of_between {v : ℚ} (hLow : 1 / 2 ^ 60 ≤ v) (hHigh : v < 2 ^ 60) : Normal v where
  low := calc
    (2 : ℚ) ^ (-1022 : Int) ≤ 2 ^ (-60 : Int) := zpow_le_zpow_right₀ (by norm_num) (by norm_num)
    _ ≤ v := by norm_num; linarith
  high := lt_limit (k := 8) (by norm_num; linarith) (by norm_num)

/-- The seconds of a moment of the calendar are the double nearest to them. -/
theorem momentSeconds_nearest (hPos : 0 < m) (hRange : m < 2 ^ 58) :
    ∃ x, Nearest (Expiry.momentSeconds m) x (m / 1000000) := by
  have hLeast : (1 : ℚ) ≤ m := by exact_mod_cast hPos
  have hMost : (m : ℚ) < 2 ^ 58 := by exact_mod_cast hRange
  have hValue : (m : ℚ) * 10 ^ (-6 : Int) = m / 1000000 := by norm_num [div_eq_mul_inv]
  have hNormal : Normal ((m : ℚ) * 10 ^ (-6 : Int)) := by
    rw [hValue]
    apply normal_of_between <;> linarith
  obtain ⟨x, hx⟩ := nearest_ofScientific hNormal
  rw [hValue] at hx
  exact ⟨x, hx⟩

/-- The seconds are cut to the whole second, or to the next one if the double has reached it. -/
theorem secondsOf_cut (hRange : m < 2 ^ 58) :
    SecondsOf m (Expiry.cut (Expiry.momentSeconds m)) := by
  rcases Nat.eq_zero_or_pos m with rfl | hPos
  · have hZero : Expiry.cut (Expiry.momentSeconds (0 : Nat)) = 0 := by decide +kernel
    rw [hZero]
    exact ⟨by decide, by decide, fun _ => rfl, fun _ => rfl⟩
  obtain ⟨x, hx⟩ := momentSeconds_nearest hPos hRange
  rw [hx.cut]
  obtain ⟨k, r, hk, hr, rfl⟩ : ∃ k r, m / 1000000 = k ∧ r < 1000000 ∧ m = 1000000 * k + r :=
    ⟨_, m % 1000000, rfl, Nat.mod_lt m (by norm_num), (Nat.div_add_mod m 1000000).symm⟩
  have hMost : ((1000000 * k + r : Nat) : ℚ) < 2 ^ 58 := by exact_mod_cast hRange
  have hRest : (r : ℚ) < 1000000 := by exact_mod_cast hr
  have hSome : (0 : ℚ) ≤ r := Nat.cast_nonneg r
  push_cast at hx hMost
  have hSmall : (1000000 * (k : ℚ) + r) / 1000000 < 2 ^ 52 := by norm_num; linarith
  have hLow := hx.whole_le hSmall (k := k) (by linarith)
  have hHigh := hx.le_whole hSmall (k := k + 1) (by push_cast; linarith)
  have hFrom : (k : Int) ≤ ⌊x⌋ := Int.le_floor.2 (by exact_mod_cast hLow)
  have hTo : ⌊x⌋ ≤ (k : Int) + 1 := by exact_mod_cast (Int.floor_le x).trans hHigh
  have hError := hx.error
  rw [← le_div_iff₀ (by norm_num), abs_le] at hError
  have hSame (hFar : (1000000 * k + r : Int) < (2 ^ 53 - 1) * (1000000 - r)) : ⌊x⌋ = (k : Int) := by
    have hCast : ((1000000 * k + r : Int) : ℚ) < ((2 ^ 53 - 1) * (1000000 - r) : Int) :=
      Int.cast_lt.2 hFar
    push_cast at hCast
    have hBelow : x < k + 1 := by
      by_contra hOver
      linarith
    exact Int.floor_eq_iff.2 ⟨by exact_mod_cast hLow, by exact_mod_cast hBelow⟩
  refine ⟨by omega, by omega, fun hFar => ?_, fun hWhole => ?_⟩
  · rw [hSame (by omega)]
    omega
  · rw [hSame (by omega)]
    omega

/-- A thousand is a double. -/
theorem thousand_nearest : Nearest 1000.0 1000 1000 := by
  have hRounds : Rounds (1000 * 2 ^ 43) (-43) ((10000 : Nat) * 10 ^ (-1 : Int)) := by
    have hValue : ((10000 : Nat) : ℚ) * 10 ^ (-1 : Int) =
        (1000 * 2 ^ 43 : Nat) * 2 ^ (-43 : Int) := by
      norm_num
    rw [hValue]
    exact rounds_self _ _
  have hc : Canonical (1000 * 2 ^ 43) (-43) :=
    ⟨by norm_num, by norm_num, by norm_num, .inr (by norm_num)⟩
  have hRead : (1000.0 : Float) = ofParts (1000 * 2 ^ 43) (-43) (by norm_num) :=
    hRounds.ofScientific_eq hc (by norm_num) (by norm_num)
  rw [hRead]
  have hParts := Nearest.intro (by norm_num) hc (by norm_num) hRounds
  norm_num at hParts ⊢
  exact hParts

/-- Two roundings move a number by one part in `2 ^ 52 - 1` at most. -/
theorem twice_error {x y v : ℚ} (hFirst : |x - v| * 2 ^ 53 ≤ x)
    (hSecond : |y - x * 1000| * 2 ^ 53 ≤ y) : |y - v * 1000| * (2 ^ 52 - 1) ≤ v * 1000 := by
  rw [← le_div_iff₀ (by norm_num), abs_le] at hFirst hSecond ⊢
  obtain ⟨hFirstLow, hFirstHigh⟩ := hFirst
  obtain ⟨hSecondLow, hSecondHigh⟩ := hSecond
  constructor <;> linarith

/-- The milliseconds of a moment go through two doubles, both of an ordinary size. -/
theorem momentMillis_nearest (hPos : 0 < m) (hRange : m < 2 ^ 58) :
    ∃ x y, Nearest (Expiry.momentSeconds m) x (m / 1000000) ∧
      Nearest (Expiry.momentSeconds m * 1000.0) y (x * 1000) ∧ x * 1000 < 2 ^ 52 := by
  obtain ⟨x, hx⟩ := momentSeconds_nearest hPos hRange
  have hLeast : (1 : ℚ) ≤ m := by exact_mod_cast hPos
  have hMost : (m : ℚ) < 2 ^ 58 := by exact_mod_cast hRange
  have hAround := abs_le.1 ((le_div_iff₀ (by norm_num : (0 : ℚ) < 2 ^ 53)).2 hx.error)
  obtain ⟨y, hy⟩ := hx.mul thousand_nearest (normal_of_between (by linarith) (by linarith))
  exact ⟨x, y, hx, hy, by linarith⟩

/-- An eighth of a second is a double, and so are its milliseconds. -/
theorem cut_eighths {a : Nat} (hPos : 0 < 125000 * a) (hRange : 125000 * a < 2 ^ 58) :
    Expiry.cut (Expiry.momentSeconds (125000 * a : Nat) * 1000.0) = 125 * a := by
  obtain ⟨x, y, hx, hy, hSmall⟩ := momentMillis_nearest hPos hRange
  have hMost : ((125000 * a : Nat) : ℚ) < 2 ^ 58 := by exact_mod_cast hRange
  have hEighth : ((125000 * a : Nat) : ℚ) / 1000000 = a * 2 ^ (-3 : Int) := by
    push_cast
    norm_num
    ring
  have hSeconds : x = a * 2 ^ (-3 : Int) := by
    rw [← hEighth]
    exact hx.eq_grid (by norm_num; linarith) hEighth
  have hMillis : x * 1000 = (125 * a : Nat) := by
    rw [hSeconds]
    push_cast
    norm_num
    ring
  have hExact : y = (125 * a : Nat) :=
    le_antisymm (hy.le_whole hSmall hMillis.le) (hy.whole_le hSmall hMillis.ge)
  rw [hy.cut, hExact, Int.floor_natCast]
  push_cast
  rfl

/-- The milliseconds are cut to the whole one, or to a neighbour of it. -/
theorem millisOf_cut (hRange : m < 2 ^ 58) :
    MillisOf m (Expiry.cut (Expiry.momentSeconds m * 1000.0)) := by
  rcases Nat.eq_zero_or_pos m with rfl | hPos
  · have hZero : Expiry.cut (Expiry.momentSeconds (0 : Nat) * 1000.0) = 0 := by decide +kernel
    rw [hZero]
    exact ⟨by decide, by decide, fun _ => rfl, fun _ => le_rfl, fun _ => rfl⟩
  have hEighths (h : (125000 : Int) ∣ m) :
      Expiry.cut (Expiry.momentSeconds m * 1000.0) = (m : Int) / 1000 := by
    obtain ⟨a, rfl⟩ : 125000 ∣ m := by exact_mod_cast h
    rw [cut_eighths hPos hRange]
    omega
  obtain ⟨x, y, hx, hy, -⟩ := momentMillis_nearest hPos hRange
  have hError := twice_error hx.error hy.error
  rw [hy.cut] at hEighths ⊢
  clear hx hy
  obtain ⟨k, r, hk, hr, rfl⟩ : ∃ k r, m / 1000 = k ∧ r < 1000 ∧ m = 1000 * k + r :=
    ⟨_, m % 1000, rfl, Nat.mod_lt m (by norm_num), (Nat.div_add_mod m 1000).symm⟩
  have hMost : ((1000 * k + r : Nat) : ℚ) < 2 ^ 58 := by exact_mod_cast hRange
  have hRest : (r : ℚ) < 1000 := by exact_mod_cast hr
  have hSome : (0 : ℚ) ≤ r := Nat.cast_nonneg r
  push_cast at hMost hError
  rw [← le_div_iff₀ (by norm_num), abs_le] at hError
  obtain ⟨hLow, hHigh⟩ := hError
  have hFrom : (k : Int) - 1 ≤ ⌊y⌋ := Int.le_floor.2 (by push_cast; linarith)
  have hTo : ⌊y⌋ < (k : Int) + 2 := Int.floor_lt.2 (by push_cast; linarith)
  refine ⟨by omega, by omega, fun hFar => ?_, fun hWhole => ?_, hEighths⟩
  · have hBehind : ((1000 * k + r : Int) : ℚ) < ((2 ^ 52 - 1) * r : Int) := Int.cast_lt.2 (by omega)
    have hAhead : ((1000 * k + r : Int) : ℚ) < ((2 ^ 52 - 1) * (1000 - r) : Int) :=
      Int.cast_lt.2 (by omega)
    push_cast at hBehind hAhead
    have hSame : ⌊y⌋ = (k : Int) :=
      Int.floor_eq_iff.2 ⟨by push_cast; linarith, by push_cast; linarith⟩
    omega
  · obtain rfl : r = 0 := by omega
    have hUnder : ⌊y⌋ < (k : Int) + 1 := Int.floor_lt.2 (by push_cast at hHigh hMost ⊢; linarith)
    omega

end Doubles

theorem MillisOf.nonneg {m n : Int} (h : MillisOf m n) (hEpoch : 0 ≤ m) : 0 ≤ n := by
  have hBelow := h.from_below
  have hExact := h.exact
  have hEighths := h.eighths
  omega

/-! ## The words -/

theorem compareNumber_less (m n : Int) :
    compareNumber .less (.int m) (.int n) = .ok (decide (m < n)) := by
  have hCompare : (Datum.int m).compare? (.int n) = .ok (some (compare m n)) := by
    rw [Datum.compare?] <;> simp [Datum.compareNumbers?, Datum.integer?]
  have hHolds : Comparison.less.holds (.int m) (.int n) = .ok (decide (m < n)) := by
    unfold Comparison.holds
    rw [hCompare]
    rcases Int.lt_trichotomy m n with h | rfl | h
    · rw [Int.compare_eq_lt.2 h, decide_eq_true h]
      rfl
    · rw [Int.compare_eq_eq.2 rfl, decide_eq_false (lt_irrefl m)]
      rfl
    · rw [Int.compare_eq_gt.2 h, decide_eq_false h.not_gt]
      rfl
  unfold compareNumber
  rw [hHolds]
  rfl

theorem tenTo_le {a b : Nat} (h : a ≤ b) : tenTo a ≤ tenTo b := Nat.pow_le_pow_right (by decide) h

theorem wholeText_short {n : Int} (h : n.natAbs < tenTo 60) : wholeText n = .ok (toString n) := by
  have hRoom : n.natAbs < tenTo maxDigits := h.trans_le (tenTo_le (by decide))
  unfold wholeText intText?
  rw [if_pos hRoom]

namespace Expiry

/-- An expiry with a number that is not below zero is written as its keyword and the number. -/
theorem toArgs_of_time {e : Expiry} {allowed : List ExpiryType} {n : Int}
    (hAllowed : e.type ∈ allowed) (hSets : e.type.keyword.setsDeadline = true)
    (hTime : e.time = .ok (.int n)) (hLow : 0 ≤ n) (hShort : n < 10 ^ 60) :
    e.toArgs allowed = .ok [e.type.keyword.arg, .text (toString n)] := by
  have hText : shownNumber (.int n) = .ok (toString n) := by
    have hSize : n.natAbs < tenTo 60 := by
      show n.natAbs < 10 ^ 60
      omega
    unfold shownNumber numberText
    exact wholeText_short hSize
  have hLess : compareNumber .less (.int n) (.int 0) = .ok false := by
    rw [compareNumber_less, decide_eq_false (by omega)]
  have hNumbered : (do
      let time ← e.time
      if ← compareNumber .less time (.int 0) then throw (.option .negativeExpiry)
      return [e.type.keyword.arg, .text (← shownNumber time)] : Except Failure ArgList) =
        .ok [e.type.keyword.arg, .text (toString n)] := by
    rw [hTime]
    dsimp only [bind, Except.bind]
    rw [hLess]
    dsimp only
    rw [if_neg Bool.false_ne_true, hText]
    rfl
  unfold toArgs
  rw [List.contains_iff_mem.2 hAllowed, ← hNumbered]
  cases hType : e.type <;> rw [hType] at hSets <;> first | rfl | cases hSets

/-- What is written of a moment from 1970 on, in the options of SET and of GETEX. -/
theorem upTo_words {t : CivilTime} {m : Int} (hMoment : t.moment? = .ok m) (hEpoch : 0 ≤ m) :
    ∃ e n, Expiry.upTo? t = .ok e ∧
      (t.microsecond = 0 → e.type = .unixSeconds ∧ SecondsOf m n) ∧
      (t.microsecond ≠ 0 → e.type = .unixMilliseconds ∧ MillisOf m n) ∧
      (∀ o : GetExOptions, o.expiry? = some e →
        o.toArgs = .ok [e.type.keyword.arg, .text (toString n)]) ∧
      (∀ (o : SetOptions) (condition : ArgList), o.expiry? = some e →
        o.conditionArgs = .ok condition →
        o.toArgs = .ok (condition ++ (if o.returnOld then [Keyword.get.arg] else []) ++
          [e.type.keyword.arg, .text (toString n)])) := by
  have hRange := CivilTime.moment?_lt hMoment
  obtain ⟨k, rfl⟩ : ∃ k : Nat, m = k := ⟨m.toNat, by omega⟩
  have hShort : k < 2 ^ 58 := by exact_mod_cast hRange
  have hSeconds := secondsOf_cut hShort
  have hMillis := millisOf_cut hShort
  have hOptions {e : Expiry} {n : Int} (hType : e.type = .unixSeconds ∨ e.type = .unixMilliseconds)
      (hTime : e.time = .ok (.int n)) (hLow : 0 ≤ n) (hHigh : n < 10 ^ 60) :
      (∀ o : GetExOptions, o.expiry? = some e →
        o.toArgs = .ok [e.type.keyword.arg, .text (toString n)]) ∧
      (∀ (o : SetOptions) (condition : ArgList), o.expiry? = some e →
        o.conditionArgs = .ok condition →
        o.toArgs = .ok (condition ++ (if o.returnOld then [Keyword.get.arg] else []) ++
          [e.type.keyword.arg, .text (toString n)])) := by
    have hWords {allowed : List ExpiryType} (hAllowed : e.type ∈ allowed) :=
      toArgs_of_time hAllowed (by rcases hType with h | h <;> rw [h] <;> rfl) hTime hLow hHigh
    constructor
    · intro o hGiven
      unfold GetExOptions.toArgs
      rw [hGiven]
      exact hWords (by rcases hType with h | h <;> rw [h] <;> decide)
    · intro o condition hGiven hCondition
      unfold SetOptions.toArgs
      rw [hCondition, hGiven]
      dsimp only
      rw [hWords (by rcases hType with h | h <;> rw [h] <;> decide)]
      rfl
  have hBuilt : Expiry.upTo? t = .ok
      { type := if t.microsecond == 0 then .unixSeconds else .unixMilliseconds
        moment? := some (k : Int) } := by
    unfold Expiry.upTo?
    rw [hMoment]
    rfl
  by_cases hWhole : t.microsecond = 0
  · rw [if_pos (beq_iff_eq.2 hWhole)] at hBuilt
    exact ⟨_, _, hBuilt, fun _ => ⟨rfl, hSeconds⟩, fun hPart => absurd hWhole hPart,
      hOptions (.inl rfl) rfl (by have := hSeconds.from_below; omega)
        (by have := hSeconds.from_above; omega)⟩
  · rw [if_neg (mt beq_iff_eq.1 hWhole)] at hBuilt
    exact ⟨_, _, hBuilt, fun hNone => absurd hNone hWhole, fun _ => ⟨rfl, hMillis⟩,
      hOptions (.inr rfl) rfl (hMillis.nonneg hEpoch) (by have := hMillis.from_above; omega)⟩

/-- A quarter behind the second is written exactly. -/
theorem upTo_words_quarter : ∃ e, Expiry.upTo? ⟨1970, 1, 1, 0, 0, 1, 250000, none⟩ = .ok e ∧
    GetExOptions.toArgs { expiry? := some e } = .ok [Keyword.pxat.arg, .text "1250"] := by
  obtain ⟨e, n, hBuilt, -, hMillis, hWords, -⟩ :=
    upTo_words (t := ⟨1970, 1, 1, 0, 0, 1, 250000, none⟩) (m := 1250000) rfl (by decide)
  obtain ⟨hType, hNumber⟩ := hMillis (by decide)
  obtain rfl : n = 1250 := hNumber.eighths (by decide)
  have hArgs := hWords { expiry? := some e } rfl
  rw [hType] at hArgs
  exact ⟨e, hBuilt, hArgs⟩

/-- A moment on a whole millisecond, 1001 of them after the start of 1970, and the words say 1000:
the double nearest to 1.001 is below it, and so is its product with a thousand. -/
theorem upTo_millisecond_lost :
    CivilTime.moment? ⟨1970, 1, 1, 0, 0, 1, 1000, none⟩ = .ok 1001000 ∧
    (∃ e, Expiry.upTo? ⟨1970, 1, 1, 0, 0, 1, 1000, none⟩ = .ok e ∧
      GetExOptions.toArgs { expiry? := some e } = .ok [Keyword.pxat.arg, .text "1000"] ∧
      SetOptions.toArgs { expiry? := some e } = .ok [Keyword.pxat.arg, .text "1000"]) ∧
    toString ((1001000 : Int) / 1000) = "1001" := by
  have hCut : cut (momentSeconds 1001000 * 1000.0) = 1000 := by decide +kernel
  have hTime : Expiry.time { type := .unixMilliseconds, moment? := some 1001000 } =
      .ok (.int 1000) := congrArg (fun n => Except.ok (Datum.int n)) hCut
  have hWords {allowed : List ExpiryType} (hAllowed : .unixMilliseconds ∈ allowed) :=
    toArgs_of_time hAllowed rfl hTime (by decide) (by decide)
  refine ⟨rfl, ⟨{ type := .unixMilliseconds, moment? := some 1001000 }, rfl, ?_, ?_⟩, rfl⟩
  · exact hWords (by decide)
  · unfold SetOptions.toArgs
    dsimp only
    rw [hWords (by decide)]
    rfl

end Expiry

end BatchStore
