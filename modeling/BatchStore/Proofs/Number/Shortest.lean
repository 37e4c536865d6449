import Mathlib.Data.Nat.Cast.Order.Field
import BatchStore.Number.Shortest
import BatchStore.Proofs.Number.Rounding

/-!
# The shortest decimal rounds back

The search for the shortest decimal stops at the first grid with a point that rounds to the
double, so what it finds does (`onGrid?_rounds`). It finds something: on the finest grid that it
tries one step is shorter than the way from the double to the end of its range, so that the
point above the double lies within (`onGrid?_fine`). Together that is `shortest_rounds`.
-/

namespace BatchStore.Number

/-- The magnitude of a number. -/
def Dyadic.value (d : Dyadic) : ℚ := d.mantissa * 2 ^ d.exponent

/-! ## The range of a double -/

/-- A power with a negative exponent and one with its opposite cancel. -/
theorem zpow_mul_pow_toNat {b : ℚ} (hb : b ≠ 0) (k : Int) :
    b ^ k * b ^ (-k).toNat = b ^ k.toNat := by
  rw [← zpow_natCast, ← zpow_natCast, ← zpow_add₀ hb]
  congr 1
  omega

section Basin

variable (d : Dyadic) (n c : Nat) (q : Int)

/-- A decimal and some quarters of the last place stand to each other as whole numbers. -/
theorem quarters_scale : ∃ s : ℚ, 0 < s ∧
    (c : ℚ) * 10 ^ q * s = (c * tenTo q.toNat * (Basin.ofDyadic d).den : Nat) ∧
    (n : ℚ) / 4 * 2 ^ d.exponent * s = (n * (tenTo (-q).toNat * (Basin.ofDyadic d).num) : Nat) := by
  have hTen : (10 : ℚ) ^ q * 10 ^ (-q).toNat = 10 ^ q.toNat := zpow_mul_pow_toNat (by norm_num) q
  have hTwo :
      (2 : ℚ) ^ (d.exponent - 2) * 2 ^ (2 - d.exponent).toNat = 2 ^ (d.exponent - 2).toNat := by
    have hPower := zpow_mul_pow_toNat (by norm_num : (2 : ℚ) ≠ 0) (d.exponent - 2)
    rw [neg_sub] at hPower
    exact hPower
  have hQuarter : (2 : ℚ) ^ d.exponent / 4 = 2 ^ (d.exponent - 2) := by
    rw [zpow_sub₀ (by norm_num)]
    norm_num
  refine ⟨10 ^ (-q).toNat * 2 ^ (2 - d.exponent).toNat, by positivity, ?_, ?_⟩
  · show _ = ((c * 10 ^ q.toNat * 2 ^ (2 - d.exponent).toNat : Nat) : ℚ)
    push_cast
    rw [← hTen]
    ring
  · show _ = ((n * (10 ^ (-q).toNat * 2 ^ (d.exponent - 2).toNat) : Nat) : ℚ)
    push_cast
    rw [← hTwo, ← hQuarter]
    ring

theorem quarters_le_point :
    n * (tenTo (-q).toNat * (Basin.ofDyadic d).num) ≤ c * tenTo q.toNat * (Basin.ofDyadic d).den ↔
      (n : ℚ) / 4 * 2 ^ d.exponent ≤ c * 10 ^ q := by
  obtain ⟨s, hs, hPoint, hQuarters⟩ := quarters_scale d n c q
  rw [← Nat.cast_le (α := ℚ), ← hPoint, ← hQuarters]
  exact mul_le_mul_iff_of_pos_right hs

theorem point_le_quarters :
    c * tenTo q.toNat * (Basin.ofDyadic d).den ≤ n * (tenTo (-q).toNat * (Basin.ofDyadic d).num) ↔
      (c : ℚ) * 10 ^ q ≤ n / 4 * 2 ^ d.exponent := by
  obtain ⟨s, hs, hPoint, hQuarters⟩ := quarters_scale d n c q
  rw [← Nat.cast_le (α := ℚ), ← hPoint, ← hQuarters]
  exact mul_le_mul_iff_of_pos_right hs

end Basin

section Found

variable {d : Dyadic} {c : Nat} {q : Int}

/-- The lower end of the range, in quarters of the last place. -/
theorem low_eq (hPos : 0 < d.mantissa) :
    ((Basin.ofDyadic d).low : ℚ) / 4 = d.mantissa - lowGap d.mantissa d.exponent := by
  have hLow : (Basin.ofDyadic d).low = 4 * d.mantissa -
      (if d.mantissa == twoTo 52 && -1074 < d.exponent then 1 else 2) := rfl
  have hGap : lowGap d.mantissa d.exponent =
      ((if d.mantissa == twoTo 52 && -1074 < d.exponent then 1 else 2 : Nat) : ℚ) / 4 := by
    unfold lowGap
    by_cases hFirst : d.mantissa = 2 ^ 52 ∧ -1074 < d.exponent
    · have hTest : (d.mantissa == twoTo 52 && decide (-1074 < d.exponent)) = true := by
        rw [Bool.and_eq_true, beq_iff_eq, decide_eq_true_eq]
        exact hFirst
      rw [if_pos hFirst, if_pos hTest]
      norm_num
    · have hTest : ¬ (d.mantissa == twoTo 52 && decide (-1074 < d.exponent)) = true := by
        rw [Bool.and_eq_true, beq_iff_eq, decide_eq_true_eq]
        exact hFirst
      rw [if_neg hFirst, if_neg hTest]
      norm_num
  rw [hLow, hGap, Nat.cast_sub]
  · push_cast
    ring
  · split <;> omega

theorem high_eq : ((Basin.ofDyadic d).high : ℚ) / 4 = d.mantissa + 1 / 2 := by
  show ((4 * d.mantissa + 2 : Nat) : ℚ) / 4 = _
  push_cast
  ring

/-- The test on whole numbers is the one on the exact number. -/
theorem rounds_of_holds (hPos : 0 < d.mantissa) (h : (Basin.ofDyadic d).holds c q = true) :
    Rounds d.mantissa d.exponent (c * 10 ^ q) := by
  have hLow := quarters_le_point d (Basin.ofDyadic d).low c q
  have hHigh := point_le_quarters d (Basin.ofDyadic d).high c q
  have hAbove := point_le_quarters d (Basin.ofDyadic d).low c q
  have hBelow := quarters_le_point d (Basin.ofDyadic d).high c q
  rw [low_eq hPos] at hLow hAbove
  rw [high_eq] at hHigh hBelow
  unfold Basin.holds at h
  dsimp only at h
  by_cases hClosed : (Basin.ofDyadic d).closed = true
  · rw [if_pos hClosed, Bool.and_eq_true, decide_eq_true_eq, decide_eq_true_eq] at h
    refine ⟨hLow.1 h.1, hHigh.1 h.2, fun _ => ?_⟩
    exact beq_iff_eq.1 hClosed
  · rw [if_neg hClosed, Bool.and_eq_true, decide_eq_true_eq, decide_eq_true_eq] at h
    refine ⟨hLow.1 h.1.le, hHigh.1 h.2.le, ?_⟩
    rintro (hEnd | hEnd)
    · exact absurd (hAbove.2 hEnd.le) (Nat.not_le.2 h.1)
    · exact absurd (hBelow.2 hEnd.ge) (Nat.not_le.2 h.2)

/-- What lies strictly within the range passes the test. -/
theorem holds_of_within (hPos : 0 < d.mantissa)
    (hFrom : ((d.mantissa : ℚ) - lowGap d.mantissa d.exponent) * 2 ^ d.exponent < c * 10 ^ q)
    (hTo : (c : ℚ) * 10 ^ q < (d.mantissa + 1 / 2) * 2 ^ d.exponent) :
    (Basin.ofDyadic d).holds c q = true := by
  have hAbove := point_le_quarters d (Basin.ofDyadic d).low c q
  have hBelow := quarters_le_point d (Basin.ofDyadic d).high c q
  rw [low_eq hPos] at hAbove
  rw [high_eq] at hBelow
  have hLow := Nat.not_le.1 fun h => absurd (hAbove.1 h) (not_le.2 hFrom)
  have hHigh := Nat.not_le.1 fun h => absurd (hBelow.1 h) (not_le.2 hTo)
  unfold Basin.holds
  dsimp only
  split <;> rw [Bool.and_eq_true, decide_eq_true_eq, decide_eq_true_eq]
  · exact ⟨hLow.le, hHigh.le⟩
  · exact ⟨hLow, hHigh⟩

/-! ## The search -/

/-- What is found on a grid rounds to the double. -/
theorem onGrid?_rounds {p : Decimal} (hPos : 0 < d.mantissa)
    (h : (Basin.ofDyadic d).onGrid? q = some p) :
    0 < p.digits ∧ Rounds d.mantissa d.exponent (p.digits * 10 ^ p.exponent) := by
  generalize hb : (Basin.ofDyadic d).below q = place
  obtain ⟨c, distance⟩ := place
  have hHit : 0 < p.digits ∧ (Basin.ofDyadic d).holds p.digits p.exponent = true := by
    unfold Basin.onGrid? at h
    rw [hb] at h
    dsimp only at h
    generalize hFirst : ((Basin.ofDyadic d).holds c q && c != 0) = first at h
    generalize hSecond : (Basin.ofDyadic d).holds (c + 1) q = second at h
    have hOfFirst : first = true → 0 < c ∧ (Basin.ofDyadic d).holds c q = true := by
      rintro rfl
      rw [Bool.and_eq_true, bne_iff_ne] at hFirst
      exact ⟨Nat.pos_of_ne_zero hFirst.2, hFirst.1⟩
    cases first <;> cases second
    · cases h
    · cases h
      exact ⟨Nat.succ_pos c, hSecond⟩
    · cases h
      exact hOfFirst rfl
    · cases distance
      · cases h
        exact hOfFirst rfl
      · cases h
        rcases Nat.mod_two_eq_zero_or_one c with hEven | hOdd
        · rw [hEven]
          exact hOfFirst rfl
        · rw [hOdd]
          exact ⟨Nat.succ_pos c, hSecond⟩
      · cases h
        exact ⟨Nat.succ_pos c, hSecond⟩
  exact ⟨hHit.1, rounds_of_holds hPos hHit.2⟩

/-- The point at or below the double, on a grid. -/
theorem below_le (d : Dyadic) (q : Int) :
    ((((Basin.ofDyadic d).below q).1 : ℚ) * 10 ^ q ≤ d.value) ∧
      d.value < (((Basin.ofDyadic d).below q).1 + 1) * 10 ^ q := by
  generalize hc : ((Basin.ofDyadic d).below q).1 = c
  have hDen : 0 < (Basin.ofDyadic d).den * tenTo q.toNat := Nat.mul_pos (twoTo_pos _) (tenTo_pos _)
  have hFloor : 4 * d.mantissa * (Basin.ofDyadic d).num * tenTo (-q).toNat /
      ((Basin.ofDyadic d).den * tenTo q.toNat) = c := hc
  have hCentre : ((4 * d.mantissa : Nat) : ℚ) / 4 * 2 ^ d.exponent = d.value := by
    unfold Dyadic.value
    push_cast
    ring
  constructor
  · rw [← hCentre, ← point_le_quarters]
    have hFrom := Nat.div_mul_le_self (4 * d.mantissa * (Basin.ofDyadic d).num * tenTo (-q).toNat)
      ((Basin.ofDyadic d).den * tenTo q.toNat)
    rw [hFloor] at hFrom
    calc c * tenTo q.toNat * (Basin.ofDyadic d).den
        = c * ((Basin.ofDyadic d).den * tenTo q.toNat) := by ring
      _ ≤ 4 * d.mantissa * (Basin.ofDyadic d).num * tenTo (-q).toNat := hFrom
      _ = _ := by ring
  · have hCast : ((c : ℚ) + 1) = ((c + 1 : Nat) : ℚ) := by push_cast; rfl
    have hTo : 4 * d.mantissa * (Basin.ofDyadic d).num * tenTo (-q).toNat <
        (c + 1) * ((Basin.ofDyadic d).den * tenTo q.toNat) := by
      rw [← Nat.div_lt_iff_lt_mul hDen, hFloor]
      exact Nat.lt_succ_self c
    rw [← hCentre, hCast, ← not_le, ← point_le_quarters, not_le]
    calc 4 * d.mantissa * (tenTo (-q).toNat * (Basin.ofDyadic d).num)
        = 4 * d.mantissa * (Basin.ofDyadic d).num * tenTo (-q).toNat := by ring
      _ < (c + 1) * ((Basin.ofDyadic d).den * tenTo q.toNat) := hTo
      _ = _ := by ring

/-- A grid with steps of less than half the last place has a point that rounds to the double. -/
theorem onGrid?_fine (hPos : 0 < d.mantissa) (hFine : (10 : ℚ) ^ q < 2 ^ d.exponent / 2) :
    (Basin.ofDyadic d).onGrid? q ≠ none := by
  obtain ⟨hBelow, hAbove⟩ := below_le d q
  generalize hb : (Basin.ofDyadic d).below q = place at hBelow hAbove
  obtain ⟨c, distance⟩ := place
  have hUnit := two_zpow_pos d.exponent
  have hNext : (Basin.ofDyadic d).holds (c + 1) q = true := by
    apply holds_of_within hPos
    · push_cast
      refine lt_of_le_of_lt ?_ hAbove
      apply mul_le_mul_of_nonneg_right _ hUnit.le
      have hGap := lowGap_pos d.mantissa d.exponent
      linarith
    · push_cast
      have hStep : ((c : ℚ) + 1) * 10 ^ q = c * 10 ^ q + 10 ^ q := by ring
      have hEnd : ((d.mantissa : ℚ) + 1 / 2) * 2 ^ d.exponent = d.value + 2 ^ d.exponent / 2 := by
        unfold Dyadic.value
        ring
      rw [hStep, hEnd]
      exact add_lt_add_of_le_of_lt hBelow hFine
  unfold Basin.onGrid?
  rw [hb]
  dsimp only
  rw [hNext]
  generalize ((Basin.ofDyadic d).holds c q && c != 0) = first
  cases first
  · exact Option.some_ne_none _
  · cases distance <;> exact Option.some_ne_none _

/-- The search looks at as many grids as it is told to. -/
theorem search_rounds (hPos : 0 < d.mantissa) {fuel k : Nat} (hk : k < fuel)
    (hFine : (10 : ℚ) ^ (q - k) < 2 ^ d.exponent / 2) :
    ∃ p, (Basin.ofDyadic d).search fuel q = some p ∧
      0 < p.digits ∧ Rounds d.mantissa d.exponent (p.digits * 10 ^ p.exponent) := by
  induction fuel generalizing q k with
  | zero => cases hk
  | succ fuel ih =>
      unfold Basin.search
      generalize hGrid : (Basin.ofDyadic d).onGrid? q = found
      cases found with
      | some p => exact ⟨p, rfl, onGrid?_rounds hPos hGrid⟩
      | none =>
          obtain _ | k := k
          · rw [Int.natCast_zero, Int.sub_zero] at hFine
            exact absurd hGrid (onGrid?_fine hPos hFine)
          · have hSame : q - 1 - (k : Int) = q - ((k + 1 : Nat) : Int) := by omega
            exact ih (Nat.lt_of_succ_lt_succ hk) (by rw [hSame]; exact hFine)

end Found

/-! ## Where it starts -/

theorem lt_tenTo_digitCount (n : Nat) : n < 10 ^ digitCount n :=
  (Nat.length_toDigits_le_iff (by norm_num) Nat.length_toDigits_pos).1 le_rfl

theorem tenTo_digitCount_le {n : Nat} (h : 0 < n) : 10 ^ (digitCount n - 1) ≤ n := by
  by_cases hOne : digitCount n = 1
  · rw [hOne]
    exact h
  · have hMore : 0 < digitCount n := Nat.length_toDigits_pos
    rw [← Nat.not_lt, ← Nat.length_toDigits_le_iff (b := 10) (by norm_num) (by omega)]
    show ¬ digitCount n ≤ _
    omega

theorem value_eq (d : Dyadic) : d.value = d.num / d.den := by
  have hPower := zpow_mul_pow_toNat (by norm_num : (2 : ℚ) ≠ 0) d.exponent
  have hDen : (0 : ℚ) < d.den := by exact_mod_cast d.den_pos
  rw [eq_div_iff hDen.ne']
  show (d.mantissa : ℚ) * 2 ^ d.exponent * ((2 ^ (-d.exponent).toNat : Nat) : ℚ) =
    ((d.mantissa * 2 ^ d.exponent.toNat : Nat) : ℚ)
  push_cast
  rw [mul_assoc, hPower]

/-- The search starts at most two places above the first digit. -/
theorem topExponent_le {d : Dyadic} (hPos : 0 < d.mantissa) :
    (10 : ℚ) ^ d.topExponent ≤ 100 * d.value := by
  have hDen : (0 : ℚ) < d.den := by exact_mod_cast d.den_pos
  have hNumPos : 0 < d.num := Nat.mul_pos hPos (twoTo_pos _)
  have hNum : (0 : ℚ) < d.num := by exact_mod_cast hNumPos
  rw [value_eq]
  unfold Dyadic.topExponent
  split
  · rename_i hWhole
    have hSome : 0 < d.num / d.den := Nat.div_pos hWhole d.den_pos
    have hCount : 1 ≤ digitCount (d.num / d.den) := Nat.length_toDigits_pos
    have hDigits : (10 : ℚ) ^ (digitCount (d.num / d.den) - 1) ≤ (d.num / d.den : Nat) := by
      exact_mod_cast tenTo_digitCount_le hSome
    have hFloor : ((d.num / d.den : Nat) : ℚ) ≤ d.num / d.den := Nat.cast_div_le
    calc (10 : ℚ) ^ ((digitCount (d.num / d.den) : Nat) : Int)
        = 10 * 10 ^ (digitCount (d.num / d.den) - 1) := by
          rw [zpow_natCast, ← pow_succ', Nat.sub_add_cancel hCount]
      _ ≤ 10 * (d.num / d.den) := by linarith
      _ ≤ 100 * (d.num / d.den) := by
          have hValue : (0 : ℚ) < d.num / d.den := div_pos hNum hDen
          linarith
  · have hTo : d.den < (d.den / d.num + 1) * d.num := by
      rw [Nat.add_mul, Nat.one_mul]
      have hSplit := Nat.div_add_mod d.den d.num
      have hRest := Nat.mod_lt d.den hNumPos
      rw [Nat.mul_comm] at hSplit
      omega
    have hLess : (d.den : ℚ) < 10 ^ digitCount (d.den / d.num) * d.num := by
      have hDigits : d.den / d.num + 1 ≤ 10 ^ digitCount (d.den / d.num) := lt_tenTo_digitCount _
      exact_mod_cast hTo.trans_le (Nat.mul_le_mul_right _ hDigits)
    have hPower : (0 : ℚ) < 10 ^ digitCount (d.den / d.num) := by positivity
    rw [zpow_sub₀ (by norm_num), zpow_natCast, div_le_iff₀ hPower]
    have hOne : 1 < 10 ^ digitCount (d.den / d.num) * (d.num : ℚ) / d.den :=
      (one_lt_div hDen).2 hLess
    calc (10 : ℚ) ^ (2 : Int) = 100 * 1 := by norm_num
      _ ≤ 100 * (10 ^ digitCount (d.den / d.num) * (d.num : ℚ) / d.den) := by linarith
      _ = _ := by ring

/-- The shortest decimal of a double rounds to it. -/
theorem shortest_rounds {d : Dyadic} (hPos : 0 < d.mantissa)
    (hc : Canonical d.mantissa d.exponent) :
    0 < (shortest d).digits ∧
      Rounds d.mantissa d.exponent ((shortest d).digits * 10 ^ (shortest d).exponent) := by
  have hUnit := two_zpow_pos d.exponent
  have hShort : (d.mantissa : ℚ) < 2 ^ 53 := by exact_mod_cast hc.short
  have hFine : (10 : ℚ) ^ (d.topExponent - (19 : Nat)) < 2 ^ d.exponent / 2 := by
    rw [zpow_sub₀ (by norm_num), zpow_natCast, div_lt_iff₀ (by norm_num)]
    calc (10 : ℚ) ^ d.topExponent ≤ 100 * d.value := topExponent_le hPos
      _ < 100 * (2 ^ 53 * 2 ^ d.exponent) := by
          unfold Dyadic.value
          gcongr
      _ ≤ 2 ^ d.exponent / 2 * 10 ^ 19 := by
          have hScale : (100 : ℚ) * 2 ^ 53 ≤ 10 ^ 19 / 2 := by norm_num
          linarith [mul_le_mul_of_nonneg_right hScale hUnit.le]
  obtain ⟨p, hSearch, hFound⟩ := search_rounds hPos (by norm_num : 19 < 20) hFine
  have hShortest : shortest d = p := by
    unfold shortest
    rw [if_neg, hSearch]
    · rfl
    · rw [beq_iff_eq]
      exact hPos.ne'
  rw [hShortest]
  exact hFound

end BatchStore.Number
