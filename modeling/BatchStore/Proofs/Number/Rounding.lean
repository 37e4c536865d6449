import Mathlib.Algebra.Order.Field.Power
import Mathlib.Algebra.Order.Field.Rat
import Mathlib.Data.Nat.Log
import Mathlib.Tactic.FieldSimp
import Mathlib.Tactic.Linarith
import Mathlib.Tactic.Positivity
import Mathlib.Tactic.Ring
import BatchStore.Proofs.Number.Bits

/-!
# Rounding to the nearest double

The model of doubles rounds by shifting: a whole part is shifted to the right until it fits
into 53 bits, and two bits behind it remember whether what was shifted out is nothing, less than
one half, one half, or more. Here the outcome is described by the exact number instead.
`Rounds m e v` says that `v` lies in the range around `m · 2 ^ e` whose numbers have this double
as the nearest one, and then products and quotients of the value `v` are rounded to it
(`Rounds.mul_eq`, `Rounds.div_eq`).

* `Stands` is the invariant of the shift: a whole part with its two bits stands for an exact
  number (`Stands.shift`), and tells which whole number is nearest (`Stands.rounded`).
* `Rounds.target` finds the exponent to which the whole part is shifted: that of the double, or
  the one below if the number lies below the first double of an exponent.
-/

namespace BatchStore.Number

open Float.Model UnpackedFloat

/-! ## Shifting -/

/-- A mantissa with the two bits behind it, as it stands for an exact number: the number is at
least the mantissa and less than the next one, the first bit says whether it is at least half
way up, and the second whether it is neither at the start nor half way. -/
structure Stands (em : ExtendedMantissa) (x : ℚ) : Prop where
  low : (em.mantissa : ℚ) ≤ x
  high : x < em.mantissa + 1
  half : em.roundBit = true ↔ em.mantissa + 1 / 2 ≤ x
  rest : em.stickyBit = true ↔ x ≠ em.mantissa ∧ x ≠ em.mantissa + 1 / 2

theorem Stands.shiftRightOne {em : ExtendedMantissa} {x : ℚ} (h : Stands em x) :
    Stands em.shiftRightOne (x / 2) := by
  obtain ⟨m, half, rest⟩ := em
  obtain ⟨hLow, hHigh, hHalf, hRest⟩ := h
  dsimp only at *
  have hExact : (half || rest) = true ↔ x ≠ m := by
    rw [Bool.or_eq_true, hHalf, hRest]
    constructor
    · rintro (hUpper | ⟨hNe, -⟩) hEq
      · linarith
      · exact hNe hEq
    · intro hNe
      by_cases hUpper : (m : ℚ) + 1 / 2 ≤ x
      · exact .inl hUpper
      · exact .inr ⟨hNe, fun hEq => hUpper hEq.ge⟩
  rcases Nat.even_or_odd' m with ⟨k, rfl | rfl⟩
  · have hMantissa : 2 * k / 2 = k := by omega
    have hBit : (2 * k % 2 != 0) = false := by simp
    push_cast at *
    refine ⟨?_, ?_, ?_, ?_⟩ <;> simp only [ExtendedMantissa.shiftRightOne, hMantissa, hBit]
    · linarith
    · linarith
    · constructor
      · intro hNever
        cases hNever
      · intro hUpper
        linarith
    · rw [hExact]
      constructor
      · intro hNe
        constructor
        · intro hEq
          exact hNe (by linarith)
        · intro hEq
          linarith
      · rintro ⟨hNe, -⟩ hEq
        exact hNe (by linarith)
  · have hMantissa : (2 * k + 1) / 2 = k := by omega
    have hBit : ((2 * k + 1) % 2 != 0) = true := by simp [Nat.add_mod]
    push_cast at *
    refine ⟨?_, ?_, ?_, ?_⟩ <;> simp only [ExtendedMantissa.shiftRightOne, hMantissa, hBit]
    · linarith
    · linarith
    · constructor
      · intro _
        linarith
      · intro _
        trivial
    · rw [hExact]
      constructor
      · intro hNe
        constructor
        · intro hEq
          linarith
        · intro hEq
          exact hNe (by linarith)
      · rintro ⟨-, hNe⟩ hEq
        exact hNe (by linarith)

theorem Stands.shift {em : ExtendedMantissa} {x : ℚ} (h : Stands em x) (k : Nat) :
    Stands (em >>> k) (x / 2 ^ k) := by
  induction k with
  | zero =>
      rw [pow_zero, div_one]
      exact h
  | succ k ih =>
      have hNext := ih.shiftRightOne
      rw [pow_succ, ← div_div]
      exact hNext

/-- Natural numbers less than one apart are the same. -/
theorem eq_of_near {m r : Nat} (hLow : (r : ℚ) < m + 1) (hHigh : (m : ℚ) < r + 1) : m = r := by
  have hBelow : r < m + 1 := by exact_mod_cast hLow
  have hAbove : m < r + 1 := by exact_mod_cast hHigh
  omega

/-- The mantissa nearest to what an extended one stands for, of two at one distance the even
one. -/
theorem Stands.rounded {em : ExtendedMantissa} {x : ℚ} (h : Stands em x) {r : Nat}
    (hLow : (r : ℚ) - 1 / 2 ≤ x) (hHigh : x ≤ r + 1 / 2)
    (hTie : x = r - 1 / 2 ∨ x = r + 1 / 2 → r % 2 = 0) : em.roundedMantissa = r := by
  obtain ⟨m, half, rest⟩ := em
  obtain ⟨hFrom, hTo, hHalf, hRest⟩ := h
  dsimp only at *
  cases half <;> cases rest
  · -- exact
    have hBelow : ¬ (m : ℚ) + 1 / 2 ≤ x := fun hUpper => nomatch hHalf.2 hUpper
    have hExact : x = m := by
      by_contra hNe
      have hSticky := hRest.2 ⟨hNe, fun hEq => hBelow hEq.ge⟩
      cases hSticky
    show m = r
    exact eq_of_near (by linarith) (by linarith)
  · -- below the middle
    have hBelow : ¬ (m : ℚ) + 1 / 2 ≤ x := fun hUpper => nomatch hHalf.2 hUpper
    have hNe : x ≠ m := (hRest.1 rfl).1
    have hAbove : (m : ℚ) < x := lt_of_le_of_ne hFrom hNe.symm
    show m = r
    exact eq_of_near (by linarith) (by linarith)
  · -- the middle
    have hUpper : (m : ℚ) + 1 / 2 ≤ x := hHalf.1 rfl
    have hMiddle : x = m + 1 / 2 := by
      by_contra hNe
      have hSticky := hRest.2 ⟨fun hEq => by linarith, hNe⟩
      cases hSticky
    show m + m % 2 = r
    have hNear : r = m ∨ r = m + 1 := by
      have hBelow : r ≤ m + 1 := by exact_mod_cast (by linarith : (r : ℚ) ≤ m + 1)
      have hAbove : m ≤ r := by exact_mod_cast (by linarith : (m : ℚ) ≤ r)
      omega
    rcases hNear with rfl | rfl
    · have hEven := hTie (.inr hMiddle)
      omega
    · have hEven := hTie (.inl (by push_cast; linarith))
      omega
  · -- above the middle
    have hUpper : (m : ℚ) + 1 / 2 ≤ x := hHalf.1 rfl
    have hNe : x ≠ m + 1 / 2 := (hRest.1 rfl).2
    have hAbove : (m : ℚ) + 1 / 2 < x := lt_of_le_of_ne hUpper hNe.symm
    show m + 1 = r
    exact eq_of_near (by push_cast; linarith) (by push_cast; linarith)

/-- What is known of an exact number from its whole part and from how the rest compares with
one half. -/
def Measures (m : Nat) (x : ℚ) : Accuracy → Prop
  | .exact => x = m
  | .inexact .lt => m < x ∧ x < m + 1 / 2
  | .inexact .eq => x = m + 1 / 2
  | .inexact .gt => m + 1 / 2 < x ∧ x < m + 1

theorem stands_of_measures {m : Nat} {x : ℚ} {accuracy : Accuracy} (h : Measures m x accuracy) :
    Stands (ExtendedMantissa.ofMantissaAndAccuracy m accuracy) x := by
  rcases accuracy with _ | ⟨_ | _ | _⟩
  · have hx : x = m := h
    subst hx
    refine ⟨le_rfl, ?_, ?_, ?_⟩ <;> simp [ExtendedMantissa.ofMantissaAndAccuracy]
  · obtain ⟨hLow, hHigh⟩ := h
    refine ⟨hLow.le, ?_, ?_, ?_⟩ <;> simp only [ExtendedMantissa.ofMantissaAndAccuracy]
    · linarith
    · simpa using hHigh
    · exact ⟨fun _ => ⟨hLow.ne', hHigh.ne⟩, fun _ => trivial⟩
  · have hx : x = m + 1 / 2 := h
    subst hx
    refine ⟨?_, ?_, ?_, ?_⟩ <;> simp only [ExtendedMantissa.ofMantissaAndAccuracy]
    · linarith
    · linarith
    · simp
    · simp
  · obtain ⟨hLow, hHigh⟩ := h
    refine ⟨?_, hHigh, ?_, ?_⟩ <;> simp only [ExtendedMantissa.ofMantissaAndAccuracy]
    · linarith
    · simpa using hLow.le
    · refine ⟨fun _ => ⟨fun hEq => ?_, hLow.ne'⟩, fun _ => trivial⟩
      linarith

/-! ## The exponent -/

theorem target_eq (m : Nat) (e : Int) :
    Format.binary64.targetExponent (totalExponent m e) = max ((m.log2 : Int) + e - 52) (-1074) := by
  have hTarget : Format.binary64.targetExponent (totalExponent m e) =
      max ((m.log2 : Int) + 1 + e - 53) (-1074) := rfl
  rw [hTarget]
  omega

/-- A mantissa that is short enough is not shifted. -/
theorem shiftToTarget_short {r : Nat} {e : Int} (hShort : r < 2 ^ 53) (hLow : -1074 ≤ e) :
    shiftToTargetExponent Format.binary64 r e .exact = (⟨r, false, false⟩, e) := by
  have hLog : r.log2 ≤ 52 := by
    by_cases hZero : r = 0
    · subst hZero
      decide
    · have := (Nat.log2_lt hZero).2 hShort
      omega
  have hShift : (Format.binary64.targetExponent (totalExponent r e) - e).toNat = 0 := by
    rw [target_eq]
    omega
  unfold shiftToTargetExponent shiftToExponent
  dsimp only
  rw [hShift]
  show (_, e + ((0 : Nat) : Int)) = _
  rw [Int.natCast_zero, Int.add_zero]
  rfl

/-- A mantissa that has grown by one bit is shifted back. -/
theorem shiftToTarget_full {e : Int} (hLow : -1074 ≤ e) :
    shiftToTargetExponent Format.binary64 (2 ^ 53) e .exact = (⟨2 ^ 52, false, false⟩, e + 1) := by
  have hLog : (2 ^ 53 : Nat).log2 = 53 := Nat.log2_two_pow
  have hShift : (Format.binary64.targetExponent (totalExponent (2 ^ 53) e) - e).toNat = 1 := by
    rw [target_eq, hLog]
    omega
  unfold shiftToTargetExponent shiftToExponent
  dsimp only
  rw [hShift]
  rfl

/-- The distance down to the middle between a double and the next smaller one, in units of its
last place. -/
def lowGap (m : Nat) (e : Int) : ℚ := if m = 2 ^ 52 ∧ -1074 < e then 1 / 4 else 1 / 2

/-- An exact number to which `m · 2 ^ e` is the nearest double; an end of the range belongs to
it if the mantissa is even. -/
structure Rounds (m : Nat) (e : Int) (v : ℚ) : Prop where
  low : ((m : ℚ) - lowGap m e) * 2 ^ e ≤ v
  high : v ≤ ((m : ℚ) + 1 / 2) * 2 ^ e
  tie : v = ((m : ℚ) - lowGap m e) * 2 ^ e ∨ v = ((m : ℚ) + 1 / 2) * 2 ^ e → m % 2 = 0

/-- What is rounded to a mantissa at its own exponent. -/
theorem roundWithAccuracy_of_rounded (s : Sign) {n r : Nat} {e t : Int} {accuracy : Accuracy}
    {v : ℚ} (hMeasures : Measures n (v / 2 ^ e) accuracy)
    (hTarget : max ((n.log2 : Int) + e - 52) (-1074) = t) (hExponent : e ≤ t)
    (hLow : (r : ℚ) - 1 / 2 ≤ v / 2 ^ t) (hHigh : v / 2 ^ t ≤ r + 1 / 2)
    (hTie : v / 2 ^ t = r - 1 / 2 ∨ v / 2 ^ t = r + 1 / 2 → r % 2 = 0) :
    roundWithAccuracy Format.binary64 s n e accuracy =
      let final := shiftToTargetExponent Format.binary64 r t .exact
      if h : final.1.mantissa = 0 then .zero s
      else .finite s final.1.mantissa final.2 (Nat.pos_of_ne_zero h) := by
  have hStands := (stands_of_measures hMeasures).shift (t - e).toNat
  have hScale : v / 2 ^ e / 2 ^ (t - e).toNat = v / 2 ^ t := by
    rw [div_div, ← zpow_natCast, ← zpow_add₀ (by norm_num : (2 : ℚ) ≠ 0)]
    congr 2
    omega
  rw [hScale] at hStands
  have hFirst : shiftToTargetExponent Format.binary64 n e accuracy =
      (ExtendedMantissa.ofMantissaAndAccuracy n accuracy >>> (t - e).toNat, t) := by
    unfold shiftToTargetExponent shiftToExponent
    dsimp only
    rw [target_eq, hTarget]
    congr 1
    omega
  have hRounded := hStands.rounded hLow hHigh hTie
  unfold roundWithAccuracy
  rw [hFirst]
  dsimp only
  rw [hRounded]

theorem Measures.bounds {m : Nat} {x : ℚ} {accuracy : Accuracy} (h : Measures m x accuracy) :
    (m : ℚ) ≤ x ∧ x < m + 1 := by
  have hStands := stands_of_measures h
  have hMantissa : (ExtendedMantissa.ofMantissaAndAccuracy m accuracy).mantissa = m := by
    rcases accuracy with _ | ⟨_ | _ | _⟩ <;> rfl
  have hLow := hStands.low
  have hHigh := hStands.high
  rw [hMantissa] at hLow hHigh
  exact ⟨hLow, hHigh⟩

theorem two_zpow_pos (e : Int) : (0 : ℚ) < 2 ^ e := zpow_pos (by norm_num) e

theorem two_zpow_lt {a b : Int} (h : (2 : ℚ) ^ a < 2 ^ b) : a < b :=
  (zpow_lt_zpow_iff_right₀ (by norm_num)).1 h

/-- The power of two at or below a number, by its whole part. -/
theorem Measures.binade {n : Nat} {e : Int} {v : ℚ} {accuracy : Accuracy}
    (h : Measures n (v / 2 ^ e) accuracy) (hPos : 0 < n) :
    (2 : ℚ) ^ ((n.log2 : Int) + e) ≤ v ∧ v < 2 ^ ((n.log2 : Int) + e + 1) := by
  have hUnit := two_zpow_pos e
  obtain ⟨hLow, hHigh⟩ := h.bounds
  rw [le_div_iff₀ hUnit] at hLow
  rw [div_lt_iff₀ hUnit] at hHigh
  have hFrom : (2 : ℚ) ^ n.log2 ≤ n := by exact_mod_cast Nat.log2_self_le (by omega)
  have hTo : (n : ℚ) + 1 ≤ 2 ^ (n.log2 + 1) := by exact_mod_cast Nat.lt_log2_self
  constructor
  · rw [zpow_add₀ (by norm_num), zpow_natCast]
    calc (2 : ℚ) ^ n.log2 * 2 ^ e ≤ n * 2 ^ e := by gcongr
      _ ≤ v := hLow
  · have hSplit : (2 : ℚ) ^ ((n.log2 : Int) + e + 1) = 2 ^ (n.log2 + 1) * 2 ^ e := by
      rw [← zpow_natCast, ← zpow_add₀ (by norm_num : (2 : ℚ) ≠ 0)]
      congr 1
      push_cast
      ring
    rw [hSplit]
    calc v < (n + 1) * 2 ^ e := hHigh
      _ ≤ 2 ^ (n.log2 + 1) * 2 ^ e := by gcongr

/-! ## The nearest double -/

section Nearest

variable {m : Nat} {e : Int} {v : ℚ}

theorem lowGap_le (m : Nat) (e : Int) : lowGap m e ≤ 1 / 2 := by
  unfold lowGap
  split <;> norm_num

theorem lowGap_pos (m : Nat) (e : Int) : 0 < lowGap m e := by
  unfold lowGap
  split <;> norm_num

/-- A double is the nearest one to itself. -/
theorem rounds_self (m : Nat) (e : Int) : Rounds m e (m * 2 ^ e) := by
  have hUnit := two_zpow_pos e
  have hGap := lowGap_pos m e
  have hLow : ((m : ℚ) - lowGap m e) * 2 ^ e < m * 2 ^ e :=
    mul_lt_mul_of_pos_right (by linarith) hUnit
  have hHigh : (m : ℚ) * 2 ^ e < (m + 1 / 2) * 2 ^ e :=
    mul_lt_mul_of_pos_right (by linarith) hUnit
  refine ⟨hLow.le, hHigh.le, ?_⟩
  rintro (hEnd | hEnd)
  · exact absurd hEnd hLow.ne'
  · exact absurd hEnd hHigh.ne

theorem Rounds.lt_full (h : Rounds m e v) (hc : Canonical m e) : v < 2 ^ (53 + e) := by
  have hUnit := two_zpow_pos e
  have hShort : (m : ℚ) + 1 ≤ 2 ^ 53 := by exact_mod_cast hc.short
  rw [zpow_add₀ (by norm_num)]
  calc v ≤ ((m : ℚ) + 1 / 2) * 2 ^ e := h.high
    _ < 2 ^ 53 * 2 ^ e := by
        apply mul_lt_mul_of_pos_right _ hUnit
        linarith

theorem Rounds.ge_half (h : Rounds m e v) : ((m : ℚ) - 1 / 2) * 2 ^ e ≤ v := by
  have hUnit := two_zpow_pos e
  have hGap := lowGap_le m e
  calc ((m : ℚ) - 1 / 2) * 2 ^ e ≤ ((m : ℚ) - lowGap m e) * 2 ^ e := by gcongr
    _ ≤ v := h.low

theorem Rounds.gt_half_full (h : Rounds m e v) (hFull : 2 ^ 52 ≤ m) : (2 : ℚ) ^ (51 + e) < v := by
  have hUnit := two_zpow_pos e
  have hLong : (2 : ℚ) ^ 52 ≤ m := by exact_mod_cast hFull
  rw [zpow_add₀ (by norm_num)]
  calc (2 : ℚ) ^ 51 * 2 ^ e < ((m : ℚ) - 1 / 2) * 2 ^ e := by
        apply mul_lt_mul_of_pos_right _ hUnit
        have hPower : (2 : ℚ) ^ 51 < 2 ^ 52 - 1 / 2 := by norm_num
        linarith
    _ ≤ v := h.ge_half

/-- A number that rounds to a double has its exponent, or the one below if the double is the
first of its exponent. -/
theorem Rounds.target (h : Rounds m e v) (hc : Canonical m e) {n : Nat} {f : Int}
    {accuracy : Accuracy} (hMeasures : Measures n (v / 2 ^ f) accuracy)
    (hExponent : f ≤ max ((n.log2 : Int) + f - 52) (-1074)) :
    max ((n.log2 : Int) + f - 52) (-1074) = e ∨
      max ((n.log2 : Int) + f - 52) (-1074) = e - 1 ∧ m = 2 ^ 52 ∧ -1074 < e ∧
        v < 2 ^ (52 + e) := by
  have hHigh := h.lt_full hc
  have hLow := hc.low
  by_cases hLowest : e = -1074
  · -- all shorter mantissas have the lowest exponent as well
    left
    rcases Nat.eq_zero_or_pos n with rfl | hPos
    · rw [Nat.log2_zero] at hExponent ⊢
      omega
    · have hBelow := two_zpow_lt ((hMeasures.binade hPos).1.trans_lt hHigh)
      omega
  · have hFull : 2 ^ 52 ≤ m := hc.full.resolve_left hLowest
    have hAbove := h.gt_half_full hFull
    rcases Nat.eq_zero_or_pos n with rfl | hPos
    · exfalso
      have hTiny : v < 2 ^ f := by
        have hOne := hMeasures.bounds.2
        rw [div_lt_iff₀ (two_zpow_pos f)] at hOne
        simpa using hOne
      have hBetween := two_zpow_lt (hAbove.trans hTiny)
      rw [Nat.log2_zero] at hExponent
      omega
    · obtain ⟨hFrom, hTo⟩ := hMeasures.binade hPos
      have hBelow := two_zpow_lt (hFrom.trans_lt hHigh)
      have hBetween := two_zpow_lt (hAbove.trans hTo)
      by_cases hSame : (n.log2 : Int) + f - 52 = e
      · left
        omega
      · have hUnder : (n.log2 : Int) + f + 1 = 52 + e := by omega
        rw [hUnder] at hTo
        refine .inr ⟨by omega, ?_, by omega, hTo⟩
        by_contra hNe
        have hLong : (2 : ℚ) ^ 52 + 1 ≤ m := by exact_mod_cast (by omega : 2 ^ 52 + 1 ≤ m)
        have hUnit := two_zpow_pos e
        rw [zpow_add₀ (by norm_num)] at hTo
        have hMiddle : (2 : ℚ) ^ 52 * 2 ^ e < ((m : ℚ) - 1 / 2) * 2 ^ e := by
          apply mul_lt_mul_of_pos_right _ hUnit
          linarith
        have hHalf := h.ge_half
        have hNever := (hTo.trans hMiddle).trans_le hHalf
        exact absurd hNever (lt_irrefl v)

/-- A number is rounded to the double that is nearest to it. -/
theorem Rounds.roundWithAccuracy_eq (h : Rounds m e v) (hc : Canonical m e) (hPos : 0 < m)
    (s : Sign) {n : Nat} {f : Int} {accuracy : Accuracy}
    (hMeasures : Measures n (v / 2 ^ f) accuracy)
    (hExponent : f ≤ max ((n.log2 : Int) + f - 52) (-1074)) :
    roundWithAccuracy Format.binary64 s n f accuracy = .finite s m e hPos := by
  have hUnit := two_zpow_pos e
  have hNe : (2 : ℚ) ^ e ≠ 0 := hUnit.ne'
  rcases h.target hc hMeasures hExponent with hSame | ⟨hBelow, hFirst, hHigher, hTo⟩
  · have hFrom : (m : ℚ) - 1 / 2 ≤ v / 2 ^ e := (le_div_iff₀ hUnit).2 h.ge_half
    have hUpTo : v / 2 ^ e ≤ m + 1 / 2 := (div_le_iff₀ hUnit).2 h.high
    have hTie : v / 2 ^ e = m - 1 / 2 ∨ v / 2 ^ e = m + 1 / 2 → m % 2 = 0 := by
      rintro (hLower | hUpper)
      · rw [div_eq_iff hNe] at hLower
        have hLow := h.low
        apply h.tie
        left
        have hGap := lowGap_le m e
        apply le_antisymm _ hLow
        rw [hLower]
        gcongr
      · exact h.tie (.inr ((div_eq_iff hNe).1 hUpper))
    rw [roundWithAccuracy_of_rounded s hMeasures hSame (hSame ▸ hExponent) hFrom hUpTo hTie,
      shiftToTarget_short hc.short hc.low]
    exact dif_neg (Nat.ne_of_gt hPos)
  · subst hFirst
    have hScale : v / 2 ^ (e - 1) = v / 2 ^ e * 2 := by
      rw [zpow_sub_one₀ (by norm_num)]
      field_simp
    have hGap : lowGap (2 ^ 52) e = 1 / 4 := if_pos ⟨rfl, hHigher⟩
    have hLow := h.low
    rw [hGap, ← le_div_iff₀ hUnit] at hLow
    rw [zpow_add₀ (by norm_num), ← div_lt_iff₀ hUnit] at hTo
    push_cast at hLow
    have hFrom : ((2 ^ 53 : Nat) : ℚ) - 1 / 2 ≤ v / 2 ^ (e - 1) := by
      rw [hScale]
      push_cast
      linarith
    have hUpTo : v / 2 ^ (e - 1) < ((2 ^ 53 : Nat) : ℚ) := by
      rw [hScale]
      push_cast
      norm_num at hTo ⊢
      linarith
    rw [roundWithAccuracy_of_rounded s hMeasures hBelow (hBelow ▸ hExponent) hFrom (by linarith)
      (fun _ => by norm_num), shiftToTarget_full (by omega)]
    rw [dif_neg (by norm_num)]
    congr 1
    omega

/-! ## Products and quotients -/

/-- A product is rounded once, from its exact value. -/
theorem Rounds.mul_eq {m₁ m₂ : Nat} {e₁ e₂ : Int}
    (h : Rounds m e ((m₁ : ℚ) * 2 ^ e₁ * (m₂ * 2 ^ e₂))) (hc : Canonical m e) (hPos : 0 < m)
    (s₁ s₂ : Sign) (h₁ : 0 < m₁) (h₂ : 0 < m₂) (hLong : 2 ^ 52 ≤ m₁ * m₂) :
    mul Format.binary64 (.finite s₁ m₁ e₁ h₁) (.finite s₂ m₂ e₂ h₂) =
      .finite (s₁ * s₂) m e hPos := by
  have hLog : 52 ≤ (m₁ * m₂).log2 := (Nat.le_log2 (by omega)).2 hLong
  have hExact : Measures (m₁ * m₂) ((m₁ : ℚ) * 2 ^ e₁ * (m₂ * 2 ^ e₂) / 2 ^ (e₁ + e₂)) .exact := by
    show (m₁ : ℚ) * 2 ^ e₁ * (m₂ * 2 ^ e₂) / 2 ^ (e₁ + e₂) = ((m₁ * m₂ : Nat) : ℚ)
    rw [div_eq_iff (two_zpow_pos _).ne', zpow_add₀ (by norm_num)]
    push_cast
    ring
  exact h.roundWithAccuracy_eq hc hPos (s₁ * s₂) hExact (by omega)

/-- A quotient of whole numbers by its whole part and the rest. -/
theorem measures_div {a b : Nat} (hb : 0 < b) :
    Measures (a / b) ((a : ℚ) / b) (accuracyOfFraction (a % b) b) := by
  have hDen : (0 : ℚ) < b := by exact_mod_cast hb
  have hSplit : (a : ℚ) / b = (a / b : Nat) + (a % b : Nat) / b := by
    have hWhole : (a : ℚ) = b * (a / b : Nat) + (a % b : Nat) := by
      exact_mod_cast (Nat.div_add_mod a b).symm
    rw [div_eq_iff hDen.ne', add_mul, div_mul_cancel₀ _ hDen.ne', mul_comm]
    exact hWhole
  have hRest : ((a % b : Nat) : ℚ) / b < 1 := by
    rw [div_lt_one hDen]
    exact_mod_cast Nat.mod_lt a hb
  unfold accuracyOfFraction
  split
  · rename_i hZero
    show (a : ℚ) / b = (a / b : Nat)
    rw [hSplit, hZero]
    simp
  · rename_i hSome
    have hAbove : (0 : ℚ) < ((a % b : Nat) : ℚ) / b := by
      apply div_pos _ hDen
      exact_mod_cast Nat.pos_of_ne_zero hSome
    rcases hOrder : compare (2 * (a % b)) b with _ | _ | _
    · rw [Nat.compare_eq_lt] at hOrder
      have hHalf : ((a % b : Nat) : ℚ) / b < 1 / 2 := by
        rw [div_lt_div_iff₀ hDen (by norm_num)]
        exact_mod_cast (by omega : a % b * 2 < 1 * b)
      exact ⟨by rw [hSplit]; linarith, by rw [hSplit]; linarith⟩
    · rw [Nat.compare_eq_eq] at hOrder
      have hHalf : ((a % b : Nat) : ℚ) / b = 1 / 2 := by
        rw [div_eq_div_iff hDen.ne' (by norm_num)]
        exact_mod_cast (by omega : a % b * 2 = 1 * b)
      show (a : ℚ) / b = (a / b : Nat) + 1 / 2
      rw [hSplit, hHalf]
    · rw [Nat.compare_eq_gt] at hOrder
      have hHalf : 1 / 2 < ((a % b : Nat) : ℚ) / b := by
        rw [div_lt_div_iff₀ (by norm_num) hDen]
        exact_mod_cast (by omega : 1 * b < a % b * 2)
      exact ⟨by rw [hSplit]; linarith, by rw [hSplit]; linarith⟩

/-- A quotient is rounded once, from its exact value. It is worked out at an exponent that leaves at
least 53 bits of it. -/
theorem Rounds.div_eq {m₁ m₂ : Nat} {e₁ e₂ : Int}
    (h : Rounds m e ((m₁ : ℚ) * 2 ^ e₁ / (m₂ * 2 ^ e₂))) (hc : Canonical m e) (hPos : 0 < m)
    (s₁ s₂ : Sign) (h₁ : 0 < m₁) (h₂ : 0 < m₂) :
    div Format.binary64 (.finite s₁ m₁ e₁ h₁) (.finite s₂ m₂ e₂ h₂) =
      .finite (s₁ / s₂) m e hPos := by
  generalize hf : min (e₁ - e₂) (Format.binary64.targetExponent
    (totalExponent m₁ e₁ - totalExponent m₂ e₂)) = f
  have hTarget : Format.binary64.targetExponent (totalExponent m₁ e₁ - totalExponent m₂ e₂) =
      max ((m₁.log2 : Int) + e₁ - (m₂.log2 + e₂) - 53) (-1074) := by
    have hUnfold : Format.binary64.targetExponent (totalExponent m₁ e₁ - totalExponent m₂ e₂) =
        max ((m₁.log2 : Int) + 1 + e₁ - (m₂.log2 + 1 + e₂) - 53) (-1074) := rfl
    rw [hUnfold]
    omega
  rw [hTarget] at hf
  obtain ⟨k, hk⟩ : ∃ k : Nat, (k : Int) = e₁ - e₂ - f := ⟨(e₁ - e₂ - f).toNat, by omega⟩
  have hCore : divCore Format.binary64 m₁ e₁ m₂ e₂ =
      (m₁ * 2 ^ k / m₂, f, accuracyOfFraction (m₁ * 2 ^ k % m₂) m₂) := by
    unfold divCore
    dsimp only
    rw [hTarget, hf, ← hk, Int.toNat_natCast, Nat.shiftLeft_eq]
  have hDen : (0 : ℚ) < m₂ := by exact_mod_cast h₂
  have hScale : (m₁ : ℚ) * 2 ^ e₁ / (m₂ * 2 ^ e₂) / 2 ^ f = ((m₁ * 2 ^ k : Nat) : ℚ) / m₂ := by
    have hPowers : (2 : ℚ) ^ e₁ = 2 ^ k * (2 ^ e₂ * 2 ^ f) := by
      rw [← zpow_natCast, ← zpow_add₀ (by norm_num : (2 : ℚ) ≠ 0),
        ← zpow_add₀ (by norm_num : (2 : ℚ) ≠ 0)]
      congr 1
      omega
    have hTwo := (two_zpow_pos e₂).ne'
    have hUnit := (two_zpow_pos f).ne'
    rw [hPowers]
    push_cast
    field_simp
  have hMeasures : Measures (m₁ * 2 ^ k / m₂) ((m₁ : ℚ) * 2 ^ e₁ / (m₂ * 2 ^ e₂) / 2 ^ f)
      (accuracyOfFraction (m₁ * 2 ^ k % m₂) m₂) := by
    rw [hScale]
    exact measures_div h₂
  have hExponent : f ≤ max (((m₁ * 2 ^ k / m₂).log2 : Int) + f - 52) (-1074) := by
    by_cases hLowest : f ≤ -1074
    · omega
    · have hBits : 53 + m₂.log2 ≤ m₁.log2 + k := by omega
      have hFrom := Nat.log2_self_le (by omega : m₁ ≠ 0)
      have hTo := Nat.lt_log2_self (n := m₂)
      have hLong : 2 ^ 52 ≤ m₁ * 2 ^ k / m₂ := by
        rw [Nat.le_div_iff_mul_le h₂]
        calc 2 ^ 52 * m₂ ≤ 2 ^ 52 * 2 ^ (m₂.log2 + 1) := by gcongr
          _ = 2 ^ (53 + m₂.log2) := by rw [← pow_add]; congr 1; omega
          _ ≤ 2 ^ (m₁.log2 + k) := Nat.pow_le_pow_right (by norm_num) hBits
          _ = 2 ^ m₁.log2 * 2 ^ k := by rw [pow_add]
          _ ≤ m₁ * 2 ^ k := by gcongr
      have hLog : 52 ≤ (m₁ * 2 ^ k / m₂).log2 := (Nat.le_log2 (by omega)).2 hLong
      omega
  have hRound := h.roundWithAccuracy_eq hc hPos (s₁ / s₂) hMeasures hExponent
  have hDiv : UnpackedFloat.div Format.binary64 (.finite s₁ m₁ e₁ h₁) (.finite s₂ m₂ e₂ h₂) =
      roundWithAccuracy Format.binary64 (s₁ / s₂) (divCore Format.binary64 m₁ e₁ m₂ e₂).1
        (divCore Format.binary64 m₁ e₁ m₂ e₂).2.1 (divCore Format.binary64 m₁ e₁ m₂ e₂).2.2 := rfl
  rw [hDiv, hCore]
  exact hRound

end Nearest

end BatchStore.Number
