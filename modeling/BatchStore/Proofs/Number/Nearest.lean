import Mathlib.Data.Int.Log
import Mathlib.Data.Rat.Floor
import BatchStore.Options.Expiry
import BatchStore.Proofs.Number.Order
import BatchStore.Proofs.Number.Shortest
import BatchStore.Proofs.Number.Written

/-!
# How far rounding goes

Every number in the range of the doubles has a nearest double (`Normal.rounds`), so decimals and
products need not be traced through shifts: `Nearest x y v` says that the double `x` has the value
`y` and is the nearest one to `v`, and decimals (`nearest_ofScientific`) and products
(`Nearest.mul`) are such. Of the nearest double two things are wanted.

* It is close: by half a unit of its last place, and that is one part in `2 ^ 53`
  (`Nearest.error`).
* It stays on the same side of every multiple of a power of two that is not below its last place
  (`Rounds.grid_le`, `Rounds.le_grid`), of every whole number in particular. Cutting off the
  fraction afterwards (`Nearest.cut`) can go wrong only where the double has reached the next
  whole number.

Whole numbers of up to 52 bits are not rounded at all (`isExactly_ofNat`), so their doubles stand
to each other as they do (`ofNat_lt`).
-/

namespace BatchStore.Number

open Float.Model UnpackedFloat

/-! ## The nearest double -/

/-- The nearest whole number, a tie going to the even one. -/
theorem exists_nearest_even {x : ℚ} (h : 0 ≤ x) :
    ∃ r : Nat, (r : ℚ) - 1 / 2 ≤ x ∧ x ≤ r + 1 / 2 ∧
      (x = r - 1 / 2 ∨ x = r + 1 / 2 → r % 2 = 0) := by
  obtain ⟨k, hk⟩ : ∃ k : Nat, ⌊x⌋₊ = k := ⟨_, rfl⟩
  have hFrom : (k : ℚ) ≤ x := hk ▸ Nat.floor_le h
  have hTo : x < k + 1 := hk ▸ Nat.lt_floor_add_one x
  rcases lt_trichotomy x (k + 1 / 2) with hBelow | hTie | hAbove
  · refine ⟨k, by linarith, hBelow.le, ?_⟩
    rintro (hEnd | hEnd) <;> linarith
  · rcases Nat.mod_two_eq_zero_or_one k with hEven | hOdd
    · exact ⟨k, by linarith, hTie.le, fun _ => hEven⟩
    · refine ⟨k + 1, ?_, ?_, fun _ => by omega⟩ <;> push_cast <;> linarith
  · refine ⟨k + 1, ?_, ?_, ?_⟩
    · push_cast
      linarith
    · push_cast
      linarith
    · push_cast
      rintro (hEnd | hEnd) <;> linarith

/-- Half a place above the largest double. From here on numbers are rounded to infinity. -/
def limit : ℚ := (2 ^ 53 - 1 / 2) * 2 ^ (971 : Int)

theorem lt_limit {v : ℚ} {k : Int} (hv : v < 2 ^ 52 * 2 ^ k) (hk : k ≤ 971) : v < limit :=
  calc v < 2 ^ 52 * 2 ^ k := hv
    _ ≤ (2 ^ 53 - 1 / 2) * 2 ^ (971 : Int) :=
      mul_le_mul (by norm_num) (zpow_le_zpow_right₀ (by norm_num) hk) (two_zpow_pos k).le
        (by norm_num)

/-- A number from the least normal double up to the limit. -/
structure Normal (v : ℚ) : Prop where
  low : (2 : ℚ) ^ (-1022 : Int) ≤ v
  high : v < limit

/-- Such a number rounds to a double with a full mantissa: in units of the last place it has 53 bits
before its point. -/
theorem Normal.rounds {v : ℚ} (h : Normal v) :
    ∃ (m : Nat) (e : Int), Canonical m e ∧ 2 ^ 52 ≤ m ∧ Rounds m e v := by
  obtain ⟨hLow, hHigh⟩ := h
  have hPos : 0 < v := (two_zpow_pos _).trans_le hLow
  obtain ⟨b, hb⟩ : ∃ b, Int.log 2 v = b + 52 := ⟨Int.log 2 v - 52, by ring⟩
  have hFrom : (2 : ℚ) ^ (b + 52) ≤ v := hb ▸ Int.zpow_log_le_self one_lt_two hPos
  have hTo : v < 2 ^ (b + 52 + 1) := hb ▸ Int.lt_zpow_succ_log_self one_lt_two v
  have hAbove := two_zpow_lt (hLow.trans_lt hTo)
  have hBelow : b + 52 < 53 + 971 := by
    apply two_zpow_lt
    rw [zpow_add₀ (by norm_num) 53]
    calc (2 : ℚ) ^ (b + 52) ≤ v := hFrom
      _ < limit := hHigh
      _ ≤ 2 ^ (53 : Int) * 2 ^ (971 : Int) :=
        mul_le_mul_of_nonneg_right (by norm_num) (two_zpow_pos 971).le
  have hUnit := two_zpow_pos b
  obtain ⟨x, rfl⟩ : ∃ x, v = x * 2 ^ b := ⟨v / 2 ^ b, by field_simp⟩
  have hLeast : (2 : ℚ) ^ 52 ≤ x := by
    rw [add_comm, zpow_add₀ (by norm_num)] at hFrom
    exact le_of_mul_le_mul_right hFrom hUnit
  have hMost : x < 2 ^ 53 := by
    rw [add_assoc, add_comm, zpow_add₀ (by norm_num)] at hTo
    exact lt_of_mul_lt_mul_right hTo hUnit.le
  obtain ⟨r, hNearLow, hNearHigh, hTie⟩ := exists_nearest_even (by linarith : 0 ≤ x)
  have hFull : 2 ^ 52 ≤ r := by
    have : (2 : ℚ) ^ 52 < r + 1 := by linarith
    exact Nat.lt_succ_iff.1 (by exact_mod_cast this)
  have hShort : r ≤ 2 ^ 53 := by
    have : (r : ℚ) < 2 ^ 53 + 1 := by linarith
    exact Nat.lt_succ_iff.1 (by exact_mod_cast this)
  have hFirst : (r : ℚ) - lowGap r b ≤ x ∧ (x = r - lowGap r b → r % 2 = 0) := by
    unfold lowGap
    split
    · rename_i hAt
      obtain ⟨rfl, -⟩ := hAt
      exact ⟨by push_cast; linarith, fun _ => by norm_num⟩
    · exact ⟨hNearLow, fun hEnd => hTie (.inl hEnd)⟩
  by_cases hCarry : r = 2 ^ 53
  · subst hCarry
    have hRoom : b ≠ 971 := by
      rintro rfl
      have hUnder : x < 2 ^ 53 - 1 / 2 := lt_of_mul_lt_mul_right hHigh hUnit.le
      push_cast at hNearLow
      exact absurd (hUnder.trans_le hNearLow) (lt_irrefl x)
    have hGap : lowGap (2 ^ 52) (b + 1) = 1 / 4 := if_pos ⟨rfl, by omega⟩
    refine ⟨2 ^ 52, b + 1, ⟨by norm_num, by omega, by omega, .inr le_rfl⟩, le_rfl, ?_, ?_,
      fun _ => by norm_num⟩
    · rw [hGap, zpow_add_one₀ (by norm_num), mul_comm ((2 : ℚ) ^ b), ← mul_assoc]
      push_cast at hNearLow ⊢
      exact mul_le_mul_of_nonneg_right (by linarith) hUnit.le
    · rw [zpow_add_one₀ (by norm_num), mul_comm ((2 : ℚ) ^ b), ← mul_assoc]
      push_cast
      exact mul_le_mul_of_nonneg_right (by linarith) hUnit.le
  · refine ⟨r, b, ⟨by omega, by omega, by omega, .inr hFull⟩, hFull,
      mul_le_mul_of_nonneg_right hFirst.1 hUnit.le,
      mul_le_mul_of_nonneg_right hNearHigh hUnit.le, ?_⟩
    rintro (hEnd | hEnd)
    · exact hFirst.2 (mul_right_cancel₀ hUnit.ne' hEnd)
    · exact hTie (.inr (mul_right_cancel₀ hUnit.ne' hEnd))

section Near

variable {m : Nat} {e : Int} {v : ℚ}

/-- A double with a full mantissa is off by at most one part in `2 ^ 53`. -/
theorem Rounds.error (h : Rounds m e v) (hFull : 2 ^ 52 ≤ m) :
    |(m : ℚ) * 2 ^ e - v| * 2 ^ 53 ≤ m * 2 ^ e := by
  have hUnit := two_zpow_pos e
  have hLong : (2 : ℚ) ^ 52 * 2 ^ e ≤ m * 2 ^ e :=
    mul_le_mul_of_nonneg_right (by exact_mod_cast hFull) hUnit.le
  have hHalf := h.ge_half
  have hHigh := h.high
  have hNear : |(m : ℚ) * 2 ^ e - v| ≤ 2 ^ e / 2 := by
    rw [abs_le]
    constructor <;> linarith
  calc |(m : ℚ) * 2 ^ e - v| * 2 ^ 53 ≤ 2 ^ e / 2 * 2 ^ 53 := by gcongr
    _ = 2 ^ 52 * 2 ^ e := by ring
    _ ≤ m * 2 ^ e := hLong

/-- A multiple of a power of two as a multiple of the last place of a double. -/
theorem grid_eq {j : Int} (he : e ≤ j) (k : Nat) :
    (k : ℚ) * 2 ^ j = (k * 2 ^ (j - e).toNat : Nat) * 2 ^ e := by
  have hScale : (2 : ℚ) ^ (j - e).toNat * 2 ^ e = 2 ^ j := by
    rw [← zpow_natCast, ← zpow_add₀ (by norm_num : (2 : ℚ) ≠ 0)]
    congr 1
    omega
  push_cast
  rw [mul_assoc, hScale]

/-- Rounding does not go below a multiple of a power of two. -/
theorem Rounds.grid_le (h : Rounds m e v) {j : Int} (he : e ≤ j) {k : Nat}
    (hk : (k : ℚ) * 2 ^ j ≤ v) : (k : ℚ) * 2 ^ j ≤ m * 2 ^ e := by
  have hUnit := two_zpow_pos e
  have hHigh := hk.trans h.high
  rw [grid_eq he k] at hHigh ⊢
  have hUnits := le_of_mul_le_mul_right hHigh hUnit
  have hLess : ((k * 2 ^ (j - e).toNat : Nat) : ℚ) < m + 1 := by linarith
  have hWhole : k * 2 ^ (j - e).toNat ≤ m := Nat.lt_succ_iff.1 (by exact_mod_cast hLess)
  exact mul_le_mul_of_nonneg_right (by exact_mod_cast hWhole) hUnit.le

/-- Rounding does not go above a multiple of a power of two. -/
theorem Rounds.le_grid (h : Rounds m e v) {j : Int} (he : e ≤ j) {k : Nat}
    (hk : v ≤ (k : ℚ) * 2 ^ j) : (m : ℚ) * 2 ^ e ≤ k * 2 ^ j := by
  have hUnit := two_zpow_pos e
  have hLow := h.ge_half.trans hk
  rw [grid_eq he k] at hLow ⊢
  have hUnits := le_of_mul_le_mul_right hLow hUnit
  have hLess : (m : ℚ) < (k * 2 ^ (j - e).toNat : Nat) + 1 := by linarith
  have hWhole : m ≤ k * 2 ^ (j - e).toNat := Nat.lt_succ_iff.1 (by exact_mod_cast hLess)
  exact mul_le_mul_of_nonneg_right (by exact_mod_cast hWhole) hUnit.le

/-- A multiple of a power of two is a double if its last place is not above that power. -/
theorem Rounds.eq_grid (h : Rounds m e v) {j : Int} (he : e ≤ j) {k : Nat}
    (hk : v = (k : ℚ) * 2 ^ j) : (m : ℚ) * 2 ^ e = v :=
  le_antisymm ((h.le_grid he hk.le).trans_eq hk.symm) (hk.trans_le (h.grid_le he hk.ge))

/-- The last place of the double nearest to a number, by the size of the number. -/
theorem Rounds.exponent_le (h : Rounds m e v) (hFull : 2 ^ 52 ≤ m) {j : Int}
    (hv : v < 2 ^ (52 + j)) : e ≤ j := by
  have := two_zpow_lt ((h.gt_half_full hFull).trans hv)
  omega

end Near

/-! ## Taking a double apart again -/

theorem isNaN_ofParts {m : Nat} {e : Int} (h : 0 < m) (hc : Canonical m e) :
    (ofParts m e h).isNaN = false := by
  show (ofParts m e h).toModel.unpack.isNaN = false
  rw [unpack_ofParts h hc]
  rfl

theorem isInf_ofParts {m : Nat} {e : Int} (h : 0 < m) (hc : Canonical m e) :
    (ofParts m e h).isInf = false := by
  show (ofParts m e h).toModel.unpack.isInf = false
  rw [unpack_ofParts h hc]
  rfl

theorem ofFloat?_ofParts {m : Nat} {e : Int} (h : 0 < m) (hc : Canonical m e) :
    Dyadic.ofFloat? (ofParts m e h) = some ⟨false, m, e⟩ := by
  have hUnpack := unpack_ofParts h hc
  rcases float_cases _ (isNaN_ofParts h hc) with ⟨s, hx⟩ | ⟨s, hx⟩ | ⟨d, hPos, hRead, hd, hx⟩
  · rw [hx] at hUnpack
    cases s <;> cases hUnpack
  · rw [hx] at hUnpack
    cases s <;> cases hUnpack
  · obtain ⟨negative, n, f⟩ := d
    rw [hRead]
    rw [hx, signedParts_eq negative hPos hd] at hUnpack
    have hParts : (Float.ofModel (.pack (.finite (if negative then .negative else .positive) n f
        hPos))).toModel.unpack = .finite (if negative then .negative else .positive) n f hPos :=
      unpack_pack _ hPos hd
    rw [hParts] at hUnpack
    injection hUnpack with hSign hMantissa hExponent
    subst hMantissa hExponent
    cases negative
    · rfl
    · cases hSign

theorem rank?_ofParts {m : Nat} {e : Int} (h : 0 < m) (hc : Canonical m e) :
    rank? (ofParts m e h) = some (toLex (1, toLex (e, (m : Int)))) := by
  unfold rank?
  rw [unpack_ofParts h hc]
  rfl

/-! ## Doubles that are nearest -/

/-- The double `x` has the value `y`, and it is the nearest one to `v`. -/
inductive Nearest : Float → ℚ → ℚ → Prop
  | intro {m : Nat} {e : Int} {v : ℚ} (hPos : 0 < m) (hc : Canonical m e) (hFull : 2 ^ 52 ≤ m)
    (h : Rounds m e v) : Nearest (ofParts m e hPos) (m * 2 ^ e) v

namespace Nearest

variable {x z : Float} {y w v u : ℚ}

theorem finite (h : Nearest x y v) : x.isInf = false := by
  obtain ⟨hPos, hc, -, -⟩ := h
  exact isInf_ofParts hPos hc

theorem number (h : Nearest x y v) : x.isNaN = false := by
  obtain ⟨hPos, hc, -, -⟩ := h
  exact isNaN_ofParts hPos hc

/-- The value is off by at most one part in `2 ^ 53`. -/
theorem error (h : Nearest x y v) : |y - v| * 2 ^ 53 ≤ y := by
  obtain ⟨-, -, hFull, hRounds⟩ := h
  exact hRounds.error hFull

/-- Rounding does not go below a whole number. -/
theorem whole_le (h : Nearest x y v) (hv : v < 2 ^ 52) {k : Nat} (hk : (k : ℚ) ≤ v) :
    (k : ℚ) ≤ y := by
  obtain ⟨-, -, hFull, hRounds⟩ := h
  have hPlace := hRounds.exponent_le hFull (j := 0) (by exact_mod_cast hv)
  have hGrid := hRounds.grid_le hPlace (k := k) (by simpa using hk)
  simpa using hGrid

/-- Rounding does not go above a whole number. -/
theorem le_whole (h : Nearest x y v) (hv : v < 2 ^ 52) {k : Nat} (hk : v ≤ k) : y ≤ k := by
  obtain ⟨-, -, hFull, hRounds⟩ := h
  have hPlace := hRounds.exponent_le hFull (j := 0) (by exact_mod_cast hv)
  have hGrid := hRounds.le_grid hPlace (k := k) (by simpa using hk)
  simpa using hGrid

/-- A multiple of a power of two is kept if its double has room for it. -/
theorem eq_grid (h : Nearest x y v) {j : Int} (hv : v < 2 ^ (52 + j)) {k : Nat}
    (hk : v = (k : ℚ) * 2 ^ j) : y = v := by
  obtain ⟨-, -, hFull, hRounds⟩ := h
  exact hRounds.eq_grid (hRounds.exponent_le hFull hv) hk

/-- Taken apart, a nearest double shows its value. -/
theorem parts (h : Nearest x y v) :
    ∃ d, Dyadic.ofFloat? x = some d ∧ d.negative = false ∧ d.value = y := by
  obtain @⟨m, e, _, hPos, hc, -, -⟩ := h
  exact ⟨⟨false, m, e⟩, ofFloat?_ofParts hPos hc, rfl, rfl⟩

/-- Cutting off the fraction. -/
theorem cut (h : Nearest x y v) : Expiry.cut x = ⌊y⌋ := by
  obtain @⟨m, e, _, hPos, hc, -, -⟩ := h
  unfold Expiry.cut
  rw [ofFloat?_ofParts hPos hc]
  have hValue := value_eq ⟨false, m, e⟩
  unfold Dyadic.value at hValue
  dsimp only at hValue ⊢
  rw [hValue, Rat.floor_natCast_div_natCast]
  rfl

/-- A nearest double is above zero. -/
theorem pos (h : Nearest x y v) : Float.ofNat 0 < x := by
  obtain @⟨m, e, _, hPos, hc, -, -⟩ := h
  have hZero : rank? (Float.ofNat 0) = some (toLex (0, toLex (0, 0))) := by decide +kernel
  rw [lt_iff_rank]
  refine ⟨_, _, hZero, rank?_ofParts hPos hc, ?_⟩
  rw [Prod.Lex.toLex_lt_toLex]
  exact .inl (show (0 : Int) < 1 by decide)

/-- Nearest doubles are in the order of their values: the mantissas are full, so that the greater
exponent makes the greater number. -/
theorem lt (hx : Nearest x y v) (hz : Nearest z w u) (h : y < w) : x < z := by
  obtain @⟨m, e, _, hm, hcm, hFull, -⟩ := hx
  obtain @⟨n, f, _, hn, hcn, -, -⟩ := hz
  have hPlace : e ≤ f := by
    by_contra hAbove
    have hUnit : (2 : ℚ) ^ (f + 1) ≤ 2 ^ e := zpow_le_zpow_right₀ (by norm_num) (by omega)
    have hMost : (n : ℚ) ≤ 2 ^ 53 := by exact_mod_cast hcn.short.le
    have hLeast : (2 : ℚ) ^ 52 ≤ m := by exact_mod_cast hFull
    have hNever : (n : ℚ) * 2 ^ f ≤ m * 2 ^ e :=
      calc (n : ℚ) * 2 ^ f ≤ 2 ^ 53 * 2 ^ f :=
            mul_le_mul_of_nonneg_right hMost (two_zpow_pos f).le
        _ = 2 ^ 52 * 2 ^ (f + 1) := by rw [zpow_add_one₀ (by norm_num)]; ring
        _ ≤ m * 2 ^ e := mul_le_mul hLeast hUnit (two_zpow_pos _).le (Nat.cast_nonneg m)
    exact hNever.not_gt h
  rw [lt_iff_rank]
  refine ⟨_, _, rank?_ofParts hm hcm, rank?_ofParts hn hcn, ?_⟩
  rw [Prod.Lex.toLex_lt_toLex, Prod.Lex.toLex_lt_toLex]
  rcases hPlace.lt_or_eq with hBelow | rfl
  · exact .inr ⟨rfl, .inl hBelow⟩
  · have hDigits : (m : ℚ) < n := lt_of_mul_lt_mul_right h (two_zpow_pos e).le
    exact .inr ⟨rfl, .inr ⟨rfl, show (m : Int) < n by exact_mod_cast hDigits⟩⟩

/-- A product is the nearest double to the product of the values. -/
theorem mul (hx : Nearest x y v) (hz : Nearest z w u) (hRange : Normal (y * w)) :
    ∃ p, Nearest (x * z) p (y * w) := by
  obtain ⟨h₁, hc₁, hFull₁, -⟩ := hx
  obtain ⟨h₂, hc₂, -, -⟩ := hz
  obtain ⟨m, e, hc, hFull, hRounds⟩ := hRange.rounds
  have hPos : 0 < m := by omega
  rw [mul_ofParts hc₁ hc₂ hFull₁ hRounds hc hPos]
  exact ⟨_, .intro hPos hc hFull hRounds⟩

end Nearest

/-- A decimal is read to the nearest double. -/
theorem nearest_ofScientific {c : Nat} {q : Int} (hRange : Normal (c * 10 ^ q)) :
    ∃ y, Nearest (Float.ofScientific c (q < 0) q.natAbs) y (c * 10 ^ q) := by
  have hSome : 0 < c := by
    rw [Nat.pos_iff_ne_zero]
    rintro rfl
    have hLow := hRange.low
    rw [Nat.cast_zero, zero_mul] at hLow
    exact absurd (two_zpow_pos (-1022)) hLow.not_gt
  obtain ⟨m, e, hc, hFull, hRounds⟩ := hRange.rounds
  have hPos : 0 < m := by omega
  rw [hRounds.ofScientific_eq hc hPos hSome]
  exact ⟨_, .intro hPos hc hFull hRounds⟩

/-! ## Whole numbers that have a double -/

/-- A positive whole number up to the largest double has a nearest one. -/
theorem nearest_ofNat {k : Nat} (hPos : 0 < k) (hHigh : (k : ℚ) < limit) :
    ∃ y, Nearest (Float.ofNat k) y (k * 10 ^ (0 : Int)) := by
  have hLeast : (1 : ℚ) ≤ k := by exact_mod_cast hPos
  exact nearest_ofScientific (c := k) (q := 0) ⟨by
    rw [zpow_zero, mul_one]
    exact (zpow_le_one_of_nonpos₀ (by norm_num) (by norm_num)).trans hLeast, by
    rwa [zpow_zero, mul_one]⟩

theorem isNaN_ofNat {k : Nat} (hHigh : (k : ℚ) < limit) : (Float.ofNat k).isNaN = false := by
  rcases Nat.eq_zero_or_pos k with rfl | hPos
  · decide +kernel
  · obtain ⟨y, hNear⟩ := nearest_ofNat hPos hHigh
    exact hNear.number

/-- One of up to 52 bits is its own nearest double. -/
theorem nearest_ofNat_self {k : Nat} (hPos : 0 < k) (hShort : k < 2 ^ 52) :
    ∃ v, Nearest (Float.ofNat k) k v := by
  have hValue : (k : ℚ) * 10 ^ (0 : Int) = k := by rw [zpow_zero, mul_one]
  have hBits : (k : ℚ) < 2 ^ 52 := by exact_mod_cast hShort
  obtain ⟨y, hNear⟩ := nearest_ofNat hPos (lt_limit (k := 0) (by simpa using hBits) (by norm_num))
  rw [hValue] at hNear
  have hSelf : y = k := hNear.eq_grid (j := 0) (k := k) (by exact_mod_cast hBits) (by simp)
  exact ⟨k, hSelf ▸ hNear⟩

/-- The double `x` is the whole number `n`, without loss. -/
def IsExactly (x : Float) (n : Nat) : Prop :=
  ∃ d, Dyadic.ofFloat? x = some d ∧ d.negative = false ∧ d.value = n

theorem IsExactly.unique {x : Float} {j k : Nat} (hj : IsExactly x j) (hk : IsExactly x k) :
    j = k := by
  obtain ⟨d, hRead, -, hValue⟩ := hj
  obtain ⟨d', hRead', -, hValue'⟩ := hk
  cases hRead.symm.trans hRead'
  exact_mod_cast hValue.symm.trans hValue'

theorem isExactly_ofNat {k : Nat} (hShort : k < 2 ^ 52) : IsExactly (Float.ofNat k) k := by
  rcases Nat.eq_zero_or_pos k with rfl | hPos
  · exact ⟨⟨false, 0, -1074⟩, by decide +kernel, rfl, zero_mul _⟩
  · obtain ⟨v, hNear⟩ := nearest_ofNat_self hPos hShort
    exact hNear.parts

theorem ofNat_lt {j k : Nat} (h : j < k) (hShort : k < 2 ^ 52) : Float.ofNat j < Float.ofNat k := by
  obtain ⟨v, hNear⟩ := nearest_ofNat_self (Nat.zero_lt_of_lt h) hShort
  rcases Nat.eq_zero_or_pos j with rfl | hPos
  · exact hNear.pos
  · obtain ⟨u, hBelow⟩ := nearest_ofNat_self hPos (h.trans hShort)
    exact hBelow.lt hNear (by exact_mod_cast h)

/-- A whole number from zero up to the largest double is near to a double. -/
theorem exists_ofInt? {n : Int} (hLow : 0 ≤ n) (hHigh : (n : ℚ) < limit) :
    ∃ x, ofInt? n = some x := by
  obtain ⟨k, rfl⟩ : ∃ k : Nat, n = k := ⟨n.toNat, by omega⟩
  have hFinite : (Float.ofInt (k : Int)).isInf = false := by
    rcases Nat.eq_zero_or_pos k with rfl | hPos
    · decide +kernel
    · obtain ⟨y, hNear⟩ := nearest_ofNat hPos (by exact_mod_cast hHigh)
      exact hNear.finite
  refine ⟨Float.ofInt k, ?_⟩
  unfold ofInt?
  dsimp only
  rw [hFinite]
  rfl

/-- So is a thousandth of it. -/
theorem exists_thousandth? {n : Int} (hLow : 0 ≤ n)
    (hHigh : (n : ℚ) < limit) : ∃ x, thousandth? n = some x := by
  obtain ⟨k, rfl⟩ : ∃ k : Nat, n = k := ⟨n.toNat, by omega⟩
  have hFinite : (Float.ofScientific k true 3).isInf = false := by
    rcases Nat.eq_zero_or_pos k with rfl | hPos
    · decide +kernel
    · have hLeast : (1 : ℚ) ≤ k := by exact_mod_cast hPos
      have hValue : (k : ℚ) * 10 ^ (-3 : Int) = k / 1000 := by norm_num [div_eq_mul_inv]
      have hSmaller : (k : ℚ) / 1000 ≤ k := by linarith
      obtain ⟨y, hNear⟩ := nearest_ofScientific (c := k) (q := -3) ⟨by
        rw [hValue]
        calc (2 : ℚ) ^ (-1022 : Int) ≤ 2 ^ (-10 : Int) :=
              zpow_le_zpow_right₀ (by norm_num) (by norm_num)
          _ ≤ k / 1000 := by norm_num; linarith, by
        rw [hValue]
        exact hSmaller.trans_lt (by exact_mod_cast hHigh)⟩
      exact hNear.finite
  refine ⟨Float.ofScientific k true 3, ?_⟩
  unfold thousandth?
  dsimp only
  rw [Int.natAbs_natCast, hFinite, if_neg (by omega : ¬ (k : Int) < 0)]
  rfl

theorem ofFloat?_bounds {x : Float} {d : Dyadic} (h : Dyadic.ofFloat? x = some d) :
    d.mantissa < 2 ^ 53 ∧ d.exponent ≤ 971 := by
  have hTwo : twoTo 52 = 2 ^ 52 := rfl
  have hFraction : x.toBits.toNat % twoTo 52 < 2 ^ 52 := Nat.mod_lt _ (by decide)
  have hBiased : x.toBits.toNat / twoTo 52 % 2048 < 2048 := Nat.mod_lt _ (by decide)
  unfold Dyadic.ofFloat? at h
  simp only [beq_iff_eq] at h
  split at h
  · cases h
  · split at h
    · cases h
      exact ⟨hFraction.trans (by norm_num), by norm_num⟩
    · cases h
      constructor
      · show twoTo 52 + x.toBits.toNat % twoTo 52 < 2 ^ 53
        omega
      · show ((x.toBits.toNat / twoTo 52 % 2048 : Nat) : Int) - 1075 ≤ 971
        omega

/-- What is left of a double without its fraction is no larger than the largest double. -/
theorem cut_lt (x : Float) : (Expiry.cut x : ℚ) < limit := by
  have hRoom : (0 : ℚ) < limit := lt_limit (k := 0) (by norm_num) (by norm_num)
  unfold Expiry.cut
  split
  · rename_i d hRead
    obtain ⟨hShort, hHigh⟩ := ofFloat?_bounds hRead
    have hMantissa : (d.mantissa : ℚ) + 1 ≤ 2 ^ 53 := by exact_mod_cast hShort
    have hValue : d.value < limit := by
      calc d.value ≤ d.mantissa * 2 ^ (971 : Int) :=
            mul_le_mul_of_nonneg_left (zpow_le_zpow_right₀ (by norm_num) hHigh) (Nat.cast_nonneg _)
        _ < (2 ^ 53 - 1 / 2) * 2 ^ (971 : Int) :=
            mul_lt_mul_of_pos_right (by linarith) (two_zpow_pos _)
    have hWhole : ((d.num / d.den : Nat) : ℚ) ≤ d.value := by
      rw [value_eq]
      exact Nat.cast_div_le
    have hSome : (0 : ℚ) ≤ (d.num / d.den : Nat) := Nat.cast_nonneg _
    unfold Dyadic.truncate Dyadic.signed
    split
    · rw [Int.cast_neg, Int.cast_natCast]
      linarith
    · exact hWhole.trans_lt hValue
  · exact_mod_cast hRoom

end BatchStore.Number
