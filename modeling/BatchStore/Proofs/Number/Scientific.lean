import Mathlib.Tactic.Lift
import BatchStore.Number.Numeral
import BatchStore.Proofs.Number.Rounding

/-!
# Doubles from decimals

`Float.ofScientific` gives the double nearest to `c · 10 ^ q`. If the digits and the power of ten
are doubles themselves, it computes with doubles and rounds once at the end; else it computes
with whole numbers, after some bounds on the exponent. Both ways give the one double to which
the exact number rounds (`Rounds.ofScientific_eq`), and so does the reading of digits
(`ofDecimal_eq`).
-/

namespace BatchStore.Number

open Float.Model UnpackedFloat

/-- The positive double of a mantissa and an exponent. -/
def ofParts (m : Nat) (e : Int) (h : 0 < m) : Float := .ofModel (.pack (.finite .positive m e h))

/-- A canonical number unpacks to its parts. -/
theorem unpack_ofParts {m : Nat} {e : Int} (h : 0 < m) (hc : Canonical m e) :
    (ofParts m e h).toModel.unpack = .finite .positive m e h := unpack_pack .positive h hc

/-! ## Whole numbers and powers of ten that are doubles -/

/-- A whole number of at most 53 bits, with zeros behind it. -/
theorem toFloat_eq {c : Nat} (hPos : 0 < c) (hShort : c < 2 ^ 53) :
    ∃ (m : Nat) (e : Int) (h : 0 < m), c.toUInt64.toFloat = ofParts m e h ∧ Canonical m e ∧
      2 ^ 52 ≤ m ∧ (m : ℚ) * 2 ^ e = c := by
  have hLog : c.log2 < 53 := (Nat.log2_lt (by omega)).2 hShort
  have hSplit : 2 ^ c.log2 * 2 ^ (52 - c.log2) = 2 ^ 52 := by
    rw [← pow_add]
    congr 1
    omega
  have hFull : 2 ^ 52 ≤ c * 2 ^ (52 - c.log2) := by
    rw [← hSplit]
    exact Nat.mul_le_mul_right _ (Nat.log2_self_le (by omega))
  have hBelow : c * 2 ^ (52 - c.log2) < 2 ^ 53 := by
    calc c * 2 ^ (52 - c.log2) < 2 ^ (c.log2 + 1) * 2 ^ (52 - c.log2) :=
          Nat.mul_lt_mul_of_pos_right Nat.lt_log2_self (Nat.two_pow_pos _)
      _ = 2 ^ 53 := by rw [← pow_add]; congr 1; omega
  have hm : 0 < c * 2 ^ (52 - c.log2) := Nat.mul_pos hPos (Nat.two_pow_pos _)
  have hc : Canonical (c * 2 ^ (52 - c.log2)) ((c.log2 : Int) - 52) :=
    ⟨hBelow, by omega, by omega, .inr hFull⟩
  have hValue : ((c * 2 ^ (52 - c.log2) : Nat) : ℚ) * 2 ^ ((c.log2 : Int) - 52) = c := by
    have hZeros : (2 : ℚ) ^ (52 - c.log2) * 2 ^ ((c.log2 : Int) - 52) = 1 := by
      rw [← zpow_natCast, ← zpow_add₀ (by norm_num : (2 : ℚ) ≠ 0)]
      rw [show ((52 - c.log2 : Nat) : Int) + ((c.log2 : Int) - 52) = 0 by omega, zpow_zero]
    push_cast
    rw [mul_assoc, hZeros, mul_one]
  refine ⟨_, _, hm, ?_, hc, hFull, hValue⟩
  have hRound : round Format.binary64 .positive c 0 =
      .finite .positive (c * 2 ^ (52 - c.log2)) ((c.log2 : Int) - 52) hm := by
    have hTarget : Format.binary64.targetExponent (totalExponent c 0) = (c.log2 : Int) - 52 := by
      rw [target_eq]
      omega
    have hShift : ((0 : Int) - ((c.log2 : Int) - 52)).toNat = 52 - c.log2 := by omega
    have hExponent : (0 : Int) - ((52 - c.log2 : Nat) : Int) = (c.log2 : Int) - 52 := by omega
    unfold UnpackedFloat.round decreaseExponent
    dsimp only
    rw [hTarget, hShift, hExponent, Nat.shiftLeft_eq]
    have hLog : (c * 2 ^ (52 - c.log2)).log2 + 1 = 53 := log2_eq_52 hBelow hFull
    apply (rounds_self _ _).roundWithAccuracy_eq hc hm
    · show _ / _ = _
      exact mul_div_cancel_right₀ _ (two_zpow_pos _).ne'
    · omega
  have hModel : UnpackedFloat.ofNat Format.binary64 c =
      .finite .positive (c * 2 ^ (52 - c.log2)) ((c.log2 : Int) - 52) hm := by
    unfold UnpackedFloat.ofNat UnpackedFloat.ofInt UnpackedFloat.normalize
    rw [Int.compare_eq_gt.2 (by omega)]
    exact hRound
  have hWord : c.toUInt64.toNat = c := by
    rw [Nat.toUInt64_eq, UInt64.toNat_ofNat_of_lt']
    exact hShort.trans (by decide)
  unfold UInt64.toFloat Float.Model.ofUInt64 UnpackedFloat.ofUInt64 ofParts
  rw [hWord, hModel]

/-- The mantissa of a power of ten. -/
def powerMantissa (k : Nat) : Nat := 10 ^ k * 2 ^ (52 - (10 ^ k).log2) / 2 ^ ((10 ^ k).log2 - 52)

theorem powerMantissa_pos : ∀ k : Fin 23, 0 < powerMantissa k.val := by decide +kernel

/-- Each power of ten in the table of doubles is the double of its parts. -/
theorem powers_toBits : ∀ k : Fin 23, Float.exactlyRepresentablePowersOfTen[k.val].toBits =
    (ofParts (powerMantissa k.val) ((10 ^ k.val).log2 - 52) (powerMantissa_pos k)).toBits := by
  decide +kernel

/-- The powers of ten up to the twenty-second are doubles exactly, with full mantissas. -/
theorem powerMantissa_full : ∀ k : Fin 23, 2 ^ 52 ≤ powerMantissa k.val ∧
    powerMantissa k.val < 2 ^ 53 ∧ (10 ^ k.val).log2 ≤ 73 ∧
    powerMantissa k.val * 2 ^ ((10 ^ k.val).log2 - 52) =
      10 ^ k.val * 2 ^ (52 - (10 ^ k.val).log2) := by
  decide +kernel

/-- The powers of ten that are kept in a table are exact. -/
theorem power_eq (k : Fin 23) :
    ∃ (m : Nat) (e : Int) (h : 0 < m),
      Float.exactlyRepresentablePowersOfTen[k.val] = ofParts m e h ∧
      Canonical m e ∧ (m : ℚ) * 2 ^ e = 10 ^ k.val := by
  obtain ⟨hFull, hShort, hLog, hExact⟩ := powerMantissa_full k
  refine ⟨_, ((10 ^ k.val).log2 : Int) - 52, powerMantissa_pos k, ?_,
    ⟨hShort, by omega, by omega, .inr hFull⟩, ?_⟩
  · rw [← ofBits_toBits Float.exactlyRepresentablePowersOfTen[k.val], powers_toBits, ofBits_toBits]
  · have hScale : (powerMantissa k.val : ℚ) * 2 ^ ((10 ^ k.val).log2 - 52) =
        10 ^ k.val * 2 ^ (52 - (10 ^ k.val).log2) := by exact_mod_cast hExact
    have hPowers : (2 : ℚ) ^ (((10 ^ k.val).log2 : Int) - 52) * 2 ^ (52 - (10 ^ k.val).log2) =
        2 ^ ((10 ^ k.val).log2 - 52) := by
      rw [← zpow_natCast, ← zpow_natCast, ← zpow_add₀ (by norm_num : (2 : ℚ) ≠ 0)]
      congr 1
      omega
    have hUnit : (0 : ℚ) < 2 ^ (52 - (10 ^ k.val).log2) := by positivity
    apply mul_right_cancel₀ hUnit.ne'
    rw [mul_assoc, hPowers, hScale]

/-! ## Decimals -/

section Decimal

variable {m : Nat} {e : Int} {c : Nat} {q : Int}

/-- A product of doubles is the double that the product of their values rounds to. -/
theorem mul_ofParts {m₁ m₂ : Nat} {e₁ e₂ : Int} {h₁ : 0 < m₁} {h₂ : 0 < m₂}
    (hc₁ : Canonical m₁ e₁) (hc₂ : Canonical m₂ e₂) (hFull : 2 ^ 52 ≤ m₁)
    (h : Rounds m e ((m₁ : ℚ) * 2 ^ e₁ * (m₂ * 2 ^ e₂))) (hc : Canonical m e) (hPos : 0 < m) :
    ofParts m₁ e₁ h₁ * ofParts m₂ e₂ h₂ = ofParts m e hPos := by
  have hProduct := h.mul_eq hc hPos .positive .positive h₁ h₂
    (hFull.trans (Nat.le_mul_of_pos_right m₁ h₂))
  show Float.ofModel (Float.Model.pack (UnpackedFloat.mul Format.binary64
    (ofParts m₁ e₁ h₁).toModel.unpack (ofParts m₂ e₂ h₂).toModel.unpack)) = _
  rw [unpack_ofParts h₁ hc₁, unpack_ofParts h₂ hc₂, hProduct]
  rfl

/-- A quotient of doubles is the double that the quotient of their values rounds to. -/
theorem div_ofParts {m₁ m₂ : Nat} {e₁ e₂ : Int} {h₁ : 0 < m₁} {h₂ : 0 < m₂}
    (hc₁ : Canonical m₁ e₁) (hc₂ : Canonical m₂ e₂)
    (h : Rounds m e ((m₁ : ℚ) * 2 ^ e₁ / (m₂ * 2 ^ e₂))) (hc : Canonical m e) (hPos : 0 < m) :
    ofParts m₁ e₁ h₁ / ofParts m₂ e₂ h₂ = ofParts m e hPos := by
  have hQuotient := h.div_eq hc hPos .positive .positive h₁ h₂
  show Float.ofModel (Float.Model.pack (UnpackedFloat.div Format.binary64
    (ofParts m₁ e₁ h₁).toModel.unpack (ofParts m₂ e₂ h₂).toModel.unpack)) = _
  rw [unpack_ofParts h₁ hc₁, unpack_ofParts h₂ hc₂, hQuotient]
  rfl

/-- A number with a nearest double lies in the range of doubles. -/
theorem Rounds.bounds {v : ℚ} (h : Rounds m e v) (hc : Canonical m e) (hPos : 0 < m) :
    (2 : ℚ) ^ (-1075 : Int) ≤ v ∧ v < 2 ^ (1024 : Int) := by
  have hLow := hc.low
  have hHigh := hc.high
  have hOne : (1 : ℚ) ≤ m := by exact_mod_cast hPos
  have hUnit := two_zpow_pos e
  constructor
  · have hSmall : (2 : ℚ) ^ (-1074 : Int) ≤ 2 ^ e := zpow_le_zpow_right₀ (by norm_num) hLow
    calc (2 : ℚ) ^ (-1075 : Int) = 1 / 2 * 2 ^ (-1074 : Int) := by
          rw [show (-1075 : Int) = -1 + -1074 by norm_num, zpow_add₀ (by norm_num)]
          norm_num
      _ ≤ 1 / 2 * 2 ^ e := by gcongr
      _ ≤ ((m : ℚ) - 1 / 2) * 2 ^ e := by
          apply mul_le_mul_of_nonneg_right _ hUnit.le
          linarith
      _ ≤ v := h.ge_half
  · calc v < 2 ^ (53 + e) := h.lt_full hc
      _ ≤ 2 ^ (1024 : Int) := zpow_le_zpow_right₀ (by norm_num) (by omega)

/-- Whole numbers are rounded as they are multiplied and divided. -/
theorem Rounds.ofModelScientific (h : Rounds m e ((c : ℚ) * 10 ^ q)) (hc : Canonical m e)
    (hPos : 0 < m) (hSome : 0 < c) :
    UnpackedFloat.ofScientific Format.binary64 c q = .finite .positive m e hPos := by
  obtain ⟨hSmall, hLarge⟩ := h.bounds hc hPos
  have hOne : (1 : ℚ) ≤ c := by exact_mod_cast hSome
  have hPower : (0 : ℚ) < 10 ^ q := zpow_pos (by norm_num) q
  have hHigh : ¬ q > 2 ^ Format.binary64.exponentBits := by
    intro hOver
    have hWide : (2048 : Int) < q := hOver
    have hNever : (2 : ℚ) ^ (1024 : Int) ≤ c * 10 ^ q := by
      calc (2 : ℚ) ^ (1024 : Int) ≤ 2 ^ q := zpow_le_zpow_right₀ (by norm_num) (by omega)
        _ ≤ 10 ^ q := by
            lift q to ℕ using by omega
            rw [zpow_natCast, zpow_natCast]
            gcongr
            norm_num
        _ ≤ c * 10 ^ q := le_mul_of_one_le_left hPower.le hOne
    exact absurd (hNever.trans_lt hLarge) (lt_irrefl _)
  have hLow : ¬ q < -(2 ^ Format.binary64.exponentBits + (c.log2 : Int)) := by
    intro hUnder
    have hWide : q < -(2048 + (c.log2 : Int)) := hUnder
    have hNever : (c : ℚ) * 10 ^ q < 2 ^ (-1075 : Int) := by
      calc (c : ℚ) * 10 ^ q < 2 ^ (c.log2 + 1) * 10 ^ q := by
            apply mul_lt_mul_of_pos_right _ hPower
            exact_mod_cast Nat.lt_log2_self
        _ ≤ 2 ^ (c.log2 + 1) * 2 ^ q := by
            apply mul_le_mul_of_nonneg_left _ (by positivity)
            obtain ⟨k, rfl⟩ : ∃ k : Nat, q = -k := ⟨q.natAbs, by omega⟩
            rw [zpow_neg, zpow_neg, zpow_natCast, zpow_natCast]
            gcongr
            norm_num
        _ = 2 ^ ((c.log2 : Int) + 1 + q) := by
            rw [← zpow_natCast, ← zpow_add₀ (by norm_num : (2 : ℚ) ≠ 0)]
            push_cast
            rfl
        _ ≤ 2 ^ (-1075 : Int) := zpow_le_zpow_right₀ (by norm_num) (by omega)
    exact absurd (hSmall.trans_lt hNever) (lt_irrefl _)
  have hBits : Format.binary64.mantissaBits = 53 := rfl
  unfold UnpackedFloat.ofScientific
  rw [dif_neg (by omega), if_neg hHigh, if_neg hLow]
  by_cases hSign : 0 ≤ q
  · rw [if_pos hSign]
    apply Rounds.mul_eq _ hc hPos .positive .positive
    · rw [hBits, Nat.shiftLeft_eq]
      calc 2 ^ 52 ≤ c * 2 ^ 53 * 1 := by omega
        _ ≤ c * 2 ^ 53 * 10 ^ q.toNat := Nat.mul_le_mul_left _ (Nat.pow_pos (by norm_num))
    · have hValue : (((c <<< Format.binary64.mantissaBits : Nat) : ℚ) *
          2 ^ (-(Format.binary64.mantissaBits : Int)) *
            (((10 ^ q.toNat : Nat) : ℚ) * 2 ^ (0 : Int))) =
            c * 10 ^ q := by
        lift q to ℕ using hSign
        rw [hBits, Nat.shiftLeft_eq, Int.toNat_natCast, zpow_neg, zpow_natCast, zpow_natCast]
        push_cast
        field_simp
        norm_num
      rw [hValue]
      exact h
  · rw [if_neg hSign]
    apply Rounds.div_eq _ hc hPos .positive .positive
    have hValue : ((c : ℚ) * 2 ^ (0 : Int) / (((10 ^ (-q).toNat : Nat) : ℚ) * 2 ^ (0 : Int))) =
        c * 10 ^ q := by
      obtain ⟨k, rfl⟩ : ∃ k : Nat, q = -k := ⟨q.natAbs, by omega⟩
      rw [neg_neg, Int.toNat_natCast, zpow_neg, zpow_natCast]
      push_cast
      rw [mul_one, mul_one]
      rfl
    rw [hValue]
    exact h

/-- The double that is read from a decimal is the one to which it rounds. -/
theorem Rounds.ofScientific_eq (h : Rounds m e ((c : ℚ) * 10 ^ q)) (hc : Canonical m e)
    (hPos : 0 < m) (hSome : 0 < c) :
    Float.ofScientific c (q < 0) q.natAbs = ofParts m e hPos := by
  unfold Float.ofScientific
  by_cases hFast : c < 2 ^ 53 ∧ q.natAbs ≤ 22
  · rw [dif_pos hFast]
    obtain ⟨hShort, hSmall⟩ := hFast
    obtain ⟨m₁, e₁, h₁, hWhole, hc₁, hFull, hValue₁⟩ := toFloat_eq hSome hShort
    obtain ⟨m₂, e₂, h₂, hPower, hc₂, hValue₂⟩ := power_eq ⟨q.natAbs, by omega⟩
    dsimp only at hPower hValue₂ ⊢
    rw [hWhole, hPower]
    by_cases hSign : q < 0
    · rw [if_pos (by simpa using hSign)]
      apply div_ofParts hc₁ hc₂ _ hc hPos
      rw [hValue₁, hValue₂]
      obtain ⟨k, rfl⟩ : ∃ k : Nat, q = -k := ⟨q.natAbs, by omega⟩
      rw [Int.natAbs_neg, Int.natAbs_natCast, ← zpow_natCast, div_eq_mul_inv, ← zpow_neg]
      exact h
    · rw [if_neg (by simpa using hSign)]
      apply mul_ofParts hc₁ hc₂ hFull _ hc hPos
      rw [hValue₁, hValue₂]
      lift q to ℕ using by omega
      rw [Int.natAbs_natCast, ← zpow_natCast]
      exact h
  · rw [dif_neg hFast]
    have hExponent : (if decide (q < 0) = true then Int.negOfNat q.natAbs else Int.ofNat q.natAbs)
        = q := by
      by_cases hSign : q < 0
      · rw [if_pos (by simpa using hSign), Int.negOfNat_eq]
        show -((q.natAbs : Nat) : Int) = q
        omega
      · rw [if_neg (by simpa using hSign)]
        show ((q.natAbs : Nat) : Int) = q
        omega
    dsimp only
    rw [hExponent]
    unfold Float.Model.ofScientific ofParts
    rw [h.ofModelScientific hc hPos hSome]

/-! ## Digits -/

theorem two_pow_1024_le : (2 : Nat) ^ 1024 ≤ 10 ^ 309 := by decide +kernel

theorem two_zpow_le_ten_zpow : (2 : ℚ) ^ (1024 : Int) ≤ 10 ^ (309 : Int) := by
  exact_mod_cast two_pow_1024_le

theorem two_pow_1075_le : (2 : Nat) ^ 1075 ≤ 10 ^ 324 := by decide +kernel

theorem ten_zpow_le_two_zpow : (10 : ℚ) ^ (-324 : Int) ≤ 2 ^ (-1075 : Int) := by
  have hCast : (2 : ℚ) ^ (1075 : Int) ≤ 10 ^ (324 : Int) := by exact_mod_cast two_pow_1075_le
  have hPos : (0 : ℚ) < 2 ^ (1075 : Int) := zpow_pos (by norm_num) _
  rw [zpow_neg, zpow_neg]
  exact inv_anti₀ hPos hCast

/-- A digit stands for a number below ten. -/
theorem toNat_digit_lt {b : UInt8} (h : isDigit b = true) : 48 ≤ b.toNat ∧ b.toNat - 48 < 10 := by
  simp only [isDigit, Bool.and_eq_true, decide_eq_true_eq, UInt8.le_iff_toNat_le] at h
  have hLow : 48 ≤ b.toNat := h.1
  have hHigh : b.toNat ≤ 57 := h.2
  omega

/-- The first digit counts for the power of ten with as many zeros as there are digits behind it. -/
theorem ofDigits_cons (b : UInt8) (ds : Octets) :
    ofDigits (b :: ds) = (b.toNat - 48) * 10 ^ ds.length + ofDigits ds := by
  have hSplit := ofDigits_append [b] ds
  rw [List.singleton_append] at hSplit
  rw [hSplit]
  show (10 * 0 + (b.toNat - 48)) * _ + _ = _
  rw [Nat.mul_zero, Nat.zero_add]
  rfl

/-- A number is below the power of ten with as many zeros as it has digits. -/
theorem ofDigits_lt {ds : Octets} (h : ds.all isDigit = true) : ofDigits ds < 10 ^ ds.length := by
  induction ds with
  | nil => decide
  | cons b ds ih =>
      rw [List.all_cons, Bool.and_eq_true] at h
      have hRest := ih h.2
      have hDigit := (toNat_digit_lt h.1).2
      rw [ofDigits_cons, List.length_cons, pow_succ]
      calc (b.toNat - 48) * 10 ^ ds.length + ofDigits ds
          < (b.toNat - 48) * 10 ^ ds.length + 10 ^ ds.length := by omega
        _ = (b.toNat - 48 + 1) * 10 ^ ds.length := by rw [Nat.add_mul, Nat.one_mul]
        _ ≤ 10 * 10 ^ ds.length := Nat.mul_le_mul_right _ (by omega)
        _ = 10 ^ ds.length * 10 := Nat.mul_comm _ _

/-- Zeros in front count for nothing. -/
theorem ofDigits_dropWhile (ds : Octets) : ofDigits (ds.dropWhile (· == 48)) = ofDigits ds := by
  induction ds with
  | nil => rfl
  | cons b ds ih =>
      by_cases hZero : b = 48
      · subst hZero
        rw [List.dropWhile_cons_of_pos (by rfl), ih, ofDigits_cons]
        show _ = 0 * _ + _
        rw [Nat.zero_mul, Nat.zero_add]
      · rw [List.dropWhile_cons_of_neg (by simpa using hZero)]

/-- Without zeros in front, the count of digits is the size of the number. -/
theorem le_ofDigits {b : UInt8} {ds : Octets} (hDigit : isDigit b = true) (hSome : b ≠ 48) :
    10 ^ ds.length ≤ ofDigits (b :: ds) := by
  have hLow := (toNat_digit_lt hDigit).1
  have hNe : b.toNat ≠ 48 := fun h => hSome (UInt8.toNat_inj.1 h)
  rw [ofDigits_cons]
  calc 10 ^ ds.length ≤ (b.toNat - 48) * 10 ^ ds.length := Nat.le_mul_of_pos_left _ (by omega)
    _ ≤ _ := Nat.le_add_right _ _

/-- Digits with an exponent are read as the double to which they round. -/
theorem ofDecimal_eq {ds : Octets} (hDigits : ds.all isDigit = true) (hSome : 0 < ofDigits ds)
    (h : Rounds m e ((ofDigits ds : ℚ) * 10 ^ q)) (hc : Canonical m e) (hPos : 0 < m) :
    ofDecimal ds q = ofParts m e hPos := by
  obtain ⟨hSmall, hLarge⟩ := h.bounds hc hPos
  generalize hs : ds.dropWhile (· == 48) = significant
  have hValue : ofDigits significant = ofDigits ds := by rw [← hs, ofDigits_dropWhile]
  have hAll : significant.all isDigit = true := by
    rw [List.all_eq_true] at hDigits ⊢
    intro b hMem
    apply hDigits
    rw [← hs] at hMem
    exact (List.dropWhile_sublist _).mem hMem
  rw [← hValue] at h hSmall hLarge hSome
  obtain _ | ⟨b, rest⟩ := significant
  · cases hSome
  · have hFirst : b ≠ 48 := by
      have hHead := List.head?_dropWhile_not (· == 48) ds
      rw [hs] at hHead
      simpa using hHead
    have hTen : (0 : ℚ) < 10 ^ q := zpow_pos (by norm_num) q
    have hFrom : (10 : ℚ) ^ rest.length ≤ ofDigits (b :: rest) := by
      rw [List.all_cons, Bool.and_eq_true] at hAll
      exact_mod_cast le_ofDigits hAll.1 hFirst
    have hTo : (ofDigits (b :: rest) : ℚ) < 10 ^ (rest.length + 1) := by
      exact_mod_cast ofDigits_lt hAll
    have hAbove : (rest.length : Int) + q < 309 := by
      apply (zpow_lt_zpow_iff_right₀ (by norm_num : (1 : ℚ) < 10)).1
      rw [zpow_add₀ (by norm_num), zpow_natCast]
      calc (10 : ℚ) ^ rest.length * 10 ^ q ≤ ofDigits (b :: rest) * 10 ^ q := by gcongr
        _ < 2 ^ (1024 : Int) := hLarge
        _ ≤ 10 ^ (309 : Int) := two_zpow_le_ten_zpow
    have hBelow : -324 < (rest.length : Int) + 1 + q := by
      apply (zpow_lt_zpow_iff_right₀ (by norm_num : (1 : ℚ) < 10)).1
      calc (10 : ℚ) ^ (-324 : Int) ≤ 2 ^ (-1075 : Int) := ten_zpow_le_two_zpow
        _ ≤ ofDigits (b :: rest) * 10 ^ q := hSmall
        _ < 10 ^ (rest.length + 1) * 10 ^ q := by gcongr
        _ = 10 ^ ((rest.length : Int) + 1 + q) := by
            rw [zpow_add₀ (by norm_num)]
            norm_cast
    unfold ofDecimal
    dsimp only
    rw [hs, ofLongDigits_eq, if_neg, if_neg]
    · exact h.ofScientific_eq hc hPos hSome
    · show ¬ (330 : Int) < ((rest.length + 1 : Nat) : Int) + q
      omega
    · have hPlace : ¬ ((rest.length + 1 : Nat) : Int) + q < -330 := by omega
      simpa [mostPlaces] using hPlace

end Decimal

end BatchStore.Number
