import Mathlib.Algebra.Order.Ring.Int
import BatchStore.Number.Dyadic

/-!
# Doubles and their bits

A double is its 64 bits: one for the sign, eleven for the exponent and 52 for the mantissa. To
compute with it, its parts are taken out (`unpack`), and the parts of the result are put
together (`pack`). Here the one is shown to undo the other: `pack_unpack` on bits that are
those of a double, `ofBits_toBits` on doubles themselves.

`Canonical` says of a mantissa and an exponent that a double can have them.
-/

namespace BatchStore.Number

open Float.Model UnpackedFloat

/-! ## The parts of 64 bits -/

/-- A number of 64 bits is put together again from the first, the next eleven and the rest. -/
theorem or_parts {n : Nat} (h : n < 2 ^ 64) :
    ((n / 2 ^ 63 % 2) <<< 11 ||| n / 2 ^ 52 % 2 ^ 11) <<< 52 ||| n % 2 ^ 52 = n := by
  have hExponent : n / 2 ^ 52 % 2 ^ 11 < 2 ^ 11 := Nat.mod_lt _ (by decide)
  have hMantissa : n % 2 ^ 52 < 2 ^ 52 := Nat.mod_lt _ (by decide)
  rw [← Nat.shiftLeft_add_eq_or_of_lt hExponent, ← Nat.shiftLeft_add_eq_or_of_lt hMantissa,
    Nat.shiftLeft_eq, Nat.shiftLeft_eq]
  omega

/-- The sign is the highest bit. -/
theorem toNat_unpackSign (b : BitVec Format.binary64.numBits) :
    (unpackSign b).toNat = b.toNat / 2 ^ 63 % 2 := by
  have hBits : (unpackSign b).toNat = (b.extractLsb 63 63).toNat := rfl
  rw [hBits, BitVec.extractLsb_toNat, Nat.shiftRight_eq_div_pow]

/-- The exponent is the eleven bits below the sign. -/
theorem toNat_unpackExponent (b : BitVec Format.binary64.numBits) :
    (unpackExponent b).toNat = b.toNat / 2 ^ 52 % 2 ^ 11 := by
  have hBits : (unpackExponent b).toNat = (b.extractLsb 62 52).toNat := rfl
  rw [hBits, BitVec.extractLsb_toNat, Nat.shiftRight_eq_div_pow]

/-- The mantissa is the lowest 52 bits. -/
theorem toNat_unpackMantissa (b : BitVec Format.binary64.numBits) :
    (unpackMantissa b).toNat = b.toNat % 2 ^ 52 := by
  have hBits : (unpackMantissa b).toNat = (b.extractLsb 51 0).toNat := rfl
  rw [hBits, BitVec.extractLsb_toNat, Nat.shiftRight_zero]

theorem toNat_packComponents (s : Sign) (e : BitVec 11) (m : BitVec 52) :
    (packComponents Format.binary64 s e m).toNat =
      (s.toBitVec.toNat <<< 11 ||| e.toNat) <<< 52 ||| m.toNat := by
  unfold packComponents
  rw [BitVec.toNat_append, BitVec.toNat_append]

theorem toBitVec_ofBitVec (s : BitVec 1) : (Sign.ofBitVec s).toBitVec = s := by
  revert s
  decide

/-- Packing what was unpacked gives the bits back. -/
theorem packComponents_unpack (b : BitVec Format.binary64.numBits) :
    packComponents Format.binary64 (Sign.ofBitVec (unpackSign b)) (unpackExponent b)
      (unpackMantissa b) = b := by
  apply BitVec.eq_of_toNat_eq
  rw [toNat_packComponents, toBitVec_ofBitVec, toNat_unpackSign, toNat_unpackExponent,
    toNat_unpackMantissa]
  exact or_parts b.isLt

/-- A normal mantissa has the leading bit that is not stored. -/
theorem normal_toNat (m : BitVec 52) : (1#1 ++ m).toNat = 2 ^ 52 + m.toNat := by
  rw [BitVec.toNat_append, ← Nat.shiftLeft_add_eq_or_of_lt m.isLt]
  rfl

/-! ## Putting together -/

/-- A mantissa and an exponent as a double has them: 53 bits, but fewer at the lowest exponent. -/
structure Canonical (m : Nat) (e : Int) : Prop where
  short : m < 2 ^ 53
  low : -1074 ≤ e
  high : e ≤ 971
  full : e = -1074 ∨ 2 ^ 52 ≤ m

theorem log2_lt_52 {m : Nat} (h : m < 2 ^ 52) (hPos : 0 < m) : m.log2 + 1 ≠ 53 := by
  have : m.log2 < 52 := (Nat.log2_lt (by omega)).2 h
  omega

theorem log2_eq_52 {m : Nat} (h : m < 2 ^ 53) (hFull : 2 ^ 52 ≤ m) : m.log2 + 1 = 53 := by
  have hLow : 52 ≤ m.log2 := (Nat.le_log2 (by omega)).2 hFull
  have hHigh : m.log2 < 53 := (Nat.log2_lt (by omega)).2 h
  omega

/-- The bits of a number that keeps all of the mantissa. -/
theorem pack_normal (s : Sign) {m : Nat} {e : Int} (hPos : 0 < m) (h : Canonical m e)
    (hFull : 2 ^ 52 ≤ m) :
    pack Format.binary64 (.finite s m e hPos) =
      packComponents Format.binary64 s (BitVec.ofNat 11 (e + 1075).toNat) (BitVec.ofNat 52 m) := by
  have hExponent : (e + Format.binary64.exponentBias + (52 : Nat)).toNat = (e + 1075).toNat := by
    have : (Format.binary64.exponentBias : Int) = 1023 := rfl
    omega
  unfold UnpackedFloat.pack
  dsimp only
  rw [hExponent, if_neg, if_pos]
  · exact log2_eq_52 h.short hFull
  · have := h.high
    have := h.low
    omega

/-- A subnormal number is packed with the exponent zero. -/
theorem pack_subnormal (s : Sign) {m : Nat} (hPos : 0 < m) (hShort : m < 2 ^ 52) :
    pack Format.binary64 (.finite s m (-1074) hPos) =
      packComponents Format.binary64 s 0 (BitVec.ofNat 52 m) := by
  unfold UnpackedFloat.pack
  dsimp only
  rw [if_neg, if_neg]
  · rfl
  · exact log2_lt_52 hShort hPos
  · decide


/-! ## Taking apart -/

theorem unpackSign_packComponents (s : Sign) (e : BitVec 11) (m : BitVec 52) :
    unpackSign (packComponents Format.binary64 s e m) = s.toBitVec := by
  apply BitVec.eq_of_toNat_eq
  rw [toNat_unpackSign, toNat_packComponents, ← Nat.shiftLeft_add_eq_or_of_lt m.isLt,
    ← Nat.shiftLeft_add_eq_or_of_lt e.isLt, Nat.shiftLeft_eq, Nat.shiftLeft_eq]
  have hSign := s.toBitVec.isLt
  have hExponent := e.isLt
  have hMantissa := m.isLt
  omega

theorem ofBitVec_toBitVec (s : Sign) : Sign.ofBitVec s.toBitVec = s := by
  cases s <;> rfl

theorem normal_pos (m : BitVec 52) : 0 < (1#1 ++ m).toNat := by
  rw [normal_toNat]
  omega

/-- What is taken apart, by its parts. -/
theorem unpack_packComponents (s : Sign) (e : BitVec 11) (m : BitVec 52) :
    unpack Format.binary64 (packComponents Format.binary64 s e m) =
      if e = -1#11 then if m = 0#52 then .infinity s else .notANumber
      else if e = 0#11 then
        if h : m = 0#52 then .zero s
        else .finite s m.toNat ((e.toNat : Int) - 1075 + 1)
          (Nat.pos_of_ne_zero fun hZero => h (BitVec.eq_of_toNat_eq hZero))
      else .finite s (1#1 ++ m).toNat ((e.toNat : Int) - 1075) (normal_pos m) := by
  have hParts (b : BitVec Format.binary64.numBits) (hSign : Sign.ofBitVec (unpackSign b) = s)
      (hExponent : unpackExponent b = e) (hMantissa : unpackMantissa b = m) :
      unpack Format.binary64 b =
        if e = -1#11 then if m = 0#52 then .infinity s else .notANumber
        else if e = 0#11 then
          if h : m = 0#52 then .zero s
          else .finite s m.toNat ((e.toNat : Int) - 1075 + 1)
            (Nat.pos_of_ne_zero fun hZero => h (BitVec.eq_of_toNat_eq hZero))
        else .finite s (1#1 ++ m).toNat ((e.toNat : Int) - 1075) (normal_pos m) := by
    subst hSign hExponent hMantissa
    rfl
  refine hParts _ ?_ unpackExponent_packComponents unpackMantissa_packComponents
  rw [unpackSign_packComponents, ofBitVec_toBitVec]

/-- A double of the highest exponent is no number. -/
theorem unpack_top (s : Sign) (m : BitVec 52) :
    unpack Format.binary64 (packComponents Format.binary64 s (-1) m) =
      if m = 0 then .infinity s else .notANumber := by
  rw [unpack_packComponents]
  exact if_pos rfl

/-- The lowest exponent stands for zero and for subnormal numbers. -/
theorem unpack_bottom (s : Sign) (m : BitVec 52) :
    unpack Format.binary64 (packComponents Format.binary64 s 0 m) =
      if h : m = 0 then .zero s
      else .finite s m.toNat (-1074)
        (Nat.pos_of_ne_zero fun hZero => h (BitVec.eq_of_toNat_eq hZero)) := by
  rw [unpack_packComponents, if_neg (by decide)]
  exact if_pos rfl

/-- Any exponent but the lowest and the highest stands for normal numbers. -/
theorem unpack_middle (s : Sign) {e : BitVec 11} (m : BitVec 52) (hTop : e ≠ -1#11)
    (hBottom : e ≠ 0#11) :
    unpack Format.binary64 (packComponents Format.binary64 s e m) =
      .finite s (1#1 ++ m).toNat ((e.toNat : Int) - 1075) (normal_pos m) := by
  rw [unpack_packComponents, if_neg hTop]
  exact if_neg hBottom

/-! ## There and back -/

/-- What is taken apart and put together again is what it was. -/
theorem pack_unpack {b : BitVec Format.binary64.numBits} (hValid : Format.binary64.Valid b) :
    pack Format.binary64 (unpack Format.binary64 b) = b := by
  generalize hs : Sign.ofBitVec (unpackSign b) = s
  generalize he : unpackExponent b = e
  generalize hm : unpackMantissa b = m
  have hParts : packComponents Format.binary64 s e m = b := by
    rw [← hs, ← he, ← hm]
    exact packComponents_unpack b
  have hShort : m.toNat < 2 ^ 52 := m.isLt
  by_cases hTop : e = -1
  · subst hTop
    by_cases hZero : m = 0
    · rw [← hParts, unpack_top, if_pos hZero, hZero]
      rfl
    · have hNaN := hValid.eq_packedNaN he (hm ▸ hZero)
      rw [hNaN]
      rfl
  · by_cases hBottom : e = 0
    · subst hBottom
      rw [← hParts, unpack_bottom]
      by_cases hZero : m = 0
      · rw [dif_pos hZero, hZero]
        rfl
      · rw [dif_neg hZero, pack_subnormal _ _ hShort, BitVec.ofNat_toNat, BitVec.setWidth_eq]
    · have hLow : 0 < e.toNat := Nat.pos_of_ne_zero fun h => hBottom (BitVec.eq_of_toNat_eq h)
      have hHigh : e.toNat < 2047 := by
        have : e.toNat ≠ 2047 := fun h => hTop (BitVec.eq_of_toNat_eq h)
        have : e.toNat < 2048 := e.isLt
        omega
      have hNormal : (1#1 ++ m).toNat = 2 ^ 52 + m.toNat := normal_toNat m
      have hCanonical : Canonical (1#1 ++ m).toNat (e.toNat - 1075) :=
        ⟨by omega, by omega, by omega, .inr (by omega)⟩
      rw [← hParts, unpack_middle s m hTop hBottom, pack_normal s _ hCanonical (by omega)]
      congr 1
      · apply BitVec.eq_of_toNat_eq
        rw [BitVec.toNat_ofNat]
        omega
      · apply BitVec.eq_of_toNat_eq
        rw [BitVec.toNat_ofNat]
        omega

/-- Finite numbers with the same parts are the same, whatever shows that their mantissa is
positive. -/
theorem finite_congr {s : Sign} {m n : Nat} {e f : Int} (hMantissa : m = n) (hExponent : e = f)
    (hm : 0 < m) (hn : 0 < n) : UnpackedFloat.finite s m e hm = .finite s n f hn := by
  subst hMantissa hExponent
  rfl

/-- What is put together of canonical parts is taken apart into them. -/
theorem unpack_pack (s : Sign) {m : Nat} {e : Int} (hPos : 0 < m) (h : Canonical m e) :
    unpack Format.binary64 (pack Format.binary64 (.finite s m e hPos)) = .finite s m e hPos := by
  by_cases hFull : 2 ^ 52 ≤ m
  · have hLow := h.low
    have hHigh := h.high
    have hExponent : (BitVec.ofNat 11 (e + 1075).toNat).toNat = (e + 1075).toNat := by
      rw [BitVec.toNat_ofNat]
      omega
    have hMantissa : (1#1 ++ BitVec.ofNat 52 m).toNat = m := by
      have hShort := h.short
      rw [normal_toNat, BitVec.toNat_ofNat]
      omega
    have hTop : BitVec.ofNat 11 (e + 1075).toNat ≠ -1#11 := by
      intro hEq
      have hNat : (e + 1075).toNat = 2047 := by rw [← hExponent, hEq]; rfl
      omega
    have hBottom : BitVec.ofNat 11 (e + 1075).toNat ≠ 0#11 := by
      intro hEq
      have hNat : (e + 1075).toNat = 0 := by rw [← hExponent, hEq]; rfl
      omega
    rw [pack_normal s hPos h hFull, unpack_middle s _ hTop hBottom]
    exact finite_congr hMantissa (by rw [hExponent]; omega) _ _
  · have hLowest : e = -1074 := h.full.resolve_right hFull
    subst hLowest
    have hShort : m < 2 ^ 52 := by omega
    have hMantissa : (BitVec.ofNat 52 m).toNat = m := by
      rw [BitVec.toNat_ofNat]
      omega
    have hSome : BitVec.ofNat 52 m ≠ 0 := by
      intro hEq
      have hNat : m = 0 := by rw [← hMantissa, hEq]; rfl
      omega
    rw [pack_subnormal s hPos hShort, unpack_bottom, dif_neg hSome]
    exact finite_congr hMantissa rfl _ _

/-- The bits of a double are those of no other. -/
theorem ofBits_toBits (x : Float) : Float.ofBits x.toBits = x := by
  obtain ⟨⟨bits, hValid⟩⟩ := x
  unfold Float.ofBits Float.toBits Float.Model.ofBits Float.Model.pack
  congr 2
  have hBits := pack_unpack hValid
  exact congrArg UInt64.ofBitVec hBits

end BatchStore.Number
