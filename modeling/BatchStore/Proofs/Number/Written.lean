import Mathlib.Data.List.TakeWhile
import BatchStore.Proofs.Number.Decimal
import BatchStore.Proofs.Number.Shortest

/-!
# Doubles read back

A double is written as an argument by its shortest decimal, and the store reads the decimal to
the nearest double. `real?_realText` says that this is the double itself, of the two zeros the
positive one: the shortest decimal lies in the range of its double, and there the reading rounds
back.
-/

namespace BatchStore.Number

open Float.Model UnpackedFloat

/-! ## Reading what denotes a number -/

section Reading

variable {w : Octets} {v : ℚ} {m : Nat} {e : Int}

/-- A string that begins with a digit is no name. -/
theorem lower_ne_name {b : UInt8} {rest : Octets} (h : isDigit b = true) {name : Octets}
    (hName : ∀ c ∈ name.head?, isDigit c = false) (hSome : name ≠ []) :
    ¬ (Octets.lower (b :: rest) == name) = true := by
  obtain _ | ⟨c, others⟩ := name
  · exact absurd rfl hSome
  · rw [beq_iff_eq]
    intro hEq
    have hFirst : Octets.lowerOctet b = c := (List.cons.inj hEq).1
    have hSame : Octets.lowerOctet b = b := by
      obtain ⟨hLow, hHigh⟩ := toNat_digit_lt h
      unfold Octets.lowerOctet
      rw [if_neg]
      rintro ⟨hLetter, -⟩
      have hNever : 65 ≤ b.toNat := UInt8.le_iff_toNat_le.1 hLetter
      omega
    rw [hSame] at hFirst
    subst hFirst
    have hNone := hName b rfl
    rw [h] at hNone
    cases hNone

theorem Denotes.magnitude?_eq (h : Denotes w v) (hRounds : Rounds m e v) (hc : Canonical m e)
    (hPos : 0 < m) : magnitude? w = some (ofParts m e hPos) := by
  obtain ⟨ds, q, hDigits, hRead, rfl⟩ := h.read
  have hSome : 0 < ofDigits ds := by
    by_contra hZero
    have hNone : ofDigits ds = 0 := by omega
    have hLow := (hRounds.bounds hc hPos).1
    rw [hNone, Nat.cast_zero, zero_mul] at hLow
    exact absurd hLow (not_le.2 (two_zpow_pos _))
  rw [hRead, ofDecimal_eq hDigits hSome hRounds hc hPos]

/-- What denotes a number is read as the double to which it rounds, with or without a minus. -/
theorem Denotes.real?_eq (h : Denotes w v) (hRounds : Rounds m e v) (hc : Canonical m e)
    (hPos : 0 < m) (negative : Bool) :
    real? ((if negative then [45] else []) ++ w) =
      some (if negative then -ofParts m e hPos else ofParts m e hPos) := by
  have hMagnitude := h.magnitude?_eq hRounds hc hPos
  have hPlain := h.plain
  obtain ⟨b, rest, rfl, hDigit⟩ := h.first
  have hName : ∀ name : Octets, (∀ c ∈ name.head?, isDigit c = false) → name ≠ [] →
      ¬ (Octets.lower (b :: rest) == name) = true :=
    fun name hHead hSome => lower_ne_name hDigit hHead hSome
  have hInf : ¬ (Octets.lower (b :: rest) == Octets.ofText "inf" ||
      Octets.lower (b :: rest) == Octets.ofText "infinity") = true := by
    rw [Bool.or_eq_true, not_or]
    exact ⟨hName _ (by decide +kernel) (by decide +kernel),
      hName _ (by decide +kernel) (by decide +kernel)⟩
  have hNaN : ¬ (Octets.lower (b :: rest) == Octets.ofText "nan") = true :=
    hName _ (by decide +kernel) (by decide +kernel)
  unfold real?
  cases negative
  · rw [if_neg Bool.false_ne_true, List.nil_append, numeral?_plain hPlain]
    dsimp only [bind, Option.bind]
    rw [splitSign_digit hDigit]
    dsimp only
    rw [if_neg hInf, if_neg hNaN, hMagnitude]
  · have hSigned : (45 :: b :: rest : Octets).all isPlain = true := by
      rw [List.all_cons, hPlain]
      rfl
    have hSign : splitSign (45 :: b :: rest) = (true, b :: rest) := rfl
    rw [if_pos rfl, List.singleton_append, numeral?_plain hSigned]
    dsimp only [bind, Option.bind]
    rw [hSign]
    dsimp only
    rw [if_neg hInf, if_neg hNaN, hMagnitude]

end Reading

/-! ## Magnitudes -/

/-- The zeros at the end that are left out. -/
theorem trimZeros_append (digits : List Char) :
    ∃ k, digits = trimZeros digits ++ List.replicate k '0' := by
  have hZeros : ∀ c ∈ digits.reverse.takeWhile (· == '0'), c = '0' := by
    intro c hMem
    exact beq_iff_eq.1 (List.mem_takeWhile_imp (p := (· == '0')) hMem)
  refine ⟨(digits.reverse.takeWhile (· == '0')).length, ?_⟩
  have hSplit : digits.reverse.takeWhile (· == '0') ++ digits.reverse.dropWhile (· == '0') =
      digits.reverse := List.takeWhile_append_dropWhile
  have hReverse := congrArg List.reverse hSplit
  rw [List.reverse_append, List.reverse_reverse, List.eq_replicate_of_mem hZeros,
    List.reverse_replicate] at hReverse
  exact hReverse.symm

/-- What is written of a double denotes its shortest decimal. -/
theorem denotes_magnitude {l : Layout} (hMark : l.wholeMark = ".0") {d : Dyadic}
    (hSome : 0 < (shortest d).digits) :
    Denotes (Octets.ofText (l.magnitude d))
      ((shortest d).digits * 10 ^ (shortest d).exponent) := by
  generalize hp : shortest d = p at hSome
  obtain ⟨k, hSplit⟩ := trimZeros_append (Nat.toDigits 10 p.digits)
  generalize ht : trimZeros (Nat.toDigits 10 p.digits) = trimmed at hSplit
  have hValue : p.digits = ofDigits (digitOctets trimmed) * 10 ^ k := by
    rw [← ofDigits_append_zeros, ← hSplit, ofDigits_toDigits]
  have hTrimmed : trimmed ≠ [] := by
    rintro rfl
    have hZero : p.digits = 0 := hValue.trans (Nat.zero_mul _)
    omega
  have hDigits : ∀ c ∈ trimmed, c.isDigit = true := by
    intro c hMem
    apply isDigit_toDigits p.digits
    rw [hSplit]
    exact List.mem_append_left _ hMem
  have hPlace := denotes_place hMark hDigits hTrimmed
    ((Nat.toDigits 10 p.digits).length + p.exponent)
  unfold Layout.magnitude
  dsimp only
  rw [hp, ht, if_neg (by simpa using Nat.ne_of_gt hSome)]
  apply hPlace.congr
  have hLength : (Nat.toDigits 10 p.digits).length = trimmed.length + k := by
    rw [hSplit, List.length_append, List.length_replicate]
  have hExponent : ((Nat.toDigits 10 p.digits).length : Int) + p.exponent - trimmed.length =
      k + p.exponent := by omega
  rw [hExponent, zpow_add₀ (by norm_num), zpow_natCast, ← mul_assoc]
  congr 1
  exact_mod_cast hValue.symm

/-! ## Doubles -/

theorem ofModel_unpack (x : Float) : Float.ofModel (Float.Model.pack x.toModel.unpack) = x := by
  obtain ⟨⟨bits, hValid⟩⟩ := x
  unfold Float.Model.pack Float.Model.unpack
  congr 2
  exact congrArg UInt64.ofBitVec (pack_unpack hValid)

/-- A double with a sign. -/
def signedParts (negative : Bool) (m : Nat) (e : Int) (h : 0 < m) : Float :=
  if negative then -ofParts m e h else ofParts m e h

theorem signedParts_eq (negative : Bool) {m : Nat} {e : Int} (h : 0 < m) (hc : Canonical m e) :
    signedParts negative m e h =
      .ofModel (.pack (.finite (if negative then .negative else .positive) m e h)) := by
  cases negative
  · rfl
  · show Float.ofModel (Float.Model.pack (ofParts m e h).toModel.unpack.neg) = _
    rw [unpack_ofParts h hc]
    rfl

theorem negative_eq_sign (b : BitVec Format.binary64.numBits) :
    Sign.ofBitVec (unpackSign b) =
      if b.toNat / twoTo 63 == 1 then .negative else .positive := by
  have hSign := toNat_unpackSign b
  have hRange : b.toNat < 2 ^ 64 := b.isLt
  have hPower : twoTo 63 = 2 ^ 63 := rfl
  rw [hPower]
  by_cases hTop : b.toNat / 2 ^ 63 = 1
  · rw [if_pos (by rw [hTop]; rfl)]
    have hOne : unpackSign b = 1 := by
      apply BitVec.eq_of_toNat_eq
      rw [hSign, hTop]
      rfl
    rw [hOne]
    rfl
  · have hZero : unpackSign b = 0 := by
      apply BitVec.eq_of_toNat_eq
      rw [hSign]
      show _ = 0
      omega
    rw [if_neg (by simpa using hTop), hZero]
    rfl

/-- A double other than NaN is infinite, zero, or has a mantissa and an exponent. -/
theorem float_cases (x : Float) (h : x.isNaN = false) :
    (∃ s, x = .ofModel (.pack (.infinity s))) ∨ (∃ s, x = .ofModel (.pack (.zero s))) ∨
      ∃ (d : Dyadic) (hPos : 0 < d.mantissa), Dyadic.ofFloat? x = some d ∧
        Canonical d.mantissa d.exponent ∧
        x = signedParts d.negative d.mantissa d.exponent hPos := by
  obtain ⟨b, hb⟩ : ∃ b : BitVec Format.binary64.numBits, x.toModel.toBits.toBitVec = b := ⟨_, rfl⟩
  have hWhole := ofModel_unpack x
  have hNaN : x.toModel.unpack.isNaN = false := h
  have hUnpack : x.toModel.unpack = UnpackedFloat.unpack Format.binary64 b := by
    rw [← hb]
    rfl
  have hBits : x.toBits.toNat = b.toNat := by
    rw [← hb]
    rfl
  have hSign := negative_eq_sign b
  have hExponent := toNat_unpackExponent b
  have hMantissa := toNat_unpackMantissa b
  have hParts := packComponents_unpack b
  generalize Sign.ofBitVec (unpackSign b) = s at hSign hParts
  generalize unpackExponent b = e at hExponent hParts
  generalize unpackMantissa b = m at hMantissa hParts
  have hShort : m.toNat < 2 ^ 52 := m.isLt
  have hWide : e.toNat < 2048 := e.isLt
  generalize hn : (b.toNat / twoTo 63 == 1) = negative at hSign
  have hRead : Dyadic.ofFloat? x =
      if e.toNat == 2047 then none
      else if e.toNat == 0 then some ⟨negative, m.toNat, -1074⟩
      else some ⟨negative, twoTo 52 + m.toNat, (e.toNat : Int) - 1075⟩ := by
    rw [hExponent, hMantissa, ← hn, ← hBits]
    rfl
  rw [← hParts] at hUnpack
  by_cases hTop : e = -1
  · subst hTop
    rw [unpack_top] at hUnpack
    by_cases hZero : m = 0
    · rw [if_pos hZero] at hUnpack
      exact .inl ⟨s, by rw [← hUnpack, hWhole]⟩
    · rw [if_neg hZero] at hUnpack
      rw [hUnpack] at hNaN
      cases hNaN
  · have hHigh : e.toNat ≠ 2047 := fun hEq => hTop (BitVec.eq_of_toNat_eq hEq)
    rw [if_neg (by simpa using hHigh)] at hRead
    by_cases hBottom : e = 0
    · subst hBottom
      rw [unpack_bottom] at hUnpack
      by_cases hZero : m = 0
      · rw [dif_pos hZero] at hUnpack
        exact .inr (.inl ⟨s, by rw [← hUnpack, hWhole]⟩)
      · have hPos : 0 < m.toNat := Nat.pos_of_ne_zero fun hEq => hZero (BitVec.eq_of_toNat_eq hEq)
        have hc : Canonical m.toNat (-1074) := ⟨by omega, le_rfl, by norm_num, .inl rfl⟩
        rw [dif_neg hZero] at hUnpack
        refine .inr (.inr ⟨⟨negative, m.toNat, -1074⟩, hPos, hRead, hc, ?_⟩)
        rw [signedParts_eq negative hPos hc, ← hSign, ← hUnpack, hWhole]
    · have hLow : e.toNat ≠ 0 := fun hEq => hBottom (BitVec.eq_of_toNat_eq hEq)
      have hNormal : (1#1 ++ m).toNat = twoTo 52 + m.toNat := normal_toNat m
      have hFull : twoTo 52 = 2 ^ 52 := rfl
      have hPos : 0 < twoTo 52 + m.toNat := by omega
      have hc : Canonical (twoTo 52 + m.toNat) ((e.toNat : Int) - 1075) :=
        ⟨by omega, by omega, by omega, .inr (by omega)⟩
      rw [if_neg (by simpa using hLow)] at hRead
      rw [unpack_middle s m hTop hBottom] at hUnpack
      refine .inr
        (.inr ⟨⟨negative, twoTo 52 + m.toNat, (e.toNat : Int) - 1075⟩, hPos, hRead, hc, ?_⟩)
      rw [signedParts_eq negative hPos hc, ← hSign,
        ← finite_congr hNormal rfl (normal_pos m) hPos, ← hUnpack, hWhole]

/-- Every double but NaN is equal to itself. -/
theorem beq_signedParts (negative : Bool) {m : Nat} {e : Int} (h : 0 < m) (hc : Canonical m e) :
    (signedParts negative m e h == signedParts negative m e h) = true := by
  rw [signedParts_eq negative h hc]
  generalize (if negative then Sign.negative else Sign.positive) = s
  show (UnpackedFloat.compare (Float.Model.pack (.finite s m e h)).unpack
    (Float.Model.pack (.finite s m e h)).unpack == some .eq) = true
  have hUnpack : (Float.Model.pack (.finite s m e h)).unpack = .finite s m e h := unpack_pack s h hc
  have hSame : (compare e e).then (compare m m) = .eq := by
    rw [Int.compare_eq_eq.2 rfl, Nat.compare_eq_eq.2 rfl]
    rfl
  rw [hUnpack]
  cases s
  · show (some ((compare e e).then (compare m m)).swap == some .eq) = true
    rw [hSame]
    rfl
  · show (some ((compare e e).then (compare m m)) == some .eq) = true
    rw [hSame]
    rfl

/-! ## There and back -/

/-- A whole double is written as the whole number that it is. -/
theorem denotes_whole {d : Dyadic} (hPos : 0 < d.mantissa) (hWhole : d.isWhole = true) :
    ∃ w, Octets.ofText (toString d.truncate) = (if d.negative then [45] else []) ++ w ∧
      Denotes w d.value := by
  have hExact : d.num / d.den * d.den = d.num := by
    apply Nat.div_mul_cancel
    exact Nat.dvd_of_mod_eq_zero (beq_iff_eq.1 hWhole)
  have hNum : 0 < d.num := Nat.mul_pos hPos (twoTo_pos _)
  have hSome : 0 < d.num / d.den := by
    rw [← hExact] at hNum
    exact Nat.pos_of_mul_pos_right hNum
  have hValue : d.value = (d.num / d.den : Nat) := by
    have hDen : (0 : ℚ) < d.den := by exact_mod_cast d.den_pos
    rw [value_eq, div_eq_iff hDen.ne']
    exact_mod_cast hExact.symm
  refine ⟨digitOctets (Nat.toDigits 10 (d.num / d.den)), ?_, ?_⟩
  · rw [ofText_toString]
    unfold Dyadic.truncate Dyadic.signed
    cases d.negative
    · rw [if_neg Bool.false_ne_true, if_neg (by omega), Int.natAbs_natCast]
      rfl
    · rw [if_pos rfl, if_pos (by omega), Int.natAbs_neg, Int.natAbs_natCast]
      rfl
  · rw [hValue]
    have hDenotes := denotes_digits (all_digitOctets (isDigit_toDigits (d.num / d.den)))
      (digitOctets_toDigits_ne_nil _)
    rw [ofDigits_toDigits] at hDenotes
    exact hDenotes

/-- A double other than zero is written as a sign, if it is negative, and a number that rounds
to it. -/
theorem ofText_realText {x : Float} {d : Dyadic} (hRead : Dyadic.ofFloat? x = some d)
    (hPos : 0 < d.mantissa) (hc : Canonical d.mantissa d.exponent) :
    ∃ w v, Octets.ofText (realText x) = (if d.negative then [45] else []) ++ w ∧
      Denotes w v ∧ Rounds d.mantissa d.exponent v := by
  unfold realText
  rw [hRead]
  dsimp only
  by_cases hWhole : d.isWhole = true
  · rw [if_pos hWhole]
    obtain ⟨w, hOctets, hDenotes⟩ := denotes_whole hPos hWhole
    exact ⟨w, _, hOctets, hDenotes, rounds_self _ _⟩
  · rw [if_neg hWhole]
    obtain ⟨hSome, hRounds⟩ := shortest_rounds hPos hc
    refine ⟨Octets.ofText (realLayout.magnitude d), _, ?_, denotes_magnitude rfl hSome, hRounds⟩
    unfold Layout.real
    rw [hRead]
    dsimp only
    rw [Octets.ofText_append]
    cases d.negative <;> rfl

/-- A double other than NaN that is written as an argument is read back. -/
theorem real?_realText {x : Float} (h : x.isNaN = false) :
    ∃ y, real? (Octets.ofText (realText x)) = some y ∧ (y == x) = true := by
  rcases float_cases x h with ⟨s, rfl⟩ | ⟨s, rfl⟩ | ⟨d, hPos, hRead, hc, hx⟩
  · cases s
    · exact ⟨-infinity, by decide +kernel, by decide +kernel⟩
    · exact ⟨infinity, by decide +kernel, by decide +kernel⟩
  · cases s
    · exact ⟨0.0, by decide +kernel, by decide +kernel⟩
    · exact ⟨0.0, by decide +kernel, by decide +kernel⟩
  · refine ⟨x, ?_, by rw [hx]; exact beq_signedParts d.negative hPos hc⟩
    obtain ⟨w, v, hOctets, hDenotes, hRounds⟩ := ofText_realText hRead hPos hc
    rw [hOctets, hDenotes.real?_eq hRounds hc hPos d.negative, hx]
    rfl

/-! ## How numbers begin -/

/-- What a number begins with: a digit or a sign. -/
def beginsNumber (b : UInt8) : Bool := isDigit b || b == 43 || b == 45

theorem beginsNumber_of_isDigit {b : UInt8} (h : isDigit b = true) : beginsNumber b = true := by
  unfold beginsNumber
  rw [h]
  rfl

/-- Behind a sign or without one, a string that begins with a digit begins like a number. -/
theorem begins_signed {w : Octets} (h : ∃ b rest, w = b :: rest ∧ isDigit b = true)
    (negative : Bool) :
    ∃ b rest, (if negative then [45] else []) ++ w = b :: rest ∧ beginsNumber b = true := by
  obtain ⟨b, rest, rfl, hDigit⟩ := h
  cases negative
  · exact ⟨b, rest, rfl, beginsNumber_of_isDigit hDigit⟩
  · exact ⟨45, b :: rest, rfl, by decide⟩

theorem begins_realText {x : Float} (h : x.isNaN = false) :
    ∃ b rest, Octets.ofText (realText x) = b :: rest ∧ beginsNumber b = true := by
  have hOf {w : Octets} (hHead : w.head?.any beginsNumber = true) :
      ∃ b rest, w = b :: rest ∧ beginsNumber b = true := by
    obtain _ | ⟨b, rest⟩ := w
    · cases hHead
    · exact ⟨b, rest, rfl, hHead⟩
  rcases float_cases x h with ⟨s, rfl⟩ | ⟨s, rfl⟩ | ⟨d, hPos, hRead, hc, -⟩
  · apply hOf
    cases s <;> decide +kernel
  · apply hOf
    cases s <;> decide +kernel
  · obtain ⟨w, v, hOctets, hDenotes, -⟩ := ofText_realText hRead hPos hc
    rw [hOctets]
    exact begins_signed hDenotes.first d.negative

theorem begins_wholeText {n : Int} {s : String} (h : wholeText n = .ok s) :
    ∃ b rest, Octets.ofText s = b :: rest ∧ beginsNumber b = true := by
  have hText : s = toString n := by
    unfold wholeText intText? at h
    split at h
    · rename_i hSome
      split at hSome
      · cases h
        exact (Option.some.inj hSome).symm
      · cases hSome
    · cases h
  rw [hText, ofText_toString]
  have hFirst := first_of_digits (all_digitOctets (isDigit_toDigits n.natAbs))
    (digitOctets_toDigits_ne_nil n.natAbs) []
  rw [List.append_nil] at hFirst
  have hBegins := begins_signed hFirst (n < 0)
  simp only [decide_eq_true_eq] at hBegins
  exact hBegins

end BatchStore.Number
