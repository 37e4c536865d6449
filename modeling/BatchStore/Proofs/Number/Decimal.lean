import BatchStore.Proofs.Number.Digits

/-!
# Decimals in octets

`Denotes w v` says that an octet string is read as the decimal number `v`: digits, perhaps with
a point among them, perhaps with an exponent behind them. However digits are laid out, what is
written denotes the number that the digits and the place of the point stand for
(`denotes_place`).
-/

namespace BatchStore.Number

/-! ## Reading decimals -/

/-- An octet string that is read as a decimal number. It begins with a digit, and holds nothing
that reading passes over. -/
structure Denotes (w : Octets) (v : ℚ) : Prop where
  plain : w.all isPlain = true
  first : ∃ b rest, w = b :: rest ∧ isDigit b = true
  read : ∃ (ds : Octets) (q : Int), ds.all isDigit = true ∧
    magnitude? w = some (ofDecimal ds q) ∧ (ofDigits ds : ℚ) * 10 ^ q = v

theorem takeWhile_digits {ds : Octets} (h : ds.all isDigit = true) {tail : Octets}
    (hTail : ∀ b ∈ tail.head?, isDigit b = false) : (ds ++ tail).takeWhile isDigit = ds := by
  induction ds with
  | nil =>
      obtain _ | ⟨b, rest⟩ := tail
      · rfl
      · have hFirst := hTail b rfl
        rw [List.nil_append, List.takeWhile_cons_of_neg]
        rw [hFirst]
        exact Bool.false_ne_true
  | cons b ds ih =>
      rw [List.all_cons, Bool.and_eq_true] at h
      rw [List.cons_append, List.takeWhile_cons_of_pos h.1, ih h.2]

/-- Digits are split off up to the first other octet. -/
theorem spanDigits_append {ds : Octets} (h : ds.all isDigit = true) {tail : Octets}
    (hTail : ∀ b ∈ tail.head?, isDigit b = false) : spanDigits (ds ++ tail) = (ds, tail) := by
  have hFront := takeWhile_digits h hTail
  have hBack : (ds ++ tail).dropWhile isDigit = tail := by
    have hSplit := List.takeWhile_append_dropWhile (p := isDigit) (l := ds ++ tail)
    rw [hFront] at hSplit
    exact List.append_cancel_left hSplit
  unfold spanDigits
  rw [hFront, hBack]

/-- Digits without a point, and what follows them. -/
theorem magnitude?_whole {whole tail : Octets} {e : Int} (hWhole : whole.all isDigit = true)
    (hSome : whole ≠ []) (hTail : ∀ b ∈ tail.head?, isDigit b = false ∧ b ≠ 46)
    (hExponent : exponent? tail = some e) :
    magnitude? (whole ++ tail) = some (ofDecimal whole e) := by
  have hSplit := spanDigits_append hWhole fun b hMem => (hTail b hMem).1
  have hEmpty : whole.isEmpty = false := List.isEmpty_eq_false_iff.2 hSome
  unfold magnitude?
  rw [hSplit]
  dsimp only
  split
  · rename_i rest
    exact absurd rfl (hTail 46 rfl).2
  · dsimp only
    rw [hEmpty, Bool.false_and, if_neg Bool.false_ne_true, hExponent, List.append_nil]
    show some (ofDecimal whole (e - 0)) = _
    rw [Int.sub_zero]

/-- Digits with a point among them, and what follows them. -/
theorem magnitude?_point {whole fraction tail : Octets} {e : Int}
    (hWhole : whole.all isDigit = true) (hSome : whole ≠ [])
    (hFraction : fraction.all isDigit = true) (hTail : ∀ b ∈ tail.head?, isDigit b = false)
    (hExponent : exponent? tail = some e) :
    magnitude? (whole ++ 46 :: (fraction ++ tail)) =
      some (ofDecimal (whole ++ fraction) (e - fraction.length)) := by
  have hPoint : ∀ b ∈ (46 :: (fraction ++ tail) : Octets).head?, isDigit b = false := by
    intro b hMem
    cases hMem
    decide
  have hEmpty : whole.isEmpty = false := List.isEmpty_eq_false_iff.2 hSome
  unfold magnitude?
  rw [spanDigits_append hWhole hPoint]
  show (if (whole.isEmpty && (spanDigits (fraction ++ tail)).1.isEmpty) = true then none
    else (exponent? (spanDigits (fraction ++ tail)).2).map fun e =>
      ofDecimal (whole ++ (spanDigits (fraction ++ tail)).1)
        (e - (spanDigits (fraction ++ tail)).1.length)) = _
  rw [spanDigits_append hFraction hTail, hEmpty, Bool.false_and, if_neg Bool.false_ne_true,
    hExponent]
  rfl

/-- An exponent with its sign. -/
theorem exponent?_signed {ds : Octets} (h : ds.all isDigit = true) (hSome : ds ≠ [])
    (negative : Bool) :
    exponent? (101 :: (if negative then 45 else 43) :: ds) =
      some (if negative then -(ofDigits ds : Int) else ofDigits ds) := by
  have hEmpty : ds.isEmpty = false := List.isEmpty_eq_false_iff.2 hSome
  have hTest : ¬ (ds.isEmpty || !ds.all isDigit) = true := by
    rw [hEmpty, h]
    decide
  have hMark : ((101 : UInt8) == 101 || (101 : UInt8) == 69) = true := by decide
  unfold exponent?
  dsimp only
  rw [if_pos hMark]
  cases negative
  · have hSign : splitSign (43 :: ds) = (false, ds) := rfl
    rw [if_neg Bool.false_ne_true, hSign]
    dsimp only
    rw [if_neg hTest, ofLongDigits_eq]
  · have hSign : splitSign (45 :: ds) = (true, ds) := rfl
    rw [if_pos rfl, hSign]
    dsimp only
    rw [if_neg hTest, ofLongDigits_eq]

theorem Denotes.congr {w : Octets} {v u : ℚ} (h : Denotes w v) (hEq : v = u) :
    Denotes w u := hEq ▸ h

theorem first_of_digits {whole : Octets} (h : whole.all isDigit = true) (hSome : whole ≠ [])
    (tail : Octets) : ∃ b rest, whole ++ tail = b :: rest ∧ isDigit b = true := by
  obtain _ | ⟨b, rest⟩ := whole
  · exact absurd rfl hSome
  · rw [List.all_cons, Bool.and_eq_true] at h
    exact ⟨b, rest ++ tail, rfl, h.1⟩

section Forms

variable {whole fraction exponent : Octets}

theorem denotes_digits (hWhole : whole.all isDigit = true) (hSome : whole ≠ []) :
    Denotes whole (ofDigits whole) := by
  have hRead := @magnitude?_whole whole [] 0 hWhole hSome (fun _ hMem => nomatch hMem) rfl
  have hFirst := first_of_digits hWhole hSome []
  rw [List.append_nil] at hRead hFirst
  refine ⟨all_plain_of_digits hWhole, hFirst, whole, 0, hWhole, hRead, ?_⟩
  rw [zpow_zero, mul_one]

/-- A number with a point in it. -/
theorem denotes_point (hWhole : whole.all isDigit = true) (hSome : whole ≠ [])
    (hFraction : fraction.all isDigit = true) :
    Denotes (whole ++ 46 :: fraction)
      ((ofDigits (whole ++ fraction) : ℚ) * 10 ^ (-(fraction.length : Int))) := by
  have hRead := @magnitude?_point whole fraction [] 0 hWhole hSome hFraction
    (fun _ hMem => nomatch hMem) rfl
  rw [List.append_nil, Int.zero_sub] at hRead
  refine ⟨?_, first_of_digits hWhole hSome _, _, _, ?_, hRead, rfl⟩
  · rw [List.all_append, List.all_cons, all_plain_of_digits hWhole, all_plain_of_digits hFraction]
    rfl
  · rw [List.all_append, hWhole, hFraction]
    rfl

theorem plain_exponent (hExponent : exponent.all isDigit = true) (negative : Bool) :
    (101 :: (if negative then 45 else 43) :: exponent : Octets).all isPlain = true := by
  rw [List.all_cons, List.all_cons, all_plain_of_digits hExponent]
  cases negative <;> rfl

/-- A number with an exponent behind it. -/
theorem denotes_exponent (hWhole : whole.all isDigit = true) (hSome : whole ≠ [])
    (hExponent : exponent.all isDigit = true) (hPower : exponent ≠ []) (negative : Bool) :
    Denotes (whole ++ 101 :: (if negative then 45 else 43) :: exponent)
      ((ofDigits whole : ℚ) *
        10 ^ (if negative then -(ofDigits exponent : Int) else ofDigits exponent)) := by
  have hRead := magnitude?_whole hWhole hSome (by
    intro b hMem
    cases hMem
    decide) (exponent?_signed hExponent hPower negative)
  refine ⟨?_, first_of_digits hWhole hSome _, _, _, hWhole, hRead, rfl⟩
  rw [List.all_append, all_plain_of_digits hWhole, plain_exponent hExponent]
  rfl

/-- A number with a point in it and an exponent behind it. -/
theorem denotes_point_exponent (hWhole : whole.all isDigit = true) (hSome : whole ≠ [])
    (hFraction : fraction.all isDigit = true) (hExponent : exponent.all isDigit = true)
    (hPower : exponent ≠ []) (negative : Bool) :
    Denotes (whole ++ 46 :: (fraction ++ 101 :: (if negative then 45 else 43) :: exponent))
      ((ofDigits (whole ++ fraction) : ℚ) *
        10 ^ ((if negative then -(ofDigits exponent : Int) else ofDigits exponent) -
          fraction.length)) := by
  have hRead := magnitude?_point hWhole hSome hFraction (by
    intro b hMem
    cases hMem
    decide) (exponent?_signed hExponent hPower negative)
  refine ⟨?_, first_of_digits hWhole hSome _, _, _, ?_, hRead, rfl⟩
  · rw [List.all_append, List.all_cons, List.all_append, all_plain_of_digits hWhole,
      all_plain_of_digits hFraction, plain_exponent hExponent]
    rfl
  · rw [List.all_append, hWhole, hFraction]
    rfl

end Forms

/-! ## Layouts -/

section Layouts

variable {digits : List Char} {point : Int}

/-- Zeros between the point and the digits. -/
theorem denotes_small (hDigits : ∀ c ∈ digits, c.isDigit = true) (hSmall : point ≤ 0) :
    Denotes (Octets.ofText ("0." ++ String.ofList (List.replicate (-point).toNat '0' ++ digits)))
      ((ofDigits (digitOctets digits) : ℚ) * 10 ^ (point - digits.length)) := by
  have hRow : ∀ c ∈ List.replicate (-point).toNat '0' ++ digits, c.isDigit = true := by
    intro c hMem
    rcases List.mem_append.1 hMem with hZero | hDigit
    · exact isDigit_replicate _ c hZero
    · exact hDigits c hDigit
  have hForm := denotes_point (by decide : ([48] : Octets).all isDigit = true) (by decide)
    (all_digitOctets hRow)
  have hValue : ofDigits ([48] ++ digitOctets (List.replicate (-point).toNat '0' ++ digits)) =
      ofDigits (digitOctets digits) := by
    rw [List.singleton_append, ofDigits_cons, ofDigits_zeros_append]
    show 0 * _ + _ = _
    rw [Nat.zero_mul, Nat.zero_add]
  rw [hValue, length_digitOctets, List.length_append, List.length_replicate] at hForm
  rw [Octets.ofText_append, ofText_digits hRow]
  apply hForm.congr
  congr 2
  omega

/-- Zeros between the digits and the point. -/
theorem denotes_large (hDigits : ∀ c ∈ digits, c.isDigit = true) (hSome : digits ≠ [])
    (hLarge : 0 < point) (hWhole : digits.length ≤ point.toNat) :
    Denotes (Octets.ofText
        (String.ofList (digits ++ List.replicate (point.toNat - digits.length) '0') ++ ".0"))
      ((ofDigits (digitOctets digits) : ℚ) * 10 ^ (point - digits.length)) := by
  have hRow : ∀ c ∈ digits ++ List.replicate (point.toNat - digits.length) '0',
      c.isDigit = true := by
    intro c hMem
    rcases List.mem_append.1 hMem with hDigit | hZero
    · exact hDigits c hDigit
    · exact isDigit_replicate _ c hZero
  have hRowSome : digitOctets (digits ++ List.replicate (point.toNat - digits.length) '0') ≠ [] :=
    fun hNil => hSome (List.append_eq_nil_iff.1 (List.map_eq_nil_iff.1 hNil)).1
  have hForm := denotes_point (all_digitOctets hRow) hRowSome
    (by decide : ([48] : Octets).all isDigit = true)
  have hValue : ofDigits (digitOctets (digits ++
      List.replicate (point.toNat - digits.length) '0') ++ [48]) =
      ofDigits (digitOctets digits) * 10 ^ (point.toNat - digits.length) * 10 := by
    rw [ofDigits_append, ofDigits_append_zeros]
    rfl
  have hPower : (10 : ℚ) ^ (point - digits.length) = 10 ^ (point.toNat - digits.length) := by
    rw [← zpow_natCast]
    congr 1
    omega
  rw [hValue] at hForm
  rw [Octets.ofText_append, ofText_digits hRow]
  apply hForm.congr
  rw [hPower, List.length_singleton]
  push_cast
  norm_num
  ring

/-- The point among the digits. -/
theorem denotes_between (hDigits : ∀ c ∈ digits, c.isDigit = true) (hLarge : 0 < point)
    (hBroken : ¬ digits.length ≤ point.toNat) :
    Denotes (Octets.ofText (String.ofList (digits.take point.toNat) ++ "." ++
        String.ofList (digits.drop point.toNat)))
      ((ofDigits (digitOctets digits) : ℚ) * 10 ^ (point - digits.length)) := by
  have hFront : ∀ c ∈ digits.take point.toNat, c.isDigit = true :=
    fun c hMem => hDigits c (List.mem_of_mem_take hMem)
  have hBack : ∀ c ∈ digits.drop point.toNat, c.isDigit = true :=
    fun c hMem => hDigits c (List.mem_of_mem_drop hMem)
  have hFrontSome : digitOctets (digits.take point.toNat) ≠ [] := by
    intro hNil
    have hLength := length_digitOctets (digits.take point.toNat)
    rw [hNil, List.length_take, List.length_nil] at hLength
    omega
  have hForm := denotes_point (all_digitOctets hFront) hFrontSome (all_digitOctets hBack)
  rw [← digitOctets_append, List.take_append_drop, length_digitOctets, List.length_drop] at hForm
  rw [Octets.ofText_append, Octets.ofText_append, ofText_digits hFront, ofText_digits hBack,
    List.append_assoc]
  apply hForm.congr
  congr 2
  omega

/-- An exponent with its sign, which is filled up with zeros. -/
theorem ofText_exponent (width : Nat) (k : Int) :
    ∃ exponent : Octets, exponent.all isDigit = true ∧ exponent ≠ [] ∧
      ofDigits exponent = k.natAbs ∧
      Octets.ofText "e" ++ (Octets.ofText (if k < 0 then "-" else "+") ++
          Octets.ofText (padLeft width (digitText k.natAbs))) =
        101 :: (if decide (k < 0) then 45 else 43) :: exponent := by
  have hDigits := isDigit_toDigits k.natAbs
  have hZeros := isDigit_replicate (width - (digitText k.natAbs).length)
  refine ⟨digitOctets (List.replicate (width - (digitText k.natAbs).length) '0' ++
    Nat.toDigits 10 k.natAbs), ?_, ?_, ?_, ?_⟩
  · rw [digitOctets_append, List.all_append, all_digitOctets hZeros, all_digitOctets hDigits]
    rfl
  · rw [digitOctets_append]
    exact List.append_ne_nil_of_right_ne_nil _ (digitOctets_toDigits_ne_nil k.natAbs)
  · rw [ofDigits_zeros_append, ofDigits_toDigits]
  · have hPad : Octets.ofText (padLeft width (digitText k.natAbs)) =
        digitOctets (List.replicate (width - (digitText k.natAbs).length) '0' ++
          Nat.toDigits 10 k.natAbs) := by
      rw [digitOctets_append, ← ofText_digits hZeros, ← ofText_digits hDigits]
      exact Octets.ofText_append _ _
    rw [hPad]
    by_cases hSign : k < 0
    · rw [if_pos hSign, if_pos (decide_eq_true hSign)]
      rfl
    · rw [if_neg hSign, if_neg (by simpa using hSign)]
      rfl

/-- The value of an exponent with its sign. -/
theorem signed_natAbs (k : Int) : (if decide (k < 0) then -(k.natAbs : Int) else k.natAbs) = k := by
  by_cases hSign : k < 0
  · rw [if_pos (decide_eq_true hSign)]
    omega
  · rw [if_neg (by simpa using hSign)]
    omega

/-- One digit, and the place of the point as an exponent. -/
theorem denotes_digit_exponent (width : Nat) {d : Char} (hDigit : d.isDigit = true) :
    Denotes (Octets.ofText (String.ofList [d] ++ "" ++ "e" ++
        (if point - 1 < 0 then "-" else "+") ++ padLeft width (digitText (point - 1).natAbs)))
      ((ofDigits (digitOctets [d]) : ℚ) * 10 ^ (point - 1)) := by
  have hRow : ∀ c ∈ [d], c.isDigit = true := by
    intro c hMem
    rw [List.mem_singleton.1 hMem]
    exact hDigit
  obtain ⟨exponent, hExponent, hPower, hValue, hText⟩ := ofText_exponent width (point - 1)
  have hForm := denotes_exponent (all_digitOctets hRow) (List.cons_ne_nil _ _) hExponent hPower
    (point - 1 < 0)
  rw [hValue, signed_natAbs] at hForm
  rw [Octets.ofText_append, Octets.ofText_append, Octets.ofText_append, Octets.ofText_append,
    ofText_digits hRow, List.append_assoc, List.append_assoc, hText]
  exact hForm

/-- A digit in front of the point and others behind it, and the place of the point as an
exponent. -/
theorem denotes_digits_exponent (width : Nat) {d : Char} {others : List Char}
    (hDigits : ∀ c ∈ d :: others, c.isDigit = true) :
    Denotes (Octets.ofText (String.ofList [d] ++ ("." ++ String.ofList others) ++ "e" ++
        (if point - 1 < 0 then "-" else "+") ++ padLeft width (digitText (point - 1).natAbs)))
      ((ofDigits (digitOctets (d :: others)) : ℚ) * 10 ^ (point - (d :: others).length)) := by
  have hRow : ∀ c ∈ [d], c.isDigit = true := by
    intro c hMem
    rw [List.mem_singleton.1 hMem]
    exact hDigits d List.mem_cons_self
  have hOthers : ∀ c ∈ others, c.isDigit = true :=
    fun c hMem => hDigits c (List.mem_cons_of_mem d hMem)
  obtain ⟨exponent, hExponent, hPower, hValue, hText⟩ := ofText_exponent width (point - 1)
  have hForm := denotes_point_exponent (all_digitOctets hRow) (List.cons_ne_nil _ _)
    (all_digitOctets hOthers) hExponent hPower (point - 1 < 0)
  rw [hValue, signed_natAbs, ← digitOctets_append, length_digitOctets] at hForm
  rw [Octets.ofText_append, Octets.ofText_append, Octets.ofText_append, Octets.ofText_append,
    Octets.ofText_append, ofText_digits hRow, ofText_digits hOthers, List.append_assoc,
    List.append_assoc, hText, List.append_assoc]
  apply hForm.congr
  rw [List.singleton_append, List.length_cons]
  congr 2
  omega

end Layouts

/-- However digits are laid out, they are read as what they denote. -/
theorem denotes_place {l : Layout} (hMark : l.wholeMark = ".0") {digits : List Char}
    (hDigits : ∀ c ∈ digits, c.isDigit = true) (hSome : digits ≠ []) (point : Int) :
    Denotes (Octets.ofText (l.place digits point))
      ((ofDigits (digitOctets digits) : ℚ) * 10 ^ (point - digits.length)) := by
  unfold Layout.place
  by_cases hPlain : (decide (l.minPoint ≤ point) && decide (point ≤ l.maxPoint)) = true
  · rw [if_pos hPlain]
    by_cases hSmall : point ≤ 0
    · rw [if_pos hSmall]
      exact denotes_small hDigits hSmall
    · rw [if_neg hSmall]
      by_cases hWhole : digits.length ≤ point.toNat
      · rw [if_pos hWhole, hMark]
        exact denotes_large hDigits hSome (by omega) hWhole
      · rw [if_neg hWhole]
        exact denotes_between hDigits (by omega) hWhole
  · rw [if_neg hPlain]
    obtain _ | ⟨d, others⟩ := digits
    · exact absurd rfl hSome
    · obtain _ | ⟨c, others⟩ := others
      · exact denotes_digit_exponent l.exponentDigits (hDigits d List.mem_cons_self)
      · exact denotes_digits_exponent l.exponentDigits hDigits

end BatchStore.Number
