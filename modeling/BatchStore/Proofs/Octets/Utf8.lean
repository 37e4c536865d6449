import BatchStore.Octets.Utf8

/-!
# Text that is written as octets reads back

`Octets.ofText` writes a text in UTF-8. `decode?` reads it back (`decode?_ofText`), and so
does the reading that passes over ill-formed groups (`decodeLossy_ofText`), which meets none.
And octets that read as a text are the octets of that text (`ofText_of_decode?`): `decode?` takes
no form of a character but the one that is written.

The facts behind this are about a single character. What `utf8EncodeChar` writes is taken off the
front by `next` as that character, whatever stands behind it (`next_encode`), and what `next`
takes off the front is what `utf8EncodeChar` writes (`encode_of_next`). Both are proved by the
length of the form. The number of the character is cut into groups of six bits, so each case is
arithmetic on quotients and remainders.
-/

namespace BatchStore.Octets

/-! ## Octets by their numbers -/

theorem toNat_ofNat {n : Nat} (h : n < 256) : (UInt8.ofNat n).toNat = n := by
  simp only [UInt8.toNat_ofNat']
  omega

theorem isContinuation_iff (b : UInt8) :
    isContinuation b = true ↔ 128 ≤ b.toNat ∧ b.toNat ≤ 191 := by
  simp [isContinuation, UInt8.le_iff_toNat_le]

/-- A second octet is a continuation within the bounds for its lead. -/
theorem isSecond_of {lead b : UInt8} (hLow : 128 ≤ b.toNat) (hHigh : b.toNat ≤ 191)
    (hE0 : lead.toNat = 0xE0 → 160 ≤ b.toNat) (hED : lead.toNat = 0xED → b.toNat ≤ 159)
    (hF0 : lead.toNat = 0xF0 → 144 ≤ b.toNat) (hF4 : lead.toNat = 0xF4 → b.toNat ≤ 143) :
    isSecond lead b = true := by
  simp only [isSecond, beq_iff_eq, ← UInt8.toNat_inj]
  split
  · rename_i h
    simp [UInt8.le_iff_toNat_le, hE0 h, hHigh]
  split
  · rename_i h
    simp [UInt8.le_iff_toNat_le, hED h, hLow]
  split
  · rename_i h
    simp [UInt8.le_iff_toNat_le, hF0 h, hHigh]
  split
  · rename_i h
    simp [UInt8.le_iff_toNat_le, hF4 h, hLow]
  · exact (isContinuation_iff b).2 ⟨hLow, hHigh⟩

/-! ## One character -/

section Fronts

variable {b c d e : UInt8} (rest : Octets)

theorem next_one (hb : b.toNat < 0x80) : next b rest = .char (Char.ofNat b.toNat) 1 := by
  have hLow : b < 0x80 := UInt8.lt_iff_toNat_lt.2 hb
  rw [next, if_pos hLow]

/-- The lead octet of a longer form says how long it is. -/
theorem next_longer (hb : 0xC2 ≤ b.toNat) (hb' : b.toNat < 0xF5) :
    next b rest =
      if b.toNat < 0xE0 then front2 b rest
      else if b.toNat < 0xF0 then front3 b rest else front4 b rest := by
  have h80 : ¬ b.toNat < 128 := by omega
  have hC2 : ¬ b.toNat < 194 := by omega
  simp [next, UInt8.lt_iff_toNat_lt, h80, hC2, hb']

theorem next_two (hb : 0xC2 ≤ b.toNat) (hb' : b.toNat < 0xE0) (hc : isContinuation c = true) :
    next b (c :: rest) = .char (Char.ofNat (b.toNat % 32 * 64 + low6 c)) 2 := by
  rw [next_longer _ hb (by omega), if_pos hb', front2, if_pos hc]

theorem next_three (hb : 0xE0 ≤ b.toNat) (hb' : b.toNat < 0xF0) (hc : isSecond b c = true)
    (hd : isContinuation d = true) :
    next b (c :: d :: rest) =
      .char (Char.ofNat ((b.toNat % 16 * 64 + low6 c) * 64 + low6 d)) 3 := by
  rw [next_longer _ (by omega) (by omega), if_neg (by omega), if_pos hb', front3, if_pos hc]
  simp only [hd, if_true]

theorem next_four (hb : 0xF0 ≤ b.toNat) (hb' : b.toNat < 0xF5) (hc : isSecond b c = true)
    (hd : isContinuation d = true) (he : isContinuation e = true) :
    next b (c :: d :: e :: rest) =
      .char (Char.ofNat (((b.toNat % 8 * 64 + low6 c) * 64 + low6 d) * 64 + low6 e)) 4 := by
  rw [next_longer _ (by omega) hb', if_neg (by omega), if_neg (by omega), front4, if_pos hc]
  simp only [hd, he, if_true]

end Fronts

/-- A group of six bits under the mark of a continuation. -/
theorem toNat_group (n : Nat) : (UInt8.ofNat (n % 64 + 128)).toNat = n % 64 + 128 :=
  toNat_ofNat (by omega)

theorem isContinuation_group (n : Nat) : isContinuation (UInt8.ofNat (n % 64 + 128)) = true := by
  rw [isContinuation_iff, toNat_group]
  omega

theorem low6_group (n : Nat) : low6 (UInt8.ofNat (n % 64 + 128)) = n % 64 := by
  rw [low6, toNat_group]
  omega

/-- The number of a character is below the surrogates or above them. -/
theorem toNat_valid (c : Char) : c.toNat < 0xD800 ∨ 0xDFFF < c.toNat ∧ c.toNat < 0x110000 :=
  c.valid

/-- The form of a character begins with an octet, and `next` takes the whole of it off the
front. -/
theorem next_encode (c : Char) (rest : Octets) :
    ∃ b tail, String.utf8EncodeChar c = b :: tail ∧
      next b (tail ++ rest) = .char c (tail.length + 1) := by
  have hValid := toNat_valid c
  have hChar : Char.ofNat c.toNat = c := Char.ofNat_toNat c
  have hVal : c.val.toNat = c.toNat := rfl
  generalize c.toNat = n at hValid hChar hVal
  unfold String.utf8EncodeChar
  simp only [hVal]
  by_cases h1 : n ≤ 0x7F
  · refine ⟨UInt8.ofNat n, [], if_pos h1, ?_⟩
    have hb : (UInt8.ofNat n).toNat = n := toNat_ofNat (by omega)
    rw [List.nil_append, next_one _ (by omega), hb, hChar]
    rfl
  by_cases h2 : n ≤ 0x7FF
  · have hb : (UInt8.ofNat (n / 64 % 32 + 192)).toNat = n / 64 % 32 + 192 :=
      toNat_ofNat (by omega)
    refine ⟨UInt8.ofNat (n / 64 % 32 + 192), [UInt8.ofNat (n % 64 + 128)], by
      rw [if_neg h1, if_pos h2], ?_⟩
    have hParts : (n / 64 % 32 + 192) % 32 * 64 + n % 64 = n := by omega
    rw [List.singleton_append, next_two _ (by omega) (by omega) (isContinuation_group n), hb,
      low6_group, hParts, hChar]
    rfl
  by_cases h3 : n ≤ 0xFFFF
  · have hb : (UInt8.ofNat (n / 4096 % 16 + 224)).toNat = n / 4096 % 16 + 224 :=
      toNat_ofNat (by omega)
    refine ⟨UInt8.ofNat (n / 4096 % 16 + 224),
      [UInt8.ofNat (n / 64 % 64 + 128), UInt8.ofNat (n % 64 + 128)], by
      rw [if_neg h1, if_neg h2, if_pos h3], ?_⟩
    have hSecond : isSecond (UInt8.ofNat (n / 4096 % 16 + 224))
        (UInt8.ofNat (n / 64 % 64 + 128)) = true := by
      apply isSecond_of <;> rw [toNat_group] <;> omega
    have hParts : ((n / 4096 % 16 + 224) % 16 * 64 + n / 64 % 64) * 64 + n % 64 = n := by omega
    rw [List.cons_append, List.singleton_append,
      next_three _ (by omega) (by omega) hSecond (isContinuation_group n), hb, low6_group,
      low6_group, hParts, hChar]
    rfl
  · have hb : (UInt8.ofNat (n / 262144 % 8 + 240)).toNat = n / 262144 % 8 + 240 :=
      toNat_ofNat (by omega)
    refine ⟨UInt8.ofNat (n / 262144 % 8 + 240), [UInt8.ofNat (n / 4096 % 64 + 128),
      UInt8.ofNat (n / 64 % 64 + 128), UInt8.ofNat (n % 64 + 128)], by
      rw [if_neg h1, if_neg h2, if_neg h3], ?_⟩
    have hSecond : isSecond (UInt8.ofNat (n / 262144 % 8 + 240))
        (UInt8.ofNat (n / 4096 % 64 + 128)) = true := by
      apply isSecond_of <;> rw [toNat_group] <;> omega
    have hParts : (((n / 262144 % 8 + 240) % 8 * 64 + n / 4096 % 64) * 64 + n / 64 % 64) * 64 +
        n % 64 = n := by omega
    rw [List.cons_append, List.cons_append, List.singleton_append,
      next_four _ (by omega) (by omega) hSecond (isContinuation_group _) (isContinuation_group n),
      hb, low6_group, low6_group, low6_group, hParts, hChar]
    rfl

/-! ## One character, the other way -/

theorem ofNat_eq {n : Nat} {b : UInt8} (h : n = b.toNat) : UInt8.ofNat n = b := by
  rw [h, UInt8.ofNat_toNat]

theorem of_isSecond {lead b : UInt8} (h : isSecond lead b = true) :
    128 ≤ b.toNat ∧ b.toNat ≤ 191 ∧ (lead.toNat = 0xE0 → 160 ≤ b.toNat) ∧
      (lead.toNat = 0xED → b.toNat ≤ 159) ∧ (lead.toNat = 0xF0 → 144 ≤ b.toNat) ∧
      (lead.toNat = 0xF4 → b.toNat ≤ 143) := by
  simp only [isSecond, isContinuation, beq_iff_eq, ← UInt8.toNat_inj, UInt8.le_iff_toNat_le] at h
  grind

/-- The form of the character with a number, by the size of the number. -/
theorem encode_ofNat {n : Nat} (h : n < 0xD800 ∨ 0xDFFF < n ∧ n < 0x110000) :
    String.utf8EncodeChar (Char.ofNat n) =
      if n ≤ 0x7F then [UInt8.ofNat n]
      else if n ≤ 0x7FF then [UInt8.ofNat (n / 64 % 32 + 192), UInt8.ofNat (n % 64 + 128)]
      else if n ≤ 0xFFFF then
        [UInt8.ofNat (n / 4096 % 16 + 224), UInt8.ofNat (n / 64 % 64 + 128),
          UInt8.ofNat (n % 64 + 128)]
      else
        [UInt8.ofNat (n / 262144 % 8 + 240), UInt8.ofNat (n / 4096 % 64 + 128),
          UInt8.ofNat (n / 64 % 64 + 128), UInt8.ofNat (n % 64 + 128)] := by
  have hValid : n.isValidChar := h
  have hChar : Char.ofNat n = Char.ofNatAux n hValid := dif_pos hValid
  have hVal : (Char.ofNat n).val.toNat = n := by
    rw [hChar]
    rfl
  unfold String.utf8EncodeChar
  rw [hVal]

section Forms

variable {b : UInt8} {rest : Octets} {c : Char} {width : Nat}

theorem encode_of_front2 (hb : 0xC2 ≤ b.toNat) (hb' : b.toNat < 0xE0)
    (h : front2 b rest = .char c width) :
    String.utf8EncodeChar c ++ rest.drop (width - 1) = b :: rest := by
  unfold front2 at h
  split at h
  · cases h
  · rename_i d rest
    split at h
    · rename_i hd
      cases h
      have hCont := (isContinuation_iff d).1 hd
      unfold low6
      rw [encode_ofNat (by omega), if_neg (by omega), if_pos (by omega),
        ofNat_eq (b := b) (by omega), ofNat_eq (b := d) (by omega)]
      rfl
    · cases h

/-- A form of three octets is that of the character it is read as: the bounds on the second octet
keep the number long enough and off the surrogates. -/
theorem encode_of_front3 (hb : 0xE0 ≤ b.toNat) (hb' : b.toNat < 0xF0)
    (h : front3 b rest = .char c width) :
    String.utf8EncodeChar c ++ rest.drop (width - 1) = b :: rest := by
  unfold front3 at h
  split at h
  · cases h
  · rename_i d rest
    split at h
    · rename_i hd
      obtain ⟨hLow, hHigh, hE0, hED, -, -⟩ := of_isSecond hd
      split at h
      · cases h
      · rename_i e rest
        split at h
        · rename_i he
          cases h
          have hCont := (isContinuation_iff e).1 he
          unfold low6
          rw [encode_ofNat (by omega), if_neg (by omega), if_neg (by omega), if_pos (by omega),
            ofNat_eq (b := b) (by omega), ofNat_eq (b := d) (by omega),
            ofNat_eq (b := e) (by omega)]
          rfl
        · cases h
    · cases h

theorem encode_of_front4 (hb : 0xF0 ≤ b.toNat) (hb' : b.toNat < 0xF5)
    (h : front4 b rest = .char c width) :
    String.utf8EncodeChar c ++ rest.drop (width - 1) = b :: rest := by
  unfold front4 at h
  split at h
  · cases h
  · rename_i d rest
    split at h
    · rename_i hd
      obtain ⟨hLow, hHigh, -, -, hF0, hF4⟩ := of_isSecond hd
      split at h
      · cases h
      · rename_i e rest
        split at h
        · rename_i he
          have hThird := (isContinuation_iff e).1 he
          split at h
          · cases h
          · rename_i f rest
            split at h
            · rename_i hf
              cases h
              have hFourth := (isContinuation_iff f).1 hf
              unfold low6
              rw [encode_ofNat (by omega), if_neg (by omega), if_neg (by omega),
                if_neg (by omega), ofNat_eq (b := b) (by omega), ofNat_eq (b := d) (by omega),
                ofNat_eq (b := e) (by omega), ofNat_eq (b := f) (by omega)]
              rfl
            · cases h
        · cases h
    · cases h

/-- What is taken off the front as a character is the form of the character. -/
theorem encode_of_next (h : next b rest = .char c width) :
    String.utf8EncodeChar c ++ rest.drop (width - 1) = b :: rest := by
  simp only [next, UInt8.lt_iff_toNat_lt, UInt8.toNat_ofNat, Nat.reduceMod, Nat.reducePow] at h
  by_cases hOne : b.toNat < 0x80
  · rw [if_pos hOne] at h
    cases h
    rw [encode_ofNat (by omega), if_pos (by omega), UInt8.ofNat_toNat]
    rfl
  rw [if_neg hOne] at h
  by_cases hStart : b.toNat < 0xC2
  · rw [if_pos hStart] at h
    cases h
  rw [if_neg hStart] at h
  by_cases hTwo : b.toNat < 0xE0
  · rw [if_pos hTwo] at h
    exact encode_of_front2 (by omega) hTwo h
  rw [if_neg hTwo] at h
  by_cases hThree : b.toNat < 0xF0
  · rw [if_pos hThree] at h
    exact encode_of_front3 (by omega) hThree h
  rw [if_neg hThree] at h
  by_cases hFour : b.toNat < 0xF5
  · rw [if_pos hFour] at h
    exact encode_of_front4 (by omega) hFour h
  · rw [if_neg hFour] at h
    cases h

end Forms

/-! ## A whole text -/

theorem decodeFrom_encode (cs : List Char) (position : Nat) (before : List Char) :
    decodeFrom position before (cs.flatMap String.utf8EncodeChar) =
      .ok (before.reverse ++ cs) := by
  induction cs generalizing position before with
  | nil =>
      rw [List.flatMap_nil, decodeFrom, List.append_nil]
  | cons c cs ih =>
      obtain ⟨b, tail, hForm, hNext⟩ := next_encode c (cs.flatMap String.utf8EncodeChar)
      rw [List.flatMap_cons, hForm, List.cons_append, decodeFrom, hNext]
      dsimp only
      rw [Nat.add_sub_cancel, List.drop_left, ih, List.reverse_cons, List.append_assoc]
      rfl

theorem decodeLossyChars_encode (cs : List Char) :
    decodeLossyChars (cs.flatMap String.utf8EncodeChar) = cs := by
  induction cs with
  | nil => rw [List.flatMap_nil, decodeLossyChars]
  | cons c cs ih =>
      obtain ⟨b, tail, hForm, hNext⟩ := next_encode c (cs.flatMap String.utf8EncodeChar)
      rw [List.flatMap_cons, hForm, List.cons_append, decodeLossyChars, hNext]
      dsimp only
      rw [Nat.add_sub_cancel, List.drop_left, ih]

/-- A text reads back from its octets. -/
@[simp] theorem decode?_ofText (s : String) : decode? (ofText s) = .ok s := by
  rw [decode?, ofText, decodeFrom_encode, List.reverse_nil, List.nil_append]
  exact congrArg Except.ok String.ofList_toList

/-- It reads back also where ill-formed groups would be passed over. -/
@[simp] theorem decodeLossy_ofText (s : String) : decodeLossy (ofText s) = s := by
  rw [decodeLossy, ofText, decodeLossyChars_encode]
  exact String.ofList_toList

/-- Different texts have different octets. -/
theorem ofText_injective {s t : String} (h : ofText s = ofText t) : s = t := by
  rw [← decodeLossy_ofText s, h, decodeLossy_ofText]

/-- What was read is what was there, and what had been read before. -/
theorem encode_of_decodeFrom {position : Nat} {before : List Char} {w : Octets} {cs : List Char}
    (h : decodeFrom position before w = .ok cs) :
    cs.flatMap String.utf8EncodeChar =
      before.reverse.flatMap String.utf8EncodeChar ++ w := by
  induction position, before, w using decodeFrom.induct with
  | case1 position before =>
      rw [decodeFrom] at h
      cases h
      rw [List.append_nil]
  | case2 position before b rest c width hNext ih =>
      rw [decodeFrom, hNext] at h
      rw [ih h, List.reverse_cons, List.flatMap_append, List.append_assoc,
        List.flatMap_singleton, encode_of_next hNext]
  | case3 position before b rest fault width hNext =>
      rw [decodeFrom, hNext] at h
      cases h

/-- Octets that read as a text are the octets of the text. -/
theorem ofText_of_decode? {w : Octets} {s : String} (h : decode? w = .ok s) : ofText s = w := by
  unfold decode? at h
  split at h
  · rename_i cs hRead
    cases h
    rw [ofText, String.toList_ofList, encode_of_decodeFrom hRead]
    rfl
  · cases h

end BatchStore.Octets
