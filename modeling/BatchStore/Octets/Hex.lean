import BatchStore.Octets

/-!
# Octets as hexadecimal text

Each octet is written as two digits, the high half first. Reading takes digits of either
case and blanks between the pairs, and names the place of the first character that does
not fit. What was written is read back: `ofHex_toHexChars`.
-/

namespace BatchStore.Octets

/-- The digit of a half octet. -/
def hexDigit (n : UInt8) : Char :=
  Char.ofNat (if n < 10 then 48 + n.toNat else 87 + n.toNat)

/-- The half octet of a digit. -/
def hexValue? (c : Char) : Option UInt8 :=
  let n := c.toNat
  if 48 ≤ n && n ≤ 57 then some (UInt8.ofNat (n - 48))
  else if 97 ≤ n && n ≤ 102 then some (UInt8.ofNat (n - 87))
  else if 65 ≤ n && n ≤ 70 then some (UInt8.ofNat (n - 55))
  else none

/-- The two digits of an octet. -/
def hexPair (b : UInt8) : List Char := [hexDigit (b / 16), hexDigit (b % 16)]

/-- The digits of octets. -/
def toHexChars (w : Octets) : List Char := w.flatMap hexPair

/-- The digits of octets as a text. -/
def toHex (w : Octets) : String := String.ofList w.toHexChars

/-- Whether a character may stand between two pairs of digits. -/
def isHexBlank (c : Char) : Bool := c == ' ' || (9 ≤ c.toNat && c.toNat ≤ 13)

/-- Reads pairs of digits from a place on, or names the place of the first character that
does not fit. -/
def ofHexFrom (place : Nat) : List Char → Except Nat Octets
  | [] => .ok []
  | [c] =>
    if isHexBlank c then .ok []
    else .error (if (hexValue? c).isSome then place + 1 else place)
  | c :: d :: rest =>
    if isHexBlank c then ofHexFrom (place + 1) (d :: rest)
    else
      match hexValue? c, hexValue? d with
      | none, _ => .error place
      | some _, none => .error (place + 1)
      | some high, some low => (ofHexFrom (place + 2) rest).map ((high * 16 + low) :: ·)

/-- Reads pairs of digits. A character beyond the first 128 is looked for before all
else. -/
def ofHex (digits : List Char) : Except Nat Octets :=
  match digits.findIdx? (128 ≤ ·.toNat) with
  | some place => .error place
  | none => ofHexFrom 0 digits

/-- The two digits of an octet are no blanks, and each is read as its half. -/
theorem hexValue?_hexDigit (b : UInt8) :
    isHexBlank (hexDigit (b / 16)) = false ∧ hexValue? (hexDigit (b / 16)) = some (b / 16) ∧
      hexValue? (hexDigit (b % 16)) = some (b % 16) ∧ b / 16 * 16 + b % 16 = b ∧
      (hexDigit (b / 16)).toNat < 128 ∧ (hexDigit (b % 16)).toNat < 128 := by
  have hAll : ∀ n : Fin 256,
      isHexBlank (hexDigit (UInt8.ofFin n / 16)) = false ∧
        hexValue? (hexDigit (UInt8.ofFin n / 16)) = some (UInt8.ofFin n / 16) ∧
        hexValue? (hexDigit (UInt8.ofFin n % 16)) = some (UInt8.ofFin n % 16) ∧
        UInt8.ofFin n / 16 * 16 + UInt8.ofFin n % 16 = UInt8.ofFin n ∧
        (hexDigit (UInt8.ofFin n / 16)).toNat < 128 ∧
        (hexDigit (UInt8.ofFin n % 16)).toNat < 128 := by
    decide +kernel
  exact hAll b.toFin

theorem ofHexFrom_toHexChars (w : Octets) :
    ∀ place : Nat, ofHexFrom place w.toHexChars = .ok w := by
  induction w with
  | nil => intro place; rfl
  | cons b rest ih =>
    intro place
    obtain ⟨hBlank, hHigh, hLow, hWhole, _, _⟩ := hexValue?_hexDigit b
    have hRest := ih (place + 2)
    simp only [toHexChars] at hRest
    simp only [toHexChars, List.flatMap_cons, hexPair, List.cons_append, List.nil_append,
      ofHexFrom, hBlank, hHigh, hLow, Bool.false_eq_true, if_false, hRest, Except.map, hWhole]

/-- What was written is read back. -/
theorem ofHex_toHexChars (w : Octets) : ofHex w.toHexChars = .ok w := by
  have hSmall : w.toHexChars.findIdx? (128 ≤ ·.toNat) = none := by
    rw [List.findIdx?_eq_none_iff]
    intro c hc
    simp only [toHexChars, List.mem_flatMap] at hc
    obtain ⟨b, _, hb⟩ := hc
    obtain ⟨_, _, _, _, hHigh, hLow⟩ := hexValue?_hexDigit b
    simp only [hexPair, List.mem_cons, List.not_mem_nil, or_false] at hb
    rcases hb with rfl | rfl <;> simp only [decide_eq_false_iff_not] <;> omega
  simp only [ofHex, hSmall, ofHexFrom_toHexChars]

end BatchStore.Octets
