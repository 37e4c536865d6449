/-!
# Octet strings

Keys, values and command words reach the store as octet strings. This module
holds the type and its ASCII letter case, blanks and words. An octet string is
a plain list, so order and equality are those of lists: `a < b` compares
lexicographically, a proper initial part coming first.
-/

namespace BatchStore

/-- A string of octets. -/
abbrev Octets := List UInt8

namespace Octets

/-- The UTF-8 form of a text. -/
def ofText (s : String) : Octets :=
  s.toList.flatMap String.utf8EncodeChar

/-! ## Letter case -/

/-- The capital form of an ASCII letter; every other octet is left alone. -/
def upperOctet (b : UInt8) : UInt8 :=
  if 97 ≤ b ∧ b ≤ 122 then b - 32 else b

/-- The small form of an ASCII letter; every other octet is left alone. -/
def lowerOctet (b : UInt8) : UInt8 :=
  if 65 ≤ b ∧ b ≤ 90 then b + 32 else b

/-- ASCII letters in capitals. -/
def upper (w : Octets) : Octets := w.map upperOctet

/-- ASCII letters in small form. -/
def lower (w : Octets) : Octets := w.map lowerOctet

@[simp] theorem upper_length (w : Octets) : w.upper.length = w.length := by
  simp [upper]

/-- Capitals have no further capital form. -/
theorem upperOctet_idem (b : UInt8) : upperOctet (upperOctet b) = upperOctet b := by
  simp only [upperOctet]
  split
  · rename_i h
    rw [if_neg]
    intro hAgain
    have hLow := UInt8.le_iff_toNat_le.1 h.1
    have hHigh := UInt8.le_iff_toNat_le.1 h.2
    have hLow' := UInt8.le_iff_toNat_le.1 hAgain.1
    have hSub : (b - 32).toNat = b.toNat - 32 :=
      UInt8.toNat_sub_of_le b 32 (UInt8.le_iff_toNat_le.2 (Nat.le_trans (by decide) hLow))
    simp only [hSub] at hLow'
    simp at hLow hHigh hLow'
    omega
  · rfl

theorem upper_upper (w : Octets) : w.upper.upper = w.upper := by
  simp only [upper, List.map_map]
  exact List.map_congr_left fun b _ => upperOctet_idem b

/-- An octet is its capital form, or 32 above it. -/
theorem eq_of_upperOctet {b letter : UInt8} (h : upperOctet b = letter) :
    b = letter ∨ b = letter + 32 := by
  unfold upperOctet at h
  split at h
  · right
    rw [← h, UInt8.sub_add_cancel]
  · exact .inl h

/-- A word whose capital form has two letters is one of four. -/
theorem eq_of_upper_two {w : Octets} {a b : UInt8} (h : w.upper = [a, b]) :
    w = [a, b] ∨ w = [a, b + 32] ∨ w = [a + 32, b] ∨ w = [a + 32, b + 32] := by
  obtain ⟨x, others, rfl, hx, hOthers⟩ := List.map_eq_cons_iff.1 h
  obtain ⟨y, rest, rfl, hy, hRest⟩ := List.map_eq_cons_iff.1 hOthers
  cases List.map_eq_nil_iff.1 hRest
  rcases eq_of_upperOctet hx with rfl | rfl <;> rcases eq_of_upperOctet hy with rfl | rfl <;> simp

/-! ## Blanks and words -/

/-- The six ASCII blanks: space and the controls from tab to carriage return. -/
def isBlank (b : UInt8) : Bool := b == 32 || (9 ≤ b && b ≤ 13)

/-- The string without the blanks at its two ends. -/
def trim (w : Octets) : Octets :=
  ((w.dropWhile isBlank).reverse.dropWhile isBlank).reverse

/-- The maximal blank-free parts, in order. -/
def words (w : Octets) : List Octets :=
  go w []
where
  /-- Splits the rest, `part` being the current word backwards. -/
  go : Octets → Octets → List Octets
    | [], [] => []
    | [], part => [part.reverse]
    | b :: rest, part =>
      if isBlank b then
        if part.isEmpty then go rest [] else part.reverse :: go rest []
      else go rest (b :: part)

/-- Whether `needle` stands somewhere inside the string. -/
def contains (w needle : Octets) : Bool :=
  match w with
  | [] => needle.isEmpty
  | b :: rest => needle.isPrefixOf (b :: rest) || contains rest needle

/-- The part in front of the first line feed, or all of it. -/
def firstLine (w : Octets) : Octets := w.takeWhile (· != 10)

end Octets

end BatchStore
