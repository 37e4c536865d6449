import BatchStore.Argument
import BatchStore.Proofs.Number.Scientific

/-!
# Whole numbers read back

A whole number is written in decimal digits, with a minus in front if it is negative, and goes
to the store as octets. There the digits are read to the number again: `int?_wholeText`.

Reading passes over blanks at the ends and over underscores, so a string without any is left
as it is (`numeral?_plain`).
-/

namespace BatchStore

theorem Octets.ofText_append (s t : String) :
    Octets.ofText (s ++ t) = Octets.ofText s ++ Octets.ofText t := by
  unfold Octets.ofText
  rw [String.toList_append, List.flatMap_append]

namespace Number

/-! ## Rows of digits -/

/-- The octets of a row of digits. -/
def digitOctets (cs : List Char) : Octets := cs.map fun c => UInt8.ofNat c.toNat

theorem toNat_of_isDigit {c : Char} (h : c.isDigit = true) : 48 ≤ c.toNat ∧ c.toNat ≤ 57 :=
  Char.isDigit_iff_toNat.1 h

/-- A digit is encoded as one octet. -/
theorem utf8EncodeChar_digit {c : Char} (h : c.isDigit = true) :
    String.utf8EncodeChar c = [UInt8.ofNat c.toNat] := by
  have hHigh : c.val.toNat ≤ 57 := (toNat_of_isDigit h).2
  unfold String.utf8EncodeChar
  exact if_pos (by omega)

/-- A text of digits is encoded digit by digit. -/
theorem ofText_digits {cs : List Char} (h : ∀ c ∈ cs, c.isDigit = true) :
    Octets.ofText (String.ofList cs) = digitOctets cs := by
  unfold Octets.ofText
  rw [String.toList_ofList]
  induction cs with
  | nil => rfl
  | cons c cs ih =>
      have hFirst := utf8EncodeChar_digit (h c List.mem_cons_self)
      have hRest := ih fun d hMem => h d (List.mem_cons_of_mem c hMem)
      rw [List.flatMap_cons, hFirst, hRest]
      rfl

theorem toNat_digitOctet {c : Char} (h : c.isDigit = true) :
    (UInt8.ofNat c.toNat).toNat = c.toNat := by
  have hHigh := (toNat_of_isDigit h).2
  rw [UInt8.toNat_ofNat_of_lt']
  exact Nat.lt_of_le_of_lt hHigh (by decide)

theorem isDigit_digitOctet {c : Char} (h : c.isDigit = true) :
    isDigit (UInt8.ofNat c.toNat) = true := by
  obtain ⟨hLow, hHigh⟩ := toNat_of_isDigit h
  unfold isDigit
  rw [Bool.and_eq_true, decide_eq_true_eq, decide_eq_true_eq, UInt8.le_iff_toNat_le,
    UInt8.le_iff_toNat_le, toNat_digitOctet h]
  exact ⟨hLow, hHigh⟩

theorem all_digitOctets {cs : List Char} (h : ∀ c ∈ cs, c.isDigit = true) :
    (digitOctets cs).all isDigit = true := by
  rw [List.all_eq_true]
  intro b hMem
  obtain ⟨c, hc, rfl⟩ := List.mem_map.1 hMem
  exact isDigit_digitOctet (h c hc)

/-- Digits are read as the number that they are digits of. -/
theorem ofDigits_digitOctets {cs : List Char} (h : ∀ c ∈ cs, c.isDigit = true) :
    ofDigits (digitOctets cs) = Nat.ofDigitChars 10 cs 0 := by
  induction cs with
  | nil => rfl
  | cons c cs ih =>
      have hFirst := toNat_digitOctet (h c List.mem_cons_self)
      have hRest := ih fun d hMem => h d (List.mem_cons_of_mem c hMem)
      have hLength : (digitOctets cs).length = cs.length := List.length_map _
      show ofDigits (UInt8.ofNat c.toNat :: digitOctets cs) = _
      rw [ofDigits_cons, hFirst, hRest, hLength, Nat.ofDigitChars_cons, Nat.mul_zero, Nat.zero_add,
        @Nat.ofDigitChars_eq_ofDigitChars_zero cs (c.toNat - '0'.toNat), Nat.mul_comm]
      rfl

/-- Numbers are written with digits alone. -/
theorem isDigit_toDigits (n : Nat) : ∀ c ∈ Nat.toDigits 10 n, c.isDigit = true := by
  intro c hMem
  exact Nat.isDigit_of_mem_toDigits (by norm_num) (by norm_num) hMem

/-- The digits of a number are read to the number. -/
theorem ofDigits_toDigits (n : Nat) : ofDigits (digitOctets (Nat.toDigits 10 n)) = n := by
  rw [ofDigits_digitOctets (isDigit_toDigits n), Nat.ofDigitChars_ten_toDigits]

theorem digitOctets_toDigits_ne_nil (n : Nat) : digitOctets (Nat.toDigits 10 n) ≠ [] := by
  intro hNil
  exact Nat.toDigits_ne_nil (List.map_eq_nil_iff.1 hNil)

theorem isDigit_replicate (k : Nat) : ∀ c ∈ List.replicate k '0', c.isDigit = true := by
  intro c hMem
  rw [List.eq_of_mem_replicate hMem]
  rfl

theorem digitOctets_append (cs ds : List Char) :
    digitOctets (cs ++ ds) = digitOctets cs ++ digitOctets ds := List.map_append

theorem length_digitOctets (cs : List Char) : (digitOctets cs).length = cs.length :=
  List.length_map _

/-- Zeros are read as zero, however many there are. -/
theorem ofDigits_zeros (k : Nat) : ofDigits (digitOctets (List.replicate k '0')) = 0 := by
  induction k with
  | zero => rfl
  | succ k ih =>
      show ofDigits (48 :: digitOctets (List.replicate k '0')) = 0
      rw [ofDigits_cons, ih]
      show 0 * _ + 0 = 0
      rw [Nat.zero_mul]

/-- Zeros behind digits shift them. -/
theorem ofDigits_append_zeros (cs : List Char) (k : Nat) :
    ofDigits (digitOctets (cs ++ List.replicate k '0')) = ofDigits (digitOctets cs) * 10 ^ k := by
  rw [digitOctets_append, ofDigits_append, ofDigits_zeros, length_digitOctets,
    List.length_replicate]
  rfl

/-- Zeros in front of digits do not count. -/
theorem ofDigits_zeros_append (cs : List Char) (k : Nat) :
    ofDigits (digitOctets (List.replicate k '0' ++ cs)) = ofDigits (digitOctets cs) := by
  rw [digitOctets_append, ofDigits_append, ofDigits_zeros, Nat.zero_mul, Nat.zero_add]

/-! ## Strings without blanks -/

/-- Octets that reading does not pass over. -/
def isPlain (b : UInt8) : Bool := !Octets.isBlank b && b != 95

/-- A digit is no blank and no separator. -/
theorem isPlain_of_isDigit {b : UInt8} (h : isDigit b = true) : isPlain b = true := by
  obtain ⟨hLow, hHigh⟩ := toNat_digit_lt h
  have hNe {c : UInt8} (hc : c.toNat < 48 ∨ 57 < c.toNat) : b ≠ c := by
    rintro rfl
    omega
  have hBlank : Octets.isBlank b = false := by
    unfold Octets.isBlank
    rw [Bool.or_eq_false_iff, Bool.and_eq_false_iff, beq_eq_false_iff_ne, decide_eq_false_iff_not,
      decide_eq_false_iff_not, UInt8.le_iff_toNat_le (b := 13)]
    refine ⟨hNe (by decide), .inr ?_⟩
    show ¬ b.toNat ≤ 13
    omega
  unfold isPlain
  rw [hBlank, Bool.not_false, Bool.true_and, bne_iff_ne]
  exact hNe (by decide)

/-- Nothing is stripped of a plain word. -/
theorem dropWhile_plain {w : Octets} (h : w.all isPlain = true) :
    w.dropWhile Octets.isBlank = w := by
  obtain _ | ⟨b, rest⟩ := w
  · rfl
  · rw [List.all_cons, Bool.and_eq_true] at h
    obtain ⟨hFirst, -⟩ := h
    unfold isPlain at hFirst
    rw [Bool.and_eq_true, Bool.not_eq_true'] at hFirst
    rw [List.dropWhile_cons_of_neg]
    rw [hFirst.1]
    exact Bool.false_ne_true

/-- There are no separators to drop in a plain word. -/
theorem dropSeparators_plain {w : Octets} (h : w.all isPlain = true) (afterDigit : Bool) :
    dropSeparators afterDigit w = some w := by
  induction w generalizing afterDigit with
  | nil => rfl
  | cons b rest ih =>
      rw [List.all_cons, Bool.and_eq_true] at h
      have hFirst : b ≠ 95 := by
        have hPlain := h.1
        unfold isPlain at hPlain
        rw [Bool.and_eq_true, bne_iff_ne] at hPlain
        exact hPlain.2
      have hTest : ¬ (b == 95) = true := by
        rw [beq_iff_eq]
        exact hFirst
      obtain _ | ⟨c, rest⟩ := rest
      · unfold dropSeparators
        exact if_neg hTest
      · unfold dropSeparators
        rw [if_neg hTest, ih h.2]
        rfl

/-- A string without blanks and underscores is read as it is. -/
theorem numeral?_plain {w : Octets} (h : w.all isPlain = true) : numeral? w = some w := by
  have hReverse : w.reverse.all isPlain = true := by rw [List.all_reverse, h]
  have hTrim : w.trim = w := by
    unfold Octets.trim
    rw [dropWhile_plain h, dropWhile_plain hReverse, List.reverse_reverse]
  unfold numeral?
  rw [hTrim, dropSeparators_plain h]

theorem all_plain_of_digits {w : Octets} (h : w.all isDigit = true) : w.all isPlain = true := by
  rw [List.all_eq_true] at h ⊢
  intro b hMem
  exact isPlain_of_isDigit (h b hMem)

/-- A digit is no sign. -/
theorem splitSign_digit {b : UInt8} (h : isDigit b = true) (rest : Octets) :
    splitSign (b :: rest) = (false, b :: rest) := by
  have hPlus : b ≠ 43 := by
    rintro rfl
    exact absurd h (by decide)
  have hMinus : b ≠ 45 := by
    rintro rfl
    exact absurd h (by decide)
  unfold splitSign
  split
  · rename_i hEq
    exact absurd (List.cons.inj hEq).1 hPlus
  · rename_i hEq
    exact absurd (List.cons.inj hEq).1 hMinus
  · rfl

/-- Digits alone have no sign in front. -/
theorem splitSign_digits {ds : Octets} (h : ds.all isDigit = true) :
    splitSign ds = (false, ds) := by
  obtain _ | ⟨b, rest⟩ := ds
  · rfl
  · rw [List.all_cons, Bool.and_eq_true] at h
    exact splitSign_digit h.1 rest

/-! ## Whole numbers -/

theorem tenTo_eq (n : Nat) : tenTo n = 10 ^ n := rfl

/-- The text of a whole number: its digits, behind a minus if it is negative. -/
theorem ofText_toString (n : Int) : Octets.ofText (toString n) =
    (if n < 0 then [45] else []) ++ digitOctets (Nat.toDigits 10 n.natAbs) := by
  have hDigits (k : Nat) : Octets.ofText k.repr = digitOctets (Nat.toDigits 10 k) := by
    rw [Nat.repr_eq_ofList_toDigits, ofText_digits (isDigit_toDigits k)]
  rw [Int.toString_eq_repr, Int.repr_eq_if]
  by_cases hSign : n < 0
  · have hAbs : (-n).toNat = n.natAbs := by omega
    rw [if_neg (by omega), if_pos hSign, Octets.ofText_append, hDigits, hAbs]
    rfl
  · have hAbs : n.toNat = n.natAbs := by omega
    rw [if_pos (by omega), if_neg hSign, hDigits, hAbs]
    rfl

/-- Digits are read as a whole number, up to the longest one that is read. -/
theorem int?_digits {ds : Octets} (h : ds.all isDigit = true) (hSome : ds ≠ [])
    (hShort : ds.length ≤ maxDigits) (negative : Bool) :
    int? ((if negative then [45] else []) ++ ds) =
      some (if negative then -(ofDigits ds : Int) else ofDigits ds) := by
  have hPlain := all_plain_of_digits h
  have hEmpty : ds.isEmpty = false := List.isEmpty_eq_false_iff.2 hSome
  have hTest : ¬ (ds.isEmpty || !ds.all isDigit || decide (maxDigits < ds.length)) = true := by
    rw [hEmpty, h, decide_eq_false (by omega)]
    decide
  unfold int?
  cases negative
  · rw [if_neg Bool.false_ne_true, List.nil_append, numeral?_plain hPlain]
    dsimp only [bind, Option.bind]
    rw [splitSign_digits h]
    dsimp only
    rw [if_neg hTest]
  · have hSigned : (45 :: ds).all isPlain = true := by
      rw [List.all_cons, hPlain]
      rfl
    rw [if_pos rfl, List.singleton_append, numeral?_plain hSigned]
    dsimp only [bind, Option.bind]
    have hSign : splitSign (45 :: ds) = (true, ds) := rfl
    rw [hSign]
    dsimp only
    rw [if_neg hTest]

/-- A whole number that can be written is read back. -/
theorem int?_wholeText {n : Int} {s : String} (h : wholeText n = .ok s) :
    int? (Octets.ofText s) = some n := by
  have hText : n.natAbs < tenTo maxDigits ∧ s = toString n := by
    unfold wholeText intText? at h
    by_cases hSmall : n.natAbs < tenTo maxDigits
    · rw [if_pos hSmall] at h
      cases h
      exact ⟨hSmall, rfl⟩
    · rw [if_neg hSmall] at h
      cases h
  have hSigned : (if n < 0 then -(n.natAbs : Int) else n.natAbs) = n := by
    split <;> omega
  obtain ⟨hSmall, rfl⟩ := hText
  rw [tenTo_eq] at hSmall
  have hShort : (digitOctets (Nat.toDigits 10 n.natAbs)).length ≤ maxDigits := by
    unfold digitOctets
    rw [List.length_map]
    exact (Nat.length_toDigits_le_iff (by norm_num) (by decide)).2 hSmall
  have hRead := int?_digits (all_digitOctets (isDigit_toDigits n.natAbs))
    (digitOctets_toDigits_ne_nil n.natAbs) hShort (n < 0)
  rw [ofDigits_toDigits] at hRead
  rw [ofText_toString]
  simp only [decide_eq_true_eq] at hRead
  rw [hRead, hSigned]

/-! ## Short numbers -/

/-- A whole number that is not too long to be written and read. -/
def IsShort (n : Int) : Prop := n.natAbs < tenTo maxDigits

instance (n : Int) : Decidable (IsShort n) := inferInstanceAs (Decidable (_ < _))

/-- A number is short unless it has more digits than are written. -/
theorem isShort_iff (n : Int) : IsShort n ↔ ¬ maxDigits < (Nat.toDigits 10 n.natAbs).length := by
  rw [IsShort, tenTo_eq, Nat.not_lt]
  exact (Nat.length_toDigits_le_iff (by norm_num) (by decide)).symm

theorem IsShort.intText? {n : Int} (h : IsShort n) : intText? n = some (toString n) := if_pos h

theorem IsShort.wholeText {n : Int} (h : IsShort n) :
    BatchStore.wholeText n = .ok (toString n) := by
  unfold BatchStore.wholeText
  rw [h.intText?]

/-- A short number is read back from its text. -/
theorem IsShort.int?_toString {n : Int} (h : IsShort n) :
    int? (Octets.ofText (toString n)) = some n :=
  int?_wholeText h.wholeText

end Number

end BatchStore
