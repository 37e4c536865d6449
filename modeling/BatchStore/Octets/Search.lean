import BatchStore.Octets

/-!
# Finding octets in octets

`contains` compares a needle with the octets at every place, which takes long where the two
agree for a while at many places. `holds` first looks at weights, the sums of octets: it
carries the weight of the part that lies under the needle from place to place, and compares
octets only where that is the weight of the needle.

Main statement: `holds_eq_contains`, the two find the same.
-/

namespace BatchStore.Octets

/-- The sum of the octets. -/
def weight (w : Octets) : Nat := w.foldl (fun n b => n + b.toNat) 0

theorem foldl_weight (n : Nat) (w : Octets) :
    w.foldl (fun n b => n + b.toNat) n = n + weight w := by
  induction w generalizing n with
  | nil => rfl
  | cons b w ih =>
    rw [weight, List.foldl_cons, List.foldl_cons, ih, ih, Nat.zero_add, Nat.add_assoc]

theorem weight_cons (b : UInt8) (w : Octets) : weight (b :: w) = b.toNat + weight w := by
  rw [weight, List.foldl_cons, foldl_weight, Nat.zero_add]

theorem weight_append (v w : Octets) : weight (v ++ w) = weight v + weight w := by
  rw [weight, List.foldl_append, foldl_weight, ← weight]

/-- Looks for a needle of weight `target` at the front of `w` and behind it. The part of
`w` that lies under the needle weighs `under`, and `ahead` is what comes after this part. -/
def search (needle : Octets) (target : Nat) : Nat → Octets → Octets → Bool
  | under, b :: w, c :: ahead =>
    (under == target && needle.isPrefixOf (b :: w))
      || search needle target (under + c.toNat - b.toNat) w ahead
  | under, w, _ => under == target && needle.isPrefixOf w

/-- Whether `needle` stands somewhere inside the string. -/
def holds (w needle : Octets) : Bool :=
  if w.length < needle.length then false
  else search needle (weight needle) (weight (w.take needle.length)) w (w.drop needle.length)

/-! ## The two searches -/

/-- A needle that lies at the front weighs what lies under it. -/
theorem weight_of_isPrefixOf {needle w : Octets} (h : needle.isPrefixOf w = true) :
    weight (w.take needle.length) = weight needle := by
  rw [List.isPrefixOf_iff_prefix] at h
  rw [← List.prefix_iff_eq_take.1 h]

/-- So nothing is lost by looking at the weights first. -/
theorem weighed_eq_isPrefixOf (needle w : Octets) :
    (weight (w.take needle.length) == weight needle && needle.isPrefixOf w)
      = needle.isPrefixOf w := by
  by_cases h : needle.isPrefixOf w = true
  · simp [h, weight_of_isPrefixOf h]
  · simp [h]

/-- A needle is not at the front of what is shorter than it. -/
theorem isPrefixOf_of_length_lt {needle w : Octets} (h : w.length < needle.length) :
    needle.isPrefixOf w = false := by
  apply Bool.eq_false_iff.2
  intro hPrefix
  have hLe := (List.isPrefixOf_iff_prefix.1 hPrefix).length_le
  omega

/-- Nor is it anywhere inside. -/
theorem contains_of_length_lt {w needle : Octets} (h : w.length < needle.length) :
    w.contains needle = false := by
  induction w with
  | nil =>
    cases needle with
    | nil => simp at h
    | cons b needle => rfl
  | cons b w ih =>
    have hBehind : contains w needle = false := ih (by simp at h; omega)
    simp [contains, isPrefixOf_of_length_lt h, hBehind]

/-- One place on, the octet left behind no longer weighs and the next one does. -/
theorem weight_take_tail {n : Nat} {b c : UInt8} {w ahead : Octets}
    (h : (b :: w).drop n = c :: ahead) :
    weight (w.take n) = weight ((b :: w).take n) + c.toNat - b.toNat ∧ w.drop n = ahead := by
  have hAhead : w.drop n = ahead := by
    have hTail := congrArg List.tail h
    rwa [List.tail_drop, List.drop_succ_cons, List.tail_cons] at hTail
  have hHere := congrArg weight (List.take_append_drop n (b :: w))
  have hNext := congrArg weight (List.take_append_drop n w)
  rw [weight_append, h, weight_cons, weight_cons] at hHere
  rw [weight_append, hAhead] at hNext
  exact ⟨by omega, hAhead⟩

/-- Where the weights are right, the search goes through all places. -/
theorem search_eq_contains (needle : Octets) (ahead w : Octets)
    (hLength : needle.length ≤ w.length) (hAhead : w.drop needle.length = ahead) :
    search needle (weight needle) (weight (w.take needle.length)) w ahead
      = w.contains needle := by
  induction ahead generalizing w with
  | nil =>
    have hFit : w.length = needle.length := by
      have hNone := congrArg List.length hAhead
      simp only [List.length_drop, List.length_nil] at hNone
      omega
    cases w with
    | nil =>
      cases needle with
      | nil => rfl
      | cons b needle => simp at hLength
    | cons b w =>
      have hBehind : contains w needle = false :=
        contains_of_length_lt (by simp at hFit; omega)
      simp [search, weighed_eq_isPrefixOf, contains, hBehind]
  | cons c ahead ih =>
    cases w with
    | nil => simp at hAhead
    | cons b w =>
      have hLonger := congrArg List.length hAhead
      simp only [List.length_drop, List.length_cons] at hLonger
      obtain ⟨hWeight, hBehind⟩ := weight_take_tail hAhead
      rw [search, weighed_eq_isPrefixOf, ← hWeight, ih w (by omega) hBehind, contains]

/-- Looking at the weights first changes nothing. -/
theorem holds_eq_contains (w needle : Octets) : w.holds needle = w.contains needle := by
  simp only [holds]
  split
  · rename_i hShort
    exact (contains_of_length_lt hShort).symm
  · rename_i hLong
    exact search_eq_contains needle _ w (by omega) rfl

end BatchStore.Octets
