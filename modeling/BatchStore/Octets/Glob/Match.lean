import BatchStore.Octets.Glob

/-!
# Matching a glob pattern

The stars cut a pattern into stretches. The first stretch belongs at the front of the
string and the last one at its end; each of the others is put at the first place behind the
one before where it fits. No other choice has to be tried: what can follow a later place
can follow the first one too, for the star in between takes up the difference.
`fits_eq_holds` says that this decides whether the string fits the pattern.
-/

namespace BatchStore.Octets

/-! ## Stretches -/

/-- The parts in front of the first star, and those behind each star. -/
def Glob.stretches : Glob → List Piece × List (List Piece)
  | [] => ([], [])
  | .star :: rest => let (first, others) := Glob.stretches rest; ([], first :: others)
  | p :: rest => let (first, others) := Glob.stretches rest; (p :: first, others)

/-- Fits parts to the front of a string, an octet to each, and gives what is left of it. -/
def fitFront? : List Piece → Octets → Option Octets
  | [], w => some w
  | _ :: _, [] => none
  | p :: ps, b :: w => if p.fits b then fitFront? ps w else none

/-- Fits parts to the first place where they fit, and gives what is left behind it. -/
def fitFirst? (ps : List Piece) : Octets → Option Octets
  | [] => fitFront? ps []
  | b :: w =>
    match fitFront? ps (b :: w) with
    | some rest => some rest
    | none => fitFirst? ps w

/-- Whether parts fit the end of a string. -/
def fitsEnd (ps : List Piece) (w : Octets) : Bool :=
  ps.length ≤ w.length && fitFront? ps (w.drop (w.length - ps.length)) == some []

/-- Whether stretches, each behind a star, fit what is left of a string. -/
def fitBehind : List (List Piece) → Octets → Bool
  | [], w => w.isEmpty
  | [last], w => fitsEnd last w
  | ps :: more, w =>
    match fitFirst? ps w with
    | some rest => fitBehind more rest
    | none => false

/-- Whether the whole string fits the pattern. -/
def Glob.fits (g : Glob) (w : Octets) : Bool :=
  let (first, others) := Glob.stretches g
  match fitFront? first w with
  | some rest => fitBehind others rest
  | none => false

/-- Whether a string fits a pattern. -/
def fitsGlob (w pattern : Octets) : Bool := (Glob.read pattern).fits w

/-! ## Why no other place has to be tried -/

/-- The string that is left is what comes behind as many octets as there are parts. -/
theorem fitFront?_eq_some {ps : List Piece} {w rest : Octets} (h : fitFront? ps w = some rest) :
    ps.length ≤ w.length ∧ rest = w.drop ps.length := by
  induction ps generalizing w with
  | nil =>
    cases h
    simp
  | cons p ps ih =>
    cases w with
    | nil => cases h
    | cons b w =>
      simp only [fitFront?] at h
      split at h
      · obtain ⟨hLen, hRest⟩ := ih h
        exact ⟨by simpa using hLen, by simpa using hRest⟩
      · cases h

/-- Some end of the string satisfies the condition. -/
theorem anyTail_iff {ok : Octets → Bool} {w : Octets} :
    anyTail ok w = true ↔ ∃ v, v <:+ w ∧ ok v = true := by
  induction w with
  | nil => simp [anyTail]
  | cons b w ih =>
    simp only [anyTail, Bool.or_eq_true, ih, List.suffix_cons_iff]
    constructor
    · rintro (h | ⟨v, hv, h⟩)
      · exact ⟨_, .inl rfl, h⟩
      · exact ⟨v, .inr hv, h⟩
    · rintro ⟨v, rfl | hv, h⟩
      · exact .inl h
      · exact .inr ⟨v, hv, h⟩

/-- The first place is in front of every other: what is left behind another place is an end
of what is left behind the first. -/
theorem fitFirst?_first {ps : List Piece} {w v rest : Octets} (hv : v <:+ w)
    (h : fitFront? ps v = some rest) :
    ∃ first, fitFirst? ps w = some first ∧ rest <:+ first := by
  induction w with
  | nil =>
    rw [List.suffix_nil.1 hv] at h
    exact ⟨rest, h, List.suffix_refl _⟩
  | cons b w ih =>
    cases hHere : fitFront? ps (b :: w) with
    | some first =>
      refine ⟨first, by simp only [fitFirst?, hHere], ?_⟩
      obtain ⟨hLen, rfl⟩ := fitFront?_eq_some h
      obtain ⟨_, rfl⟩ := fitFront?_eq_some hHere
      obtain ⟨front, hEq⟩ := hv
      rw [← hEq, List.drop_append]
      exact (List.drop_suffix_drop_left _ (Nat.sub_le _ _)).trans (List.suffix_append _ _)
    | none =>
      simp only [fitFirst?, hHere]
      rcases List.suffix_cons_iff.1 hv with rfl | hv
      · rw [hHere] at h; cases h
      · exact ih hv

/-- The first place is one where the parts fit. -/
theorem fitFront?_of_fitFirst? {ps : List Piece} {w first : Octets}
    (h : fitFirst? ps w = some first) : ∃ v, v <:+ w ∧ fitFront? ps v = some first := by
  induction w with
  | nil => exact ⟨[], List.suffix_refl _, h⟩
  | cons b w ih =>
    simp only [fitFirst?] at h
    split at h
    · rename_i hHere
      exact ⟨b :: w, List.suffix_refl _, hHere.trans h⟩
    · obtain ⟨v, hv, hFit⟩ := ih h
      exact ⟨v, hv.trans (List.suffix_cons _ _), hFit⟩

/-- Parts fit the end of a string iff they use up some end of it. -/
theorem fitsEnd_iff {ps : List Piece} {w : Octets} :
    fitsEnd ps w = true ↔ ∃ v, v <:+ w ∧ fitFront? ps v = some [] := by
  simp only [fitsEnd, Bool.and_eq_true, decide_eq_true_eq, beq_iff_eq]
  constructor
  · rintro ⟨_, h⟩
    exact ⟨_, List.drop_suffix _ _, h⟩
  · rintro ⟨v, hv, h⟩
    obtain ⟨hLen, hRest⟩ := fitFront?_eq_some h
    have hAll : v.length = ps.length :=
      Nat.le_antisymm (List.drop_eq_nil_iff.1 hRest.symm) hLen
    refine ⟨hAll ▸ hv.length_le, ?_⟩
    rw [← hAll, ← List.suffix_iff_eq_drop.1 hv]
    exact h

/-- Stretches behind stars fit a string iff the first of them fits at some place and the
others fit behind it. -/
theorem fitBehind_cons_iff {ps : List Piece} {more : List (List Piece)} {w : Octets} :
    fitBehind (ps :: more) w = true ↔
      ∃ v rest, v <:+ w ∧ fitFront? ps v = some rest ∧ fitBehind more rest = true := by
  induction more generalizing ps w with
  | nil =>
    simp only [fitBehind, fitsEnd_iff, List.isEmpty_iff]
    constructor
    · rintro ⟨v, hv, h⟩
      exact ⟨v, [], hv, h, rfl⟩
    · rintro ⟨v, _, hv, h, rfl⟩
      exact ⟨v, hv, h⟩
  | cons next more ih =>
    simp only [fitBehind]
    constructor
    · intro h
      split at h
      · rename_i first hFirst
        obtain ⟨v, hv, hFit⟩ := fitFront?_of_fitFirst? hFirst
        exact ⟨v, first, hv, hFit, h⟩
      · cases h
    · rintro ⟨v, rest, hv, hFit, h⟩
      obtain ⟨first, hFirst, hEnd⟩ := fitFirst?_first hv hFit
      obtain ⟨v', rest', hv', hFit', h'⟩ := ih.1 h
      simp only [hFirst]
      exact ih.2 ⟨v', rest', hv'.trans hEnd, hFit', h'⟩

/-- Fitting stretch by stretch decides whether the whole string fits the pattern. -/
theorem Glob.fits_eq_holds (g : Glob) (w : Octets) : g.fits w = g.holds w := by
  rw [Bool.eq_iff_iff]
  induction g generalizing w with
  | nil => simp [Glob.fits, Glob.stretches, fitFront?, fitBehind, Glob.holds]
  | cons p g ih =>
    cases p with
    | star =>
      simp only [Glob.holds, anyTail_iff, ← ih]
      simp only [Glob.fits, Glob.stretches, fitFront?, fitBehind_cons_iff]
      constructor
      · rintro ⟨v, rest, hv, hFit, h⟩
        exact ⟨v, hv, by simp only [hFit, h]⟩
      · rintro ⟨v, hv, h⟩
        split at h
        · rename_i rest hFit
          exact ⟨v, rest, hv, hFit, h⟩
        · cases h
    | _ =>
      cases w with
      | nil => simp [Glob.fits, Glob.stretches, fitFront?, Glob.holds]
      | cons b w =>
        simp only [Glob.holds, Bool.and_eq_true, ← ih]
        simp only [Glob.fits, Glob.stretches, fitFront?]
        split <;> simp_all

end BatchStore.Octets
