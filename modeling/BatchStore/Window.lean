/-!
# Windows of lists

A window is the part of a list from one place up to another, the second excluded. A
place past the end is the end, and a negative place counts back from the end.
-/

namespace BatchStore

/-- A place in a list of length `n`. -/
def place (n : Nat) (i : Int) : Nat :=
  if i < 0 then (n + i).toNat else min i.toNat n

/-- A place lies within the list or at its end. -/
theorem place_le (n : Nat) (i : Int) : place n i ≤ n := by
  simp only [place]
  split <;> omega

/-- The part of a list from place `i` up to place `j`. -/
def window {α : Type} (xs : List α) (i j : Int) : List α :=
  (xs.take (place xs.length j)).drop (place xs.length i)

/-- The part of a list from place `i` on. -/
def windowFrom {α : Type} (xs : List α) (i : Int) : List α :=
  xs.drop (place xs.length i)

/-- A place that is not negative is that place, or the end. -/
theorem place_natCast (n i : Nat) : place n (i : Int) = min i n := by
  simp only [place]
  split <;> omega

theorem windowFrom_natCast {α : Type} (xs : List α) (i : Nat) :
    windowFrom xs (i : Int) = xs.drop i := by
  rw [windowFrom, place_natCast, ← List.drop_eq_drop_min]

/-- The window of some elements behind a place. -/
theorem window_behind {α : Type} (xs : List α) (i n : Nat) :
    window xs (i : Int) (i + n : Int) = (xs.drop i).take n := by
  have hEnd : place xs.length (i + n : Int) = min (i + n) xs.length :=
    place_natCast xs.length (i + n)
  rw [window, place_natCast, hEnd, ← List.take_eq_take_min, List.take_drop, List.drop_eq_drop_iff,
    List.length_take]
  omega

/-- A window from the start takes the first elements. -/
theorem window_zero {α : Type} (xs : List α) (n : Nat) :
    window xs 0 n = xs.take n := by
  have hBehind := window_behind xs 0 n
  rw [List.drop_zero] at hBehind
  simpa using hBehind

end BatchStore
