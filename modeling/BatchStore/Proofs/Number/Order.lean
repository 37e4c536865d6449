import Mathlib.Algebra.Order.Ring.Int
import Mathlib.Data.Prod.Lex

/-!
# The order of doubles

`≤` on doubles compares bit patterns case by case, NaN with nothing. Here every double other
than NaN gets a `rank?`, a row of three whole numbers: its side of zero, its exponent and its
mantissa, the last two negated below zero. `le_iff_rank`, `lt_iff_rank` and `beq_iff_rank` say
that doubles stand to each other as their ranks do, so doubles inherit what holds of rows in the
order of their first difference. The store needs `real_le_trans`: a deadline that has come stays
come while the clock goes forward. And it needs that scores other than NaN are in one order.
-/

namespace BatchStore.Number

open Float.Model

/-- The place of a double that is taken apart, among all of them; NaN has none. -/
def rankOf : UnpackedFloat → Option (Int ×ₗ Int ×ₗ Int)
  | .notANumber => none
  | .infinity .negative => some (toLex (-2, toLex (0, 0)))
  | .finite .negative m e _ => some (toLex (-1, toLex (-e, -m)))
  | .zero _ => some (toLex (0, toLex (0, 0)))
  | .finite .positive m e _ => some (toLex (1, toLex (e, m)))
  | .infinity .positive => some (toLex (2, toLex (0, 0)))

/-- The place of a double among all of them; NaN has none. -/
def rank? (x : Float) : Option (Int ×ₗ Int ×ₗ Int) := rankOf x.toModel.unpack

private theorem then_isLE_iff (e d : Int) (m n : Nat) :
    ((compare e d).then (compare m n)).isLE = true ↔ e < d ∨ e = d ∧ m ≤ n := by
  rw [Ordering.isLE_then_iff_or, Int.compare_eq_lt, Int.compare_eq_eq, Nat.isLE_compare]

/-- Below zero the larger magnitude is the smaller number. -/
private theorem swap_then_isLE_iff (e d : Int) (m n : Nat) :
    ((compare e d).then (compare m n)).swap.isLE = true ↔ d < e ∨ e = d ∧ n ≤ m := by
  rw [Ordering.swap_then, Int.compare_swap, Nat.compare_swap, then_isLE_iff, eq_comm]

private theorem unpacked_le_iff (a b : UnpackedFloat) :
    a.le b = true ↔ ∃ x y, rankOf a = some x ∧ rankOf b = some y ∧ x ≤ y := by
  unfold UnpackedFloat.le UnpackedFloat.compare
  rcases a with s | _ | s | ⟨s, m, e, hm⟩ <;> rcases b with t | _ | t | ⟨t, n, d, hn⟩ <;>
    (try cases s) <;> (try cases t) <;> dsimp only [rankOf] <;> simp [Prod.Lex.toLex_le_toLex]
  case infinity.infinity.negative.negative => rfl
  case infinity.infinity.negative.positive => rfl
  case infinity.infinity.positive.negative => rfl
  case infinity.infinity.positive.positive => rfl
  case finite.finite.negative.negative =>
    rw [← swap_then_isLE_iff, Ordering.isLE_swap]
  case finite.finite.positive.positive => exact then_isLE_iff e d m n

/-- A double is at most another iff both have a rank and the ranks stand so. -/
theorem le_iff_rank (a b : Float) :
    a ≤ b ↔ ∃ x y, rank? a = some x ∧ rank? b = some y ∧ x ≤ y := by
  show decide (a.toModel ≤ b.toModel) = true ↔ _
  rw [decide_eq_true_iff]
  exact unpacked_le_iff a.toModel.unpack b.toModel.unpack

private theorem unpacked_lt_iff (a b : UnpackedFloat) :
    a.lt b = true ↔ ∃ x y, rankOf a = some x ∧ rankOf b = some y ∧ x < y := by
  unfold UnpackedFloat.lt UnpackedFloat.compare
  rcases a with s | _ | s | ⟨s, m, e, hm⟩ <;> rcases b with t | _ | t | ⟨t, n, d, hn⟩ <;>
    (try cases s) <;> (try cases t) <;> dsimp only [rankOf] <;> simp [Prod.Lex.toLex_lt_toLex]
  case infinity.infinity.negative.positive => rfl
  case finite.finite.negative.negative =>
    rw [Ordering.then_eq_gt, Int.compare_eq_gt, Int.compare_eq_eq, Nat.compare_eq_gt]
  case finite.finite.positive.positive =>
    rw [Ordering.then_eq_lt, Int.compare_eq_lt, Int.compare_eq_eq, Nat.compare_eq_lt]

/-- A double is less than another iff both have a rank and the ranks stand so. -/
theorem lt_iff_rank (a b : Float) :
    a < b ↔ ∃ x y, rank? a = some x ∧ rank? b = some y ∧ x < y := by
  show decide (a.toModel < b.toModel) = true ↔ _
  rw [decide_eq_true_iff]
  exact unpacked_lt_iff a.toModel.unpack b.toModel.unpack

private theorem unpacked_beq_iff (a b : UnpackedFloat) :
    a.beq b = true ↔ ∃ x, rankOf a = some x ∧ rankOf b = some x := by
  unfold UnpackedFloat.beq UnpackedFloat.compare
  rcases a with s | _ | s | ⟨s, m, e, hm⟩ <;> rcases b with t | _ | t | ⟨t, n, d, hn⟩ <;>
    (try cases s) <;> (try cases t) <;> dsimp only [rankOf] <;> simp
  case infinity.infinity.negative.negative => rfl
  case infinity.infinity.positive.positive => rfl
  case finite.finite.negative.negative => rw [eq_comm, @eq_comm _ m n]
  case finite.finite.positive.positive => rw [eq_comm, @eq_comm _ m n]

/-- Doubles are worth the same iff they have the same rank; so are the two zeros. -/
theorem beq_iff_rank (a b : Float) :
    (a == b) = true ↔ ∃ x, rank? a = some x ∧ rank? b = some x :=
  unpacked_beq_iff a.toModel.unpack b.toModel.unpack

/-- A double other than NaN has a rank. -/
theorem exists_rank {a : Float} (h : a.isNaN = false) : ∃ x, rank? a = some x := by
  have hUnpacked : a.toModel.unpack.isNaN = false := h
  unfold rank?
  rcases hForm : a.toModel.unpack with s | _ | s | ⟨s, m, e, hm⟩ <;> rw [hForm] at hUnpacked <;>
    (try cases s) <;> first | exact ⟨_, rfl⟩ | cases hUnpacked

/-- `≤` on doubles is transitive, NaN included: it is at most nothing. -/
theorem real_le_trans {a b c : Float} (hab : a ≤ b) (hbc : b ≤ c) : a ≤ c := by
  obtain ⟨x, y, hx, hy, hxy⟩ := (le_iff_rank a b).1 hab
  obtain ⟨y', z, hy', hz, hyz⟩ := (le_iff_rank b c).1 hbc
  have hSame : y = y' := Option.some.inj (hy.symm.trans hy')
  subst hSame
  exact (le_iff_rank a c).2 ⟨x, z, hx, hz, le_trans hxy hyz⟩

end BatchStore.Number
