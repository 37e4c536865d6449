import BatchStore.Proofs.Store.Places

/-!
# Cells and their numbers

The map is cut into `2 ^ 26` columns and as many rows, and the number of a cell has the bits of its
column and of its row in turn. `interleave` builds the number from the lowest bits up. It can also
be built in one pass from the highest bits down: `weave` makes room for two bits at a time and puts
in those of the next position. `weave_interleave` is what holds between its turns: the number so far
is that of the bits that were seen, so at the end the two are one.

From the number the cell is seen again, bit by bit (`testBit_interleave`), and it grows with either
coordinate (`interleave_lt_interleave`). A number of 52 bits is a double without loss, so the scores
that a sorted set is ordered by stand to each other as the numbers do. `scores_of_cells` says all of
this of the cells that places fall in.
-/

namespace BatchStore.Places

/-! ## Turns -/

/-- One turn: the number makes room for two bits, and those of a column and a row at one position
are put in. -/
def weaveBit (column row number bit : Nat) : Nat :=
  number <<< 2 ||| (column >>> bit &&& 1) <<< 1 ||| row >>> bit &&& 1

/-- The turns for the lowest bits of a column and a row, from the highest of these down. -/
def weave (bits column row number : Nat) : Nat :=
  (List.range bits).reverse.foldl (weaveBit column row) number

theorem weave_succ (bits column row number : Nat) :
    weave (bits + 1) column row number =
      weave bits column row (weaveBit column row number bits) := by
  simp [weave, List.range_succ]

/-- Two bits that are put behind a number do not touch it, nor each other. -/
theorem shiftLeft_or_or (n : Nat) {a b : Nat} (ha : a < 2) (hb : b < 2) :
    n <<< 2 ||| a <<< 1 ||| b = 4 * n + 2 * a + b := by
  have hPair : a <<< 1 ||| b = 2 * a + b := by
    rw [← Nat.shiftLeft_add_eq_or_of_lt (by simpa using hb), Nat.shiftLeft_eq]
    omega
  have hSmall : 2 * a + b < 2 ^ 2 := by omega
  rw [Nat.or_assoc, hPair, ← Nat.shiftLeft_add_eq_or_of_lt hSmall, Nat.shiftLeft_eq]
  omega

/-- A turn takes the number of the bits above a position to that of the bits from there on. -/
theorem weaveBit_interleave (seen column row bit : Nat) :
    weaveBit column row (interleave seen (column >>> (bit + 1)) (row >>> (bit + 1))) bit =
      interleave (seen + 1) (column >>> bit) (row >>> bit) := by
  have hBit (n : Nat) : n &&& 1 < 2 := by
    rw [Nat.and_one_is_mod]
    omega
  rw [weaveBit, shiftLeft_or_or _ (hBit _) (hBit _), Nat.and_one_is_mod, Nat.and_one_is_mod,
    interleave, Nat.shiftRight_succ, Nat.shiftRight_succ]

/-- Turns go on from the number of the bits that were seen to that of all bits. -/
theorem weave_interleave (bits seen column row : Nat) :
    weave bits column row (interleave seen (column >>> bits) (row >>> bits)) =
      interleave (seen + bits) column row := by
  induction bits generalizing seen with
  | zero => rfl
  | succ bits ih =>
      rw [weave_succ, weaveBit_interleave, ih, Nat.add_right_comm, Nat.add_assoc]

/-! ## Bits -/

section Bits

variable {bits column row i : Nat}

/-- Without its two lowest bits a number is that of the coordinates without their lowest. -/
theorem interleave_div_four :
    interleave (bits + 1) column row / 4 = interleave bits (column / 2) (row / 2) := by
  rw [interleave]
  omega

/-- From a position on, a number is that of the coordinates from there on. -/
theorem interleave_div (bits column row i : Nat) :
    interleave (bits + i) column row / 4 ^ i = interleave bits (column / 2 ^ i) (row / 2 ^ i) := by
  induction i generalizing column row with
  | zero => simp
  | succ i ih =>
      rw [Nat.pow_succ', Nat.pow_succ', ← Nat.div_div_eq_div_mul, ← Nat.div_div_eq_div_mul,
        ← Nat.div_div_eq_div_mul, ← Nat.add_assoc, interleave_div_four, ih]

/-- The bits of both coordinates at a position stand side by side. -/
theorem testBit_interleave (h : i < bits) :
    (interleave bits column row).testBit (2 * i + 1) = column.testBit i ∧
      (interleave bits column row).testBit (2 * i) = row.testBit i := by
  obtain ⟨above, rfl⟩ : ∃ above, bits = above + 1 + i := ⟨bits - 1 - i, by omega⟩
  have hFrom := interleave_div (above + 1) column row i
  rw [interleave] at hFrom
  have hPower : 2 ^ (2 * i) = 4 ^ i := Nat.pow_mul 2 2 i
  have hRow : interleave (above + 1 + i) column row / 2 ^ (2 * i) % 2 = row / 2 ^ i % 2 := by
    rw [hPower]
    omega
  have hColumn : interleave (above + 1 + i) column row / 2 ^ (2 * i + 1) % 2 =
      column / 2 ^ i % 2 := by
    rw [Nat.pow_succ, ← Nat.div_div_eq_div_mul, hPower]
    omega
  simp only [Nat.testBit_eq_decide_div_mod_eq, hRow, hColumn, and_self]

end Bits

/-- The column has the bits 101, the row 011. -/
example : interleave 3 5 3 = 39 := by decide

/-- Coordinates are told from their number. -/
theorem interleave_inj {bits column row column' row' : Nat}
    (h : interleave bits column row = interleave bits column' row') (hColumn : column < 2 ^ bits)
    (hRow : row < 2 ^ bits) (hColumn' : column' < 2 ^ bits) (hRow' : row' < 2 ^ bits) :
    column = column' ∧ row = row' := by
  induction bits generalizing column row column' row' with
  | zero => omega
  | succ bits ih =>
      rw [Nat.pow_succ] at hColumn hRow hColumn' hRow'
      rw [interleave, interleave] at h
      obtain ⟨hColumns, hRows⟩ : column / 2 = column' / 2 ∧ row / 2 = row' / 2 :=
        ih (by omega) (by omega) (by omega) (by omega) (by omega)
      omega

/-! ## Order -/

/-- A number grows with either coordinate: what differs in the higher bits outweighs the two lowest
ones. -/
theorem interleave_lt_interleave {bits column row column' row' : Nat} (hColumn : column ≤ column')
    (hRow : row ≤ row') (hLess : column < column' ∨ row < row') (hWide : column' < 2 ^ bits)
    (hHigh : row' < 2 ^ bits) :
    interleave bits column row < interleave bits column' row' := by
  induction bits generalizing column row column' row' with
  | zero => omega
  | succ bits ih =>
      rw [Nat.pow_succ] at hWide hHigh
      rw [interleave, interleave]
      by_cases hHalves : column / 2 < column' / 2 ∨ row / 2 < row' / 2
      · have hAbove : interleave bits (column / 2) (row / 2) <
            interleave bits (column' / 2) (row' / 2) :=
          ih (by omega) (by omega) hHalves (by omega) (by omega)
        omega
      · have hSameColumn : column / 2 = column' / 2 := by omega
        have hSameRow : row / 2 = row' / 2 := by omega
        rw [hSameColumn, hSameRow]
        omega

/-! ## Cells -/

/-- A cell of the map. -/
@[ext] structure Cell where
  column : Nat
  row : Nat
  column_lt : column < 2 ^ cellBits
  row_lt : row < 2 ^ cellBits

theorem cell_lt (share : Float) : cell share < 2 ^ cellBits := by
  have hSome : 0 < Number.twoTo cellBits := Number.twoTo_pos cellBits
  have hLast : cell share ≤ Number.twoTo cellBits - 1 := Nat.min_le_right _ _
  exact Nat.lt_of_le_pred hSome hLast

/-- The cell in which a place falls. -/
def cellAt (longitude latitude : Float) : Cell where
  column := cell ((longitude + maxLongitude) / 360.0)
  row := cell ((latitude + maxLatitude) / 170.10225756)
  column_lt := cell_lt _
  row_lt := cell_lt _

namespace Cell

variable (c d : Cell)

def number : Nat := interleave cellBits c.column c.row

def score : Float := Float.ofNat c.number

theorem number_lt : c.number < 2 ^ 52 := interleave_lt cellBits c.column c.row

variable {c d}

/-- The number of a cell is that of no other. -/
theorem number_inj (h : c.number = d.number) : c = d := by
  obtain ⟨hColumn, hRow⟩ :=
    interleave_inj h c.column_lt c.row_lt d.column_lt d.row_lt
  exact Cell.ext hColumn hRow

theorem isExactly_score : Number.IsExactly c.score c.number := Number.isExactly_ofNat c.number_lt

theorem score_inj (h : c.score = d.score) : c = d := by
  have hExact : Number.IsExactly c.score d.number := by
    rw [h]
    exact isExactly_score
  exact number_inj (isExactly_score.unique hExact)

/-- Scores stand to each other as the numbers do. -/
theorem score_lt (h : c.number < d.number) : c.score < d.score := Number.ofNat_lt h d.number_lt

theorem number_lt_of_row (hColumn : c.column = d.column) (hRow : c.row < d.row) :
    c.number < d.number :=
  interleave_lt_interleave hColumn.le hRow.le (.inr hRow) d.column_lt d.row_lt

theorem number_lt_of_column (hRow : c.row = d.row) (hColumn : c.column < d.column) :
    c.number < d.number :=
  interleave_lt_interleave hColumn.le hRow.le (.inl hColumn) d.column_lt d.row_lt

end Cell

/-- The scores that places get, and the cells that these stand for.

* A place on the map gets the score of the cell in which it falls.
* The number of a cell is what the turns for its 26 positions come to. It has at most 52 bits: at
  the odd positions those of the column, at the even ones those of the row. The score is this
  number, without loss.
* Two cells have different numbers, and different scores.
* Within a column numbers and scores rise with the row, and within a row with the column. -/
theorem scores_of_cells :
    (∀ p : Point, p.OnMap →
      score? p.longitude p.latitude = .ok (cellAt p.longitude p.latitude).score) ∧
    (∀ c : Cell, weave cellBits c.column c.row 0 = c.number ∧ c.number < 2 ^ 52 ∧
      (∀ i < cellBits, c.number.testBit (2 * i + 1) = c.column.testBit i ∧
        c.number.testBit (2 * i) = c.row.testBit i) ∧
      Number.IsExactly c.score c.number) ∧
    (∀ c d : Cell, c ≠ d → c.number ≠ d.number ∧ c.score ≠ d.score) ∧
    (∀ c d : Cell, c.column = d.column → c.row < d.row →
      c.number < d.number ∧ c.score < d.score) ∧
    (∀ c d : Cell, c.row = d.row → c.column < d.column →
      c.number < d.number ∧ c.score < d.score) := by
  refine ⟨fun p hMap => Point.score?_onMap hMap, fun c => ⟨?_, c.number_lt, ?_, ?_⟩, ?_, ?_, ?_⟩
  · have hTurns := weave_interleave cellBits 0 c.column c.row
    rwa [Nat.zero_add] at hTurns
  · intro i hi
    exact testBit_interleave hi
  · exact Cell.isExactly_score
  · intro c d hNe
    exact ⟨fun hNumber => hNe (Cell.number_inj hNumber), fun hScore => hNe (Cell.score_inj hScore)⟩
  · intro c d hColumn hRow
    have hNumber := Cell.number_lt_of_row hColumn hRow
    exact ⟨hNumber, Cell.score_lt hNumber⟩
  · intro c d hRow hColumn
    have hNumber := Cell.number_lt_of_column hRow hColumn
    exact ⟨hNumber, Cell.score_lt hNumber⟩

end BatchStore.Places
