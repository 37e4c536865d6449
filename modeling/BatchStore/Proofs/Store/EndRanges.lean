import Mathlib.Tactic.Order
import BatchStore.Proofs.Options.Ranges
import BatchStore.Proofs.Store.IndexRanges

/-!
# Ranges between two ends

ZRANGE by score and by member answers the members between two ends, each of which is taken in, left
out or no bound at all. Which of two words is the lower end hangs on the direction: backwards the
upper one is given first.

Two ends of one kind are an `EndPair`, and `EndPair.admits` says which plain members are between
them, with no regard to how the comparison of values is made. The comparison is one for scores and
members; all that is used of it is that its outcome `Tells` how two values stand to each other,
which holds of doubles, NaN included, and of octets.

`ranges_between_ends` is the result: a range is the part of the ranking between the ends, backwards
the same row backwards, and a limit cuts it into pages that make up the whole row. It is about words
that are read as ends, and between any others nothing is answered (`exists_ends`).
-/

namespace BatchStore

/-! ## How two values stand -/

/-- An outcome of a comparison tells how two values stand to each other. -/
structure Tells {α : Type} [LT α] [LE α] (o : Option Ordering) (a b : α) : Prop where
  less : o = some .lt ↔ a < b
  atMost : o = some .lt ∨ o = some .eq ↔ a ≤ b
  greater : o = some .gt ↔ b < a
  atLeast : o = some .gt ∨ o = some .eq ↔ b ≤ a

/-- Whether a value rises to another: it is smaller, or no greater where the two may be the same. -/
def rises {α : Type} [LT α] [LE α] [DecidableLT α] [DecidableLE α] (strictly : Bool) (a b : α) :
    Bool :=
  if strictly then a < b else a ≤ b

namespace Number

/-- The comparison of doubles tells how they stand; NaN stands nowhere. -/
theorem tells_compareReals? (x y : Float) : Tells (compareReals? x y) x y := by
  have hLess := lt_iff_rank x y
  have hGreater := lt_iff_rank y x
  have hSame := beq_iff_rank x y
  have hAtMost := le_iff_rank x y
  have hAtLeast := le_iff_rank y x
  unfold compareReals?
  cases hx : rank? x with
  | none => constructor <;> simp_all
  | some a =>
      cases hy : rank? y with
      | none => constructor <;> simp_all
      | some b =>
          simp only [hx, hy, Option.some.injEq, exists_eq_left', exists_and_left]
            at hLess hGreater hSame hAtMost hAtLeast
          rcases lt_trichotomy a b with h | h | h
          · constructor <;> simp_all [h.not_gt, h.le, h.not_ge]
          · subst h
            constructor <;> simp_all
          · constructor <;> simp_all [h.not_gt, h.ne, h.le, h.not_ge]

/-- Doubles that rise to one another in turn rise from the first to the last. -/
theorem rises_trans {p q : Bool} {x y z : Float} (hxy : rises p x y = true)
    (hyz : rises q y z = true) : rises (p || q) x z = true := by
  cases p <;> cases q <;>
    simp only [rises, decide_eq_true_eq, Bool.false_eq_true, if_false, if_true, le_iff_rank,
      lt_iff_rank, Bool.or_false, Bool.or_true] at *
  all_goals
    obtain ⟨a, b, hx, hy, hab⟩ := hxy
    obtain ⟨b', c, hy', hz, hbc⟩ := hyz
    obtain rfl : b = b' := Option.some.inj (hy.symm.trans hy')
    exact ⟨a, c, hx, hz, by order⟩

end Number

namespace Octets

/-- So does the comparison of octets. -/
theorem tells_compareOfLessAndEq (v w : Octets) : Tells (some (compareOfLessAndEq v w)) v w := by
  have hApart : ∀ {a b : Octets}, a ≤ b → b ≤ a → a = b := List.le_antisymm
  have hNot : ∀ {a b : Octets}, ¬a ≤ b ↔ b < a := List.not_le
  have hEither (a b : Octets) : a ≤ b ∨ b ≤ a := List.le_total a b
  constructor
  · rw [Option.some.injEq, compareOfLessAndEq_eq_lt]
  · rw [← isLE_compareOfLessAndEq hApart hNot hEither]
    cases compareOfLessAndEq v w <;> simp
  · rw [Option.some.injEq, compareOfLessAndEq_eq_gt hApart hEither hNot]
  · rw [← isGE_compareOfLessAndEq hApart hNot hEither]
    cases compareOfLessAndEq v w <;> simp

theorem rises_trans {p q : Bool} {u v w : Octets} (huv : rises p u v = true)
    (hvw : rises q v w = true) : rises (p || q) u w = true := by
  cases p <;> cases q <;>
    simp only [rises, decide_eq_true_eq, Bool.false_eq_true, if_false, if_true, Bool.or_false,
      Bool.or_true] at *
  · exact List.le_trans huv hvw
  · exact List.lt_of_le_of_lt huv hvw
  · exact List.not_le.1 fun hBack => List.not_le.2 huv (List.le_trans hvw hBack)
  · exact List.lt_trans huv hvw

end Octets

namespace SortedSets

/-! ## Ends -/

section Admits

variable {α : Type} [LT α] [LE α] [DecidableLT α] [DecidableLE α] {o : Option Ordering} {a b : α}

theorem admits_fromEnd (h : Tells o a b) (exclusive : Bool) :
    (fromEnd exclusive).admits o = rises exclusive b a := by
  rw [Bool.eq_iff_iff]
  cases exclusive
  · simp only [rises, decide_eq_true_eq, Bool.false_eq_true, if_false, ← h.atLeast]
    rcases o with _ | _ | _ | _ <;> simp [fromEnd, Comparison.admits]
  · simp only [rises, decide_eq_true_eq, if_true, ← h.greater]
    rcases o with _ | _ | _ | _ <;> simp [fromEnd, Comparison.admits]

theorem admits_toEnd (h : Tells o a b) (exclusive : Bool) :
    (toEnd exclusive).admits o = rises exclusive a b := by
  rw [Bool.eq_iff_iff]
  cases exclusive
  · simp only [rises, decide_eq_true_eq, Bool.false_eq_true, if_false, ← h.atMost]
    rcases o with _ | _ | _ | _ <;> simp [toEnd, Comparison.admits]
  · simp only [rises, decide_eq_true_eq, if_true, ← h.less]
    rcases o with _ | _ | _ | _ <;> simp [toEnd, Comparison.admits]

end Admits

/-- Whether octets are not below the end. -/
def LexEnd.isBelow (e : LexEnd) (v : Octets) : Bool :=
  match e with
  | unbounded u => u == .below
  | LexEnd.at w exclusive => rises exclusive w v

/-- Whether octets are not above the end. -/
def LexEnd.isAbove (e : LexEnd) (v : Octets) : Bool :=
  match e with
  | unbounded u => u == .above
  | LexEnd.at w exclusive => rises exclusive v w

/-- The two ends of a range by score or by member. -/
inductive EndPair where
  | scores (low high : ScoreEnd)
  | members (low high : LexEnd)

namespace EndPair

/-- What a range between the ends goes by. -/
def goesBy : EndPair → RangeBy
  | scores _ _ => .score
  | members _ _ => .lex

/-- The ends are what two words are read as, the lower end first. -/
def ReadFrom (ends : EndPair) (low high : Octets) : Prop :=
  match ends with
  | scores l h => ScoreEnd.read low = .ok l ∧ ScoreEnd.read high = .ok h
  | members l h => LexEnd.read low = .ok l ∧ LexEnd.read high = .ok h

/-- Whether a plain member is between the ends. -/
def admits : EndPair → Scored → Bool
  | scores low high, (_, .real x) =>
    rises low.exclusive low.value x && rises high.exclusive x high.value
  | members low high, (.octets v, _) => low.isBelow v && high.isAbove v
  | _, _ => false

/-- Whether the ends have changed places, so that nothing is between them: the lower one does not
rise to the upper one, or it is the end above all members, or the upper one the end below all. -/
def areCrossed : EndPair → Bool
  | scores low high => !rises (low.exclusive || high.exclusive) low.value high.value
  | members (.at v p) (.at w q) => !rises (p || q) v w
  | members (.unbounded .above) _ => true
  | members _ (.unbounded .below) => true
  | members _ _ => false

/-- Nothing is between ends that have changed places. -/
theorem admits_of_areCrossed {ends : EndPair} (h : ends.areCrossed = true) (m : Scored) :
    ends.admits m = false := by
  by_contra hSome
  rw [Bool.not_eq_false] at hSome
  unfold admits at hSome
  split at hSome
  case h_1 low high _ x =>
    rw [Bool.and_eq_true] at hSome
    simp [areCrossed, Number.rises_trans hSome.1 hSome.2] at h
  case h_2 low high v _ =>
    rw [Bool.and_eq_true] at hSome
    rcases low with (_ | _) | ⟨u, p⟩ <;> rcases high with (_ | _) | ⟨w, q⟩ <;>
      simp_all [areCrossed, LexEnd.isBelow, LexEnd.isAbove]
    simp [Octets.rises_trans hSome.1 hSome.2] at h
  case h_3 => cases hSome

/-! ## What ZRANGE selects -/

/-- The tests of a plain member against both ends come to whether it is between them. -/
theorem passesBoth_scores (low high : ScoreEnd) {m : Scored} (hPlain : m.isPlain = true) :
    passesBoth (low.admitsFrom m.2) (high.admitsTo m.2) = .ok ((scores low high).admits m) := by
  obtain ⟨v, x, _, rfl, _⟩ := Scored.exists_of_isPlain hPlain
  have hFrom : low.admitsFrom (.real x) = .ok (rises low.exclusive low.value x) :=
    congrArg Except.ok (admits_fromEnd (Number.tells_compareReals? x low.value) _)
  have hTo : high.admitsTo (.real x) = .ok (rises high.exclusive x high.value) :=
    congrArg Except.ok (admits_toEnd (Number.tells_compareReals? x high.value) _)
  show passesBoth (low.admitsFrom (.real x)) (high.admitsTo (.real x)) =
    .ok (rises low.exclusive low.value x && rises high.exclusive x high.value)
  rw [hFrom, hTo]
  cases rises low.exclusive low.value x <;> rfl

theorem admitsFrom_octets (e : LexEnd) (v : Octets) :
    e.admitsFrom (.octets v) = .ok (e.isBelow v) := by
  rcases e with (_ | _) | ⟨w, p⟩
  · rfl
  · rfl
  · exact congrArg Except.ok (admits_fromEnd (Octets.tells_compareOfLessAndEq v w) p)

theorem admitsTo_octets (e : LexEnd) (v : Octets) :
    e.admitsTo (.octets v) = .ok (e.isAbove v) := by
  rcases e with (_ | _) | ⟨w, p⟩
  · rfl
  · rfl
  · exact congrArg Except.ok (admits_toEnd (Octets.tells_compareOfLessAndEq v w) p)

theorem passesBoth_members (low high : LexEnd) {m : Scored} (hPlain : m.isPlain = true) :
    passesBoth (low.admitsFrom m.1) (high.admitsTo m.1) = .ok ((members low high).admits m) := by
  obtain ⟨v, x, _, rfl, _⟩ := Scored.exists_of_isPlain hPlain
  show passesBoth (low.admitsFrom (.octets v)) (high.admitsTo (.octets v)) =
    .ok (low.isBelow v && high.isAbove v)
  rw [admitsFrom_octets, admitsTo_octets]
  cases low.isBelow v <;> rfl

/-- A test that answers of each member whether it is kept keeps these. -/
theorem passing_filter {test : Scored → Except Fault Bool} {keeps : Scored → Bool}
    {row : List Scored} (h : ∀ m ∈ row, test m = .ok (keeps m)) :
    passing test row = .ok (row.filter keeps) := by
  induction row with
  | nil => rfl
  | cons m row ih =>
      unfold passing
      rw [h m List.mem_cons_self, ih fun n hn => h n (List.mem_cons_of_mem m hn),
        List.filter_cons]
      rfl

/-- Of plain members, those between the ends are selected. -/
theorem between_eq {ends : EndPair} {low high : Octets} (hRead : ends.ReadFrom low high)
    {plan : RangePlan} (hPlan : plan.goesBy = ends.goesBy) {row : List Scored}
    (hPlain : ∀ m ∈ row, m.isPlain = true) :
    between plan row low high = .ok (row.filter ends.admits) := by
  unfold between
  rw [hPlan]
  cases ends with
  | scores l h =>
      show (ScoreEnd.read low >>= fun _ => ScoreEnd.read high >>= fun _ => _) = _
      rw [hRead.1, hRead.2]
      exact congrArg orBreakDown
        (passing_filter fun m hm => passesBoth_scores l h (hPlain m hm))
  | members l h =>
      show (LexEnd.read low >>= fun _ => LexEnd.read high >>= fun _ => _) = _
      rw [hRead.1, hRead.2]
      exact congrArg orBreakDown
        (passing_filter fun m hm => passesBoth_members l h (hPlain m hm))

/-- Members are selected between two words only if these are read as ends. -/
theorem exists_of_between {plan : RangePlan} (hPlan : plan.goesBy ≠ .index)
    {row chosen : List Scored} {low high : Octets} (h : between plan row low high = .ok chosen) :
    ∃ ends : EndPair, ends.goesBy = plan.goesBy ∧ ends.ReadFrom low high := by
  unfold between at h
  cases hBy : plan.goesBy with
  | index => exact absurd hBy hPlan
  | score =>
      rw [hBy] at h
      obtain ⟨l, hLow, hAfter⟩ := ok_of_bind h
      obtain ⟨u, hHigh, -⟩ := ok_of_bind hAfter
      exact ⟨scores l u, rfl, hLow, hHigh⟩
  | lex =>
      rw [hBy] at h
      obtain ⟨l, hLow, hAfter⟩ := ok_of_bind h
      obtain ⟨u, hHigh, -⟩ := ok_of_bind hAfter
      exact ⟨members l u, rfl, hLow, hHigh⟩

end EndPair

/-! ## Limits -/

/-- A limit that counts what it leaves takes this many elements from the offset on. -/
theorem limited_count {α : Type} (row : List α) (offset n : Nat) :
    limited row (some (offset, n)) = (row.drop offset).take n := by
  unfold limited
  dsimp only
  rw [if_neg (by omega), window_behind]

/-- A limit with a negative count leaves all from the offset on. -/
theorem limited_rest {α : Type} (row : List α) (offset : Nat) {n : Int} (hn : n < 0) :
    limited row (some (offset, n)) = row.drop offset := by
  unfold limited
  dsimp only
  rw [if_pos hn, windowFrom_natCast]

/-- A row in pages of one size, the last of which may be shorter. -/
def pages {α : Type} (row : List α) (size : Nat) : List (List α) :=
  (List.range ((row.length + size - 1) / size)).map fun k => (row.drop (k * size)).take size

section Pages

variable {α : Type} (row : List α) {size : Nat}

theorem flatten_pages_take (size n : Nat) :
    ((List.range n).map fun k => (row.drop (k * size)).take size).flatten =
      row.take (n * size) := by
  induction n with
  | zero => simp
  | succ n ih =>
      rw [List.range_succ, List.map_append, List.flatten_append, ih, Nat.succ_mul, List.take_add]
      simp

/-- There are enough pages for the whole row. -/
theorem length_le_pages (hSize : 0 < size) : row.length ≤ (pages row size).length * size := by
  have hDiv := Nat.div_add_mod (row.length + size - 1) size
  have hRest := Nat.mod_lt (row.length + size - 1) hSize
  rw [Nat.mul_comm] at hDiv
  simp only [pages, List.length_map, List.length_range]
  omega

theorem flatten_pages (hSize : 0 < size) : (pages row size).flatten = row := by
  have hAll := length_le_pages row hSize
  simp only [pages, List.length_map, List.length_range] at hAll
  rw [pages, flatten_pages_take, List.take_of_length_le hAll]

theorem getElem_pages {k : Nat} (hk : k < (pages row size).length) :
    (pages row size)[k] = (row.drop (k * size)).take size := by
  simp [pages]

/-- No page is empty. -/
theorem pages_ne_nil (hSize : 0 < size) {page : List α} (h : page ∈ pages row size) :
    page ≠ [] := by
  obtain ⟨k, hk, rfl⟩ := List.mem_map.1 h
  have hFull : (k + 1) * size ≤ row.length + size - 1 :=
    (Nat.le_div_iff_mul_le hSize).1 (List.mem_range.1 hk)
  rw [Nat.succ_mul] at hFull
  refine List.ne_nil_of_length_pos ?_
  rw [List.length_take, List.length_drop]
  omega

end Pages

end SortedSets

namespace Store

open SortedSets

section Between

variable {now : Float} {s : Store} {key low high : Octets} {ends : EndPair}

/-- The two words of a range, in the order in which they are given: backwards the upper end comes
first. -/
def inDirection (reverse : Bool) (low high : Octets) : Octets × Octets :=
  if reverse then (high, low) else (low, high)

/-- Every ZRANGE between two ends, in a direction and with a limit, answers certain members. -/
def AnswersBetween (s : Store) (now : Float) (key low high : Octets) (ends : EndPair)
    (reverse : Bool) (limit? : Option (Int × Int)) (members : List Datum) : Prop :=
  ∀ (c : Command) (first last : Octets) (options : List Octets),
    c.request? = some (.zrange, key :: first :: last :: options) →
    (first, last) = inDirection reverse low high →
    RangePlan.read {} options = .ok ⟨ends.goesBy, reverse, limit?⟩ →
    (run now c s).1 = .ok (.list members)

/-- The part of a ranking between two ends, in a direction. -/
def rowBetween (ordered : List Scored) (ends : EndPair) (reverse : Bool) : List Datum :=
  (if reverse then (ordered.filter ends.admits).reverse else ordered.filter ends.admits).map (·.1)

/-- ZRANGE between two ends answers the part of the ranking between them, as far as the limit
leaves it. -/
theorem answersBetween {scores : Table Datum Datum} {ordered : List Scored}
    (h : s.Holds now key .zset .empty scores) (hRanked : ranked scores.entries = .ok ordered)
    (hPlain : scores.entries.all Scored.isPlain = true) (hRead : ends.ReadFrom low high)
    (reverse : Bool) (limit? : Option (Int × Int)) :
    s.AnswersBetween now key low high ends reverse limit?
      (limited (rowBetween ordered ends reverse) limit?) := by
  intro c first last options hRequest hWords hPlan
  have hMany : 3 ≤ options.length + 1 + 1 + 1 := by omega
  rw [run_of_open hRequest rfl hMany]
  refine zrange_select h hPlan ?_
  have hEach : ∀ m ∈ ordered, m.isPlain = true := fun m hm =>
    List.all_eq_true.1 hPlain m ((ranked_perm hRanked).mem_iff.1 hm)
  unfold RangePlan.select rowBetween
  rw [inOrder_of_ranked hRanked]
  -- Backwards the upper end is given first, and the selection exchanges the two again.
  have hOrdered : (ends.goesBy != .index) = true := by cases ends <;> rfl
  cases reverse with
  | false =>
      cases hWords
      show (between _ ordered low high >>= _) = _
      rw [EndPair.between_eq hRead rfl hEach]
      rfl
  | true =>
      cases hWords
      show (between _ ordered.reverse (if true && ends.goesBy != .index then _ else _)
        (if true && ends.goesBy != .index then _ else _) >>= _) = _
      rw [hOrdered]
      show (between _ ordered.reverse low high >>= _) = _
      rw [EndPair.between_eq hRead rfl fun m hm => hEach m (List.mem_reverse.1 hm),
        List.filter_reverse]
      rfl

/-- Two words between which ZRANGE answers anything are read as ends. -/
theorem exists_ends {scores : Table Datum Datum} (h : s.Holds now key .zset .empty scores)
    {first last : Octets} {options : List Octets} {plan : RangePlan}
    (hPlan : RangePlan.read {} options = .ok plan) (hBy : plan.goesBy ≠ .index) {reply : Datum}
    (hReply : (zrange now key first last options s).1 = .ok reply) :
    ∃ (ends : EndPair) (low high : Octets), ends.goesBy = plan.goesBy ∧ ends.ReadFrom low high ∧
      (first, last) = inDirection plan.reverse low high := by
  obtain ⟨members, hSelect⟩ : ∃ members, plan.select scores first last = .ok members := by
    cases hSelect : plan.select scores first last with
    | ok members => exact ⟨members, rfl⟩
    | error halt =>
        have hFails := zrangeStep_eq h plan first last
        rw [hSelect] at hFails
        unfold zrange at hReply
        rw [hPlan] at hReply
        exact nomatch (congrArg Prod.fst (onKey_error hFails)).symm.trans hReply
  obtain ⟨row, -, hAfter⟩ := ok_of_bind hSelect
  obtain ⟨chosen, hBetween, -⟩ := ok_of_bind hAfter
  obtain ⟨ends, hGoesBy, hRead⟩ := EndPair.exists_of_between hBy hBetween
  refine ⟨ends, _, _, hGoesBy, hRead, ?_⟩
  have hOrdered : (plan.goesBy != .index) = true := by simpa using hBy
  unfold inDirection
  rw [hOrdered]
  cases plan.reverse <;> rfl

end Between

/-- The ranges of ZRANGE by score and by member, on any store. Where a key holds a sorted set
without NaN, and two words are read as ends:

* Forwards the members between the ends are answered in rising order of score and member, none if
  the ends have changed places.
* Backwards the same members are answered, in the same order backwards.
* A limit leaves so many members from the offset on; with a negative count, all.
* The pages of a size make up the range. No page is empty, and the one behind the last is. -/
theorem ranges_between_ends {now : Float} {s : Store} {key low high : Octets} {ends : EndPair}
    {scores : Table Datum Datum} (hScores : s.Holds now key .zset .empty scores)
    (hApart : scores.Distinct) (hPlain : scores.entries.all Scored.isPlain = true)
    (hRead : ends.ReadFrom low high) :
    ∃ chosen : List Scored, chosen.Perm (scores.entries.filter ends.admits) ∧
      (chosen.Pairwise fun m n => Scored.isBefore m n = true) ∧
      (ends.areCrossed = true → chosen = []) ∧
      ∀ reverse : Bool, ∃ row : List Datum,
        row = (if reverse then (chosen.map (·.1)).reverse else chosen.map (·.1)) ∧
        s.AnswersBetween now key low high ends reverse none row ∧
        (∀ offset n : Nat, s.AnswersBetween now key low high ends reverse (some (offset, n))
          ((row.drop offset).take n)) ∧
        (∀ (offset : Nat) (n : Int), n < 0 →
          s.AnswersBetween now key low high ends reverse (some (offset, n)) (row.drop offset)) ∧
        ∀ size : Nat, 0 < size → ∃ pages : List (List Datum), pages.flatten = row ∧
          (∀ page ∈ pages, page ≠ []) ∧
          (∀ (k : Nat) (hk : k < pages.length), s.AnswersBetween now key low high ends reverse
            (some ((k * size : Nat), size)) pages[k]) ∧
          s.AnswersBetween now key low high ends reverse
            (some ((pages.length * size : Nat), size)) [] := by
  obtain ⟨ordered, hRanked⟩ := exists_ranked hPlain
  have hAnswers := answersBetween hScores hRanked hPlain hRead
  refine ⟨ordered.filter ends.admits, (ranked_perm hRanked).filter _,
    (ranked_plain hRanked hPlain hApart).filter _, ?_, fun reverse => ?_⟩
  · intro hCrossed
    refine List.filter_eq_nil_iff.2 fun m _ => ?_
    simp [EndPair.admits_of_areCrossed hCrossed m]
  · obtain ⟨row, hRow⟩ : ∃ row, rowBetween ordered ends reverse = row := ⟨_, rfl⟩
    have hAnswers := hAnswers reverse
    rw [hRow] at hAnswers
    have hCount (offset n : Nat) : s.AnswersBetween now key low high ends reverse
        (some (offset, n)) ((row.drop offset).take n) :=
      limited_count row offset n ▸ hAnswers (some (offset, n))
    refine ⟨row, ?_, hAnswers none, hCount, ?_, fun size hSize => ?_⟩
    · rw [← hRow, ← List.map_reverse, ← apply_ite (List.map _)]
      rfl
    · intro offset n hn
      exact limited_rest row offset hn ▸ hAnswers (some (offset, n))
    · refine ⟨pages row size, flatten_pages row hSize, fun page => pages_ne_nil row hSize, ?_, ?_⟩
      · intro k hk
        rw [getElem_pages row hk]
        exact hCount (k * size) size
      · have hBehind := hCount ((pages row size).length * size) size
        rwa [List.drop_of_length_le (length_le_pages row hSize), List.take_nil] at hBehind

/-- The members of a sorted set whose score is greater than one half. -/
theorem ranges_between_ends_one :
    let scores : Table Datum Datum :=
      .ofList [(.octets [97], .real 0.5), (.octets [109], .real 1.5)]
    let s := single [([122], { value := .zset scores })]
    (run 0.0 ⟨.zrange, [.text "z", .text "(0.5", .text "+inf", .text "BYSCORE"]⟩ s).1 =
      .ok (.list [.octets [109]]) := by
  intro scores s
  have hScores : s.Holds 0.0 [122] .zset .empty scores := .inl ⟨_, rfl, rfl⟩
  have hApart : scores.Distinct := by
    unfold Table.Distinct
    decide +kernel
  have hPlain : scores.entries.all Scored.isPlain = true := by decide +kernel
  have hLow : ScoreEnd.read (Octets.ofText "(0.5") = .ok ⟨0.5, true⟩ := by
    have hReal : Number.real? (Octets.ofText "0.5") = some 0.5 := by decide +kernel
    show (readReal (Octets.ofText "0.5") >>= fun x => .ok (ScoreEnd.mk x true)) = _
    unfold readReal
    rw [hReal]
    rfl
  have hHigh : ScoreEnd.read (Octets.ofText "+inf") = .ok ⟨Unbounded.above.infinity, false⟩ :=
    Bound.read_ofAllScores .above
  have hRead : (EndPair.scores ⟨0.5, true⟩ ⟨Unbounded.above.infinity, false⟩).ReadFrom
      (Octets.ofText "(0.5") (Octets.ofText "+inf") := ⟨hLow, hHigh⟩
  obtain ⟨chosen, hPerm, -, -, hRanges⟩ := ranges_between_ends hScores hApart hPlain hRead
  have hOne : scores.entries.filter
      (EndPair.scores ⟨0.5, true⟩ ⟨Unbounded.above.infinity, false⟩).admits =
        [(.octets [109], .real 1.5)] := by decide +kernel
  rw [hOne, List.perm_singleton] at hPerm
  obtain ⟨row, rfl, hAll, -⟩ := hRanges false
  rw [hAll _ _ _ [Octets.ofText "BYSCORE"] rfl rfl rfl, hPerm]
  rfl

end Store

end BatchStore
