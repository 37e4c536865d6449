import BatchStore.Proofs.Store.Pipeline
import BatchStore.Proofs.Store.Ranked
import BatchStore.Proofs.Store.Restored

/-!
# Ranges by place

LRANGE and, unless it is told otherwise, ZRANGE answer the elements between two places. A negative
index counts back from the end of the row (`Lists.counted`), and a first place in front of the row
is the first of the row.

A last place in front of the row should leave nothing. But a range is cut out of the row by two
places, the second excluded, and these may be negative too. The first is kept from being so and the
last is not. So a last place at least two in front of the row is counted back from the end once more
(`Lists.wrapped`), and the range that should be empty takes in the front of the row
(`lrange_wraps`).

With this the ranges are as they should be: `Lists.range_eq` says of any row and any two indices
which places are answered. What is a row differs. A list is one as it stands, and a sorted set is
one in its ranking, backwards if it is asked for in reverse (`ranges_by_place`).
-/

namespace BatchStore

namespace Lists

variable {α : Type}

/-- The place that an index stands for in a row of `n`. -/
def counted (n : Nat) (i : Int) : Int := if i < 0 then n + i else i

/-- The last place of a range in a row of `n`: further in front of the row than one place, it is
counted back from the end again. -/
def wrapped (n : Nat) (i : Int) : Int :=
  if counted n i < -1 then n + counted n i else counted n i

/-- The elements at the places from one to another. -/
def atPlaces (xs : List α) (first last : Int) : List α :=
  (xs.zipIdx.filter fun e => decide (first ≤ e.2 ∧ e.2 ≤ last)).map Prod.fst

/-- The part of a row between two places, by the places themselves. -/
theorem drop_take_eq (xs : List α) (k i j : Nat) :
    (xs.take j).drop i =
      ((xs.zipIdx k).filter fun e => decide (i + k ≤ e.2 ∧ e.2 < j + k)).map Prod.fst := by
  induction xs generalizing k i j with
  | nil => simp
  | cons x xs ih =>
      have hBehind (e : α × Nat) (he : e ∈ xs.zipIdx (k + 1)) : k + 1 ≤ e.2 :=
        List.le_snd_of_mem_zipIdx he
      rcases j with _ | j
      · have hNone : ((x :: xs).zipIdx k).filter (fun e => decide (i + k ≤ e.2 ∧ e.2 < 0 + k)) =
            [] := by
          refine List.filter_eq_nil_iff.2 fun e he => ?_
          have := List.le_snd_of_mem_zipIdx he
          simp only [decide_eq_true_eq]
          omega
        rw [hNone, List.take_zero, List.drop_nil, List.map_nil]
      · rw [List.zipIdx_cons, List.filter_cons, List.take_succ_cons]
        rcases i with _ | i
        · rw [if_pos (by simp), List.map_cons, List.drop_zero, ← List.drop_zero (l := xs.take j),
            ih (k + 1) 0 j]
          refine congrArg (x :: List.map Prod.fst ·) (List.filter_congr fun e he => ?_)
          have := hBehind e he
          simp only [decide_eq_decide]
          omega
        · rw [if_neg (by simp), List.drop_succ_cons, ih (k + 1) i j]
          refine congrArg (List.map Prod.fst) (List.filter_congr fun e _ => ?_)
          simp only [decide_eq_decide]
          omega

/-- The first place is kept from falling in front of the row. -/
theorem place_first_le {n p : Nat} (hp : p < n) (first : Int) :
    place n (if first < 0 then max (n + first) 0 else first) ≤ p ↔
      max (counted n first) 0 ≤ (p : Int) := by
  unfold place counted
  split_ifs <;> omega

/-- The last place is not: as the end of a window it may be negative, and is counted back. -/
theorem lt_place_last {n p : Nat} (hp : p < n) (last : Int) :
    p < place n (min (if last < 0 then n + last else last) (n - 1) + 1) ↔
      (p : Int) ≤ min (wrapped n last) (n - 1) := by
  unfold place wrapped counted
  split_ifs <;> omega

/-- What a range answers of a row, by the two indices. -/
def inRange (xs : List α) (first last : Int) : List α :=
  atPlaces xs (max (counted xs.length first) 0) (min (wrapped xs.length last) (xs.length - 1))

/-- A range takes the places from the first on, or from the front of the row on, to the last, or to
the end of the row. -/
theorem range_eq (xs : List α) (first last : Int) :
    range xs first last = inRange xs first last := by
  unfold range window inRange atPlaces
  dsimp only
  rw [drop_take_eq xs 0]
  refine congrArg (List.map Prod.fst) (List.filter_congr fun e he => decide_eq_decide.2 ?_)
  have hInside : e.2 < xs.length := by
    have := List.snd_lt_add_of_mem_zipIdx he
    omega
  exact and_congr (place_first_le hInside first) (lt_place_last hInside last)

/-- Unless the last place is further in front of the row than one place, a range ends there. -/
theorem wrapped_eq {n : Nat} {i : Int} (h : -1 ≤ counted n i) : wrapped n i = counted n i := by
  unfold wrapped
  rw [if_neg (by omega)]

end Lists

namespace Store

/-- A key holds a value of some kind, made of `parts`; a missing key stands for `nothing`. -/
def Holds {ρ : Type} (s : Store) (now : Float) (key : Octets) (kind : ρ → Value)
    (nothing parts : ρ) : Prop :=
  (∃ e, s.live? now s.selected key = some e ∧ e.value = kind parts) ∨
    s.live? now s.selected key = none ∧ parts = nothing

section Ranges

variable {now : Float} {s : Store} {key first last : Octets} {a b : Int}

theorem Holds.expect_eq {ρ : Type} {kind : ρ → Value} {nothing parts : ρ}
    (h : s.Holds now key kind nothing parts) (kind? : Value → Option ρ)
    (hKind : ∀ parts, kind? (kind parts) = some parts) :
    ∃ parts?, expect kind? (s.live? now s.selected key) = .ok parts? ∧
      parts?.getD nothing = parts := by
  rcases h with ⟨e, hLive, hValue⟩ | ⟨hLive, rfl⟩
  · refine ⟨some parts, ?_, rfl⟩
    unfold expect
    rw [hLive]
    dsimp only
    rw [hValue, hKind]
  · refine ⟨none, ?_, rfl⟩
    rw [hLive]
    rfl

/-- LRANGE answers the range of the list. -/
theorem lrange_reply {items : List Datum} (h : s.Holds now key .list [] items)
    (hFirst : Number.int? first = some a) (hLast : Number.int? last = some b) :
    (onKey now key (Lists.lrange first last) s).1 = .ok (.list (Lists.inRange items a b)) := by
  obtain ⟨items?, hExpect, hItems⟩ := h.expect_eq Value.list? fun _ => rfl
  have hStep : Lists.lrange first last (s.live? now s.selected key) =
      .ok (.list (Lists.inRange items a b), s.live? now s.selected key) := by
    unfold Lists.lrange
    rw [hExpect, readInt_of_int? hFirst, readInt_of_int? hLast, ← hItems, ← Lists.range_eq]
    rfl
  exact congrArg Prod.fst (onKey_ok hStep)

/-- ZRANGE does nothing but select members of the sorted set. -/
theorem zrangeStep_eq {scores : Table Datum Datum} (h : s.Holds now key .zset .empty scores)
    (plan : SortedSets.RangePlan) (first last : Octets) :
    SortedSets.zrangeStep plan first last (s.live? now s.selected key) =
      (plan.select scores first last).map fun members =>
        (.list members, s.live? now s.selected key) := by
  obtain ⟨scores?, hExpect, rfl⟩ := h.expect_eq Value.zset? fun _ => rfl
  unfold SortedSets.zrangeStep SortedSets.scoresAt
  rw [hExpect]
  rfl

/-- ZRANGE answers the members that its plan selects from the sorted set. -/
theorem zrange_select {scores : Table Datum Datum} {options : List Octets}
    {plan : SortedSets.RangePlan} {members : List Datum} (h : s.Holds now key .zset .empty scores)
    (hPlan : SortedSets.RangePlan.read {} options = .ok plan)
    (hSelect : plan.select scores first last = .ok members) :
    (SortedSets.zrange now key first last options s).1 = .ok (.list members) := by
  have hStep := zrangeStep_eq h plan first last
  rw [hSelect] at hStep
  unfold SortedSets.zrange
  rw [hPlan]
  exact congrArg Prod.fst (onKey_ok hStep)

/-- ZRANGE by place answers the members in the range of the ranking. -/
theorem zrange_reply {scores : Table Datum Datum} {ordered : List Scored} {options : List Octets}
    {plan : SortedSets.RangePlan} (h : s.Holds now key .zset .empty scores)
    (hRanked : ranked scores.entries = .ok ordered)
    (hPlan : SortedSets.RangePlan.read {} options = .ok plan) (hIndex : plan.goesBy = .index)
    (hLimit : plan.limit? = none) (hFirst : Number.int? first = some a)
    (hLast : Number.int? last = some b) :
    (SortedSets.zrange now key first last options s).1 =
      .ok (.list ((Lists.inRange (if plan.reverse then ordered.reverse else ordered) a b).map
        (·.1))) := by
  obtain ⟨goesBy, reverse, limit?⟩ := plan
  obtain rfl : goesBy = .index := hIndex
  obtain rfl : limit? = none := hLimit
  refine zrange_select h hPlan ?_
  unfold SortedSets.RangePlan.select
  rw [SortedSets.inOrder_of_ranked hRanked]
  cases reverse <;>
    · show (SortedSets.between _ _ first last >>= _) = _
      unfold SortedSets.between
      rw [readInt_of_int? hFirst, readInt_of_int? hLast, ← Lists.range_eq]
      rfl

end Ranges

/-- The ranges of LRANGE, and of ZRANGE by place, on any store.

* LRANGE answers the elements of the list in the range.
* ZRANGE answers the members in the range of the ranking, or of the ranking backwards. All members
  are in the ranking, by score and member if no score is NaN.
* A sorted set of doubles has a ranking.
* A range ends at the place that its last index stands for, unless that is further in front of the
  row than one place. -/
theorem ranges_by_place (now : Float) (s : Store) (key : Octets) :
    (∀ items, s.Holds now key .list [] items →
      ∀ (c : Command) (first last : Octets) (a b : Int),
        c.request? = some (.lrange, [key, first, last]) →
        Number.int? first = some a → Number.int? last = some b →
        (run now c s).1 = .ok (.list (Lists.inRange items a b))) ∧
    (∀ scores, s.Holds now key .zset .empty scores → scores.Distinct →
      ∀ ordered, ranked scores.entries = .ok ordered →
        ordered.Perm scores.entries ∧
        (scores.entries.all Scored.isPlain = true →
          ordered.Pairwise fun m n => Scored.isBefore m n = true) ∧
        ∀ (c : Command) (first last : Octets) (options : List Octets)
          (plan : SortedSets.RangePlan) (a b : Int),
          c.request? = some (.zrange, key :: first :: last :: options) →
          SortedSets.RangePlan.read {} options = .ok plan → plan.goesBy = .index →
          plan.limit? = none → Number.int? first = some a → Number.int? last = some b →
          (run now c s).1 = .ok (.list ((Lists.inRange
            (if plan.reverse then ordered.reverse else ordered) a b).map (·.1)))) ∧
    (∀ scores, (Value.zset scores).Typed → ∃ ordered, ranked scores.entries = .ok ordered) ∧
    ∀ (n : Nat) (i : Int), -1 ≤ Lists.counted n i → Lists.wrapped n i = Lists.counted n i := by
  refine ⟨?_, ?_, fun scores hTyped => ranked_typed hTyped, fun n i => Lists.wrapped_eq⟩
  · intro items hItems c first last a b hRequest hFirst hLast
    rw [run_of_request? hRequest]
    exact lrange_reply hItems hFirst hLast
  · intro scores hScores hApart ordered hRanked
    refine ⟨ranked_perm hRanked, fun hPlain => ranked_plain hRanked hPlain hApart, ?_⟩
    intro c first last options plan a b hRequest hPlan hIndex hLimit hFirst hLast
    have hMany : 3 ≤ options.length + 1 + 1 + 1 := by omega
    rw [run_of_open hRequest rfl hMany]
    exact zrange_reply hScores hRanked hPlan hIndex hLimit hFirst hLast

/-- The last two elements of a list, and the last member of a sorted set. -/
theorem ranges_by_place_ends :
    let items : List Datum := [.octets [97], .octets [98], .octets [99]]
    let scores : Table Datum Datum :=
      .ofList [(.octets [109], .real 1.5), (.octets [97], .real 0.5)]
    let s := single [([107], { value := .list items }), ([122], { value := .zset scores })]
    (run 0.0 ⟨.lrange, [.text "k", .text "-2", .text "9"]⟩ s).1 =
        .ok (.list [.octets [98], .octets [99]]) ∧
      ∃ ordered : List Scored, ordered.Perm scores.entries ∧
        (run 0.0 ⟨.zrange, [.text "z", .text "0", .text "0", .text "REV"]⟩ s).1 =
          .ok (.list ((Lists.inRange ordered.reverse 0 0).map (·.1))) := by
  intro items scores s
  have hItems : s.Holds 0.0 [107] .list [] items := .inl ⟨_, rfl, rfl⟩
  have hScores : s.Holds 0.0 [122] .zset .empty scores := .inl ⟨_, rfl, rfl⟩
  have hTyped : (Value.zset scores).Typed := by
    refine Table.Each.putAll Table.each_empty (List.forall_mem_cons.2 ⟨?_, ?_⟩)
    · exact ⟨Datum.isOctets_octets _, Datum.isReal_real _⟩
    · exact List.forall_mem_singleton.2 ⟨Datum.isOctets_octets _, Datum.isReal_real _⟩
  have hApart : scores.Distinct := by
    unfold Table.Distinct
    decide +kernel
  have hFront : Number.int? (Octets.ofText "0") = some 0 := by decide +kernel
  have hBack : Number.int? (Octets.ofText "-2") = some (-2) := by decide +kernel
  have hFar : Number.int? (Octets.ofText "9") = some 9 := by decide +kernel
  have hPart : Lists.inRange items (-2) 9 = [.octets [98], .octets [99]] := by decide +kernel
  constructor
  · rw [← hPart]
    exact (ranges_by_place 0.0 s [107]).1 items hItems _ _ _ _ _ rfl hBack hFar
  · obtain ⟨-, hRange, hRanking, -⟩ := ranges_by_place 0.0 s [122]
    obtain ⟨ordered, hRanked⟩ := hRanking scores hTyped
    obtain ⟨hPerm, -, hReply⟩ := hRange scores hScores hApart ordered hRanked
    exact ⟨ordered, hPerm,
      hReply _ _ _ [Octets.ofText "REV"] { reverse := true } 0 0 rfl rfl rfl rfl hFront hFront⟩

/-- A range that ends two places in front of a list is not empty. -/
theorem lrange_wraps :
    let items : List Datum := [.octets [97], .octets [98], .octets [99]]
    let s := single [([107], { value := .list items })]
    (run 0.0 ⟨.lrange, [.text "k", .text "0", .text "-5"]⟩ s).1 =
        .ok (.list [.octets [97], .octets [98]]) ∧
      Lists.atPlaces items (max (Lists.counted 3 0) 0) (min (Lists.counted 3 (-5)) (3 - 1)) =
        [] := by
  decide +kernel

end Store

end BatchStore
