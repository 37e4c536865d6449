import BatchStore.Proofs.Number.Order
import BatchStore.Proofs.Sorting
import BatchStore.Proofs.Store.WellFormed

/-!
# The ranking of a sorted set

A ranking of a sorted set has all its members (`ranked_perm`). Where the members are octets and the
scores doubles there is one (`ranked_typed`), and where no score is NaN it goes by score, and
members with one score go by their octets (`ranked_plain`).

That order is total on plain members, though `Scored.isBefore` is defined on all. So what is known
of a sort by a total order is brought to the plain members as a type of their own
(`pairwise_mergeSort_of`). With NaN among the scores the comparison is no order, and the ranking is
what the steps of `Sorting.sort` lead to.
-/

namespace BatchStore

/-- A sort by a comparison that is an order on the elements of a row puts them in this order. -/
theorem pairwise_mergeSort_of {α : Type} {le : α → α → Bool} {good : α → Prop}
    (hTrans : ∀ a b c, good a → good b → good c → le a b = true → le b c = true → le a c = true)
    (hTotal : ∀ a b, good a → good b → (le a b || le b a) = true) {xs : List α}
    (hGood : ∀ x ∈ xs, good x) : (xs.mergeSort le).Pairwise fun a b => le a b = true := by
  let among (a b : {x // good x}) : Bool := le a.1 b.1
  have hTransAmong (a b c : {x // good x}) : among a b = true → among b c = true →
      among a c = true := hTrans a.1 b.1 c.1 a.2 b.2 c.2
  have hTotalAmong (a b : {x // good x}) : (among a b || among b a) = true :=
    hTotal a.1 b.1 a.2 b.2
  have hSorted := List.pairwise_mergeSort hTransAmong hTotalAmong (xs.attachWith good hGood)
  have hSame : ((xs.attachWith good hGood).mergeSort among).map Subtype.val = xs.mergeSort le := by
    rw [List.map_mergeSort (s := le) fun a _ b _ => rfl, List.attachWith_map_subtype_val]
  rw [← hSame, List.pairwise_map]
  exact hSorted

namespace Scored

open Number

/-! ## Plain members -/

/-- A plain member is octets with a score that has a rank. -/
theorem exists_of_isPlain {m : Scored} (h : m.isPlain = true) :
    ∃ v x rank, m = (.octets v, .real x) ∧ rank? x = some rank := by
  unfold isPlain at h
  split at h
  · rename_i v x
    obtain ⟨rank, hRank⟩ := exists_rank (by simpa using h)
    exact ⟨v, x, rank, rfl, hRank⟩
  · cases h

/-- A plain member ranks before another by the rank of its score, and then by its octets. -/
theorem isBefore_iff {v w : Octets} {x y : Float} {a b : Int ×ₗ Int ×ₗ Int} (hx : rank? x = some a)
    (hy : rank? y = some b) :
    isBefore (.octets v, .real x) (.octets w, .real y) = true ↔ a < b ∨ a = b ∧ v < w := by
  have hLess : x < y ↔ a < b := by
    rw [lt_iff_rank, hx, hy]
    simp
  have hSame : (x == y) = true ↔ a = b := by
    rw [beq_iff_rank, hx, hy]
    simp [eq_comm]
  unfold isBefore
  rw [Bool.or_eq_true, Bool.and_eq_true, decide_eq_true_iff, decide_eq_true_iff, hLess, hSame]

/-- The other way round, a plain member does not rank behind another. -/
theorem not_isBefore_iff {v w : Octets} {x y : Float} {a b : Int ×ₗ Int ×ₗ Int}
    (hx : rank? x = some a) (hy : rank? y = some b) :
    (!isBefore (.octets w, .real y) (.octets v, .real x)) = true ↔ a < b ∨ a = b ∧ v ≤ w := by
  rw [Bool.not_eq_true', ← Bool.not_eq_true, isBefore_iff hy hx, ← List.not_lt]
  rcases lt_trichotomy a b with h | h | h
  · simp [h, h.not_gt, h.ne']
  · simp [h]
  · simp [h, h.not_gt, h.ne']

theorem not_isBefore_trans {a b c : Scored} (ha : a.isPlain = true) (hb : b.isPlain = true)
    (hc : c.isPlain = true) (hab : (!isBefore b a) = true) (hbc : (!isBefore c b) = true) :
    (!isBefore c a) = true := by
  obtain ⟨u, x, rx, rfl, hx⟩ := exists_of_isPlain ha
  obtain ⟨v, y, ry, rfl, hy⟩ := exists_of_isPlain hb
  obtain ⟨w, z, rz, rfl, hz⟩ := exists_of_isPlain hc
  rw [not_isBefore_iff hx hy] at hab
  rw [not_isBefore_iff hy hz] at hbc
  rw [not_isBefore_iff hx hz]
  rcases hab with hab | ⟨rfl, huv⟩ <;> rcases hbc with hbc | ⟨rfl, hvw⟩
  · exact .inl (lt_trans hab hbc)
  · exact .inl hab
  · exact .inl hbc
  · exact .inr ⟨rfl, List.le_trans huv hvw⟩

theorem not_isBefore_total {a b : Scored} (ha : a.isPlain = true) (hb : b.isPlain = true) :
    (!isBefore b a || !isBefore a b) = true := by
  obtain ⟨v, x, rx, rfl, hx⟩ := exists_of_isPlain ha
  obtain ⟨w, y, ry, rfl, hy⟩ := exists_of_isPlain hb
  rw [Bool.or_eq_true, not_isBefore_iff hx hy, not_isBefore_iff hy hx]
  rcases lt_trichotomy rx ry with h | rfl | h
  · exact .inl (.inl h)
  · exact (List.le_total v w).imp (fun h => .inr ⟨rfl, h⟩) fun h => .inr ⟨rfl, h⟩
  · exact .inr (.inl h)

/-- Of two different plain members, one that does not rank behind the other ranks before it. -/
theorem isBefore_of_ne {a b : Scored} (ha : a.isPlain = true) (hb : b.isPlain = true)
    (hab : (!isBefore b a) = true) (hNe : a.1 ≠ b.1) : isBefore a b = true := by
  obtain ⟨v, x, rx, rfl, hx⟩ := exists_of_isPlain ha
  obtain ⟨w, y, ry, rfl, hy⟩ := exists_of_isPlain hb
  rw [not_isBefore_iff hx hy] at hab
  rw [isBefore_iff hx hy]
  refine hab.imp_right fun ⟨hRank, hLe⟩ => ⟨hRank, List.not_le.1 fun hBack => hNe ?_⟩
  exact congrArg Datum.octets (List.le_antisymm hLe hBack)

/-! ## Rankings -/

/-- Members that are octets with doubles for scores can be compared. -/
theorem before_answers (safe : Prop) :
    Sorting.Answers safe (fun e : Scored => e.1.IsOctets ∧ e.2.IsReal) before := by
  rintro ⟨_, _⟩ ⟨_, _⟩ ⟨⟨v, rfl⟩, x, rfl⟩ ⟨⟨w, rfl⟩, y, rfl⟩
  unfold before
  split
  · exact .ok trivial
  · exact .ok trivial

end Scored

/-- All members are in a ranking. -/
theorem ranked_perm {members ordered : List Scored} (h : ranked members = .ok ordered) :
    ordered.Perm members := by
  unfold ranked at h
  split at h
  · cases h
    exact List.mergeSort_perm members _
  · have hAny : Sorting.Answers False (fun _ : Scored => True) Scored.before :=
      fun _ _ _ _ => ⟨fun _ _ => trivial, False.elim⟩
    exact (Sorting.sort_gives hAny fun _ _ => trivial).result ordered h

/-- A sorted set of doubles can be ranked. -/
theorem ranked_typed {members : List Scored}
    (hTyped : ∀ e ∈ members, e.1.IsOctets ∧ e.2.IsReal) :
    ∃ ordered, ranked members = .ok ordered := by
  unfold ranked
  split
  · exact ⟨_, rfl⟩
  · exact (Sorting.sort_gives (Scored.before_answers True) hTyped).total trivial

/-- Members of which none has the score NaN are ranked by score and member. -/
theorem ranked_plain {members ordered : List Scored} (h : ranked members = .ok ordered)
    (hPlain : members.all Scored.isPlain = true) (hApart : (members.map (·.1)).Nodup) :
    ordered.Pairwise fun a b => Scored.isBefore a b = true := by
  have hPerm := ranked_perm h
  have hEach : ∀ m ∈ members, m.isPlain = true := List.all_eq_true.1 hPlain
  have hSorted : ordered.Pairwise fun a b => (!Scored.isBefore b a) = true := by
    unfold ranked at h
    rw [if_pos hPlain] at h
    cases h
    refine pairwise_mergeSort_of ?_ ?_ hEach
    · exact fun a b c => Scored.not_isBefore_trans
    · exact fun a b => Scored.not_isBefore_total
  have hOther := List.pairwise_map.1 ((hPerm.map (·.1)).nodup_iff.2 hApart)
  refine (hSorted.and hOther).imp_of_mem fun {a b} ha hb h => ?_
  exact Scored.isBefore_of_ne (hEach a (hPerm.mem_iff.1 ha)) (hEach b (hPerm.mem_iff.1 hb)) h.1 h.2

/-- Plain members have a ranking. -/
theorem exists_ranked {members : List Scored} (hPlain : members.all Scored.isPlain = true) :
    ∃ ordered, ranked members = .ok ordered :=
  ⟨_, if_pos hPlain⟩

namespace SortedSets

theorem inOrder_of_ranked {scores : Table Datum Datum} {ordered : List Scored}
    (h : ranked scores.entries = .ok ordered) : inOrder scores = .ok ordered := by
  unfold inOrder
  rw [h]
  rfl

end SortedSets

end BatchStore
