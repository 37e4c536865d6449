import Mathlib.Algebra.Order.Group.Multiset
import Mathlib.Tactic.Abel
import BatchStore.Sorting

/-!
# Sorting neither loses an element nor breaks down by itself

`Sorting.sort` takes any question for a comparison, and which arrangement it comes to is a matter of
its steps. Whatever it comes to holds the elements of the row, each as often as it is there. And it
comes to something if the question can be answered of any two elements of the row (`sort_gives`).

Every step moves elements between a few lists: a run and what stands behind it, two runs and what
has been merged of them, the pending runs and the rest of the row. So each is described by what all
the lists hold together, as a multiset, and the steps are put together by `Gives.bind`. The searches
among them decide how many elements are moved. That is of no consequence here.
-/

namespace BatchStore.Sorting

variable {α β γ ε : Type} {safe : Prop}

/-! ## Results -/

/-- A result is as told, and on the safe side there is one. -/
structure Gives (safe : Prop) (good : β → Prop) (x : Except ε β) : Prop where
  result : ∀ b, x = .ok b → good b
  total : safe → ∃ b, x = .ok b

namespace Gives

variable {good : β → Prop} {goal : γ → Prop}

theorem ok {b : β} (h : good b) : Gives safe good (.ok b : Except ε β) where
  result := by
    intro b' hOk
    cases hOk
    exact h
  total := fun _ => ⟨b, rfl⟩

/-- What the first result is known to be is at hand when the second is followed. -/
theorem bind {x : Except ε β} {f : β → Except ε γ} (hx : Gives safe good x)
    (hf : ∀ b, good b → Gives safe goal (f b)) : Gives safe goal (x >>= f) := by
  cases x with
  | error e =>
      refine ⟨fun _ hNever => (nomatch hNever), fun hSafe => ?_⟩
      obtain ⟨b, hOk⟩ := hx.total hSafe
      cases hOk
  | ok b => exact hf b (hx.result b rfl)

theorem imp {wish : β → Prop} {x : Except ε β} (hx : Gives safe good x)
    (h : ∀ b, good b → wish b) : Gives safe wish x :=
  ⟨fun b hb => h b (hx.result b hb), hx.total⟩

end Gives

/-- On the safe side, a test can be made of the elements of a row. -/
def Decides (safe : Prop) (test : α → Except ε Bool) (xs : List α) : Prop :=
  ∀ x ∈ xs, Gives safe (fun _ => True) (test x)

/-- On the safe side, a question can be answered of any two good elements. -/
def Answers (safe : Prop) (good : α → Prop) (before : Before ε α) : Prop :=
  ∀ a b, good a → good b → Gives safe (fun _ => True) (before a b)

theorem gives_fails {test : Except ε Bool} (h : Gives safe (fun _ => True) test) :
    Gives safe (fun _ => True) (fails test) := by
  refine ⟨fun _ _ => trivial, fun hSafe => ?_⟩
  obtain ⟨b, rfl⟩ := h.total hSafe
  exact ⟨!b, rfl⟩

/-! ## Searches -/

section Searches

variable {test : α → Except ε Bool} {xs : List α}

/-- Halving comes to an answer if the test does, and moves no element. -/
theorem halve_gives (hTest : Decides safe test xs) (side : Side) (fuel low high : Nat) :
    Gives safe (fun _ => True) (halve side test xs fuel low high) := by
  induction fuel generalizing low high with
  | zero => exact .ok trivial
  | succ fuel ih =>
      unfold halve
      split
      · exact .ok trivial
      · dsimp only
        split
        · exact .ok trivial
        · rename_i x hx
          refine (hTest x (List.mem_of_getElem? hx)).bind fun passes _ => ?_
          cases passes with
          | true => exact ih _ _
          | false => exact ih _ _

/-- Leaping comes to an answer if the test does, and moves no element. -/
theorem leap_gives (hTest : Decides safe test xs) (fuel passed next : Nat) :
    Gives safe (fun _ => True) (leap test xs fuel passed next) := by
  induction fuel generalizing passed next with
  | zero => exact .ok trivial
  | succ fuel ih =>
      unfold leap
      split
      · exact .ok trivial
      · rename_i x hx
        refine (hTest x (List.mem_of_getElem? hx)).bind fun passes _ => ?_
        cases passes with
        | true => exact ih _ _
        | false => exact .ok trivial

/-- How many elements lead is decided by testing elements of the row alone. -/
theorem leading_gives (hTest : Decides safe test xs) (side : Side) :
    Gives safe (fun _ => True) (leading side test xs) := by
  unfold leading
  split
  · exact .ok trivial
  · rename_i x rest
    refine (hTest x List.mem_cons_self).bind fun passes _ => ?_
    cases passes with
    | true => exact (leap_gives hTest _ _ _).bind fun p _ => halve_gives hTest side _ _ _
    | false => exact .ok trivial

end Searches

section Steps

variable {good : α → Prop} {before : Before ε α}

/-! ## Runs -/

/-- A run and what stands behind it are the row, cut in two. -/
theorem spanRun_gives (hBefore : Answers safe good before) (falling : Bool) {last : α}
    (hLast : good last) {xs : List α} (hGood : ∀ x ∈ xs, good x) :
    Gives safe (fun r => r.1 ++ r.2 = xs) (spanRun before falling last xs) := by
  induction xs generalizing last with
  | nil => exact .ok rfl
  | cons x xs ih =>
      have hFirst := hGood x List.mem_cons_self
      refine (hBefore x last hFirst hLast).bind fun falls _ => ?_
      split
      · refine (ih hFirst fun y hy => hGood y (List.mem_cons_of_mem x hy)).bind fun r hr => ?_
        exact .ok (congrArg (x :: ·) hr)
      · exact .ok rfl

/-- A run is split off a row, and what is left is shorter. -/
def SplitsOff (xs : List α) (r : List α × List α) : Prop :=
  (r.1 : Multiset α) + r.2 = xs ∧ (xs ≠ [] → r.2.length < xs.length)

theorem SplitsOff.each {xs : List α} {r : List α × List α} (h : SplitsOff xs r)
    (hGood : ∀ x ∈ xs, good x) : (∀ x ∈ r.1, good x) ∧ ∀ x ∈ r.2, good x := by
  have hMem (x : α) : x ∈ xs ↔ x ∈ r.1 ∨ x ∈ r.2 := by
    rw [← Multiset.mem_coe, ← h.1, Multiset.mem_add, Multiset.mem_coe, Multiset.mem_coe]
  exact ⟨fun x hx => hGood x ((hMem x).2 (.inl hx)), fun x hx => hGood x ((hMem x).2 (.inr hx))⟩

/-- A run split off a row is its first elements, perhaps the other way round. -/
theorem takeRun_gives (hBefore : Answers safe good before) {xs : List α}
    (hGood : ∀ x ∈ xs, good x) :
    Gives safe (SplitsOff xs) (takeRun before xs) := by
  unfold takeRun
  split
  · rename_i x y rest
    have hx := hGood x List.mem_cons_self
    have hy := hGood y (by simp)
    have hRest : ∀ z ∈ rest, good z := fun z hz => hGood z (by simp [hz])
    refine (hBefore y x hy hx).bind fun falling _ => ?_
    refine (spanRun_gives hBefore falling hy hRest).bind fun r hr => .ok ⟨?_, fun _ => ?_⟩
    · have hAll : ((x :: y :: r.1 : List α) : Multiset α) + r.2 = (x :: y :: rest : List α) := by
        rw [← hr]
        rfl
      cases falling with
      | true => exact (congrArg (· + _) (Multiset.coe_reverse _)).trans hAll
      | false => exact hAll
    · rw [← hr]
      simp
      omega
  · refine .ok ⟨by simp, fun hSome => ?_⟩
    exact List.length_pos_iff.2 hSome

/-- A run lengthened by insertion holds the elements inserted. -/
theorem insertEach_gives (hBefore : Answers safe good before) {run xs : List α}
    (hRun : ∀ x ∈ run, good x) (hGood : ∀ x ∈ xs, good x) :
    Gives safe (fun r : List α => (r : Multiset α) = run + xs) (insertEach before run xs) := by
  induction xs generalizing run with
  | nil => exact .ok (by simp)
  | cons x xs ih =>
      have hx := hGood x List.mem_cons_self
      have hTest : Decides safe (fun y => fails (before x y)) run := fun y hy =>
        gives_fails (hBefore x y hx (hRun y hy))
      refine (halve_gives hTest .front _ _ _).bind fun place _ => ?_
      have hLonger : (run.take place ++ x :: run.drop place).Perm (x :: run) := by
        refine List.perm_middle.trans ?_
        rw [List.take_append_drop]
      have hLongerGood : ∀ y ∈ run.take place ++ x :: run.drop place, good y := by
        intro y hy
        rcases List.mem_cons.1 (hLonger.mem_iff.1 hy) with rfl | hOld
        · exact hx
        · exact hRun y hOld
      refine (ih hLongerGood fun y hy => hGood y (List.mem_cons_of_mem x hy)).imp
        fun r hr => hr.trans ?_
      rw [Multiset.coe_eq_coe.2 hLonger, ← Multiset.cons_coe, ← Multiset.cons_coe,
        Multiset.cons_add, Multiset.add_cons]

/-- A short run is lengthened to the least length, by elements of the row. -/
theorem takeLongRun_gives (hBefore : Answers safe good before) (least : Nat) {xs : List α}
    (hGood : ∀ x ∈ xs, good x) : Gives safe (SplitsOff xs) (takeLongRun before least xs) := by
  refine (takeRun_gives hBefore hGood).bind fun r hr => ?_
  obtain ⟨hRun, hRest⟩ := hr.each hGood
  have hTaken : ∀ x ∈ r.2.take (least - r.1.length), good x := fun x hx =>
    hRest x (List.mem_of_mem_take hx)
  refine (insertEach_gives hBefore hRun hTaken).bind fun longer hLonger => .ok ⟨?_, fun hSome => ?_⟩
  · dsimp only
    rw [hLonger, add_assoc, Multiset.coe_add, List.take_append_drop]
    exact hr.1
  · refine Nat.lt_of_le_of_lt ?_ (hr.2 hSome)
    rw [List.length_drop]
    exact Nat.sub_le _ _

/-! ## Merging -/

namespace Merge

/-- The elements that a merge holds. -/
def contents (m : Merge α) : Multiset α := m.left + m.right + m.merged

/-- Elements taken of the left run are merged, and no element is lost. -/
theorem contents_takeLeft (m : Merge α) (n : Nat) : (m.takeLeft n).contents = m.contents := by
  have hSplit : (m.left : Multiset α) = m.left.take n + m.left.drop n := by
    rw [Multiset.coe_add, List.take_append_drop]
  unfold contents takeLeft
  dsimp only
  rw [hSplit, ← Multiset.coe_add, Multiset.coe_reverse]
  abel

/-- Elements taken of the right run are merged, and no element is lost. -/
theorem contents_takeRight (m : Merge α) (n : Nat) : (m.takeRight n).contents = m.contents := by
  have hSplit : (m.right : Multiset α) = m.right.take n + m.right.drop n := by
    rw [Multiset.coe_add, List.take_append_drop]
  unfold contents takeRight
  dsimp only
  rw [hSplit, ← Multiset.coe_add, Multiset.coe_reverse]
  abel

/-- What is left of both runs goes behind what has been merged. -/
theorem contents_toList (m : Merge α) (side : Side) :
    (m.toList side : Multiset α) = m.contents := by
  cases side <;> unfold toList contents <;> dsimp only <;>
    rw [← Multiset.coe_add, ← Multiset.coe_add, Multiset.coe_reverse] <;> abel

theorem takesLeft_gives (hBefore : Answers safe good before) (side : Side) {a b : α} (ha : good a)
    (hb : good b) : Gives safe (fun _ => True) (takesLeft before side a b) := by
  cases side with
  | front => exact gives_fails (hBefore b a hb ha)
  | back => exact hBefore b a hb ha

theorem good_left {m : Merge α} {s : Multiset α} (hm : m.contents = s)
    (hGood : ∀ x ∈ s, good x) : ∀ x ∈ m.left, good x := fun x hx =>
  hGood x (hm ▸ Multiset.mem_add.2 (.inl (Multiset.mem_add.2 (.inl hx))))

theorem good_right {m : Merge α} {s : Multiset α} (hm : m.contents = s)
    (hGood : ∀ x ∈ s, good x) : ∀ x ∈ m.right, good x := fun x hx =>
  hGood x (hm ▸ Multiset.mem_add.2 (.inl (Multiset.mem_add.2 (.inr hx))))

section Contents

variable {s : Multiset α} (hBefore : Answers safe good before) (side : Side)
  (hGood : ∀ x ∈ s, good x)

include hBefore hGood

/-- Galloping moves elements of either run to those merged. -/
theorem gallop_gives {m : Merge α} (hm : m.contents = s) :
    Gives safe (fun r : Merge α × Bool => r.1.contents = s) (gallop before side m) := by
  unfold gallop
  split
  · rename_i b hb
    have hTestLeft : Decides safe (fun a => takesLeft before side a b) m.left := fun a ha =>
      takesLeft_gives hBefore side (good_left hm hGood a ha)
        (good_right hm hGood b (List.mem_of_mem_head? hb))
    refine (leading_gives hTestLeft side).bind fun fromLeft _ => ?_
    have hLeft : (m.takeLeft fromLeft).contents = s := (contents_takeLeft m fromLeft).trans hm
    dsimp only
    split
    · exact .ok hLeft
    have hOne : ((m.takeLeft fromLeft).takeRight 1).contents = s :=
      (contents_takeRight _ 1).trans hLeft
    split
    · exact .ok hOne
    split
    · rename_i a ha
      have hTestRight : Decides safe (fun b => fails (takesLeft before side a b))
          ((m.takeLeft fromLeft).takeRight 1).right := fun b hb =>
        gives_fails (takesLeft_gives hBefore side
          (good_left hOne hGood a (List.mem_of_mem_head? ha)) (good_right hOne hGood b hb))
      refine (leading_gives hTestRight side).bind fun fromRight _ => ?_
      have hRight : (((m.takeLeft fromLeft).takeRight 1).takeRight fromRight).contents = s :=
        (contents_takeRight _ fromRight).trans hOne
      split
      · exact .ok hRight
      · exact .ok ((contents_takeLeft _ 1).trans hRight)
    · exact .ok hOne
  · exact .ok hm

/-- A merge in progress keeps its elements for as long as it goes on, whatever the threshold. -/
theorem run_gives (fuel : Nat) (pace : Pace) (threshold : Nat) {m : Merge α}
    (hm : m.contents = s) :
    Gives safe (fun r : Merge α × Nat => r.1.contents = s)
      (run before side fuel pace threshold m) := by
  induction fuel generalizing pace threshold m with
  | zero => exact .ok hm
  | succ fuel ih =>
      unfold run
      split
      · exact .ok hm
      split
      · rename_i leftWins rightWins a left b right hLeft hRight
        have ha := good_left hm hGood a (by rw [hLeft]; exact List.mem_cons_self)
        have hb := good_right hm hGood b (by rw [hRight]; exact List.mem_cons_self)
        refine (takesLeft_gives hBefore side ha hb).bind fun takes _ => ?_
        cases takes with
        | true => exact ih _ _ ((contents_takeLeft m 1).trans hm)
        | false => exact ih _ _ ((contents_takeRight m 1).trans hm)
      · refine (gallop_gives hBefore side hGood hm).bind fun r hr => ?_
        dsimp only
        split
        · exact .ok hr
        split
        · exact ih _ _ hr
        · exact ih _ _ hr

end Contents

end Merge

section Pending

variable (hBefore : Answers safe good before)

include hBefore

/-- A merge of the inner parts of two runs holds the elements of both. -/
theorem mergeInner_gives (threshold : Nat) {left right : List α}
    (hGood : ∀ x ∈ (left + right : Multiset α), good x) :
    Gives safe (fun r : List α × Nat => (r.1 : Multiset α) = left + right)
      (mergeInner before threshold left right) := by
  unfold mergeInner
  dsimp only
  split
  · have hStart : (Merge.takeRight { left, right } 1).contents = (left + right : Multiset α) :=
      (Merge.contents_takeRight _ 1).trans (by simp [Merge.contents])
    refine (Merge.run_gives hBefore .front hGood _ _ _ hStart).bind fun r hr => .ok ?_
    exact (Merge.contents_toList r.1 .front).trans hr
  · have hStart : (Merge.takeLeft { left := left.reverse, right := right.reverse } 1).contents =
        (left + right : Multiset α) :=
      (Merge.contents_takeLeft _ 1).trans (by simp [Merge.contents])
    refine (Merge.run_gives hBefore .back hGood _ _ _ hStart).bind fun r hr => .ok ?_
    exact ((Multiset.coe_reverse _).trans (Merge.contents_toList r.1 .back)).trans hr

/-- A merge of two runs holds the elements of both, the ends that are in place already included. -/
theorem mergeRuns_gives (threshold : Nat) {left right : List α}
    (hGood : ∀ x ∈ (left + right : Multiset α), good x) :
    Gives safe (fun r : List α × Nat => (r.1 : Multiset α) = left + right)
      (mergeRuns before threshold left right) := by
  have hLeft : ∀ x ∈ left, good x := fun x hx => hGood x (Multiset.mem_add.2 (.inl hx))
  have hRight : ∀ x ∈ right, good x := fun x hx => hGood x (Multiset.mem_add.2 (.inr hx))
  unfold mergeRuns
  split
  · rename_i first hFirst
    have hFirstGood := hRight first (List.mem_of_mem_head? hFirst)
    have hTestLeft : Decides safe (fun a => fails (before first a)) left := fun a ha =>
      gives_fails (hBefore first a hFirstGood (hLeft a ha))
    refine (leading_gives hTestLeft .front).bind fun inPlace _ => ?_
    split
    · rename_i last hLast
      have hLastGood := hLeft last (List.mem_of_mem_drop (List.mem_of_getLast? hLast))
      have hTestRight : Decides safe (fun b => fails (before b last)) right.reverse := fun b hb =>
        gives_fails (hBefore b last (hRight b (List.mem_reverse.1 hb)) hLastGood)
      refine (leading_gives hTestRight .back).bind fun behind _ => ?_
      dsimp only
      split
      · exact .ok rfl
      have hInner : ∀ x ∈ (left.drop inPlace + right.take (right.length - behind) : Multiset α),
          good x := by
        intro x hx
        rcases Multiset.mem_add.1 hx with h | h
        · exact hLeft x (List.mem_of_mem_drop h)
        · exact hRight x (List.mem_of_mem_take h)
      refine (mergeInner_gives hBefore threshold hInner).bind fun r hr => .ok ?_
      have hLeftParts : (left : Multiset α) = left.take inPlace + left.drop inPlace := by
        rw [Multiset.coe_add, List.take_append_drop]
      have hRightParts : (right : Multiset α) =
          right.take (right.length - behind) + right.drop (right.length - behind) := by
        rw [Multiset.coe_add, List.take_append_drop]
      rw [← Multiset.coe_add, ← Multiset.coe_add, hr]
      conv => rhs; rw [hLeftParts, hRightParts]
      abel
    · exact .ok rfl
  · rename_i hNone
    have hEmpty : right = [] := by
      cases right with
      | nil => rfl
      | cons b rest => exact (hNone b rfl).elim
    subst hEmpty
    exact .ok (by simp)

/-! ## Pending runs -/

/-- The elements of pending runs. -/
def held : List (Pending α) → Multiset α
  | [] => 0
  | p :: ps => p.items + held ps

/-- Two pending runs that are joined are one with the elements of both. -/
theorem join_gives (threshold : Nat) {left right : Pending α}
    (hGood : ∀ x ∈ (left.items + right.items : Multiset α), good x) :
    Gives safe (fun r : Pending α × Nat => (r.1.items : Multiset α) = left.items + right.items)
      (left.join before threshold right) :=
  (mergeRuns_gives hBefore threshold hGood).bind fun _ hr => .ok hr

/-- Joining pending runs until their powers ascend keeps the elements that they hold. -/
theorem settleTo_gives (power threshold : Nat) {top : Pending α} {ps : List (Pending α)}
    (hGood : ∀ x ∈ top.items + held ps, good x) :
    Gives safe (fun r : List (Pending α) × Nat => held r.1 = top.items + held ps)
      (settleTo before power threshold top ps) := by
  induction ps generalizing threshold top with
  | nil => exact .ok rfl
  | cons below rest ih =>
      unfold settleTo
      split
      · have hTwo : ∀ x ∈ (below.items + top.items : Multiset α), good x := by
          intro x hx
          refine hGood x ?_
          simp only [held, Multiset.mem_add] at hx ⊢
          tauto
        refine (join_gives hBefore threshold hTwo).bind fun r hr => ?_
        have hSame : (r.1.items : Multiset α) + held rest = top.items + held (below :: rest) := by
          rw [hr, held]
          abel
        have hNext : ∀ x ∈ r.1.items + held rest, good x := by
          rw [hSame]
          exact hGood
        exact (ih r.2 hNext).imp fun r' hr' => hr'.trans hSame
      · exact .ok rfl

/-- A run that comes last adds its elements to those held. -/
theorem push_gives (n threshold : Nat) {run : List α} {ps : List (Pending α)}
    (hGood : ∀ x ∈ held ps, good x) :
    Gives safe (fun r : List (Pending α) × Nat => held r.1 = run + held ps)
      (push before n threshold run ps) := by
  unfold push
  split
  · exact .ok rfl
  · refine (settleTo_gives hBefore _ threshold hGood).bind fun r hr => .ok ?_
    exact congrArg ((run : Multiset α) + ·) hr

/-- All runs of a row are pushed, so that the pending runs come to hold the row. -/
theorem pushAll_gives (n least : Nat) {fuel : Nat} (threshold : Nat) {ps : List (Pending α)}
    {xs : List α} (hFuel : xs.length ≤ fuel) (hGood : ∀ x ∈ held ps + xs, good x) :
    Gives safe (fun r : List (Pending α) × Nat => held r.1 = held ps + xs)
      (pushAll before n least fuel threshold ps xs) := by
  induction fuel generalizing threshold ps xs with
  | zero =>
      obtain rfl := List.length_eq_zero_iff.1 (Nat.le_zero.1 hFuel)
      exact .ok (by simp)
  | succ fuel ih =>
      cases xs with
      | nil => exact .ok (by simp)
      | cons x xs =>
          have hRow : ∀ y ∈ x :: xs, good y := fun y hy => hGood y (Multiset.mem_add.2 (.inr hy))
          have hPending : ∀ y ∈ held ps, good y := fun y hy =>
            hGood y (Multiset.mem_add.2 (.inl hy))
          refine (takeLongRun_gives hBefore least hRow).bind fun r hr => ?_
          refine (push_gives hBefore n threshold hPending).bind fun p hp => ?_
          have hSame : held p.1 + r.2 = held ps + (x :: xs : List α) := by
            rw [hp, ← hr.1]
            abel
          have hShorter : r.2.length ≤ fuel := by
            have := hr.2 (List.cons_ne_nil x xs)
            omega
          exact (ih p.2 hShorter (hSame ▸ hGood)).imp fun r' hr' => hr'.trans hSame

/-- All pending runs are joined into one row of their elements. -/
theorem joinAll_gives (threshold : Nat) {last middle : Pending α} {ps : List (Pending α)}
    (hGood : ∀ x ∈ last.items + (middle.items + held ps), good x) :
    Gives safe (fun r : List α => (r : Multiset α) = last.items + (middle.items + held ps))
      (joinAll before threshold last middle ps) := by
  have hTwo {ps : List (Pending α)} {last middle : Pending α}
      (hGood : ∀ x ∈ last.items + (middle.items + held ps), good x) :
      ∀ x ∈ (middle.items + last.items : Multiset α), good x := by
    intro x hx
    refine hGood x ?_
    simp only [Multiset.mem_add] at hx ⊢
    tauto
  induction ps generalizing threshold last middle with
  | nil =>
      refine (join_gives hBefore threshold (hTwo hGood)).bind fun r hr => .ok ?_
      rw [hr, held]
      abel
  | cons first rest ih =>
      unfold joinAll
      split
      · have hFront : ∀ x ∈ (first.items + middle.items : Multiset α), good x := by
          intro x hx
          refine hGood x ?_
          simp only [held, Multiset.mem_add] at hx ⊢
          tauto
        refine (join_gives hBefore threshold hFront).bind fun r hr => ?_
        have hSame : (last.items : Multiset α) + (r.1.items + held rest) =
            last.items + (middle.items + held (first :: rest)) := by
          rw [hr, held]
          abel
        exact (ih r.2 (hSame ▸ hGood)).imp fun r' hr' => hr'.trans hSame
      · refine (join_gives hBefore threshold (hTwo hGood)).bind fun r hr => ?_
        have hSame : (r.1.items : Multiset α) + (first.items + held rest) =
            last.items + (middle.items + held (first :: rest)) := by
          rw [hr, held]
          abel
        exact (ih r.2 (hSame ▸ hGood)).imp fun r' hr' => hr'.trans hSame

/-- What a row is sorted to has the elements of the row, and where any two of them can be compared
the row is sorted. -/
theorem sort_gives {xs : List α} (hGood : ∀ x ∈ xs, good x) :
    Gives safe (fun r => r.Perm xs) (sort before xs) := by
  have hRow : ∀ x ∈ held ([] : List (Pending α)) + (xs : Multiset α), good x := by
    intro x hx
    exact hGood x (by simpa [held] using hx)
  unfold sort
  refine (pushAll_gives hBefore xs.length (leastRun xs.length 0) gallopPays (Nat.le_refl _)
    hRow).bind fun p hp => ?_
  have hAll : held p.1 = (xs : Multiset α) := hp.trans (by simp [held])
  dsimp only
  split
  · exact .ok (List.Perm.refl xs)
  · rename_i whole hWhole
    rw [hWhole] at hAll
    exact .ok (Multiset.coe_eq_coe.1 (by simpa [held] using hAll))
  · rename_i last middle rest hPending
    rw [hPending] at hAll
    have hParts : ∀ x ∈ last.items + (middle.items + held rest), good x := by
      intro x hx
      exact hGood x (Multiset.mem_coe.1 (hAll ▸ hx))
    exact (joinAll_gives hBefore p.2 hParts).imp fun r hr => Multiset.coe_eq_coe.1 (hr.trans hAll)

end Pending

end Steps

end BatchStore.Sorting
