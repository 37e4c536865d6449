import BatchStore.Proofs.Batch.Requests
import BatchStore.Proofs.Options.Searches
import BatchStore.Proofs.Store.IndexRanges

/-!
# Ranked occurrences

LPOS answers the place of one of the occurrences of an element in a list: the one that its rank
names, among the elements that it may compare. A positive rank counts from the head and a negative
one from the tail, and the place is told from the head all the same.

`Search.Finds` says which place that is, by the elements that are compared before it comes up: as
many of its like as the rank leaves out, and not more than may be compared (`find?_eq_some`). A
list in reverse is compared in the same order by the opposite rank, so it has the same occurrence
at the mirrored place (`Finds.mirror`). `lpos_finds` puts both together for the replies.
-/

namespace BatchStore

/-- The element at a place of what a filter leaves, by the elements of the row that pass before
it. -/
theorem getElem?_filter_eq_some {α : Type} (p : α → Bool) (xs : List α) (n : Nat) (x : α) :
    (xs.filter p)[n]? = some x ↔
      ∃ j, xs[j]? = some x ∧ p x = true ∧ (xs.take j).countP p = n := by
  induction xs generalizing n with
  | nil => simp
  | cons y ys ih =>
      by_cases hPass : p y = true
      · rw [List.filter_cons_of_pos hPass]
        rcases n with _ | n
        · constructor
          · intro hHead
            obtain rfl : y = x := by simpa using hHead
            exact ⟨0, rfl, hPass, rfl⟩
          · rintro ⟨j, hAt, -, hCount⟩
            rcases j with _ | j
            · simpa using hAt
            · simp [hPass] at hCount
        · rw [List.getElem?_cons_succ, ih n]
          constructor
          · rintro ⟨j, hAt, hx, hCount⟩
            exact ⟨j + 1, hAt, hx, by simp [hPass, hCount]⟩
          · rintro ⟨j, hAt, hx, hCount⟩
            rcases j with _ | j
            · simp at hCount
            · exact ⟨j, hAt, hx, by simpa [hPass] using hCount⟩
      · rw [List.filter_cons_of_neg hPass, ih n]
        constructor
        · rintro ⟨j, hAt, hx, hCount⟩
          exact ⟨j + 1, hAt, hx, by simp [hPass, hCount]⟩
        · rintro ⟨j, hAt, hx, hCount⟩
          rcases j with _ | j
          · obtain rfl : y = x := by simpa using hAt
            exact absurd hx hPass
          · exact ⟨j, hAt, hx, by simpa [hPass] using hCount⟩

namespace Lists.Search

variable {q q' : Search} {items : List Datum} {element : Datum} {i : Nat}

/-- The elements that are compared before the one at a place comes up. -/
def before (q : Search) (items : List Datum) (i : Nat) : List Datum :=
  if 0 < q.rank then items.take i else items.drop (i + 1)

/-- The place of the occurrence that is looked for: behind as many others as the rank leaves out,
and within what may be compared. -/
structure Finds (q : Search) (items : List Datum) (element : Datum) (i : Nat) : Prop where
  there : items[i]? = some element
  ranked : (q.before items i).count element + 1 = q.rank.natAbs
  inReach : q.maxLen = 0 ∨ ((q.before items i).length : Int) < q.maxLen

/-! ## The order of the comparisons -/

/-- The row as it is compared, without regard to how much of it may be. -/
def row (q : Search) (items : List Datum) : List (Datum × Nat) :=
  if 0 < q.rank then items.zipIdx else items.zipIdx.reverse

/-- An element is compared after those that come before it, and with its place. -/
theorem getElem?_row (q : Search) (items : List Datum) (j i : Nat) (d : Datum) :
    (q.row items)[j]? = some (d, i) ↔ items[i]? = some d ∧ j = (q.before items i).length := by
  unfold row before
  by_cases hForth : 0 < q.rank
  · simp only [if_pos hForth, List.getElem?_zipIdx, List.length_take]
    constructor
    · intro hAt
      obtain ⟨_, hItem, hPair⟩ := Option.map_eq_some_iff.1 hAt
      cases hPair
      have := (List.getElem?_eq_some_iff.1 hItem).1
      simp [hItem]
      omega
    · rintro ⟨hItem, rfl⟩
      have := (List.getElem?_eq_some_iff.1 hItem).1
      simp [Nat.min_eq_left (Nat.le_of_lt this), hItem]
  · simp only [if_neg hForth, List.length_drop]
    constructor
    · intro hAt
      have hInside : j < items.length := by simpa using (List.getElem?_eq_some_iff.1 hAt).1
      rw [List.getElem?_reverse (by simpa using hInside), List.getElem?_zipIdx] at hAt
      obtain ⟨_, hItem, hPair⟩ := Option.map_eq_some_iff.1 hAt
      cases hPair
      simp only [List.length_zipIdx] at hItem ⊢
      simp only [Nat.zero_add, hItem, true_and]
      omega
    · rintro ⟨hItem, rfl⟩
      have := (List.getElem?_eq_some_iff.1 hItem).1
      rw [List.getElem?_reverse (by simp; omega), List.getElem?_zipIdx, List.length_zipIdx,
        show items.length - 1 - (items.length - (i + 1)) = i by omega, hItem]
      simp

/-- What is compared first is what comes before, in one order or the other. -/
theorem countP_take_row (hInside : i < items.length) :
    ((q.row items).take (q.before items i).length).countP (fun c => c.1 == element) =
      (q.before items i).count element := by
  have hFst (cs : List (Datum × Nat)) :
      cs.countP (fun c => c.1 == element) = (cs.map Prod.fst).count element := by
    rw [List.count, List.countP_map]
    rfl
  rw [hFst, List.map_take]
  unfold row before
  by_cases hForth : 0 < q.rank
  · simp only [if_pos hForth, List.zipIdx_map_fst, List.length_take,
      Nat.min_eq_left (Nat.le_of_lt hInside)]
  · simp only [if_neg hForth, List.map_reverse, List.zipIdx_map_fst, List.length_drop,
      List.take_reverse, List.count_reverse]
    rw [show items.length - (items.length - (i + 1)) = i + 1 by omega]

/-- The elements that may be compared are the first of the row. -/
theorem getElem?_candidates (q : Search) (items : List Datum) (j : Nat) (c : Datum × Nat) :
    (q.candidates items)[j]? = some c ↔
      (q.row items)[j]? = some c ∧ (q.maxLen = 0 ∨ (j : Int) < q.maxLen) := by
  show (if q.maxLen = 0 then q.row items else (q.row items).take q.maxLen.toNat)[j]? = _ ↔ _
  by_cases hAll : q.maxLen = 0
  · simp [hAll]
  · have hReach : j < q.maxLen.toNat ↔ (j : Int) < q.maxLen := by omega
    simp [hAll, List.getElem?_take, hReach, and_comm]

theorem take_candidates {j : Nat} (h : q.maxLen = 0 ∨ (j : Int) < q.maxLen) :
    (q.candidates items).take j = (q.row items).take j := by
  show (if q.maxLen = 0 then q.row items else (q.row items).take q.maxLen.toNat).take j = _
  by_cases hAll : q.maxLen = 0
  · rw [if_pos hAll]
  · rw [if_neg hAll, List.take_take, Nat.min_eq_left (by omega)]

/-! ## The place that is found -/

/-- The search finds the place that it is said to find, and nothing else. -/
theorem find?_eq_some (hRank : q.rank ≠ 0) :
    q.find? items element = some i ↔ q.Finds items element i := by
  unfold find?
  rw [List.head?_drop, Option.map_eq_some_iff]
  constructor
  · rintro ⟨⟨d, place⟩, hFound, hPlace⟩
    obtain rfl : place = i := hPlace
    obtain ⟨j, hAt, hSame, hCount⟩ := (getElem?_filter_eq_some ..).1 hFound
    obtain ⟨hRow, hReach⟩ := (getElem?_candidates ..).1 hAt
    obtain ⟨hItem, rfl⟩ := (getElem?_row ..).1 hRow
    obtain rfl : d = element := by simpa using hSame
    have hInside := (List.getElem?_eq_some_iff.1 hItem).1
    rw [take_candidates hReach, countP_take_row hInside] at hCount
    exact ⟨hItem, by omega, hReach⟩
  · rintro ⟨hItem, hRanked, hReach⟩
    have hInside := (List.getElem?_eq_some_iff.1 hItem).1
    refine ⟨(element, i), (getElem?_filter_eq_some ..).2
      ⟨(q.before items i).length, ?_, ?_, ?_⟩, rfl⟩
    · exact (getElem?_candidates ..).2 ⟨(getElem?_row ..).2 ⟨hItem, rfl⟩, hReach⟩
    · exact beq_self_eq_true element
    · rw [take_candidates hReach, countP_take_row hInside]
      omega

/-! ## The list in reverse -/

/-- By the opposite rank, the same elements of the list in reverse come first. -/
theorem before_reverse (hRank : q.rank ≠ 0) (hOpposite : q'.rank = -q.rank)
    (hInside : i < items.length) :
    q'.before items.reverse (items.length - 1 - i) = (q.before items i).reverse := by
  unfold before
  by_cases hForth : 0 < q.rank
  · rw [if_pos hForth, if_neg (by omega), List.drop_reverse,
      show items.length - (items.length - 1 - i + 1) = i by omega]
  · rw [if_neg hForth, if_pos (by omega), List.take_reverse,
      show items.length - (items.length - 1 - i) = i + 1 by omega]

/-- By the opposite rank, the same occurrence of the list in reverse is found. -/
theorem Finds.mirror (h : q.Finds items element i) (hOpposite : q'.rank = -q.rank)
    (hMaxLen : q'.maxLen = q.maxLen) :
    q'.Finds items.reverse element (items.length - 1 - i) := by
  have hInside := (List.getElem?_eq_some_iff.1 h.there).1
  have hRank : q.rank ≠ 0 := by
    have := h.ranked
    omega
  have hBefore := before_reverse hRank hOpposite hInside
  refine ⟨?_, ?_, ?_⟩
  · rw [List.getElem?_reverse (by omega),
      show items.length - 1 - (items.length - 1 - i) = i by omega, h.there]
  · rw [hBefore, List.count_reverse, h.ranked, hOpposite, Int.natAbs_neg]
  · rw [hBefore, List.length_reverse, hMaxLen]
    exact h.inReach

/-- What is found in the list in reverse by the opposite rank. -/
theorem find?_reverse (hRank : q.rank ≠ 0) (hOpposite : q'.rank = -q.rank)
    (hMaxLen : q'.maxLen = q.maxLen) :
    q'.find? items.reverse element =
      (q.find? items element).map fun i => items.length - 1 - i := by
  have hRank' : q'.rank ≠ 0 := by omega
  apply Option.ext
  intro i'
  rw [find?_eq_some hRank', Option.map_eq_some_iff]
  constructor
  · intro hFinds
    have hInside := (List.getElem?_eq_some_iff.1 hFinds.there).1
    rw [List.length_reverse] at hInside
    have hBack : q.Finds items.reverse.reverse element (items.reverse.length - 1 - i') :=
      hFinds.mirror (by omega) hMaxLen.symm
    rw [List.reverse_reverse, List.length_reverse] at hBack
    exact ⟨_, (find?_eq_some hRank).2 hBack, by omega⟩
  · rintro ⟨i, hFound, rfl⟩
    exact ((find?_eq_some hRank).1 hFound).mirror hOpposite hMaxLen

/-- Options that are read do not ask for the rank of zero. -/
theorem rank_of_read {p : Search} (hStart : p.rank ≠ 0) {words : List Octets}
    (h : read p words = .ok q) : q.rank ≠ 0 := by
  fun_induction read p words with
  | case1 p =>
      cases h
      exact hStart
  | case2 => cases h
  | case3 p w v rest hRank ih =>
      obtain ⟨rank, -, hRest⟩ := ok_of_bind h
      by_cases hZero : rank = 0
      · rw [if_pos hZero] at hRest
        cases hRest
      · rw [if_neg hZero] at hRest
        exact ih rank hZero hRest
  | case4 p w v rest hMaxLen ih =>
      obtain ⟨maxLen, -, hRest⟩ := ok_of_bind h
      exact ih maxLen hStart hRest
  | case5 => cases h

end Lists.Search

/-- A call with options asks for what they are written as. -/
theorem Call.request_lpos (cluster : Bool) (key element : Octets) (o : LPosOptions) :
    (Call.lpos (.octets key) (.octets element) (some (.lpos o))).request cluster =
      o.toArgs.map fun words => (.lpos, .octets key :: .octets element :: words) := by
  show (o.toArgs >>= _) = _
  cases o.toArgs <;> rfl

namespace Store

open BatchStore.Lists

/-- LPOS answers what its search finds in the list. -/
theorem lpos_reply {now : Float} {s : Store} {key element : Octets} {items : List Datum}
    {options : List Octets} {q : Search} (h : s.Holds now key .list [] items)
    (hRead : Search.read {} options = .ok q) :
    (lpos now key element options s).1 =
      .ok ((q.find? items (.octets element)).elim .null fun i => .int i) := by
  obtain ⟨items?, hExpect, rfl⟩ := h.expect_eq Value.list? fun _ => rfl
  have hStep : lposStep q element (s.live? now s.selected key) =
      .ok ((q.find? (items?.getD []) (.octets element)).elim .null fun i => .int i,
        s.live? now s.selected key) := by
    unfold lposStep
    rw [hExpect]
    rfl
  unfold lpos
  rw [hRead]
  exact congrArg Prod.fst (onKey_ok hStep)

/-- Any rank and any number of elements that can be written are options of LPOS, and its command
asks for them. -/
theorem lpos_asked (cluster : Bool) (key element : Octets) {rank maxLen : Int} (hSome : rank ≠ 0)
    (hRank : Number.IsShort rank) (hMaxLen : Number.IsShort maxLen) :
    ∃ args options,
      (Call.lpos (.octets key) (.octets element)
        (some (.lpos { rank := .int rank, maxLen := .int maxLen }))).request cluster =
          .ok (.lpos, args) ∧
      (Command.mk .lpos args).request? = some (.lpos, key :: element :: options) ∧
      Search.read {} options = .ok { rank, maxLen } := by
  let words : ArgList := [Keyword.rank.arg, .text (toString rank), Keyword.maxlen.arg,
    .text (toString maxLen)]
  have hWords : LPosOptions.toArgs { rank := .int rank, maxLen := .int maxLen } = .ok words := by
    simp [LPosOptions.toArgs, numberOption, numberText, hRank.wholeText, hMaxLen.wholeText, words]
    rfl
  refine ⟨.octets key :: .octets element :: words, words.map Arg.toOctets, ?_, rfl, ?_⟩
  · rw [Call.request_lpos, hWords]
    rfl
  · show Search.read {} (Keyword.rank.octets :: Octets.ofText (toString rank) ::
      Keyword.maxlen.octets :: Octets.ofText (toString maxLen) :: []) = _
    rw [Search.read_rank, readInt_of_int? hRank.int?_toString]
    show (if rank = 0 then refuse .zeroRank else Search.read { rank } _) = _
    rw [if_neg hSome, Search.read_maxlen, readInt_of_int? hMaxLen.int?_toString]
    rfl

/-- What LPOS answers of any list, element, rank and number of elements.

* The reply is the place of the occurrence that the rank names, if that is within what may be
  compared, and else null.
* In the list in reverse, the opposite rank finds the mirrored place.
* Any rank but zero and any number of elements can be asked for, up to their length. -/
theorem lpos_finds (now : Float) (s : Store) (key element : Octets) :
    (∀ items, s.Holds now key .list [] items →
      ∀ (c : Command) (options : List Octets) (q : Search),
        c.request? = some (.lpos, key :: element :: options) →
        Search.read {} options = .ok q →
        ∃ place? : Option Nat,
          (run now c s).1 = .ok (place?.elim .null fun i => .int i) ∧
          (∀ i, place? = some i ↔ q.Finds items (.octets element) i) ∧
          ∀ (later : Float) (t : Store) (key' : Octets) (c' : Command) (options' : List Octets)
            (q' : Search), t.Holds later key' .list [] items.reverse →
            c'.request? = some (.lpos, key' :: element :: options') →
            Search.read {} options' = .ok q' → q'.rank = -q.rank → q'.maxLen = q.maxLen →
            (run later c' t).1 =
              .ok (place?.elim .null fun i => .int (items.length - 1 - i))) ∧
    ∀ (cluster : Bool) (rank maxLen : Int), rank ≠ 0 → Number.IsShort rank →
      Number.IsShort maxLen →
      ∃ args options,
        (Call.lpos (.octets key) (.octets element)
          (some (.lpos { rank := .int rank, maxLen := .int maxLen }))).request cluster =
            .ok (.lpos, args) ∧
        (Command.mk .lpos args).request? = some (.lpos, key :: element :: options) ∧
        Search.read {} options = .ok { rank, maxLen } := by
  refine ⟨?_, fun cluster rank maxLen => lpos_asked cluster key element⟩
  intro items hItems c options q hRequest hRead
  have hRank := Search.rank_of_read (by decide) hRead
  refine ⟨q.find? items (.octets element), ?_, fun i => Search.find?_eq_some hRank, ?_⟩
  · rw [run_of_open hRequest rfl (by simp [CommandType.minArity])]
    exact lpos_reply hItems hRead
  · intro later t key' c' options' q' hReverse hRequest' hRead' hOpposite hMaxLen
    rw [run_of_open hRequest' rfl (by simp [CommandType.minArity])]
    refine (lpos_reply hReverse hRead').trans ?_
    rw [Search.find?_reverse hRank hOpposite hMaxLen]
    cases hFound : q.find? items (.octets element) with
    | none => rfl
    | some i =>
        have hFinds := (Search.find?_eq_some hRank).1 hFound
        have hInside := (List.getElem?_eq_some_iff.1 hFinds.there).1
        show Except.ok (Datum.int ((items.length - 1 - i : Nat) : Int)) =
          Except.ok (Datum.int (items.length - 1 - i))
        rw [Nat.cast_sub (by omega), Nat.cast_sub (by omega)]
        rfl

/-- The second element from the tail, among the last three, and the same from the head of the list
in reverse. -/
theorem lpos_finds_second :
    let items : List Datum := [.octets [97], .octets [98], .octets [97], .octets [99], .octets [97]]
    let s := single [([107], { value := .list items }), ([114], { value := .list items.reverse })]
    (run 0.0 ⟨.lpos, [.text "k", .text "a", .text "RANK", .text "-2", .text "MAXLEN", .text "3"]⟩
        s).1 = .ok (.int 2) ∧
      (run 0.0 ⟨.lpos, [.text "r", .text "a", .text "MAXLEN", .text "3", .text "RANK", .text "2"]⟩
        s).1 = .ok (.int 2) ∧
      ∃ args, (Call.lpos (.octets [107]) (.octets [97])
        (some (.lpos { rank := .int (-2), maxLen := .int 3 }))).request false =
          .ok (.lpos, args) := by
  intro items s
  have hItems : s.Holds 0.0 [107] .list [] items := .inl ⟨_, rfl, rfl⟩
  have hReverse : s.Holds 0.0 [114] .list [] items.reverse := .inl ⟨_, rfl, rfl⟩
  have hBack : Search.read {} [Octets.ofText "RANK", Octets.ofText "-2", Octets.ofText "MAXLEN",
      Octets.ofText "3"] = .ok { rank := -2, maxLen := 3 } := rfl
  have hForth : Search.read {} [Octets.ofText "MAXLEN", Octets.ofText "3", Octets.ofText "RANK",
      Octets.ofText "2"] = .ok { rank := 2, maxLen := 3 } := rfl
  obtain ⟨hReply, hAsked⟩ := lpos_finds 0.0 s [107] [97]
  obtain ⟨place?, hPlace, hFinds, hMirror⟩ := hReply items hItems
    ⟨.lpos, [.text "k", .text "a", .text "RANK", .text "-2", .text "MAXLEN", .text "3"]⟩ _ _ rfl
    hBack
  have hSecond : place? = some 2 :=
    (hFinds 2).2 ⟨by decide, by decide, by decide⟩
  subst hSecond
  obtain ⟨args, _, hRequest, -⟩ := hAsked false (-2) 3 (by decide) (by decide +kernel)
    (by decide +kernel)
  exact ⟨hPlace, hMirror 0.0 s [114] _ _ _ hReverse rfl hForth rfl rfl, args, hRequest⟩

end Store

end BatchStore
