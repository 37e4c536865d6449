import BatchStore.Proofs.Store.Scanning

/-!
# A scan while keys go

Between two calls of a scan others may use the store: they delete keys, and the clock goes on and
keys expire. What a call finds is its `Scan.Turn`, and `Scan.Finishes` is an iteration whose calls
have a turn each.

A cursor is a place among the keys that are there. When a key in front of the cursor goes, the keys
behind it move up by one, and the key that stood at the cursor stands in front of it now. The next
call does not come by it, though it was there all the time, and the iteration ends as if it had
(`scan_skips_survivor`). This is what happens to a caller who deletes the keys that a scan answers
before asking for the next ones.

Nothing else can happen to a key. `scan_of_shrinking` is the result: where no key is added, an
iteration ends, answers no key twice, and answers a key that stays there unless so many keys in
front of it go between two calls that it falls from behind the cursor to in front of it
(`Scan.Overtaken`). So a scan answers every key that stays, if no key goes that it has come by.
-/

namespace BatchStore

/-! ## Places in a rising row -/

/-- In a rising row, as many elements are smaller than one as stand in front of it. -/
theorem countP_lt_getElem {row : List Octets} (hRising : row.Pairwise (· < ·)) {m : Nat}
    (hm : m < row.length) : row.countP (· < row[m]) = m := by
  have hFront : (row.take m).countP (· < row[m]) = (row.take m).length := by
    refine List.countP_eq_length.2 fun key hKey => decide_eq_true ?_
    have hHere : row[m] ∈ row.drop m := List.mem_drop_iff_getElem.2 ⟨0, by omega, rfl⟩
    exact hRising.rel_of_mem_take_of_mem_drop hKey hHere
  have hBack : (row.drop m).countP (· < row[m]) = 0 := by
    refine List.countP_eq_zero.2 fun key hKey hLess => ?_
    rw [List.drop_eq_getElem_cons hm] at hKey
    rcases List.mem_cons.1 hKey with rfl | hBehind
    · exact List.lt_irrefl _ (of_decide_eq_true hLess)
    · have hHere : row[m] ∈ row.take (m + 1) := List.mem_take_iff_getElem.2 ⟨m, by omega, rfl⟩
      exact List.lt_asymm (hRising.rel_of_mem_take_of_mem_drop hHere hBehind)
        (of_decide_eq_true hLess)
  calc row.countP (· < row[m])
      = (row.take m ++ row.drop m).countP (· < row[m]) := by rw [List.take_append_drop]
    _ = m := by rw [List.countP_append, hFront, hBack, List.length_take]; omega

theorem nodup_of_rising {row : List Octets} (hRising : row.Pairwise (· < ·)) : row.Nodup := by
  refine hRising.imp ?_
  rintro x y hLess rfl
  exact List.lt_irrefl _ hLess

/-- A part of a rising row has the elements whose place is in the part. -/
theorem mem_part_iff {row : List Octets} (hRising : row.Pairwise (· < ·)) {key : Octets}
    (hKey : key ∈ row) (i n : Nat) :
    key ∈ (row.drop i).take n ↔ i ≤ row.countP (· < key) ∧ row.countP (· < key) < i + n := by
  obtain ⟨m, hm, rfl⟩ := List.getElem_of_mem hKey
  rw [countP_lt_getElem hRising hm, List.mem_take_iff_getElem]
  simp only [List.getElem_drop, List.length_drop, (nodup_of_rising hRising).getElem_inj_iff]
  constructor
  · rintro ⟨p, hp, hPlace⟩
    omega
  · rintro ⟨hFrom, hTo⟩
    exact ⟨m - i, by omega, by omega⟩

namespace Scan

/-! ## Turns -/

/-- What a call of a scan finds: a reading of the clock and a store. -/
structure Turn where
  now : Float
  store : Store

/-- Without filters every key passes. -/
theorem unfiltered (fits : Octets → Octets → Bool) (db : Database) (keys : List Octets) :
    keys.filter (Plan.admits { cursor := 0 } fits db) = keys :=
  List.filter_eq_self.2 fun _ _ => rfl

namespace Turn

/-- The keys of the selected database that show. -/
def liveKeys (t : Turn) : List Octets := (t.store.database t.store.selected).liveKeys t.now

/-- How many keys show in front of a key. -/
def place (t : Turn) (key : Octets) : Nat := t.liveKeys.countP (· < key)

/-- The keys that show, in order. -/
def row (t : Turn) : List Octets :=
  sortedKeys ((t.store.settleAll t.now t.store.selected).database t.store.selected)

section Row

variable {t : Turn} (hApart : t.store.KeysApart)
include hApart

theorem rising_row : t.row.Pairwise (· < ·) := by
  unfold row
  rw [Store.database_settleAll]
  exact sortedKeys_rising (Table.distinct_filter (hApart.database t.store.selected) _)

theorem perm_row : t.row.Perm t.liveKeys := by
  unfold row liveKeys
  rw [Store.database_settleAll, ← Database.keys_settleAll (hApart.database t.store.selected)]
  exact perm_sortedKeys _

theorem place_eq (key : Octets) : t.place key = t.row.countP (· < key) :=
  ((perm_row hApart).countP_eq _).symm

end Row

/-- A call without filters answers the keys of the row from its place on, as many as it asks for,
and the place behind them, or 0 where there are no more. -/
theorem answers {fits : Octets → Octets → Bool} {options : List Octets} {count : Int}
    {cursor next : Octets} {i : Nat} {keys : List Octets} {t : Turn}
    (hAsks : Asks options none none count) (hCursor : Number.int? cursor = some (i : Int))
    (h : (scanBy fits t.now cursor options t.store).1 =
      .ok (.list [.octets next, .list (keys.map .octets)])) :
    ∃ n : Nat, count = n ∧ 0 < n ∧ keys = (t.row.drop i).take n ∧
      (t.row.length ≤ i + n ∧ next = Octets.ofText "0" ∨
        i + n < t.row.length ∧ Number.int? next = some ((i + n : Nat) : Int)) := by
  obtain ⟨after, hStore⟩ : ∃ after, t.store.settleAll t.now t.store.selected = after := ⟨_, rfl⟩
  obtain ⟨n, hCount, hSome, hCall⟩ := scanBy_eq fits hStore hAsks hCursor
  have hRow : sortedKeys (after.database after.selected) = t.row := by
    subst hStore
    rfl
  refine ⟨n, hCount, hSome, ?_⟩
  rw [hCall, unfiltered, hRow, ← length_sortedKeys, hRow] at h
  cases hText : Number.intText? (if i + n < t.row.length then ((i + n : Nat) : Int) else 0) with
  | none =>
      rw [hText] at h
      cases h
  | some numeral =>
      rw [hText] at h
      obtain ⟨hNext, hKeys⟩ : Octets.ofText numeral = next ∧
          ((t.row.drop i).take n).map Datum.octets = keys.map Datum.octets := by
        simpa using h
      refine ⟨(List.map_injective_iff.2 (fun _ _ => Datum.octets.inj) hKeys).symm, ?_⟩
      by_cases hInside : i + n < t.row.length
      · rw [if_pos hInside] at hText
        exact .inr ⟨hInside, hNext ▸ int?_of_intText? hText⟩
      · rw [if_neg hInside, intText?_zero] at hText
        cases hText
        exact .inl ⟨Nat.not_lt.1 hInside, hNext.symm⟩

end Turn

/-! ## Iterations -/

/-- An iteration of calls, each with a turn of its own and at the cursor that the one before it
answered, up to the first that answers 0: from which call on, at which cursor it begins, and the
keys that the calls answer, call by call. -/
inductive Finishes (call : Float → Nat → Octets → Step) (turns : Nat → Turn) :
    Nat → Octets → List (List Octets) → Prop
  | last {j : Nat} {cursor : Octets} {keys : List Octets}
      (hCall : (call (turns j).now j cursor (turns j).store).1 =
        .ok (.list [.octets (Octets.ofText "0"), .list (keys.map .octets)])) :
      Finishes call turns j cursor [keys]
  | next {j : Nat} {cursor next : Octets} {keys : List Octets} {others : List (List Octets)}
      (hCall : (call (turns j).now j cursor (turns j).store).1 =
        .ok (.list [.octets next, .list (keys.map .octets)]))
      (hNext : next ≠ Octets.ofText "0")
      (hRest : Finishes call turns (j + 1) next others) :
      Finishes call turns j cursor (keys :: others)

theorem Finishes.length_pos {call : Float → Nat → Octets → Step} {turns : Nat → Turn} {j : Nat}
    {cursor : Octets} {answers : List (List Octets)} (h : Finishes call turns j cursor answers) :
    0 < answers.length := by
  cases h <;> exact Nat.succ_pos _

/-- The place of a call, where each asks for some number of keys. -/
def begun (counts : Nat → Nat) : Nat → Nat
  | 0 => 0
  | j + 1 => begun counts j + counts j

/-- Between a call and the next, so many keys in front of a key went that it stood behind the place
of the next call and stands in front of it now. -/
def Overtaken (counts : Nat → Nat) (turns : Nat → Turn) (j : Nat) (key : Octets) : Prop :=
  begun counts (j + 1) ≤ (turns j).place key ∧ (turns (j + 1)).place key < begun counts (j + 1)

theorem begun_mono (counts : Nat → Nat) : Monotone (begun counts) :=
  monotone_nat_of_le_succ fun _ => Nat.le_add_right _ _

/-- No key stands twice in what the turns find, and no turn finds a key that the one before it did
not. -/
structure Shrinking (turns : Nat → Turn) : Prop where
  apart : ∀ j, (turns j).store.KeysApart
  keys : ∀ j, (turns (j + 1)).liveKeys ⊆ (turns j).liveKeys

namespace Shrinking

variable {turns : Nat → Turn} (h : Shrinking turns)
include h

/-- What a later turn finds is among what an earlier one does. -/
theorem subperm {j l : Nat} (hLater : j ≤ l) : (turns l).liveKeys.Subperm (turns j).liveKeys := by
  have hKeys : (turns l).liveKeys ⊆ (turns j).liveKeys := by
    induction hLater with
    | refl => exact List.Subset.refl _
    | step _ ih => exact List.Subset.trans (h.keys _) ih
  refine List.subperm_of_subset ?_ hKeys
  exact (Turn.perm_row (h.apart l)).nodup_iff.1 (nodup_of_rising (Turn.rising_row (h.apart l)))

/-- Keys that go leave a key where it is or bring it further to the front. -/
theorem place_le {j l : Nat} (hLater : j ≤ l) (key : Octets) :
    (turns l).place key ≤ (turns j).place key :=
  (h.subperm hLater).countP_le _

theorem length_row_le {j l : Nat} (hLater : j ≤ l) :
    (turns l).row.length ≤ (turns j).row.length := by
  rw [(Turn.perm_row (h.apart l)).length_eq, (Turn.perm_row (h.apart j)).length_eq]
  exact (h.subperm hLater).length_le

/-- A key that shows has a place in the row. -/
theorem place_lt {j : Nat} {key : Octets} (hKey : key ∈ (turns j).liveKeys) :
    (turns j).place key < (turns j).row.length := by
  rw [(Turn.perm_row (h.apart j)).length_eq]
  refine List.countP_lt_length_iff.2 ⟨key, hKey, ?_⟩
  simp

/-- A call answers the keys whose place is in its part of the row. -/
theorem mem_part_iff {j : Nat} {key : Octets} (hKey : key ∈ (turns j).liveKeys) (i n : Nat) :
    key ∈ ((turns j).row.drop i).take n ↔
      i ≤ (turns j).place key ∧ (turns j).place key < i + n := by
  have hRow : key ∈ (turns j).row := (Turn.perm_row (h.apart j)).mem_iff.2 hKey
  rw [Turn.place_eq (h.apart j)]
  exact BatchStore.mem_part_iff (Turn.rising_row (h.apart j)) hRow i n

/-- While no key goes whose place is in front of that of the next call, no key is overtaken: the
keys in front of the next place are still there, and in front of the key. -/
theorem not_overtaken {counts : Nat → Nat} {j : Nat} {key : Octets}
    (hKey : key ∈ (turns j).liveKeys)
    (hKept : ∀ k ∈ (turns j).liveKeys, (turns j).place k < begun counts (j + 1) →
      k ∈ (turns (j + 1)).liveKeys) : ¬ Overtaken counts turns j key := by
  rintro ⟨hBehind, hFront⟩
  have hLength : ((turns j).row.take (begun counts (j + 1))).length = begun counts (j + 1) := by
    have := h.place_lt hKey
    rw [List.length_take]
    omega
  have hThere : (turns j).row.take (begun counts (j + 1)) ⊆
      (turns (j + 1)).liveKeys.filter (· < key) := by
    intro k hk
    have hLive : k ∈ (turns j).liveKeys :=
      (Turn.perm_row (h.apart j)).mem_iff.1 (List.mem_of_mem_take hk)
    have hPlace : (turns j).place k < begun counts (j + 1) := by
      have hPart := (h.mem_part_iff hLive 0 (begun counts (j + 1))).1 (by rwa [List.drop_zero])
      omega
    refine List.mem_filter.2 ⟨hKept k hLive hPlace, decide_eq_true ?_⟩
    by_contra hNot
    have hOrder : (turns j).place key ≤ (turns j).place k := by
      refine List.countP_mono_left fun a _ hLess => decide_eq_true ?_
      by_contra hBack
      exact hNot (List.lt_of_le_of_lt (List.not_lt.1 hBack) (of_decide_eq_true hLess))
    omega
  have hOnce : ((turns j).row.take (begun counts (j + 1))).Nodup :=
    (nodup_of_rising (Turn.rising_row (h.apart j))).sublist (List.take_sublist _ _)
  have hMany := (List.subperm_of_subset hOnce hThere).length_le
  rw [hLength, ← List.countP_eq_length_filter] at hMany
  exact absurd hMany (Nat.not_le.2 hFront)

end Shrinking

section Iteration

variable {fits : Octets → Octets → Bool} {turns : Nat → Turn} {options : Nat → List Octets}
  {counts : Nat → Nat} {j : Nat} {cursor : Octets} {keys : List Octets}
  {answers : List (List Octets)}

/-- The last call answers the keys from its place on, and there are no more than it asks for. -/
theorem answers_last (hAsks : ∀ j, Asks (options j) none none (counts j))
    (hCursor : Number.int? cursor = some (begun counts j : Int))
    (hCall : (scanBy fits (turns j).now cursor (options j) (turns j).store).1 =
      .ok (.list [.octets (Octets.ofText "0"), .list (keys.map .octets)])) :
    keys = ((turns j).row.drop (begun counts j)).take (counts j) ∧
      (turns j).row.length ≤ begun counts (j + 1) := by
  obtain ⟨n, hCount, hSome, hKeys, hEnd⟩ := Turn.answers (hAsks j) hCursor hCall
  obtain rfl : counts j = n := Int.ofNat.inj hCount
  rcases hEnd with ⟨hEnd, -⟩ | ⟨-, hNext⟩
  · exact ⟨hKeys, hEnd⟩
  · rw [int?_zero] at hNext
    have := Option.some.inj hNext
    omega

/-- Any other call answers the keys from its place to that of the next. -/
theorem answers_next (hAsks : ∀ j, Asks (options j) none none (counts j))
    (hCursor : Number.int? cursor = some (begun counts j : Int)) {next : Octets}
    (hNext : next ≠ Octets.ofText "0")
    (hCall : (scanBy fits (turns j).now cursor (options j) (turns j).store).1 =
      .ok (.list [.octets next, .list (keys.map .octets)])) :
    keys = ((turns j).row.drop (begun counts j)).take (counts j) ∧
      Number.int? next = some (begun counts (j + 1) : Int) := by
  obtain ⟨n, hCount, hSome, hKeys, hEnd⟩ := Turn.answers (hAsks j) hCursor hCall
  obtain rfl : counts j = n := Int.ofNat.inj hCount
  rcases hEnd with ⟨-, hLast⟩ | ⟨-, hPlace⟩
  · exact absurd hLast hNext
  · exact ⟨hKeys, hPlace⟩

/-- What an iteration answers is found by one of its calls, not in front of its first place. -/
theorem Finishes.found (h : Shrinking turns) (hAsks : ∀ j, Asks (options j) none none (counts j))
    (hFinishes : Finishes (fun now j cursor => scanBy fits now cursor (options j)) turns j cursor
      answers)
    (hCursor : Number.int? cursor = some (begun counts j : Int)) {key : Octets}
    (hKey : key ∈ answers.flatten) :
    ∃ l, j ≤ l ∧ key ∈ (turns l).liveKeys ∧ begun counts j ≤ (turns l).place key := by
  have hPart {j : Nat} (hHere : key ∈ ((turns j).row.drop (begun counts j)).take (counts j)) :
      key ∈ (turns j).liveKeys ∧ begun counts j ≤ (turns j).place key := by
    have hLive : key ∈ (turns j).liveKeys := (Turn.perm_row (h.apart j)).mem_iff.1
      (List.mem_of_mem_drop (List.mem_of_mem_take hHere))
    exact ⟨hLive, ((h.mem_part_iff hLive _ _).1 hHere).1⟩
  induction hFinishes with
  | last hCall =>
      obtain ⟨rfl, -⟩ := answers_last hAsks hCursor hCall
      rw [List.flatten_singleton] at hKey
      exact ⟨_, Nat.le_refl _, hPart hKey⟩
  | @next j _ _ keys others hCall hNext hRest ih =>
      obtain ⟨rfl, hPlace⟩ := answers_next hAsks hCursor hNext hCall
      rcases List.mem_append.1 (List.flatten_cons ▸ hKey) with hHere | hLater
      · exact ⟨j, Nat.le_refl _, hPart hHere⟩
      · obtain ⟨l, hLe, hLive, hFrom⟩ := ih hPlace hLater
        exact ⟨l, Nat.le_of_succ_le hLe, hLive,
          Nat.le_trans (begun_mono counts (Nat.le_succ j)) hFrom⟩

/-- No key is answered twice: it would stand in front of the next place, and be found behind it by a
later call. -/
theorem Finishes.nodup (h : Shrinking turns) (hAsks : ∀ j, Asks (options j) none none (counts j))
    (hFinishes : Finishes (fun now j cursor => scanBy fits now cursor (options j)) turns j cursor
      answers)
    (hCursor : Number.int? cursor = some (begun counts j : Int)) : answers.flatten.Nodup := by
  have hOnce (j i n : Nat) : (((turns j).row.drop i).take n).Nodup :=
    (nodup_of_rising (Turn.rising_row (h.apart j))).sublist
      ((List.take_sublist n _).trans (List.drop_sublist i _))
  induction hFinishes with
  | last hCall =>
      obtain ⟨rfl, -⟩ := answers_last hAsks hCursor hCall
      rw [List.flatten_singleton]
      exact hOnce _ _ _
  | @next j _ _ keys others hCall hNext hRest ih =>
      obtain ⟨rfl, hPlace⟩ := answers_next hAsks hCursor hNext hCall
      rw [List.flatten_cons]
      refine List.nodup_append.2 ⟨hOnce _ _ _, ih hPlace, ?_⟩
      rintro key hHere _ hLater rfl
      obtain ⟨l, hLe, hLive, hFrom⟩ := Finishes.found h hAsks hRest hPlace hLater
      have hEarlier : key ∈ (turns j).liveKeys := (Turn.perm_row (h.apart j)).mem_iff.1
        (List.mem_of_mem_drop (List.mem_of_mem_take hHere))
      have hTo := ((h.mem_part_iff hEarlier _ _).1 hHere).2
      have hBack := h.place_le (Nat.le_of_succ_le hLe) key
      exact absurd (Nat.le_trans hFrom hBack) (Nat.not_le.2 hTo)

/-- A key that stays is answered if it does not stand in front of the first place and is not
overtaken. -/
theorem Finishes.mem_iff (h : Shrinking turns) (hAsks : ∀ j, Asks (options j) none none (counts j))
    (hFinishes : Finishes (fun now j cursor => scanBy fits now cursor (options j)) turns j cursor
      answers)
    (hCursor : Number.int? cursor = some (begun counts j : Int)) {key : Octets}
    (hStays : ∀ l, j ≤ l → l < j + answers.length → key ∈ (turns l).liveKeys) :
    key ∈ answers.flatten ↔ begun counts j ≤ (turns j).place key ∧
      ∀ l, j ≤ l → l + 1 < j + answers.length → ¬ Overtaken counts turns l key := by
  induction hFinishes with
  | @last j _ keys hCall =>
      obtain ⟨rfl, hEnd⟩ := answers_last hAsks hCursor hCall
      have hLive : key ∈ (turns j).liveKeys := hStays j (Nat.le_refl j) (Nat.lt_succ_self j)
      have hInside : (turns j).place key < begun counts (j + 1) :=
        Nat.lt_of_lt_of_le (h.place_lt hLive) hEnd
      rw [List.flatten_singleton, h.mem_part_iff hLive]
      constructor
      · rintro ⟨hFrom, -⟩
        refine ⟨hFrom, fun l hFirst hLast => ?_⟩
        rw [List.length_singleton] at hLast
        omega
      · exact fun hKey => ⟨hKey.1, hInside⟩
  | @next j _ _ keys others hCall hNext hRest ih =>
      obtain ⟨rfl, hPlace⟩ := answers_next hAsks hCursor hNext hCall
      rw [List.length_cons] at hStays ⊢
      have hLive : key ∈ (turns j).liveKeys := hStays j (Nat.le_refl j) (by omega)
      have hRestIff := ih hPlace fun l hFirst hLast => hStays l (by omega) (by omega)
      have hBegun : begun counts j ≤ begun counts (j + 1) := begun_mono counts (Nat.le_succ j)
      have hBack : (turns (j + 1)).place key ≤ (turns j).place key := h.place_le (Nat.le_succ j) key
      rw [List.flatten_cons, List.mem_append, h.mem_part_iff hLive, hRestIff]
      constructor
      · rintro (⟨hFrom, hTo⟩ | ⟨hFrom, hOthers⟩)
        · -- A key that this call answers stays in front of the places of the later ones.
          refine ⟨hFrom, fun l hFirst _ hOvertaken => ?_⟩
          have hPlaces : begun counts (j + 1) ≤ begun counts (l + 1) :=
            begun_mono counts (Nat.succ_le_succ hFirst)
          exact absurd (Nat.le_trans (Nat.le_trans hPlaces hOvertaken.1) (h.place_le hFirst key))
            (Nat.not_le.2 hTo)
        · refine ⟨by omega, fun l hFirst hLast hOvertaken => ?_⟩
          rcases Nat.eq_or_lt_of_le hFirst with rfl | hLater
          · exact absurd hFrom (Nat.not_le.2 hOvertaken.2)
          · exact hOthers l hLater (by omega) hOvertaken
      · rintro ⟨hFrom, hOthers⟩
        by_cases hTo : (turns j).place key < begun counts (j + 1)
        · exact .inl ⟨hFrom, hTo⟩
        · have hHere := hOthers j (Nat.le_refl j) (by
            have := hRest.length_pos
            omega)
          refine .inr ⟨?_, fun l hFirst hLast => hOthers l (by omega) (by omega)⟩
          by_contra hFront
          exact hHere ⟨Nat.not_lt.1 hTo, Nat.not_le.1 hFront⟩

/-- From any place on, an iteration comes to its end. -/
theorem finishes_from (h : Shrinking turns) (hAsks : ∀ j, Asks (options j) none none (counts j))
    (hFew : (turns 0).row.length ≤ Number.tenTo Number.maxDigits) (j : Nat) (cursor : Octets)
    (hCursor : Number.int? cursor = some (begun counts j : Int)) :
    ∃ answers, Finishes (fun now j cursor => scanBy fits now cursor (options j)) turns j cursor
        answers ∧
      answers.length ≤ max 1 ((turns j).row.length - begun counts j) := by
  obtain ⟨after, hStore⟩ : ∃ after,
    (turns j).store.settleAll (turns j).now (turns j).store.selected = after := ⟨_, rfl⟩
  have hRow : sortedKeys (after.database after.selected) = (turns j).row := by
    subst hStore
    rfl
  have hSize : (after.database after.selected).size = (turns j).row.length := by
    rw [← hRow, length_sortedKeys]
  have hFewHere : (after.database after.selected).size ≤ Number.tenTo Number.maxDigits := by
    rw [hSize]
    exact Nat.le_trans (h.length_row_le (Nat.zero_le j)) hFew
  obtain ⟨n, hCount, hSome, ⟨hLast, hCall⟩ | ⟨hInside, next, hNext, hCall⟩⟩ :=
    scanBy_call fits hStore hFewHere (hAsks j) hCursor
  · exact ⟨[_], .last (congrArg Prod.fst hCall), Nat.le_max_left 1 _⟩
  · obtain rfl : counts j = n := Int.ofNat.inj hCount
    have hPlace : begun counts j + counts j = begun counts (j + 1) := rfl
    rw [hSize, hPlace] at hInside
    rw [hPlace] at hNext
    have hShorter : (turns (j + 1)).row.length ≤ (turns j).row.length :=
      h.length_row_le (Nat.le_succ j)
    obtain ⟨others, hRest, hLength⟩ := finishes_from h hAsks hFew (j + 1) next hNext
    have hOther : next ≠ Octets.ofText "0" := by
      rintro rfl
      rw [int?_zero] at hNext
      have := Option.some.inj hNext
      omega
    refine ⟨_ :: others, .next (congrArg Prod.fst hCall) hOther hRest, ?_⟩
    rw [List.length_cons]
    omega
termination_by (turns j).row.length - begun counts j

end Iteration

end Scan

namespace Store

/-- A scan of a database to which no key is added, though any may go between its calls, each of
which may ask for another number of keys.

* It comes to its end.
* No key is answered twice, and none that was not there.
* A key that stays is answered, unless it is overtaken: between a call and the next, so many keys in
  front of it went that it fell from behind the next place to in front of it.
* So every key that stays is answered, if no key goes that was in front of the next place. -/
theorem scan_of_shrinking {turns : Nat → Scan.Turn} (hShrinking : Scan.Shrinking turns)
    {options : Nat → List Octets} {counts : Nat → Nat}
    (hAsks : ∀ j, Scan.Asks (options j) none none (counts j)) {c : Nat → Octets → Command}
    (hRequest : ∀ j cursor, (c j cursor).request? = some (.scan, cursor :: options j)) :
    let call (now : Float) (j : Nat) (cursor : Octets) : Step := run now (c j cursor)
    ((turns 0).liveKeys.length ≤ Number.tenTo Number.maxDigits →
      ∃ answers, Scan.Finishes call turns 0 (Octets.ofText "0") answers ∧
        answers.length ≤ max 1 (turns 0).liveKeys.length) ∧
    ∀ answers, Scan.Finishes call turns 0 (Octets.ofText "0") answers →
      answers.flatten.Nodup ∧
      (∀ key ∈ answers.flatten, ∃ j, key ∈ (turns j).liveKeys) ∧
      ∀ key, (∀ j < answers.length, key ∈ (turns j).liveKeys) →
        (key ∈ answers.flatten ↔
          ∀ j, j + 1 < answers.length → ¬ Scan.Overtaken counts turns j key) ∧
        ((∀ j, j + 1 < answers.length → ∀ k ∈ (turns j).liveKeys,
          (turns j).place k < Scan.begun counts (j + 1) → k ∈ (turns (j + 1)).liveKeys) →
            key ∈ answers.flatten) := by
  intro call
  have hCall : call = fun now j cursor => Scan.scanBy Octets.fitsGlob now cursor (options j) := by
    funext now j cursor
    have hMany : 1 ≤ (options j).length + 1 := Nat.le_add_left 1 _
    exact run_of_open (hRequest j cursor) rfl hMany
  have hLength : (turns 0).row.length = (turns 0).liveKeys.length :=
    (Scan.Turn.perm_row (hShrinking.apart 0)).length_eq
  rw [hCall]
  refine ⟨fun hFew => ?_, fun answers hFinishes => ?_⟩
  · rw [← hLength] at hFew ⊢
    exact Scan.finishes_from hShrinking hAsks hFew 0 _ Scan.int?_zero
  · refine ⟨hFinishes.nodup hShrinking hAsks Scan.int?_zero, fun key hKey => ?_,
      fun key hStays => ?_⟩
    · obtain ⟨j, -, hLive, -⟩ := hFinishes.found hShrinking hAsks Scan.int?_zero hKey
      exact ⟨j, hLive⟩
    · have hStaysHere (j : Nat) (_ : 0 ≤ j) (hj : j < 0 + answers.length) :
          key ∈ (turns j).liveKeys := hStays j (by omega)
      have hIff : key ∈ answers.flatten ↔
          ∀ j, j + 1 < answers.length → ¬ Scan.Overtaken counts turns j key := by
        rw [hFinishes.mem_iff hShrinking hAsks Scan.int?_zero hStaysHere]
        simp [Scan.begun]
      refine ⟨hIff, fun hKept => hIff.2 fun j hj => ?_⟩
      exact hShrinking.not_overtaken (hStays j (by omega)) (hKept j hj)

/-- A scan of five keys, two at a time. The fourth goes after the first call, which has not come by
it, and all others are answered. -/
theorem scan_of_shrinking_two :
    let held (keys : List UInt8) := single (keys.map fun k => ([k], { value := .string [118] }))
    let turns (j : Nat) : Scan.Turn :=
      if j = 0 then ⟨0.0, held [101, 98, 97, 100, 99]⟩ else ⟨1.0, held [101, 98, 97, 99]⟩
    let c (_ : Nat) (cursor : Octets) : Command :=
      ⟨.scan, [.octets cursor, .text "COUNT", .text "2"]⟩
    Scan.Shrinking turns ∧ Scan.Asks (["COUNT", "2"].map Octets.ofText) none none (2 : Nat) ∧
      ∃ answers, Scan.Finishes (fun now j cursor => run now (c j cursor)) turns 0
        (Octets.ofText "0") answers ∧ ∀ key ∈ (turns 1).liveKeys, key ∈ answers.flatten := by
  intro held turns c
  have hKeys : ∀ key ∈ (turns 1).liveKeys, key ∈ (turns 0).liveKeys := by decide +kernel
  have hShrinking : Scan.Shrinking turns := by
    constructor
    · intro j
      rcases j with _ | j
      · exact List.forall_mem_singleton.2 (by unfold Table.Distinct; decide +kernel)
      · exact List.forall_mem_singleton.2 (by unfold Table.Distinct; decide +kernel)
    · intro j
      rcases j with _ | j
      · exact hKeys
      · exact List.Subset.refl _
  have hTwo : Number.int? (Octets.ofText "2") = some ((2 : Nat) : Int) := by decide +kernel
  have hAsks : Scan.Asks (["COUNT", "2"].map Octets.ofText) none none (2 : Nat) :=
    Scan.asks_words none none hTwo (by decide)
  have hFew : (turns 0).liveKeys.length ≤ Number.tenTo Number.maxDigits := by decide +kernel
  obtain ⟨hEnds, hAnswers⟩ :=
    scan_of_shrinking hShrinking (fun _ => hAsks) (c := c) fun _ _ => rfl
  obtain ⟨answers, hFinishes, -⟩ := hEnds hFew
  refine ⟨hShrinking, hAsks, answers, hFinishes, fun key hKey => ?_⟩
  have hStays : ∀ j < answers.length, key ∈ (turns j).liveKeys := by
    intro j _
    rcases j with _ | j
    · exact hKeys key hKey
    · exact hKey
  refine ((hAnswers answers hFinishes).2.2 key hStays).2 fun j _ => ?_
  rcases j with _ | j
  · show ∀ k ∈ (turns 0).liveKeys, (turns 0).place k < 2 → k ∈ (turns 1).liveKeys
    decide +kernel
  · exact fun k hk _ => hk

/-- Of two keys, the first is answered and deleted, and the scan ends without the second, which was
there all the time. -/
theorem scan_skips_survivor :
    let s := single [([97], { value := .string [49] }), ([98], { value := .string [50] })]
    let scan (cursor : String) : Command := ⟨.scan, [.text cursor, .text "COUNT", .text "1"]⟩
    let first := run 0.0 (scan "0") s
    let between := (run 0.0 ⟨.del, [.text "a"]⟩ first.2).2
    let last := run 0.0 (scan "1") between
    first.1 = .ok (.list [.octets (Octets.ofText "1"), .list [.octets [97]]]) ∧
      last.1 = .ok (.list [.octets (Octets.ofText "0"), .list []]) ∧
      (s.live? 0.0 0 [98]).isSome = true ∧ (between.live? 0.0 0 [98]).isSome = true := by
  intro s scan first between last
  let t := single [([98], { value := .string [50] })]
  have hOne : Number.int? (Octets.ofText "1") = some ((1 : Nat) : Int) := by decide +kernel
  have hAsks : Scan.Asks (["COUNT", "1"].map Octets.ofText) none none (1 : Nat) :=
    Scan.asks_words none none hOne (by decide)
  have hRun (cursor : String) : run 0.0 (scan cursor) = Scan.scanBy Octets.fitsGlob 0.0
      (Octets.ofText cursor) (["COUNT", "1"].map Octets.ofText) := by
    have hRequest : (scan cursor).request? =
      some (.scan, Octets.ofText cursor :: ["COUNT", "1"].map Octets.ofText) := rfl
    exact run_of_open hRequest rfl (Nat.succ_le_succ (Nat.zero_le _))
  have hFirst : first = (.ok (.list [.octets (Octets.ofText "1"), .list [.octets [97]]]), s) := by
    have hStore : s.settleAll 0.0 s.selected = s := by decide +kernel
    have hSorted : Scan.sortedKeys (s.database s.selected) = [[97], [98]] :=
      Scan.sortedKeys_eq_self (by decide +kernel)
    have hText : Number.intText? (if 0 + 1 < (s.database s.selected).size then
        ((0 + 1 : Nat) : Int) else 0) = some "1" := by decide +kernel
    show run 0.0 (scan "0") s = _
    rw [hRun, Scan.scanBy_ok Octets.fitsGlob hStore hAsks Scan.int?_zero hText, hSorted,
      Scan.unfiltered]
    rfl
  have hBetween : between = t := by
    show (run 0.0 ⟨.del, [.text "a"]⟩ first.2).2 = t
    rw [hFirst]
    decide +kernel
  have hLast : last = (.ok (.list [.octets (Octets.ofText "0"), .list []]), t) := by
    have hStore : t.settleAll 0.0 t.selected = t := by decide +kernel
    have hSorted : Scan.sortedKeys (t.database t.selected) = [[98]] :=
      Scan.sortedKeys_eq_self (by decide +kernel)
    have hText : Number.intText? (if 1 + 1 < (t.database t.selected).size then
        ((1 + 1 : Nat) : Int) else 0) = some "0" := by decide +kernel
    show run 0.0 (scan "1") between = _
    rw [hBetween, hRun, Scan.scanBy_ok Octets.fitsGlob hStore hAsks hOne hText, hSorted,
      Scan.unfiltered]
    rfl
  rw [hFirst, hLast, hBetween]
  exact ⟨rfl, rfl, by decide +kernel, by decide +kernel⟩

end Store

end BatchStore
