import BatchStore.Proofs.Store.Footprint
import BatchStore.Proofs.Store.IndexRanges

/-!
# Popping

ZPOPMIN and ZPOPMAX take members off an end of the ranking and answer them. What is left is ranked
as it was, so the ranking behind the members that went is the ranking of the rest
(`Extreme.Ranks.rest`). That is why as many pops of one member each do the same as one pop of them
all.

A pop takes the front of the ranking up to a place, and a negative place is counted back from the
end. So a count of -1 does not leave the sorted set alone: it takes all but one member off
(`zpopmin_negative`). Of any count `takenOff` says how many members go.

`pops_extremes` is the result.
-/

namespace BatchStore

namespace SortedSets

/-! ## The ranking as an end sees it -/

namespace Extreme

/-- Whether a member is nearer to the end than another. -/
def isNearer : Extreme → Scored → Scored → Bool
  | least, m, n => Scored.isBefore m n
  | greatest, m, n => Scored.isBefore n m

/-- A row has the members of a sorted set without NaN, the nearest to the end first. -/
structure Ranks (e : Extreme) (scores : Table Datum Datum) (row : List Scored) : Prop where
  perm : row.Perm scores.entries
  order : row.Pairwise fun m n => e.isNearer m n = true
  apart : (row.map (·.1)).Nodup
  plain : ∀ m ∈ row, m.isPlain = true

theorem isNearer_asymm (e : Extreme) {m n : Scored} (hm : m.isPlain = true) (hn : n.isPlain = true)
    (hmn : e.isNearer m n = true) : e.isNearer n m = false := by
  have hAsymm {a b : Scored} (ha : a.isPlain = true) (hb : b.isPlain = true)
      (hab : Scored.isBefore a b = true) : Scored.isBefore b a = false := by
    obtain ⟨v, x, p, rfl, hx⟩ := Scored.exists_of_isPlain ha
    obtain ⟨w, y, q, rfl, hy⟩ := Scored.exists_of_isPlain hb
    rw [Scored.isBefore_iff hx hy] at hab
    rw [← Bool.not_eq_true', Scored.not_isBefore_iff hx hy]
    exact hab.imp_right fun ⟨hRank, hLess⟩ => ⟨hRank, List.not_lt.1 (List.lt_asymm hLess)⟩
  cases e with
  | least => exact hAsymm hm hn hmn
  | greatest => exact hAsymm hn hm hmn

namespace Ranks

variable {e : Extreme} {scores : Table Datum Datum} {row : List Scored}

/-- The ranking that a sort finds, as an end sees it. -/
theorem of_ranked {ordered : List Scored} (h : ranked scores.entries = .ok ordered)
    (hApart : scores.Distinct) (hPlain : scores.entries.all Scored.isPlain = true) (e : Extreme) :
    e.Ranks scores (match e with | .least => ordered | .greatest => ordered.reverse) := by
  have hPerm := ranked_perm h
  have hOrder := ranked_plain h hPlain hApart
  have hNodup : (ordered.map (·.1)).Nodup := (hPerm.map _).nodup_iff.2 hApart
  have hEach : ∀ m ∈ ordered, m.isPlain = true := fun m hm =>
    List.all_eq_true.1 hPlain m (hPerm.mem_iff.1 hm)
  cases e with
  | least => exact ⟨hPerm, hOrder, hNodup, hEach⟩
  | greatest =>
      refine ⟨(List.reverse_perm ordered).trans hPerm, List.pairwise_reverse.2 hOrder, ?_,
        fun m hm => hEach m (List.mem_reverse.1 hm)⟩
      rw [List.map_reverse]
      exact List.nodup_reverse.2 hNodup

/-- There is one ranking from an end. -/
theorem unique {other : List Scored} (h : e.Ranks scores row) (hOther : e.Ranks scores other) :
    row = other := by
  refine List.Perm.eq_of_pairwise (fun m n hm hn hmn hnm => ?_) h.order hOther.order
    (h.perm.trans hOther.perm.symm)
  rw [isNearer_asymm e (h.plain m hm) (hOther.plain n hn) hmn] at hnm
  cases hnm

theorem distinct (h : e.Ranks scores row) : scores.Distinct := (h.perm.map _).nodup_iff.1 h.apart

theorem all_isPlain (h : e.Ranks scores row) : scores.entries.all Scored.isPlain = true :=
  List.all_eq_true.2 fun m hm => h.plain m (h.perm.mem_iff.2 hm)

/-- The ranking behind some members is the ranking of what is left without them. -/
theorem rest (h : e.Ranks scores row) (k : Nat) :
    e.Ranks (scores.withoutEntries (row.take k)) (row.drop k) where
  perm := by
    have hParts : scores.entries.Perm (row.take k ++ row.drop k) := by
      rw [List.take_append_drop]
      exact h.perm.symm
    have hLeft := Table.perm_withoutEntries (row.take k) (row.drop k) scores hParts
    exact (List.perm_append_left_iff _).1 (hParts.symm.trans hLeft)
  order := h.order.sublist (List.drop_sublist k row)
  apart := h.apart.sublist ((List.drop_sublist k row).map _)
  plain := fun m hm => h.plain m (List.mem_of_mem_drop hm)

end Ranks

end Extreme

/-! ## What a pop takes off -/

/-- How many members of so many a pop takes off. -/
def takenOff (card : Nat) (count : Int) : Nat :=
  if 0 ≤ count then min count.toNat card else card - count.natAbs

/-- The window of a pop is the front of the row. -/
theorem window_front {α : Type} (row : List α) (count : Int) :
    window row 0 count = row.take (takenOff row.length count) := by
  have hEnd : place row.length count = takenOff row.length count := by
    unfold place takenOff
    split_ifs <;> omega
  have hStart : place row.length 0 = 0 := by
    unfold place
    rw [if_neg (by omega)]
    omega
  rw [window, hStart, hEnd, List.drop_zero]

/-- A pop takes members from the front of the ranking. -/
theorem extremes_eq {e : Extreme} {scores : Table Datum Datum} {row : List Scored}
    (h : e.Ranks scores row) (count : Int) :
    extremes scores e count = .ok (row.take (takenOff row.length count)) := by
  obtain ⟨ordered, hRanked⟩ := exists_ranked h.all_isPlain
  unfold extremes
  rw [inOrder_of_ranked hRanked, ← window_front,
    h.unique (.of_ranked hRanked h.distinct h.all_isPlain e)]
  rfl

/-- What a key holds once some members were taken off its sorted set. -/
def remaining (scores : Table Datum Datum) (deadline? : Option Float) (popped : List Scored) :
    Option Entry :=
  Entry.replaceUnlessEmpty (some { value := .zset scores, deadline? })
    (.zset (scores.withoutEntries popped))

section Remaining

variable {e : Extreme} {scores : Table Datum Datum} {row : List Scored}

theorem withoutEntries_take (scores : Table Datum Datum) (row : List Scored) (k n : Nat) :
    (scores.withoutEntries (row.take k)).withoutEntries ((row.drop k).take n) =
      scores.withoutEntries (row.take (k + n)) := by
  unfold Table.withoutEntries
  rw [← List.foldl_append, ← List.take_add]

/-- The set is gone once all members were taken off; what is left of it keeps the deadline. -/
theorem remaining_eq (h : e.Ranks scores row) (deadline? : Option Float) (k : Nat) :
    remaining scores deadline? (row.take k) =
      if row.length ≤ k then none
      else some { value := .zset (scores.withoutEntries (row.take k)), deadline? } := by
  have hEmpty : (Value.zset (scores.withoutEntries (row.take k))).isEmpty = true ↔
      row.length ≤ k := by
    show (scores.withoutEntries (row.take k)).entries.isEmpty = true ↔ _
    rw [← (h.rest k).perm.isEmpty_eq, List.isEmpty_iff, List.drop_eq_nil_iff]
  unfold remaining Entry.replaceUnlessEmpty
  simp only [hEmpty]
  rfl

/-- A pop on a sorted set. -/
theorem zpopStep_eq (h : e.Ranks scores row) (deadline? : Option Float) (count : Int) :
    zpopStep e count (some { value := .zset scores, deadline? }) =
      .ok (.mapping (row.take (takenOff row.length count)),
        remaining scores deadline? (row.take (takenOff row.length count))) := by
  show (extremes scores e count >>= _) = _
  rw [extremes_eq h]
  rfl

/-- A pop of one member behind others. -/
theorem zpopStep_next (h : e.Ranks scores row) (deadline? : Option Float) (k : Nat) :
    zpopStep e 1 (remaining scores deadline? (row.take k)) =
      .ok (.mapping ((row.drop k).take 1), remaining scores deadline? (row.take (k + 1))) := by
  rw [remaining_eq h, remaining_eq h]
  by_cases hGone : row.length ≤ k
  · rw [if_pos hGone, if_pos (by omega), List.drop_of_length_le hGone]
    rfl
  · have hOne : takenOff (row.drop k).length 1 = 1 := by
      unfold takenOff
      rw [if_pos (by omega), List.length_drop]
      omega
    rw [if_neg hGone, zpopStep_eq (h.rest k), hOne, remaining_eq (h.rest k),
      withoutEntries_take, List.length_drop]
    simp only [Nat.sub_le_iff_le_add, Nat.add_comm]

end Remaining

/-! ## Commands that pop -/

/-- The type of the commands that pop from an end. -/
def Extreme.type : Extreme → CommandType
  | least => .zpopmin
  | greatest => .zpopmax

/-- A command asks to pop so many members from an end; without a number, it asks for one. -/
def Extreme.Asks (e : Extreme) (c : Command) (key : Octets) (count : Int) : Prop :=
  (∃ word, c.request? = some (e.type, [key, word]) ∧ Number.int? word = some count) ∨
    c.request? = some (e.type, [key]) ∧ count = 1

theorem run_asks {e : Extreme} {c : Command} {key : Octets} {count : Int}
    (h : e.Asks c key count) (now : Float) (s : Store) :
    Store.run now c s = Store.onKey now key (zpopStep e count) s := by
  rcases h with ⟨word, hRequest, hWord⟩ | ⟨hRequest, rfl⟩
  · have hRead : (some word).mapM readInt = .ok (some count) := by
      show (readInt word >>= _) = _
      rw [readInt_of_int? hWord]
      rfl
    have hPop : zpop now e key (some word) s = Store.onKey now key (zpopStep e count) s := by
      unfold zpop
      rw [hRead]
      rfl
    rw [Store.run_of_request? hRequest, ← hPop]
    cases e <;> rfl
  · rw [Store.run_of_request? hRequest]
    cases e <;> rfl

end SortedSets

namespace Store

open SortedSets

section Pops

variable {now : Float} {s : Store} {key : Octets} {scores : Table Datum Datum}
  {deadline? : Option Float} {e : Extreme} {row : List Scored} {c : Command}

/-- A pop takes as many members off as it asks for and leaves the others at the key. -/
theorem run_pop
    (hLive : s.live? now s.selected key = some { value := .zset scores, deadline? })
    (hRow : e.Ranks scores row) {count : Int} (hAsks : e.Asks c key count) :
    run now c s =
      (.ok (.mapping (row.take (takenOff row.length count))),
        s.setEntry s.selected key
          (remaining scores deadline? (row.take (takenOff row.length count)))) := by
  obtain ⟨hHeld, hStays⟩ := (live?_eq_some_iff s now s.selected key _).1 hLive
  have hSettled : s.settle now s.selected key = s := by
    refine settle_eq_self fun e he => ?_
    obtain rfl := Option.some.inj (he.symm.trans hHeld)
    exact hStays
  have hStep : zpopStep e count (s.live? now s.selected key) = _ :=
    hLive ▸ zpopStep_eq hRow deadline? count
  rw [run_asks hAsks, onKey_ok hStep, hSettled]

/-- A pop of one member behind others takes the next one off: what they left has the deadline of the
live entry, so it shows as well. -/
theorem run_pop_next
    (hLive : s.live? now s.selected key = some { value := .zset scores, deadline? })
    (hRow : e.Ranks scores row) (k : Nat) (hAsks : e.Asks c key 1) :
    run now c (s.setEntry s.selected key (remaining scores deadline? (row.take k))) =
      (.ok (.mapping ((row.drop k).take 1)),
        s.setEntry s.selected key (remaining scores deadline? (row.take (k + 1)))) := by
  obtain ⟨popped, hPopped⟩ : ∃ popped, s.setEntry s.selected key
      (remaining scores deadline? (row.take k)) = popped := ⟨_, rfl⟩
  have hSelected : popped.selected = s.selected := hPopped ▸ rfl
  have hHeld : popped.held? s.selected key = remaining scores deadline? (row.take k) := by
    rw [← hPopped, held?_setEntry, if_pos ⟨rfl, lt_of_live? hLive, rfl⟩]
  have hStays : ∀ e, popped.held? s.selected key = some e → e.isExpired now = false := by
    intro e he
    rw [hHeld, remaining_eq hRow] at he
    split at he
    · cases he
    · cases he
      exact ((live?_eq_some_iff s now s.selected key _).1 hLive).2
  have hShown : popped.live? now s.selected key = remaining scores deadline? (row.take k) := by
    rw [live?_eq_shown?, ← hHeld]
    cases hEntry : popped.held? s.selected key with
    | none => rfl
    | some e => simp [Entry.shown?, Option.filter_some, hStays e hEntry]
  have hStep : zpopStep e 1 (popped.live? now popped.selected key) = _ :=
    hSelected ▸ hShown ▸ zpopStep_next hRow deadline? k
  rw [hPopped, run_asks hAsks, onKey_ok hStep, hSelected, settle_eq_self hStays, ← hPopped,
    setEntry_setEntry]
  rw [remaining_eq hRow, remaining_eq hRow]
  intro hGone
  split at hGone
  · rw [if_pos (by omega)]
  · cases hGone

/-- Pops of one member each, one after another, take the next members off in turn. -/
theorem pipeline_pops
    (hLive : s.live? now s.selected key = some { value := .zset scores, deadline? })
    (hRow : e.Ranks scores row) {cs : List Command} (hAsks : ∀ c ∈ cs, e.Asks c key 1) (k : Nat) :
    ∃ replies : List (List Scored), replies.flatten = (row.drop k).take cs.length ∧
      pipeline (run now) cs
          (s.setEntry s.selected key (remaining scores deadline? (row.take k))) =
        (.ok (replies.map .mapping),
          s.setEntry s.selected key (remaining scores deadline? (row.take (k + cs.length)))) := by
  induction cs generalizing k with
  | nil => exact ⟨[], by simp, rfl⟩
  | cons c cs ih =>
      have hFirst := run_pop_next hLive hRow k (hAsks c List.mem_cons_self)
      obtain ⟨replies, hReplies, hOthers⟩ :=
        ih (fun d hd => hAsks d (List.mem_cons_of_mem c hd)) (k + 1)
      refine ⟨(row.drop k).take 1 :: replies, ?_, ?_⟩
      · rw [List.flatten_cons, hReplies, ← List.drop_drop, ← List.take_add, List.length_cons,
          Nat.add_comm]
      · rw [pipeline_ok hFirst, hOthers, List.length_cons, Nat.add_right_comm]
        rfl

end Pops

/-- What ZPOPMIN and ZPOPMAX do to a live key with a sorted set without NaN. From either end there
is a row of all members, the nearest to the end first:

* A pop answers the front of the row, as many members as `takenOff` says. The others stay at the key
  with their scores and the deadline, and the key is gone exactly if there are none. Nothing else in
  the store changes.
* A pop of one member or more answers and leaves what as many pops of one member do, one after
  another. -/
theorem pops_extremes {now : Float} {s : Store} {key : Octets} {scores : Table Datum Datum}
    {deadline? : Option Float}
    (hLive : s.live? now s.selected key = some { value := .zset scores, deadline? })
    (hApart : scores.Distinct) (hPlain : scores.entries.all Scored.isPlain = true) (e : Extreme) :
    ∃ row : List Scored, row.Perm scores.entries ∧
      (row.Pairwise fun m n => e.isNearer m n = true) ∧
      (∀ (c : Command) (count : Int), e.Asks c key count →
        ∃ (k : Nat) (after : Store), k = takenOff row.length count ∧
          run now c s = (.ok (.mapping (row.take k)), after) ∧
          s.KeptOutside [(s.selected, key)] after ∧
          (after.held? s.selected key = none ↔ row.length ≤ k) ∧
          ∀ entry, after.held? s.selected key = some entry → ∃ left : Table Datum Datum,
            entry = { value := .zset left, deadline? } ∧ left.entries.Perm (row.drop k)) ∧
      ∀ (c : Command) (n : Nat) (cs : List Command), 0 < n → e.Asks c key n → cs.length = n →
        (∀ d ∈ cs, e.Asks d key 1) →
        ∃ replies : List (List Scored), (run now c s).1 = .ok (.mapping replies.flatten) ∧
          pipeline (run now) cs s = (.ok (replies.map .mapping), (run now c s).2) := by
  obtain ⟨ordered, hRanked⟩ := exists_ranked hPlain
  obtain ⟨row, hRow⟩ : ∃ row, e.Ranks scores row := ⟨_, .of_ranked hRanked hApart hPlain e⟩
  refine ⟨row, hRow.perm, hRow.order, fun c count hAsks => ?_,
    fun c n cs hSome hAsks hCount hOne => ?_⟩
  · obtain ⟨k, hk⟩ : ∃ k, takenOff row.length count = k := ⟨_, rfl⟩
    have hRun := run_pop hLive hRow hAsks
    rw [hk] at hRun
    have hHeld : (s.setEntry s.selected key (remaining scores deadline? (row.take k))).held?
        s.selected key = if row.length ≤ k then none
          else some { value := .zset (scores.withoutEntries (row.take k)), deadline? } := by
      rw [held?_setEntry, if_pos ⟨rfl, lt_of_live? hLive, rfl⟩, remaining_eq hRow]
    refine ⟨k, _, hk.symm, hRun, .setEntry s List.mem_cons_self _, ?_, fun entry hEntry => ?_⟩
    · rw [hHeld]
      split <;> simp_all
    · rw [hHeld] at hEntry
      split at hEntry
      · cases hEntry
      · cases hEntry
        exact ⟨_, rfl, (hRow.rest k).perm.symm⟩
  · cases cs with
    | nil => exact absurd hCount hSome.ne
    | cons d ds =>
        have hFront (k : Nat) : row.take (takenOff row.length k) = row.take k := by
          unfold takenOff
          rw [if_pos (by omega), Int.toNat_natCast, ← List.take_eq_take_min]
        have hBulk := run_pop hLive hRow hAsks
        have hFirst := run_pop hLive hRow (hOne d List.mem_cons_self)
        obtain ⟨replies, hReplies, hOthers⟩ :=
          pipeline_pops hLive hRow (fun c hc => hOne c (List.mem_cons_of_mem d hc)) 1
        rw [hFront] at hBulk
        rw [← Nat.cast_one, hFront] at hFirst
        have hAll : 1 + ds.length = n := by rw [Nat.add_comm, ← hCount, List.length_cons]
        rw [hBulk]
        refine ⟨row.take 1 :: replies, ?_, ?_⟩
        · rw [List.flatten_cons, hReplies, ← List.take_add, hAll]
        · rw [pipeline_ok hFirst, hOthers, hAll]
          rfl

/-- Of two members the one with the smaller score is popped, and the other stays for as long as
before. -/
theorem pops_extremes_two :
    let scores : Table Datum Datum :=
      .ofList [(.octets [109], .real 1.5), (.octets [97], .real 0.5)]
    let s := single [([122], { value := .zset scores, deadline? := some 100.0 })]
    (run 0.0 ⟨.zpopmin, [.text "z"]⟩ s).1 = .ok (.mapping [(.octets [97], .real 0.5)]) ∧
      (run 0.0 ⟨.zpopmin, [.text "z"]⟩ s).2.held? 0 [122] =
        some { value := .zset ⟨[(.octets [109], .real 1.5)]⟩, deadline? := some 100.0 } := by
  intro scores s
  have hLive : s.live? 0.0 s.selected [122] =
      some { value := .zset scores, deadline? := some 100.0 } := by decide +kernel
  have hApart : scores.Distinct := by
    unfold Table.Distinct
    decide +kernel
  have hPlain : scores.entries.all Scored.isPlain = true := by decide +kernel
  obtain ⟨row, hPerm, hOrder, hPop, -⟩ := pops_extremes hLive hApart hPlain .least
  have hSorted : Extreme.least.Ranks scores
      [(.octets [97], .real 0.5), (.octets [109], .real 1.5)] := by
    constructor
    · exact List.Perm.swap _ _ _
    · decide +kernel
    · decide +kernel
    · decide +kernel
  have hRow : Extreme.least.Ranks scores row :=
    ⟨hPerm, hOrder, (hPerm.map _).nodup_iff.2 hApart,
      fun m hm => List.all_eq_true.1 hPlain m (hPerm.mem_iff.1 hm)⟩
  obtain rfl := hRow.unique hSorted
  obtain ⟨k, after, hk, hRun, -, hGone, hLeft⟩ :=
    hPop ⟨.zpopmin, [.text "z"]⟩ 1 (.inr ⟨rfl, rfl⟩)
  obtain rfl : k = 1 := hk
  rw [hRun]
  refine ⟨rfl, ?_⟩
  cases hHeld : after.held? 0 [122] with
  | none => exact absurd (hGone.1 hHeld) (by decide)
  | some entry =>
      obtain ⟨left, rfl, hOne⟩ := hLeft entry hHeld
      obtain rfl : left = ⟨_⟩ := congrArg Table.mk (List.perm_singleton.1 hOne)
      rfl

/-- ZPOPMIN with a count of -1 pops one of two members, where a count kept from falling below zero
would pop none. -/
theorem zpopmin_negative :
    let row : List Scored := [(.octets [97], .real 1.0), (.octets [98], .real 2.0)]
    let s := single [([122], { value := .zset ⟨row⟩ })]
    (run 0.0 ⟨.zpopmin, [.text "z", .text "-1"]⟩ s).1 =
        .ok (.mapping [(.octets [97], .real 1.0)]) ∧
      (run 0.0 ⟨.zpopmin, [.text "z", .text "-1"]⟩ s).2.held? 0 [122] =
        some { value := .zset ⟨[(.octets [98], .real 2.0)]⟩ } ∧
      row.take (min (max (-1 : Int) 0) 2).toNat = [] := by
  intro row s
  have hRow : Extreme.least.Ranks ⟨row⟩ row := by
    constructor
    · exact .refl _
    · decide +kernel
    · decide +kernel
    · decide +kernel
  have hLive : s.live? 0.0 s.selected [122] = some { value := .zset ⟨row⟩, deadline? := none } := by
    decide +kernel
  have hNumber : Number.int? (Octets.ofText "-1") = some (-1) := by decide +kernel
  have hRun := run_pop hLive hRow (.inl ⟨Octets.ofText "-1", rfl, hNumber⟩)
    (c := ⟨.zpopmin, [.text "z", .text "-1"]⟩)
  rw [hRun]
  decide +kernel

end Store

end BatchStore
