import Mathlib.Data.Finset.Card
import BatchStore.Proofs.Options.Said
import BatchStore.Proofs.Store.Collection

/-!
# Lists as double-ended queues, sets as finite sets

The commands of lists are refined by a row of octet strings that is added to and taken from at
either end, one element at a time; the commands of sets by a finite set. A list in the store is that
row, element by element. A set in the store is a row as well, in the order in which the members
came, so it shows a finite set only up to order (`Sets.Enumerates`), and the counts in replies are
differences of lengths, which have to be shown to be the cardinalities that are meant.
-/

namespace BatchStore

/-! ## Double-ended queues -/

namespace Lists

/-- The operations of a double-ended queue. -/
inductive Op where
  | push (e : End) (elements : List Octets)
  | pop (e : End)
  | length

/-- One more element at an end. -/
def pushOne (e : End) (xs : List Octets) (w : Octets) : List Octets :=
  match e with
  | .left => w :: xs
  | .right => xs ++ [w]

/-- The element at an end. -/
def atEnd? (e : End) (xs : List Octets) : Option Octets :=
  match e with
  | .left => xs.head?
  | .right => xs.getLast?

/-- One element less at an end. -/
def dropOne (e : End) (xs : List Octets) : List Octets :=
  match e with
  | .left => xs.tail
  | .right => xs.dropLast

namespace Op

def next : Op → List Octets → List Octets
  | push e elements, xs => elements.foldl (pushOne e) xs
  | pop e, xs => dropOne e xs
  | length, xs => xs

/-- A push answers the new length, a pop the element or that there is none. -/
def answer : Op → List Octets → Datum
  | push e elements, xs => .int ((push e elements).next xs).length
  | pop e, xs => (atEnd? e xs).elim .null .octets
  | length, xs => .int xs.length

def change : Op → Datum → Int
  | push _ elements, _ => elements.length
  | pop _, d => if d = .null then 0 else -1
  | length, _ => 0

def Asks : Op → CommandType → List Octets → Prop
  | push e elements, t, words =>
    t = (match e with | .left => .lpush | .right => .rpush) ∧ words = elements ∧ elements ≠ []
  | pop e, t, words => t = (match e with | .left => .lpop | .right => .rpop) ∧ words = []
  | length, t, words => t = .llen ∧ words = []

end Op

/-- Lists as double-ended queues. -/
def deque : Collection (List Octets) Op (List Datum) where
  empty := []
  card := List.length
  next := Op.next
  Answers := fun op xs d => d = op.answer xs
  change := Op.change
  Asks := Op.Asks
  inside? := Value.list?
  nothing := []
  Shows := fun xs items => items = xs.map .octets

/-- A list in the store is pushed to one element at a time, so that the last one stands at the
end. -/
theorem push_eq (xs : List Octets) (e : End) (elements : List Octets) :
    push (xs.map .octets) e elements = (elements.foldl (pushOne e) xs).map .octets := by
  induction elements generalizing xs with
  | nil => cases e <;> simp [push]
  | cons w rest ih =>
      rw [List.foldl_cons, ← ih]
      cases e <;> simp [push, pushOne]

/-- Each element that is pushed counts. -/
theorem length_push (e : End) (elements xs : List Octets) :
    (elements.foldl (pushOne e) xs).length = xs.length + elements.length := by
  induction elements generalizing xs with
  | nil => rfl
  | cons w rest ih =>
      rw [List.foldl_cons, ih]
      cases e <;> simp [pushOne] <;> omega

theorem length_dropOne (e : End) (xs : List Octets) : (dropOne e xs).length = xs.length - 1 := by
  cases e
  · exact List.length_tail
  · exact List.length_dropLast

/-- There is no element at either end just of the empty row. -/
theorem atEnd?_eq_none_iff (e : End) (xs : List Octets) : atEnd? e xs = none ↔ xs.length = 0 := by
  rw [List.length_eq_zero_iff]
  cases e
  · exact List.head?_eq_none_iff
  · exact List.getLast?_eq_none_iff

/-- What is popped of a list in the store is the element at the end, if there is one. -/
theorem pop?_eq (xs : List Octets) (e : End) : pop? (xs.map .octets) e =
    (atEnd? e xs).map fun w => (.octets w, (dropOne e xs).map .octets) := by
  cases e with
  | left => cases xs <;> rfl
  | right =>
      show (xs.map Datum.octets).getLast?.map _ = _
      rw [List.getLast?_map, Option.map_map, ← List.map_dropLast]
      rfl

/-- The length changes by what the replies say: an element for each push, and one less for an answer
to a pop. -/
theorem deque_counts {op : Op} {xs : List Octets} {d : Datum} (h : d = op.answer xs) :
    ((op.next xs).length : Int) = xs.length + op.change d := by
  subst h
  cases op with
  | push e elements =>
      show ((elements.foldl (pushOne e) xs).length : Int) = xs.length + elements.length
      rw [length_push, Int.natCast_add]
  | pop e =>
      show ((dropOne e xs).length : Int) = xs.length +
        if (atEnd? e xs).elim .null .octets = Datum.null then 0 else -1
      rw [length_dropOne]
      have hEmpty := atEnd?_eq_none_iff e xs
      cases hEnd : atEnd? e xs with
      | none =>
          have hZero := hEmpty.1 hEnd
          show _ = _ + 0
          omega
      | some w =>
          have hSome : xs.length ≠ 0 := fun hZero => nomatch hEnd.symm.trans (hEmpty.2 hZero)
          show _ = _ + -1
          omega
  | length =>
      show (xs.length : Int) = xs.length + 0
      omega

section Steps

variable {xs : List Octets} {seen : Option Entry}

/-- A missing key shows the empty row. -/
theorem nothing_shows (h : deque.card xs = 0) : deque.Shows xs deque.nothing := by
  rw [List.length_eq_zero_iff.1 h]
  rfl

/-- A push answers with the length that it comes to, and leaves the longer row at the key. -/
theorem pushStep_refines (hHeld : deque.Held xs seen) (e : End) {elements : List Octets}
    (hSome : elements ≠ []) :
    ∃ e?, pushStep e elements seen = .ok ((Op.push e elements).answer xs, e?) ∧
      deque.Held ((Op.push e elements).next xs) e? := by
  have hLonger : 0 < (elements.foldl (pushOne e) xs).length := by
    have := List.length_pos_of_ne_nil hSome
    rw [length_push]
    omega
  refine hHeld.writes nothing_shows (fun items => .int (push items e elements).length)
    (fun items => .list (push items e elements)) hLonger ?_
  rintro items rfl
  refine ⟨?_, _, rfl, push_eq xs e elements⟩
  rw [push_eq, List.length_map]
  rfl

theorem popStep_ok {e : End} {items? : Option (List Datum)}
    (h : expect Value.list? seen = .ok items?) :
    popStep e seen = match pop? (items?.getD []) e with
      | none => keep seen .null
      | some (element, new) => .ok (element, Entry.replaceUnlessEmpty seen (.list new)) := by
  unfold popStep
  rw [h]
  rfl

/-- A pop answers with the element at its end, or with nothing of an empty row, and leaves the
rest. -/
theorem popStep_refines (hHeld : deque.Held xs seen) (e : End) :
    ∃ e?, popStep e seen = .ok ((Op.pop e).answer xs, e?) ∧ deque.Held ((Op.pop e).next xs) e? := by
  obtain ⟨items?, hExpect, hItems, -⟩ := hHeld.expect nothing_shows
  have hPop : pop? (items?.getD []) e =
      (atEnd? e xs).map fun w => (.octets w, (dropOne e xs).map .octets) := by
    rw [← pop?_eq]
    exact congrArg (pop? · e) hItems
  cases hEnd : atEnd? e xs with
  | none =>
      have hZero := (atEnd?_eq_none_iff e xs).1 hEnd
      have hLeft : dropOne e xs = xs := by
        rw [List.length_eq_zero_iff.1 hZero]
        cases e <;> rfl
      have hAnswer : (Op.pop e).answer xs = .null := by
        show (atEnd? e xs).elim Datum.null Datum.octets = _
        rw [hEnd]
        rfl
      refine ⟨seen, ?_, ?_⟩
      · rw [hAnswer, popStep_ok hExpect, hPop, hEnd]
        rfl
      · show deque.Held (dropOne e xs) seen
        rw [hLeft]
        exact hHeld
  | some w =>
      have hAnswer : (Op.pop e).answer xs = .octets w := by
        show (atEnd? e xs).elim Datum.null Datum.octets = _
        rw [hEnd]
        rfl
      refine ⟨Entry.replaceUnlessEmpty seen (.list ((dropOne e xs).map .octets)), ?_, ?_⟩
      · rw [hAnswer, popStep_ok hExpect, hPop, hEnd]
        rfl
      · refine hHeld.replaceUnlessEmpty ?_ rfl rfl
        show (List.map Datum.octets (dropOne e xs)).isEmpty = true ↔ (dropOne e xs).length = 0
        rw [List.isEmpty_iff, List.map_eq_nil_iff, List.length_eq_zero_iff]

theorem llen_refines (hHeld : deque.Held xs seen) :
    llen seen = .ok (Op.length.answer xs, seen) := by
  obtain ⟨items, hItems, hRead⟩ := hHeld.reads nothing_shows fun items => .int items.length
  have hLength : (items.length : Int) = xs.length := by
    rw [show items = xs.map .octets from hItems, List.length_map]
  rw [hLength] at hRead
  exact hRead

end Steps

/-- Each command of lists runs as its operation of the double-ended queue, on every row that is at
the key. -/
theorem deque_refined : deque.Refined where
  start := rfl
  counts := deque_counts
  step := by
    rintro (⟨e, elements⟩ | e | _) t words hAsks now key
    · obtain ⟨rfl, rfl, hSome⟩ := hAsks
      refine ⟨pushStep e words, ?_, ?_, fun hHeld => ?_⟩
      · cases e <;> exact CommandType.admits_words rfl rfl hSome
      · cases e <;> rfl
      · obtain ⟨e?, hStep, hNext⟩ := pushStep_refines hHeld e hSome
        exact ⟨_, e?, hStep, rfl, hNext⟩
    · obtain ⟨rfl, rfl⟩ := hAsks
      refine ⟨popStep e, ?_, ?_, fun hHeld => ?_⟩
      · cases e <;> decide
      · cases e <;> rfl
      · obtain ⟨e?, hStep, hNext⟩ := popStep_refines hHeld e
        exact ⟨_, e?, hStep, rfl, hNext⟩
    · obtain ⟨rfl, rfl⟩ := hAsks
      exact ⟨llen, by decide, rfl, fun hHeld => ⟨_, _, llen_refines hHeld, rfl, hHeld⟩⟩

end Lists

/-! ## Finite sets -/

namespace Sets

/-- The operations of a finite set. -/
inductive Op where
  | add (members : List Octets)
  | remove (members : List Octets)
  | members
  | isMember (m : Octets)
  | card

/-- A row of values has the members of a finite set, each once. -/
structure Enumerates (S : Finset Octets) (items : List Datum) : Prop where
  once : items.Nodup
  mem : ∀ x, x ∈ items ↔ ∃ m ∈ S, x = .octets m

namespace Op

def next : Op → Finset Octets → Finset Octets
  | add ms, S => S ∪ ms.toFinset
  | remove ms, S => S \ ms.toFinset
  | members, S | isMember _, S | card, S => S

/-- The writes answer how many members are new, or how many were there to be taken out. -/
def Answers : Op → Finset Octets → Datum → Prop
  | add ms, S, d => d = .int (ms.toFinset \ S).card
  | remove ms, S, d => d = .int (S ∩ ms.toFinset).card
  | members, S, d => ∃ items, d = .set items ∧ Enumerates S items
  | isMember m, S, d => d = .bool (decide (m ∈ S))
  | card, S, d => d = .int S.card

def change : Op → Datum → Int
  | add _, d => d.wholeOr 0
  | remove _, d => -d.wholeOr 0
  | members, _ | isMember _, _ | card, _ => 0

def Asks : Op → CommandType → List Octets → Prop
  | add ms, t, words => t = .sadd ∧ words = ms ∧ ms ≠ []
  | remove ms, t, words => t = .srem ∧ words = ms ∧ ms ≠ []
  | members, t, words => t = .smembers ∧ words = []
  | isMember m, t, words => t = .sismember ∧ words = [m]
  | card, t, words => t = .scard ∧ words = []

end Op

/-- Sets as finite sets. -/
def finiteSet : Collection (Finset Octets) Op (List Datum) where
  empty := ∅
  card := Finset.card
  next := Op.next
  Answers := Op.Answers
  change := Op.change
  Asks := Op.Asks
  inside? := Value.set?
  nothing := []
  Shows := Enumerates

namespace Enumerates

variable {S : Finset Octets} {items : List Datum}

/-- A member is in the row that enumerates a set just if it is in the set. -/
theorem octets_mem (h : Enumerates S items) (m : Octets) : .octets m ∈ items ↔ m ∈ S := by
  rw [h.mem]
  constructor
  · rintro ⟨w, hw, hSame⟩
    cases hSame
    exact hw
  · exact fun hm => ⟨m, hm, rfl⟩

/-- A row that enumerates a set is as long as the set is large, having no member twice. -/
theorem length_eq (h : Enumerates S items) : items.length = S.card := by
  have hSame : items.toFinset = S.image .octets := by
    ext x
    rw [List.mem_toFinset, h.mem, Finset.mem_image]
    exact exists_congr fun m => and_congr_right fun _ => eq_comm
  rw [← List.toFinset_card_of_nodup h.once, hSame,
    Finset.card_image_of_injective S fun _ _ hSame => Datum.octets.inj hSame]

theorem contains_eq (h : Enumerates S items) (m : Octets) :
    items.contains (.octets m) = decide (m ∈ S) := by
  rw [List.contains_eq_mem]
  exact decide_eq_decide.2 (h.octets_mem m)

/-- A member that is there is not inserted again, so that no member is in the row twice. -/
theorem insert (h : Enumerates S items) (m : Octets) :
    Enumerates (Insert.insert m S) (Sets.insert items m) := by
  unfold Sets.insert
  rw [h.contains_eq]
  by_cases hm : m ∈ S
  · rw [if_pos (decide_eq_true hm), Finset.insert_eq_self.2 hm]
    exact h
  · rw [if_neg (by simpa using hm)]
    constructor
    · refine List.nodup_append.2 ⟨h.once, List.nodup_singleton _, ?_⟩
      rintro x hx y hy rfl
      rw [List.mem_singleton.1 hy, h.octets_mem] at hx
      exact hm hx
    · intro x
      rw [List.mem_append, h.mem, List.mem_singleton]
      constructor
      · rintro (⟨w, hw, rfl⟩ | rfl)
        · exact ⟨w, Finset.mem_insert_of_mem hw, rfl⟩
        · exact ⟨m, Finset.mem_insert_self m S, rfl⟩
      · rintro ⟨w, hw, rfl⟩
        rcases Finset.mem_insert.1 hw with rfl | hOld
        · exact .inr rfl
        · exact .inl ⟨w, hOld, rfl⟩

/-- Members inserted one after another make the union. -/
theorem insertAll (h : Enumerates S items) (ms : List Octets) :
    Enumerates (S ∪ ms.toFinset) (Sets.insertAll items ms) := by
  induction ms generalizing S items with
  | nil =>
      show Enumerates (S ∪ ∅) items
      rwa [Finset.union_empty]
  | cons m rest ih =>
      have hRest := ih (h.insert m)
      rwa [Finset.insert_union, ← Finset.union_insert, ← List.toFinset_cons] at hRest

/-- Members erased one after another leave the difference. -/
theorem eraseAll (h : Enumerates S items) (ms : List Octets) :
    Enumerates (S \ ms.toFinset) (Sets.eraseAll items ms) := by
  constructor
  · exact h.once.filter _
  · intro x
    unfold Sets.eraseAll
    rw [List.mem_filter, h.mem]
    constructor
    · rintro ⟨⟨m, hm, rfl⟩, hKept⟩
      refine ⟨m, ?_, rfl⟩
      rw [Finset.mem_sdiff, List.mem_toFinset]
      exact ⟨hm, by simpa using hKept⟩
    · rintro ⟨m, hm, rfl⟩
      rw [Finset.mem_sdiff, List.mem_toFinset] at hm
      exact ⟨⟨m, hm.1, rfl⟩, by simpa using hm.2⟩

end Enumerates

/-- The members that are added are those that were not there. -/
theorem card_add (S : Finset Octets) (ms : List Octets) :
    (S ∪ ms.toFinset).card = S.card + (ms.toFinset \ S).card := by
  rw [Finset.union_comm, ← Finset.card_sdiff_add_card, Nat.add_comm]

theorem card_remove (S : Finset Octets) (ms : List Octets) :
    (S \ ms.toFinset).card + (S ∩ ms.toFinset).card = S.card :=
  Finset.card_sdiff_add_card_inter S ms.toFinset

/-- The size changes by what the replies say: members that were not there, and members that were. -/
theorem finiteSet_counts {op : Op} {S : Finset Octets} {d : Datum} (h : op.Answers S d) :
    ((op.next S).card : Int) = S.card + op.change d := by
  cases op with
  | add ms =>
      rw [show d = _ from h]
      show ((S ∪ ms.toFinset).card : Int) = S.card + (ms.toFinset \ S).card
      rw [card_add, Int.natCast_add]
  | remove ms =>
      rw [show d = _ from h]
      have hSplit := card_remove S ms
      show ((S \ ms.toFinset).card : Int) = S.card + -((S ∩ ms.toFinset).card : Int)
      omega
  | members | isMember | card =>
      show (S.card : Int) = S.card + 0
      omega

section Steps

variable {S : Finset Octets} {seen : Option Entry}

/-- A missing key shows the empty set. -/
theorem nothing_shows (h : finiteSet.card S = 0) : finiteSet.Shows S finiteSet.nothing := by
  rw [Finset.card_eq_zero.1 h]
  exact ⟨List.nodup_nil, fun x => by simp [finiteSet]⟩

/-- SADD answers with the number of members that were not there, however often each is given. -/
theorem sadd_refines (hHeld : finiteSet.Held S seen) {ms : List Octets} (hSome : ms ≠ []) :
    ∃ e?, sadd ms seen = .ok (.int (ms.toFinset \ S).card, e?) ∧
      finiteSet.Held (S ∪ ms.toFinset) e? := by
  have hCard := card_add S ms
  have hMember : 0 < (S ∪ ms.toFinset).card := by
    obtain ⟨m, hm⟩ := List.exists_mem_of_ne_nil ms hSome
    exact Finset.card_pos.2 ⟨m, Finset.mem_union_right S (List.mem_toFinset.2 hm)⟩
  refine hHeld.writes nothing_shows (fun items => .int ((insertAll items ms).length - items.length))
    (fun items => .set (insertAll items ms)) hMember fun items hItems => ?_
  have hOld : items.length = S.card := hItems.length_eq
  have hNew : (insertAll items ms).length = (S ∪ ms.toFinset).card :=
    (hItems.insertAll ms).length_eq
  exact ⟨congrArg Datum.int (by omega), _, rfl, hItems.insertAll ms⟩

/-- SREM answers with the number of members that were there, however often each is given. -/
theorem srem_refines (hHeld : finiteSet.Held S seen) (ms : List Octets) :
    ∃ e?, srem ms seen = .ok (.int (S ∩ ms.toFinset).card, e?) ∧
      finiteSet.Held (S \ ms.toFinset) e? := by
  obtain ⟨items?, hExpect, hItems, hNone⟩ := hHeld.expect nothing_shows
  cases items? with
  | none =>
      obtain ⟨hZero, rfl⟩ := hNone rfl
      obtain rfl : S = ∅ := Finset.card_eq_zero.1 hZero
      rw [Finset.empty_inter, Finset.empty_sdiff]
      exact ⟨none, rfl, hHeld⟩
  | some items =>
      have hLeft := hItems.eraseAll ms
      have hLength : (Sets.eraseAll items ms).length = (S \ ms.toFinset).card := hLeft.length_eq
      have hGone : (items.length : Int) - (Sets.eraseAll items ms).length =
          (S ∩ ms.toFinset).card := by
        have hCard := card_remove S ms
        have hOld : items.length = S.card := hItems.length_eq
        omega
      refine ⟨Entry.replaceUnlessEmpty seen (.set (Sets.eraseAll items ms)), ?_, ?_⟩
      · rw [← hGone]
        show (expect finiteSet.inside? seen >>= _) = _
        rw [hExpect]
        rfl
      · refine hHeld.replaceUnlessEmpty ?_ rfl hLeft
        show (Sets.eraseAll items ms).isEmpty = true ↔ (S \ ms.toFinset).card = 0
        rw [List.isEmpty_iff_length_eq_zero, hLength]

end Steps

/-- Each command of sets runs as its operation of the finite set, on every row that enumerates
it. -/
theorem finiteSet_refined : finiteSet.Refined where
  start := rfl
  counts := finiteSet_counts
  step := by
    rintro (ms | ms | _ | m | _) t words hAsks now key
    · obtain ⟨rfl, rfl, hSome⟩ := hAsks
      refine ⟨sadd words, CommandType.admits_words rfl rfl hSome, rfl, fun hHeld => ?_⟩
      obtain ⟨e?, hStep, hNext⟩ := sadd_refines hHeld hSome
      exact ⟨_, e?, hStep, rfl, hNext⟩
    · obtain ⟨rfl, rfl, hSome⟩ := hAsks
      refine ⟨srem words, CommandType.admits_words rfl rfl hSome, rfl, fun hHeld => ?_⟩
      obtain ⟨e?, hStep, hNext⟩ := srem_refines hHeld words
      exact ⟨_, e?, hStep, rfl, hNext⟩
    · obtain ⟨rfl, rfl⟩ := hAsks
      refine ⟨smembers, by decide, rfl, fun hHeld => ?_⟩
      obtain ⟨items, hItems, hRead⟩ := hHeld.reads nothing_shows .set
      exact ⟨_, _, hRead, ⟨items, rfl, hItems⟩, hHeld⟩
    · obtain ⟨rfl, rfl⟩ := hAsks
      refine ⟨sismember m, rfl, rfl, fun hHeld => ?_⟩
      obtain ⟨items, hItems, hRead⟩ :=
        hHeld.reads nothing_shows fun items => .bool (items.contains (.octets m))
      exact ⟨_, _, hRead, congrArg Datum.bool (hItems.contains_eq m), hHeld⟩
    · obtain ⟨rfl, rfl⟩ := hAsks
      refine ⟨scard, by decide, rfl, fun hHeld => ?_⟩
      obtain ⟨items, hItems, hRead⟩ := hHeld.reads nothing_shows fun items => .int items.length
      exact ⟨_, _, hRead, congrArg (fun n : Nat => Datum.int n) hItems.length_eq, hHeld⟩

end Sets

end BatchStore
