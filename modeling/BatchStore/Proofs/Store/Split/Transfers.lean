import BatchStore.Proofs.Store.Split
import BatchStore.Proofs.Store.Transfers

/-!
# Keys that are carried over between two tables each

RENAME, MOVE and COPY edit up to four tables: the values and the deadlines of where a key comes from
and of where it goes. `Carried` says table by table what is left: the target has the value and
exactly the deadline that the source had, so that nothing stale is left of a deadline that the
target had before, and the source has neither any more, unless it is to stay. All other keys of all
tables are as they were.

`TransferEnds` has the ways in which one of the commands ends, as for stores of one table, and the
two tables are known to go the same way (`run_refines`). So it is enough to read off both tables
what the one entry says (`Halves.Holds.sameKey`, `Holds.tables`).

## Main results

* `transfers_carry_over`: what the commands leave in the tables, and that MOVE is undone from the
  other side.
-/

namespace BatchStore

/-! ## Two tables compared -/

namespace Halves

/-- A key has the same value and the same deadline in two databases, or has none in both. -/
structure SameKey (a b : Halves) (key : Octets) : Prop where
  data : b.data.get? key = a.data.get? key
  expires : b.expires.get? key = a.expires.get? key

/-- A key had a deadline that has come, and is in neither table any more. -/
structure Expired (now : Float) (a b : Halves) (key : Octets) : Prop where
  data : b.data.get? key = none
  expires : b.expires.get? key = none
  due : ∃ t, a.expires.get? key = some t ∧ t ≤ now

/-- The same values and the same deadlines, perhaps in another order. -/
structure Reordered (a b : Halves) : Prop where
  data : a.data.Reordered b.data
  expires : a.expires.Reordered b.expires

/-- What shows of a key: a value with its deadline, unless that has come. -/
def live? (db : Halves) (now : Float) (key : Octets) : Option Entry :=
  Entry.shown? now (db.held? key)

variable {a b : Halves} {one other : Database} {now : Float} {key : Octets}

/-- The deadline of a key is that of its entry. -/
theorem Holds.get?_expires (h : a.Holds one) (key : Octets) :
    a.expires.get? key = (one.get? key).bind (·.deadline?) := by
  rw [h.entry, h.deadline?_held?]

/-- The value of a key is that of its entry. -/
theorem Holds.get?_data (h : a.Holds one) (key : Octets) :
    a.data.get? key = (one.get? key).map (·.value) := by
  rw [h.entry, held?, Option.map_map]
  exact Option.map_id'.symm

/-- A key with the same entry is the same in both tables. -/
theorem Holds.sameKey (ha : a.Holds one) (hb : b.Holds other) (h : other.get? key = one.get? key) :
    a.SameKey b key := by
  refine ⟨?_, ?_⟩
  · rw [ha.get?_data, hb.get?_data, h]
  · rw [ha.get?_expires, hb.get?_expires, h]

/-- A key whose entry had expired and is gone, is gone from both tables. -/
theorem Holds.expired (ha : a.Holds one) (hb : b.Holds other) {e : Entry}
    (hEntry : one.get? key = some e) (hExpired : e.isExpired now = true)
    (hGone : other.get? key = none) : a.Expired now b key := by
  refine ⟨?_, ?_, ?_⟩
  · rw [hb.get?_data, hGone]
    rfl
  · rw [hb.get?_expires, hGone]
    rfl
  · rw [ha.get?_expires, hEntry]
    unfold Entry.isExpired at hExpired
    cases hDeadline : e.deadline? with
    | none =>
        rw [hDeadline] at hExpired
        cases hExpired
    | some t =>
        rw [hDeadline] at hExpired
        exact ⟨t, hDeadline, by simpa using hExpired⟩

/-- What shows of two tables shows of the one. -/
theorem Holds.live?_eq (h : a.Holds one) (now : Float) (key : Octets) :
    a.live? now key = one.live? now key := by
  rw [live?, ← h.entry, Database.live?_eq]

/-- Tables that hold the same entries hold the same. -/
theorem Holds.reordered (ha : a.Holds one) (hb : b.Holds other) (h : one.Reordered other) :
    a.Reordered b where
  data := Table.reordered_of_get? ha.data hb.data fun key => by
    rw [ha.get?_data, hb.get?_data, h.get?]
  expires := Table.reordered_of_get? ha.expires hb.expires fun key => by
    rw [ha.get?_expires, hb.get?_expires, h.get?]

end Halves

namespace Split

variable {now : Float} {m after : Split} {s t : Store}

/-! ## Stores compared -/

/-- What shows at a key of a database. -/
def live? (m : Split) (now : Float) (i : Nat) (key : Octets) : Option Entry :=
  (m.database i).live? now key

/-- The same frame. -/
def SameFrame (m after : Split) : Prop := m.outline.SameFrame after.outline

/-- The second store is the first, but for what some sites hold. -/
structure KeptOutside (sites : List Site) (m after : Split) : Prop where
  frame : m.SameFrame after
  same : ∀ x, x ∉ sites → (m.database x.1).SameKey (after.database x.1) x.2

/-- The second store is the first, perhaps without some keys that are expired. -/
structure Untouched (now : Float) (m after : Split) : Prop where
  frame : m.SameFrame after
  same : ∀ i key, (m.database i).SameKey (after.database i) key ∨
    (m.database i).Expired now (after.database i) key

/-- The same frame, and databases with the same values and the same deadlines. -/
structure Same (m after : Split) : Prop where
  frame : m.SameFrame after
  databases : List.Forall₂ Halves.Reordered m.databases after.databases

/-- Looks at every key of every database, which takes all expired keys out. -/
def sweep (m : Split) (now : Float) : Split :=
  { m with databases := m.databases.map fun db => (db.liveKeys now).2 }

/-! ## What a transfer does -/

/-- A transfer takes place: something shows at its source, nothing is in its way at the target, and
what stays is not to be carried to where it is. -/
structure Granted (now : Float) (m : Split) (x : Store.Transfer) : Prop where
  seen : ∃ e, m.live? now x.source.1 x.source.2 = some e
  free : x.replaces = true ∨ m.live? now x.target.1 x.target.2 = none
  apart : x.stays = true → x.source ≠ x.target

/-- The second store is the first after a transfer of an entry that showed at its source. The target
has its value and its deadline, or no deadline if it has none. The source has them if it stays or is
the target, and else is in neither table. All else is as it was. -/
structure Carried (now : Float) (m : Split) (x : Store.Transfer) (e : Entry) (after : Split) :
    Prop where
  seen : m.live? now x.source.1 x.source.2 = some e
  value : (after.database x.target.1).data.get? x.target.2 = some e.value
  deadline : (after.database x.target.1).expires.get? x.target.2 = e.deadline?
  valueLeft : (after.database x.source.1).data.get? x.source.2 =
    if x.stays = true ∨ x.source = x.target then some e.value else none
  deadlineLeft : (after.database x.source.1).expires.get? x.source.2 =
    if x.stays = true ∨ x.source = x.target then e.deadline? else none
  kept : m.KeptOutside [x.source, x.target] after

/-- How a command ends that is to carry something over, and answers `done` if it does. If it does
not, nothing that shows is changed. -/
inductive TransferEnds (now : Float) (m : Split) (x? : Option Store.Transfer) (done : Datum) :
    Reply × Split → Prop where
  | carried {x : Store.Transfer} {e : Entry} {after : Split} (hTransfer : x? = some x)
      (hGranted : Granted now m x) (hCarried : Carried now m x e after) :
      TransferEnds now m x? done (.ok done, after)
  | declined {after : Split} (hNot : ∀ x, x? = some x → ¬ Granted now m x)
      (hDone : done = .bool true) (hUntouched : m.Untouched now after) :
      TransferEnds now m x? done (.ok (.bool false), after)
  | failed {h : Halt} {after : Split} (hNot : ∀ x, x? = some x → ¬ Granted now m x)
      (hUntouched : m.Untouched now after) : TransferEnds now m x? done (.error h, after)

/-! ## What is known from the one table -/

namespace Holds

theorem live?_eq_live? (h : m.Holds s) (now : Float) (i : Nat) (key : Octets) :
    m.live? now i key = s.live? now i key := (h.database i).live?_eq now key

/-- The frames on one side are the same if they are on the other. -/
theorem sameFrame (h : m.Holds s) (hAfter : after.Holds t) (hSame : s.SameFrame t) :
    m.SameFrame after :=
  h.outline.trans (hSame.trans hAfter.outline.symm)

/-- What an entry says of a key is what both tables say. -/
theorem tables (h : m.Holds s) {i : Nat} {key : Octets} {e? : Option Entry}
    (hHeld : s.held? i key = e?) :
    (m.database i).data.get? key = e?.map (·.value) ∧
      (m.database i).expires.get? key = e?.bind (·.deadline?) := by
  have hEntry : (s.database i).get? key = e? := hHeld
  rw [(h.database i).get?_data, (h.database i).get?_expires, hEntry]
  exact ⟨rfl, rfl⟩

theorem keptOutside (h : m.Holds s) (hAfter : after.Holds t) {sites : List Site}
    (hKept : s.KeptOutside sites t) : m.KeptOutside sites after :=
  ⟨h.sameFrame hAfter hKept.toSameFrame, fun x hx =>
    (h.database x.1).sameKey (hAfter.database x.1) (hKept.held x hx).symm⟩

theorem untouched (h : m.Holds s) (hAfter : after.Holds t) (hUntouched : s.Untouched now t) :
    m.Untouched now after := by
  refine ⟨h.sameFrame hAfter hUntouched.toSameFrame, fun i key => ?_⟩
  rcases hUntouched.held i key with hSame | ⟨hGone, e, hEntry, hExpired⟩
  · exact .inl ((h.database i).sameKey (hAfter.database i) hSame)
  · exact .inr ((h.database i).expired (hAfter.database i) hEntry hExpired hGone)

theorem granted_iff (h : m.Holds s) (x : Store.Transfer) : Granted now m x ↔ x.Granted now s := by
  constructor
  · rintro ⟨hSeen, hFree, hApart⟩
    simp only [h.live?_eq_live?] at hSeen hFree
    exact ⟨hSeen, hFree, hApart⟩
  · rintro ⟨hSeen, hFree, hApart⟩
    simp only [← h.live?_eq_live?] at hSeen hFree
    exact ⟨hSeen, hFree, hApart⟩

theorem carried (h : m.Holds s) (hAfter : after.Holds t) {x : Store.Transfer} {e : Entry}
    (hCarried : Store.Carried now s x e t) : Carried now m x e after := by
  obtain ⟨hValue, hDeadline⟩ := hAfter.tables hCarried.there
  obtain ⟨hValueLeft, hDeadlineLeft⟩ := hAfter.tables hCarried.left
  refine ⟨?_, hValue, hDeadline, ?_, ?_, h.keptOutside hAfter hCarried.kept⟩
  · rw [h.live?_eq_live?]
    exact hCarried.seen
  · rw [hValueLeft]
    split <;> rfl
  · rw [hDeadlineLeft]
    split <;> rfl

/-- A command that ends so on one side ends so on the other. -/
theorem transferEnds (h : m.Holds s) {x? : Option Store.Transfer} {done : Datum}
    {p : Reply × Split} {q : Reply × Store} (hRelated : Store.Related Holds p q)
    (hEnds : Store.TransferEnds now s x? done q) : TransferEnds now m x? done p := by
  obtain ⟨reply, after⟩ := p
  obtain ⟨hReply, hAfter⟩ := hRelated
  have hNot {y? : Option Store.Transfer} (hNever : ∀ x, y? = some x → ¬ x.Granted now s) :
      ∀ x, y? = some x → ¬ Granted now m x :=
    fun x hx hGranted => hNever x hx ((h.granted_iff x).1 hGranted)
  cases hEnds with
  | carried hTransfer hGranted hCarried =>
      cases hReply
      exact .carried hTransfer ((h.granted_iff _).2 hGranted) (h.carried hAfter hCarried)
  | declined hNever hDone hUntouched =>
      cases hReply
      exact .declined (hNot hNever) hDone (h.untouched hAfter hUntouched)
  | failed hNever hUntouched =>
      cases hReply
      exact .failed (hNot hNever) (h.untouched hAfter hUntouched)

/-- Expired keys are taken out on both sides. -/
theorem sweep (h : m.Holds s) (now : Float) : (m.sweep now).Holds (s.sweep now) := by
  have hDatabases := (forall₂_liveKeys now h.forall₂ 0).1
  rw [List.map_map] at hDatabases
  exact h.withDatabases hDatabases (by simp)

theorem same (h : m.Holds s) (hAfter : after.Holds t) (hSame : s.Same t) : m.Same after := by
  refine ⟨h.sameFrame hAfter ⟨hSame.selected, hSame.libraries, hSame.databases.length_eq⟩, ?_⟩
  refine List.forall₂_iff_get.2 ⟨?_, fun i hi hj => ?_⟩
  · rw [h.count, hAfter.count, hSame.databases.length_eq]
  · have hLeft := (List.forall₂_iff_get.1 h.forall₂).2 i hi (h.count ▸ hi)
    have hRight := (List.forall₂_iff_get.1 hAfter.forall₂).2 i hj (hAfter.count ▸ hj)
    exact hLeft.reordered hRight ((List.forall₂_iff_get.1 hSame.databases).2 i _ _)

end Holds

/-- What a command is to carry depends on the frame alone. -/
theorem transfer?_congr (h : s.SameFrame t) (c : CommandType) (args : List Octets) :
    s.transfer? c args = t.transfer? c args := by
  unfold Store.transfer?
  rw [h.selected, Scripted.index?_congr h.count, Scripted.copyPlan_read_congr h.count]

/-- What RENAME, MOVE and COPY do to the tables of any store that submissions lead to, at any
reading of the clock.

* Each ends as `TransferEnds` tells. If its transfer is granted it answers so, and its target has
  the value that showed at its source, with the same deadline or with none. The source is in neither
  table, unless it is the target or the command is COPY, and no other key of any table is changed.
  If it answers anything else, its transfer was not granted, and nothing that shows is changed.
* A key that was moved to another database comes back from there, and the tables are the same again,
  up to keys that are expired. -/
theorem transfers_carry_over {m : Split} (hm : m.Reachable) (now : Float) :
    (∀ (c : Command) (t : CommandType) (args : List Octets), c.request? = some (t, args) →
      t = .rename ∨ t = .move ∨ t = .copy →
      TransferEnds now m (m.outline.transfer? t args) (Store.carriedReply t) (run now c m)) ∧
    ∀ (go enter comeBack leave : Command) (key : Octets) (n : Int), Store.MovesTo go key n →
      Store.Selects enter n → Store.MovesTo comeBack key m.selected →
      Store.Selects leave m.selected → (run now go m).1 = .ok (.bool true) →
      ∃ after, Store.pipeline (run now) [go, enter, comeBack, leave] m =
          (.ok [.bool true, okReply, .bool true, okReply], after) ∧
        (m.sweep now).Same (after.sweep now) := by
  obtain ⟨s, hs, hHolds⟩ := hm.holds
  have hSelected := Store.reachable_selected hs
  constructor
  · intro c t args hRequest hType
    rw [transfer?_congr hHolds.outline]
    exact hHolds.transferEnds (run_refines now c m s hHolds)
      (Store.transfer_ends hSelected now hRequest hType)
  · intro go enter comeBack leave key n hGo hEnter hComeBack hLeave hMoved
    rw [hHolds.selected] at hComeBack hLeave
    rw [(run_refines now go m s hHolds).1] at hMoved
    obtain ⟨back, hRun, hSame⟩ :=
      Store.moves_back (Store.reachable_sound hs) hSelected now hGo hEnter
      hComeBack hLeave hMoved
    obtain ⟨hReplies, hAfter⟩ := Store.pipeline_simulates (run_refines now)
      [go, enter, comeBack, leave] hHolds
    rw [hRun] at hReplies hAfter
    exact ⟨_, Prod.ext hReplies rfl, (hHolds.sweep now).same (hAfter.sweep now) hSame⟩

/-- A key without a deadline is renamed over one that has one, of which nothing is left. One with a
deadline is moved to another database and back. -/
theorem transfers_carry_over_key :
    let set : Submission := ⟨[⟨.set, [.text "k", .text "v"]⟩,
      ⟨.set, [.text "l", .text "w", .text "EX", .text "9"]⟩], false⟩
    let m := (Store.history run [(0.0, set)] { databases := [{}, {}] }).2
    let rename : Command := ⟨.rename, [.text "k", .text "l"]⟩
    let tour : List Command := [⟨.move, [.text "l", .text "1"]⟩, ⟨.select, [.text "1"]⟩,
      ⟨.move, [.text "l", .text "0"]⟩, ⟨.select, [.text "0"]⟩]
    m.Reachable ∧ (run 1.0 rename m).1 = .ok okReply ∧
      TransferEnds 1.0 m (some ⟨(0, [107]), (0, [108]), false, true⟩) okReply (run 1.0 rename m) ∧
      (m.database 0).expires.get? [108] = some 9.0 ∧
      ((run 1.0 rename m).2.database 0).expires.get? [108] = none ∧
      ∃ after, Store.pipeline (run 1.0) tour m =
          (.ok [.bool true, okReply, .bool true, okReply], after) ∧
        (m.sweep 1.0).Same (after.sweep 1.0) := by
  intro set m rename tour
  have hReachable : m.Reachable := ⟨2, _, _, rfl, rfl⟩
  have hHere : Number.int? (Octets.ofText "0") = some 0 := by decide +kernel
  have hThere : Number.int? (Octets.ofText "1") = some 1 := by decide +kernel
  have hMoved : (run 1.0 ⟨.move, [.text "l", .text "1"]⟩ m).1 = .ok (.bool true) := by
    decide +kernel
  have hSelected : m.selected = 0 := by decide +kernel
  obtain ⟨hEnds, hTour⟩ := transfers_carry_over hReachable 1.0
  refine ⟨hReachable, by decide +kernel, ?_, by decide +kernel, by decide +kernel, ?_⟩
  · have hRename := hEnds rename .rename [[107], [108]] rfl (.inl rfl)
    have hOutline : m.outline.selected = 0 := hSelected
    simp only [Store.transfer?, hOutline] at hRename
    exact hRename
  · exact hTour _ _ _ _ [108] 1 ⟨_, rfl, hThere⟩ ⟨_, rfl, hThere⟩ ⟨_, rfl, hSelected ▸ hHere⟩
      ⟨_, rfl, hSelected ▸ hHere⟩ hMoved

end Split

end BatchStore
