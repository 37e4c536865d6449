import BatchStore.Proofs.Store.Request
import BatchStore.Proofs.Store.Restored
import BatchStore.Proofs.Store.View

/-!
# Collections as mathematical objects

A `Collection` describes the commands of one kind of value without the store: the objects, such as
finite sets, the operations on them, and the replies that an operation may have. It also says how a
stored value shows an object, and what words ask for an operation.

`Held` is what a key with an object looks like: there is nothing for an object without elements,
and a value without deadline that shows it otherwise. `Refined` asks of each operation that its
command, carried out on a key that holds an object, answers as the operation does and leaves the key
holding the next object. That is one step; `Refined.row` takes it to rows of any length, at any
readings of the clock.
-/

namespace BatchStore

/-- A kind of collection: its objects with their operations, and how they show in what is inside
a stored value. -/
structure Collection (Object Op Inside : Type) where
  empty : Object
  card : Object → Nat
  next : Op → Object → Object
  /-- The replies that an operation may have at an object. -/
  Answers : Op → Object → Datum → Prop
  /-- How many elements an operation with this reply added, less those it removed. -/
  change : Op → Datum → Int
  /-- The type and the words behind the key that ask for an operation. -/
  Asks : Op → CommandType → List Octets → Prop
  inside? : Value → Option Inside
  nothing : Inside
  Shows : Object → Inside → Prop

namespace Collection

variable {Object Op Inside : Type} {C : Collection Object Op Inside}

/-- What a key that has an object holds. -/
def Held (C : Collection Object Op Inside) (o : Object) (seen : Option Entry) : Prop :=
  if C.card o = 0 then seen = none
  else ∃ v i, seen = some { value := v } ∧ C.inside? v = some i ∧ C.Shows o i

/-- The commands answer as the operations do, and leave what the operations leave. -/
structure Refined (C : Collection Object Op Inside) : Prop where
  start : C.card C.empty = 0
  counts : ∀ {op o d}, C.Answers op o d → (C.card (C.next op o) : Int) = C.card o + C.change op d
  step : ∀ {op t words}, C.Asks op t words → ∀ (now : Float) (key : Octets),
    ∃ k : KeyStep, t.admits (words.length + 1) = true ∧
      Store.step now t (key :: words) = Store.onKey now key k ∧
      ∀ {o seen}, C.Held o seen →
        ∃ d e?, k seen = .ok (d, e?) ∧ C.Answers op o d ∧ C.Held (C.next op o) e?

/-! ## What a step sees and leaves -/

section Held

variable {o o' : Object} {seen : Option Entry}

theorem held_none (h : C.card o = 0) : C.Held o none := by
  unfold Held
  rw [if_pos h]

theorem held_some {v : Value} {i : Inside} (hSome : 0 < C.card o) (hInside : C.inside? v = some i)
    (hShows : C.Shows o i) : C.Held o (some { value := v }) := by
  unfold Held
  rw [if_neg (by omega)]
  exact ⟨v, i, rfl, hInside, hShows⟩

theorem Held.deadline (h : C.Held o seen) : seen.bind (·.deadline?) = none := by
  unfold Held at h
  split at h
  · rw [h]
    rfl
  · obtain ⟨v, i, rfl, -, -⟩ := h
    rfl

/-- A key without deadline shows what it holds at any reading of the clock. -/
theorem Held.filter (h : C.Held o seen) (now : Float) :
    (seen.filter fun e => !e.isExpired now) = seen := by
  unfold Held at h
  split at h
  · rw [h]
    rfl
  · obtain ⟨v, i, rfl, -, -⟩ := h
    rfl

/-- A step that expects the kind of the collection finds the object. -/
theorem Held.expect (h : C.Held o seen) (hNothing : C.card o = 0 → C.Shows o C.nothing) :
    ∃ i?, BatchStore.expect C.inside? seen = .ok i? ∧ C.Shows o (i?.getD C.nothing) ∧
      (i? = none → C.card o = 0 ∧ seen = none) := by
  unfold Held at h
  split at h
  · rename_i hZero
    subst h
    exact ⟨none, rfl, hNothing hZero, fun _ => ⟨hZero, rfl⟩⟩
  · obtain ⟨v, i, rfl, hInside, hShows⟩ := h
    refine ⟨some i, ?_, hShows, fun hNone => nomatch hNone⟩
    unfold BatchStore.expect
    dsimp only
    rw [hInside]

/-- A step that only reads answers from what shows the object. -/
theorem Held.reads (h : C.Held o seen) (hNothing : C.card o = 0 → C.Shows o C.nothing)
    (reply : Inside → Datum) :
    ∃ i, C.Shows o i ∧
      (do keep seen (reply ((← BatchStore.expect C.inside? seen).getD C.nothing))) =
        .ok (reply i, seen) := by
  obtain ⟨i?, hExpect, hShows, -⟩ := h.expect hNothing
  refine ⟨i?.getD C.nothing, hShows, ?_⟩
  rw [hExpect]
  rfl

/-- A value that is written shows the object written. -/
theorem Held.replace (h : C.Held o seen) {v : Value} {i : Inside} (hSome : 0 < C.card o')
    (hInside : C.inside? v = some i) (hShows : C.Shows o' i) :
    C.Held o' (some (.replace seen v)) := by
  unfold Entry.replace
  rw [h.deadline]
  exact held_some hSome hInside hShows

/-- A value that lost elements shows what is left, and is gone if nothing is. -/
theorem Held.replaceUnlessEmpty (h : C.Held o seen) {v : Value} {i : Inside}
    (hEmpty : v.isEmpty = true ↔ C.card o' = 0) (hInside : C.inside? v = some i)
    (hShows : C.Shows o' i) : C.Held o' (Entry.replaceUnlessEmpty seen v) := by
  unfold Entry.replaceUnlessEmpty
  split
  · rename_i hNothing
    exact held_none (hEmpty.1 hNothing)
  · rename_i hSome
    exact h.replace (Nat.pos_of_ne_zero fun hZero => hSome (hEmpty.2 hZero)) hInside hShows

/-- A step that writes over what it finds leaves what it wrote. -/
theorem Held.writes (h : C.Held o seen) (hNothing : C.card o = 0 → C.Shows o C.nothing)
    {d : Datum} (reply : Inside → Datum) (value : Inside → Value) (hSome : 0 < C.card o')
    (hNext : ∀ i, C.Shows o i →
      reply i = d ∧ ∃ new, C.inside? (value i) = some new ∧ C.Shows o' new) :
    ∃ e?, (do
        let old := (← BatchStore.expect C.inside? seen).getD C.nothing
        return (reply old, some (Entry.replace seen (value old)))) = .ok (d, e?) ∧
      C.Held o' e? := by
  obtain ⟨i?, hExpect, hShows, -⟩ := h.expect hNothing
  obtain ⟨hReply, new, hInside, hNew⟩ := hNext _ hShows
  refine ⟨some (.replace seen (value (i?.getD C.nothing))), ?_, h.replace hSome hInside hNew⟩
  rw [hExpect, ← hReply]
  rfl

end Held

/-! ## Rows of commands -/

/-- A command at a reading of the clock, with the operation that it is meant for. -/
structure Request (Op : Type) where
  now : Float
  command : Command
  op : Op

/-- The command asks for the operation on a key. -/
def AsksOf (C : Collection Object Op Inside) (key : Octets) (r : Request Op) : Prop :=
  ∃ t words, r.command.request? = some (t, key :: words) ∧ C.Asks r.op t words

/-- Carries out a row of commands. -/
def runRow : List (Request Op) → Store → List Reply × Store
  | [], s => ([], s)
  | r :: rest, s =>
    let (reply, s) := Store.run r.now r.command s
    let (replies, s) := runRow rest s
    (reply :: replies, s)

/-- The object after a row of operations. -/
def after (C : Collection Object Op Inside) (o : Object) (ops : List Op) : Object :=
  ops.foldl (fun o op => C.next op o) o

/-- The replies that a row of operations may have, one after another. -/
def Replied (C : Collection Object Op Inside) : Object → List Op → List Datum → Prop
  | _, [], ds => ds = []
  | o, op :: ops, ds =>
    ∃ d rest, ds = d :: rest ∧ C.Answers op o d ∧ C.Replied (C.next op o) ops rest

/-- All that was added, less all that was removed, by the replies. -/
def total (C : Collection Object Op Inside) (ops : List Op) (ds : List Datum) : Int :=
  (List.zipWith C.change ops ds).sum

variable {key : Octets} {s : Store}

/-- One command, on a key that shows an object. -/
theorem Refined.one (h : C.Refined) (hSelected : s.selected < s.databases.length) {r : Request Op}
    (hAsks : C.AsksOf key r) {o : Object} (hSeen : C.Held o (s.live? r.now s.selected key)) :
    ∃ d t, Store.run r.now r.command s = (.ok d, t) ∧ C.Answers r.op o d ∧
      t.selected = s.selected ∧ t.selected < t.databases.length ∧
      C.Held (C.next r.op o) (t.held? t.selected key) := by
  obtain ⟨t, words, hc, hOp⟩ := hAsks
  obtain ⟨k, hAdmits, hStep, hRefines⟩ := h.step hOp r.now key
  obtain ⟨d, e?, hOk, hAnswers, hHeld⟩ := hRefines hSeen
  have hThere : s.selected < (s.settle r.now s.selected key).databases.length := by
    rw [Store.length_settle]
    exact hSelected
  refine ⟨d, (s.settle r.now s.selected key).setEntry s.selected key e?, ?_, hAnswers, rfl, ?_, ?_⟩
  · rw [Store.run_of_request? hc, Store.runType, List.length_cons, if_pos hAdmits, hStep,
      Store.onKey_ok hOk]
  · show s.selected < _
    rw [Store.length_setEntry]
    exact hThere
  · show C.Held _ (Store.held? _ s.selected key)
    rw [Store.held?_setEntry, if_pos ⟨rfl, hThere, rfl⟩]
    exact hHeld

/-- A row of commands, on a key that shows an object to the first of them. -/
theorem Refined.row (h : C.Refined) {rows : List (Request Op)} (hAsks : ∀ r ∈ rows, C.AsksOf key r)
    (hSelected : s.selected < s.databases.length) {o : Object}
    (hSeen : ∀ r ∈ rows.head?, C.Held o (s.live? r.now s.selected key)) :
    ∃ ds, (runRow rows s).1 = ds.map .ok ∧ C.Replied o (rows.map (·.op)) ds ∧
      (C.card (C.after o (rows.map (·.op))) : Int) = C.card o + C.total (rows.map (·.op)) ds ∧
      (rows ≠ [] →
        C.Held (C.after o (rows.map (·.op))) ((runRow rows s).2.held? s.selected key)) := by
  induction rows generalizing s o with
  | nil => exact ⟨[], rfl, rfl, by simp [after, total], fun hSome => absurd rfl hSome⟩
  | cons r rest ih =>
      obtain ⟨d, t, hRun, hAnswers, hSame, hThere, hHeld⟩ :=
        h.one hSelected (hAsks r List.mem_cons_self) (hSeen r rfl)
      have hNext : ∀ q ∈ rest.head?, C.Held (C.next r.op o) (t.live? q.now t.selected key) := by
        intro q _
        show C.Held _ ((t.held? t.selected key).filter _)
        rw [hHeld.filter]
        exact hHeld
      obtain ⟨ds, hReplies, hReplied, hCounts, hLast⟩ :=
        ih (fun q hq => hAsks q (List.mem_cons_of_mem _ hq)) hThere hNext
      have hRow : runRow (r :: rest) s = (.ok d :: (runRow rest t).1, (runRow rest t).2) := by
        rw [runRow, hRun]
      rw [hRow]
      refine ⟨d :: ds, ?_, ⟨d, ds, rfl, hAnswers, hReplied⟩, ?_, fun _ => ?_⟩
      · rw [hReplies]
        rfl
      · have hOne := h.counts hAnswers
        show (C.card (C.after (C.next r.op o) _) : Int) = _ + (C.change r.op d + C.total _ ds)
        omega
      · show C.Held (C.after (C.next r.op o) _) _
        cases rest with
        | nil =>
            rw [← hSame]
            exact hHeld
        | cons q rest =>
            rw [← hSame]
            exact hLast (List.cons_ne_nil _ _)

/-- On a key that is free at the first of them, rows of commands are rows of operations on an object
that is empty at first. The replies are those of the operations; after each command the key
holds the object, so it is there exactly if the object has elements; and there are as many of them
as the replies say were added, less those they say were removed. -/
def Tracked (C : Collection Object Op Inside) : Prop :=
  ∀ (s : Store) (key : Octets) (rows : List (Request Op)), s.selected < s.databases.length →
    (∀ r ∈ rows, C.AsksOf key r) → (∀ r ∈ rows.head?, s.live? r.now s.selected key = none) →
    ∃ ds, (runRow rows s).1 = ds.map .ok ∧ C.Replied C.empty (rows.map (·.op)) ds ∧
      (C.card (C.after C.empty (rows.map (·.op))) : Int) = C.total (rows.map (·.op)) ds ∧
      (rows ≠ [] → C.Held (C.after C.empty (rows.map (·.op)))
        ((runRow rows s).2.held? s.selected key))

theorem Refined.tracked (h : C.Refined) : C.Tracked := by
  intro s key rows hSelected hAsks hFree
  have hSeen : ∀ r ∈ rows.head?, C.Held C.empty (s.live? r.now s.selected key) := by
    intro r hr
    rw [hFree r hr]
    exact held_none h.start
  obtain ⟨ds, hReplies, hReplied, hCounts, hLast⟩ := h.row hAsks hSelected hSeen
  rw [h.start, Int.natCast_zero, Int.zero_add] at hCounts
  exact ⟨ds, hReplies, hReplied, hCounts, hLast⟩

end Collection

end BatchStore
