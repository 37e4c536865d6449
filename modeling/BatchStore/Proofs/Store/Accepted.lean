import BatchStore.Proofs.Store.Restoring

/-!
# What RESTORE accepts

A payload says of what kind its value is and what the value holds, and RESTORE takes it apart by
both. Strings and sorted sets must hold what such values hold, octets and a mapping. Lists, sets and
hashes are not told apart by their tags: each of the three tags goes with each of the three
containers, and the container decides (`Payload.StandsFor`). What is in a container is not looked
at.

So more is accepted than DUMP answers, a hash that is a list among it (`restore_takes_foreign`), and
what such a key then shows is the kind of its container. The content comes through: DUMP answers
what was accepted, under that kind (`restore_shows_container`).
-/

namespace BatchStore

namespace Payload

/-- The tags of lists, sets and hashes. -/
def Loose (kind : String) : Prop := kind = "list" ∨ kind = "set" ∨ kind = "hash"

/-- A tag and content stand for a value: the tag of a string or a sorted set for that, any other
for the container. -/
inductive StandsFor : String → Datum → Value → Prop
  | string (w : Octets) : StandsFor "string" (.octets w) (.string w)
  | zset (ps : List (Datum × Datum)) : StandsFor "zset" (.mapping ps) (.zset ⟨ps⟩)
  | list {kind : String} (hKind : Loose kind) (xs : List Datum) :
      StandsFor kind (.list xs) (.list xs)
  | set {kind : String} (hKind : Loose kind) (xs : List Datum) : StandsFor kind (.set xs) (.set xs)
  | hash {kind : String} (hKind : Loose kind) (ps : List (Datum × Datum)) :
      StandsFor kind (.mapping ps) (.hash ⟨ps⟩)

theorem isLoose_iff {kind : String} : valueOfRow?.isLoose kind = true ↔ Loose kind := by
  simp only [valueOfRow?.isLoose, Loose, Bool.or_eq_true, beq_iff_eq, or_assoc]

/-- The content is the value as replies show it. -/
theorem StandsFor.toDatum_eq {kind : String} {content : Datum} {v : Value}
    (h : StandsFor kind content v) : v.toDatum = content := by
  cases h <;> rfl

/-- The tag is the kind of the value, unless it is one of three and the kind another of these. -/
theorem StandsFor.kindName_eq {kind : String} {content : Datum} {v : Value}
    (h : StandsFor kind content v) : v.kindName = kind ∨ Loose kind ∧ Loose v.kindName := by
  cases h with
  | string w => exact .inl rfl
  | zset ps => exact .inl rfl
  | list hKind xs => exact .inr ⟨hKind, .inl rfl⟩
  | set hKind xs => exact .inr ⟨hKind, .inr (.inl rfl)⟩
  | hash hKind ps => exact .inr ⟨hKind, .inr (.inr rfl)⟩

theorem valueOfRow?_iff {row : List Datum} {v : Value} :
    valueOfRow? row = some v ↔
      ∃ kind content, row = [.text kind, content] ∧ StandsFor kind content v := by
  constructor
  · intro h
    unfold valueOfRow? at h
    split at h
    · rename_i kind content
      refine ⟨kind, content, rfl, ?_⟩
      split at h
      case h_1 w =>
        split at h <;> cases h
        rename_i hKind
        rw [eq_of_beq hKind]
        exact .string w
      case h_2 ps =>
        split at h
        · cases h
          rename_i hKind
          rw [eq_of_beq hKind]
          exact .zset ps
        · split at h <;> cases h
          exact .hash (isLoose_iff.1 ‹_›) ps
      case h_3 xs =>
        split at h <;> cases h
        exact .list (isLoose_iff.1 ‹_›) xs
      case h_4 xs =>
        split at h <;> cases h
        exact .set (isLoose_iff.1 ‹_›) xs
      case h_5 => cases h
    · cases h
  · rintro ⟨kind, content, rfl, h⟩
    cases h with
    | string w => rfl
    | zset ps => rfl
    | list hKind xs =>
        show (if valueOfRow?.isLoose kind then _ else _) = _
        rw [if_pos (isLoose_iff.2 hKind)]
    | set hKind xs =>
        show (if valueOfRow?.isLoose kind then _ else _) = _
        rw [if_pos (isLoose_iff.2 hKind)]
    | hash hKind ps =>
        rcases hKind with rfl | rfl | rfl <;> rfl

/-! ## What a payload holds -/

/-- A payload is read as a tag and content, in a tuple or in a list. -/
def Form.Holds (form : Form) (payload : Octets) (kind : String) (content : Datum) : Prop :=
  form.read? payload = some (.tuple [.text kind, content]) ∨
    form.read? payload = some (.list [.text kind, content])

theorem Form.value_iff {form : Form} {payload : Octets} {v : Value} :
    (form.read? payload).bind valueOf? = some v ↔
      ∃ kind content, form.Holds payload kind content ∧ StandsFor kind content v := by
  rw [Option.bind_eq_some_iff]
  constructor
  · rintro ⟨d, hRead, hValue⟩
    cases d with
    | list row =>
        obtain ⟨kind, content, rfl, h⟩ := valueOfRow?_iff.1 hValue
        exact ⟨kind, content, .inr hRead, h⟩
    | tuple row =>
        obtain ⟨kind, content, rfl, h⟩ := valueOfRow?_iff.1 hValue
        exact ⟨kind, content, .inl hRead, h⟩
    | _ => cases hValue
  · rintro ⟨kind, content, hRead | hRead, h⟩
    · exact ⟨_, hRead, valueOfRow?_iff.2 ⟨kind, content, rfl, h⟩⟩
    · exact ⟨_, hRead, valueOfRow?_iff.2 ⟨kind, content, rfl, h⟩⟩

/-- What was read as a stored value is read again as it was once it is written again. -/
def Form.Stable (form : Form) : Prop :=
  ∀ payload v, (form.read? payload).bind valueOf? = some v →
    form.read? (form.write (contentOf v)) = some (contentOf v)

/-! ## What was read is kept -/

/-- What is read of a body is written and read as itself. The cases follow the tag, as where the
body is read. -/
theorem kept_of_readBody {depth : Nat} {w rest : Octets} {d : Datum}
    (h : readBody depth w = some (d, rest)) : kept d = d := by
  induction depth generalizing w rest d with
  | zero => cases h
  | succ depth ih =>
      have hOne (w : Octets) (x : Datum) (rest : Octets)
          (hRead : readBody depth w = some (x, rest)) : kept x = x := ih hRead
      have hPair (w : Octets) (e : Datum × Datum) (rest : Octets)
          (hRead : readPair (readBody depth) w = some (e, rest)) :
          kept e.1 = e.1 ∧ kept e.2 = e.2 := by
        obtain ⟨w', hKey, hValue⟩ := readPair_parts hRead
        exact ⟨ih hKey, ih hValue⟩
      unfold readBody at h
      split at h
      · cases h
      · cases h
      · rename_i depth' tag w' hDepth
        cases hDepth
        split at h
        case h_1 | h_2 | h_3 =>
          cases h
          rfl
        case h_4 | h_5 | h_6 | h_8 =>
          obtain ⟨⟨t, w'⟩, -, hDone⟩ := Option.bind_eq_some_iff.1 h
          cases hDone
          rfl
        case h_7 =>
          obtain ⟨⟨t, w'⟩, -, hText⟩ := Option.bind_eq_some_iff.1 h
          dsimp only at hText
          split at hText <;> cases hText
          rfl
        case h_9 | h_10 | h_11 =>
          obtain ⟨⟨xs, w'⟩, hMany, hDone⟩ := Option.bind_eq_some_iff.1 h
          cases hDone
          rw [kept, keptRow_eq (mem_readCounted hOne hMany)]
        case h_12 =>
          obtain ⟨⟨ps, w'⟩, hMany, hDone⟩ := Option.bind_eq_some_iff.1 h
          cases hDone
          rw [kept, keptPairs_eq (mem_readCounted hPair hMany)]
        case h_13 => cases h

theorem kept_of_read? {payload : Octets} {d : Datum} (h : read? payload = some d) : kept d = d := by
  unfold read? at h
  split at h
  · split at h
    · obtain ⟨⟨d', rest⟩, hRead, rfl⟩ := Option.map_eq_some_iff.1 h
      exact kept_of_readBody hRead
    case h_2 | h_3 | h_4 =>
      cases h
      rfl
    case h_5 => cases h
  · cases h

theorem stable_form : form.Stable := by
  intro payload v hValue
  obtain ⟨kind, content, hHolds, hStands⟩ := Form.value_iff.1 hValue
  have hContent : kept content = content := by
    rcases hHolds with hRead | hRead
    · have hRow := Datum.tuple.inj (kept_of_read? hRead)
      exact (List.cons.inj (List.cons.inj hRow).2).1
    · have hRow := Datum.list.inj (kept_of_read? hRead)
      exact (List.cons.inj (List.cons.inj hRow).2).1
  show read? (write (contentOf v)) = _
  rw [read?_write]
  show some (Datum.tuple [.text v.kindName, kept v.toDatum]) = _
  rw [hStands.toDatum_eq, hContent, ← hStands.toDatum_eq]
  rfl

end Payload

namespace Store

/-- What RESTORE without a lifetime takes, and what the key shows behind it. It takes a payload that
stands for a value, if the options are understood and the key is free or may be replaced. At any
later time TYPE answers the kind of that value, and DUMP a payload with this kind and the content
that was taken. -/
structure Shows (form : Payload.Form) (now : Float) (s : Store) (key payload : Octets)
    (options : List Octets) (restored : Reply × Store) (type dump : Float → Step) : Prop where
  takes : restored.1 = .ok okReply ↔
    (∃ plan, Backup.RestorePlan.read {} options = .ok plan ∧
      (s.live? now s.selected key = none ∨ plan.replace = true)) ∧
    ∃ kind content v, form.Holds payload kind content ∧ Payload.StandsFor kind content v
  shows : restored.1 = .ok okReply → ∀ kind content v, form.Holds payload kind content →
    Payload.StandsFor kind content v → ∀ later,
      (type later restored.2).1 = .ok (.text v.kindName) ∧
        ∃ answer, (dump later restored.2).1 = .ok (.octets answer) ∧
          form.read? answer = some (.tuple [.text v.kindName, content])

section Never

variable {form : Payload.Form} {now : Float} {s : Store} {key lifetime payload : Octets}
  {options : List Octets} {n : Int}

/-- Without a lifetime there is no deadline, so RESTORE succeeds or nothing is written. -/
theorem restoreBy_never (hSelected : s.selected < s.databases.length)
    (hLifetime : Number.int? lifetime = some n) (hNever : n ≤ 0) :
    let restored := Backup.restoreBy form now key lifetime payload options s
    (restored.1 = .ok okReply ↔
      ∃ plan v, Backup.Granted form now s key lifetime payload options n plan v) ∧
    (restored.1 = .ok okReply → restored.2.selected = s.selected ∧
      ∀ v, (form.read? payload).bind Payload.valueOf? = some v →
        restored.2.held? s.selected key = some { value := v }) := by
  intro restored
  have hEnds : Backup.RestoreEnds form now s key lifetime payload options restored :=
    restoreBy_ends hSelected
  have hSame {m : Int} {plan : Backup.RestorePlan} {v : Value}
      (h : Backup.Granted form now s key lifetime payload options m plan v) : n = m :=
    Option.some.inj (hLifetime.symm.trans h.lifetime)
  rcases restored with ⟨reply, after⟩
  cases hEnds with
  | restored hGranted hDeadline hKept hHeld =>
      cases hSame hGranted
      refine ⟨⟨fun _ => ⟨_, _, hGranted⟩, fun _ => rfl⟩, fun _ => ⟨hKept.selected.symm, ?_⟩⟩
      intro v hValue
      cases hGranted.value.symm.trans hValue
      cases hDeadline with
      | never => exact hHeld
      | moment hPositive => omega
      | span hPositive => omega
  | refused hNot =>
      exact ⟨⟨fun hOk => (nomatch hOk), fun ⟨plan, v, h⟩ => (hNot n plan v h).elim⟩,
        fun hOk => (nomatch hOk)⟩
  | broken hGranted hPositive =>
      cases hSame hGranted
      omega

/-- What a key holds without a deadline shows, in kind and content. -/
theorem shows_held {v : Value} (hHeld : s.held? s.selected key = some { value := v })
    (later : Float) :
    (onKey later key Keys.type s).1 = .ok (.text v.kindName) ∧
      (onKey later key (Backup.dumpBy form) s).1 =
        .ok (.octets (form.write (Payload.contentOf v))) := by
  have hLive : s.live? later s.selected key = some { value := v } :=
    (live?_eq_some_iff _ _ _ _ _).2 ⟨hHeld, rfl⟩
  constructor
  · have hType : Keys.type (s.live? later s.selected key) =
        .ok (.text v.kindName, some { value := v }) := by
      rw [hLive]
      rfl
    exact congrArg Prod.fst (onKey_ok hType)
  · have hDump : Backup.dumpBy form (s.live? later s.selected key) =
        .ok (.octets (form.write (Payload.contentOf v)), some { value := v }) := by
      rw [hLive]
      rfl
    exact congrArg Prod.fst (onKey_ok hDump)

theorem shows_restoreBy (hForm : form.Stable) (hSelected : s.selected < s.databases.length)
    (hLifetime : Number.int? lifetime = some n) (hNever : n ≤ 0) :
    Shows form now s key payload options
      (Backup.restoreBy form now key lifetime payload options s)
      (fun later => onKey later key Keys.type)
      (fun later => onKey later key (Backup.dumpBy form)) := by
  obtain ⟨hTakes, hHolds⟩ := restoreBy_never hSelected hLifetime hNever
  constructor
  · rw [hTakes]
    constructor
    · rintro ⟨plan, v, h⟩
      obtain ⟨kind, content, hPayload, hStands⟩ := Payload.Form.value_iff.1 h.value
      exact ⟨⟨plan, h.options, h.free⟩, kind, content, v, hPayload, hStands⟩
    · rintro ⟨⟨plan, hPlan, hFree⟩, kind, content, v, hPayload, hStands⟩
      exact ⟨plan, v, hLifetime, hPlan, hFree,
        Payload.Form.value_iff.2 ⟨kind, content, hPayload, hStands⟩⟩
  · intro hOk kind content v hPayload hStands later
    have hValue := Payload.Form.value_iff.2 ⟨kind, content, hPayload, hStands⟩
    obtain ⟨hSelection, hHeld⟩ := hHolds hOk
    have hThere := hHeld v hValue
    rw [← hSelection] at hThere
    obtain ⟨hType, hDump⟩ := shows_held hThere later
    refine ⟨hType, _, hDump, ?_⟩
    rw [hForm payload v hValue, Payload.contentOf, hStands.toDatum_eq]

end Never

/-- RESTORE without a lifetime takes what stands for a value, and the key shows that value: its
content is what was taken, and its kind is that of the container.

* So it is in any form of payloads that brings back what it was read from.
* So it is with all commands that ask for it, in the form of the store.
* The kind that shows is the tag that was taken, or both are among list, set and hash. -/
theorem restore_shows_container (now : Float) {s : Store}
    (hSelected : s.selected < s.databases.length) (key payload : Octets) (options : List Octets)
    {lifetime : Octets} {n : Int} (hLifetime : Number.int? lifetime = some n) (hNever : n ≤ 0) :
    (∀ form : Payload.Form, form.Stable → Shows form now s key payload options
      (Backup.restoreBy form now key lifetime payload options s)
      (fun later => onKey later key Keys.type)
      (fun later => onKey later key (Backup.dumpBy form))) ∧
    (∀ restore type dump : Command,
      restore.request? = some (.restore, key :: lifetime :: payload :: options) →
      type.request? = some (.type, [key]) → dump.request? = some (.dump, [key]) →
      Shows Payload.form now s key payload options (run now restore s)
        (fun later => run later type) (fun later => run later dump)) ∧
    ∀ kind content v, Payload.StandsFor kind content v →
      v.kindName = kind ∨ Payload.Loose kind ∧ Payload.Loose v.kindName := by
  refine ⟨fun form hForm => shows_restoreBy hForm hSelected hLifetime hNever, ?_,
    fun kind content v h => h.kindName_eq⟩
  intro restore type dump hRestore hType hDump
  have hTyped : (fun later => run later type) = fun later => onKey later key Keys.type := by
    funext later t
    rw [run_of_request? hType]
    rfl
  have hDumped : (fun later => run later dump) =
      fun later => onKey later key (Backup.dumpBy Payload.form) := by
    funext later t
    rw [run_of_request? hDump]
    rfl
  rw [run_asked_restore hRestore, hTyped, hDumped]
  exact shows_restoreBy Payload.stable_form hSelected hLifetime hNever

/-- A list is restored, and its kind asked for. -/
theorem restore_shows_container_list :
    let k := Octets.ofText "k"
    let payload := Payload.write (.tuple [.text "list", .list [.octets [97]]])
    let restore : Command := ⟨.restore, [.text "k", .text "0", .octets payload]⟩
    let s := single []
    s.selected < s.databases.length ∧ Number.int? (Octets.ofText "0") = some 0 ∧ (0 : Int) ≤ 0 ∧
      Payload.form.Stable ∧ Payload.StandsFor "list" (.list [.octets [97]]) (.list [.octets [97]]) ∧
      Shows Payload.form 0.0 s k payload [] (run 0.0 restore s)
        (fun later => run later ⟨.type, [.text "k"]⟩)
        (fun later => run later ⟨.dump, [.text "k"]⟩) := by
  intro k payload restore s
  have hSelected : s.selected < s.databases.length := by decide
  have hLifetime : Number.int? (Octets.ofText "0") = some 0 := by decide +kernel
  have hShows := restore_shows_container 0.0 hSelected k payload [] hLifetime (Int.le_refl 0)
  exact ⟨hSelected, hLifetime, Int.le_refl 0, Payload.stable_form, .list (.inl rfl) _,
    hShows.2.1 restore _ _ rfl rfl rfl⟩

/-- A hash that is a list is restored, and then it is a list to TYPE and to DUMP. An empty list is
restored, and a sorted set of neither members nor scores. -/
theorem restore_takes_foreign :
    let restored (kind : String) (content : Datum) := run 0.0 ⟨.restore, [.text "k", .text "0",
      .octets (Payload.write (.tuple [.text kind, content]))]⟩ (single [])
    let hash := restored "hash" (.list [.octets [97]])
    hash.1 = .ok okReply ∧ (run 0.0 ⟨.type, [.text "k"]⟩ hash.2).1 = .ok (.text "list") ∧
      (run 0.0 ⟨.dump, [.text "k"]⟩ hash.2).1 =
        .ok (.octets (Payload.write (.tuple [.text "list", .list [.octets [97]]]))) ∧
      (restored "list" (.list [])).1 = .ok okReply ∧
      (restored "zset" (.mapping [(.null, .null)])).1 = .ok okReply := by
  decide +kernel

end Store

end BatchStore
