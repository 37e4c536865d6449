import BatchStore.Proofs.Store.Breaks
import BatchStore.Proofs.Store.Footprint
import BatchStore.Proofs.Store.Pipeline
import BatchStore.Proofs.Store.Restored

/-!
# How RESTORE ends

RESTORE reads its words, looks at the key and takes the payload apart, and any of this may be
refused. Behind that it writes, in two steps: first the value, which takes the place and the
deadline of what was there, and then the deadline that was asked for.

Between the two the deadline is worked out, and that can break down: a lifetime in milliseconds may
have more digits than any double reaches. So there are three ends (`Backup.RestoreEnds`). The key
holds what was asked for; or nothing was written; or the value stands there without the deadline,
and what the key held is lost. Which of them it is depends on the words and the key alone, and the
third takes a lifetime that is positive and past the largest double (`restore_ends`).

The other commands that set deadlines work them out before they write. What RESTORE loses is in
`restore_loses_entry`.
-/

namespace BatchStore

namespace Backup

section Ends

variable (form : Payload.Form) (now : Float) (s : Store) (key lifetime payload : Octets)
  (options : List Octets)

/-- The words of RESTORE are understood, the key is free or may be replaced, and the payload has
a value. -/
structure Granted (n : Int) (plan : RestorePlan) (v : Value) : Prop where
  lifetime : Number.int? lifetime = some n
  options : RestorePlan.read {} options = .ok plan
  free : s.live? now s.selected key = none ∨ plan.replace = true
  value : (form.read? payload).bind Payload.valueOf? = some v

/-- The deadline that a lifetime in milliseconds asks for: none unless it is positive. -/
inductive Requested (plan : RestorePlan) : Int → Option Float → Prop
  | never {n : Int} (hLifetime : n ≤ 0) : Requested plan n none
  | moment {n : Int} {seconds : Float} (hLifetime : 0 < n) (hPlan : plan.absolute = true)
      (hSeconds : Number.thousandth? n = some seconds) : Requested plan n (some seconds)
  | span {n : Int} {seconds : Float} (hLifetime : 0 < n) (hPlan : plan.absolute = false)
      (hSeconds : Number.thousandth? n = some seconds) : Requested plan n (some (now + seconds))

/-- The ends of RESTORE, with what it leaves.

* `restored`: the key holds the value of the payload with the deadline that was asked for.
* `refused`: nothing was written, though the key may have been taken out if it was expired.
* `broken`: the deadline is past the largest double. The key holds the value all the same, without
  a deadline. -/
inductive RestoreEnds : Reply × Store → Prop
  | restored {n : Int} {plan : RestorePlan} {v : Value} {t? : Option Float} {after : Store}
      (hGranted : Granted form now s key lifetime payload options n plan v)
      (hDeadline : Requested now plan n t?) (hKept : s.KeptOutside [(s.selected, key)] after)
      (hHeld : after.held? s.selected key = some { value := v, deadline? := t? }) :
      RestoreEnds (.ok okReply, after)
  | refused {r : Refusal} {after : Store}
      (hNot : ∀ n plan v, ¬ Granted form now s key lifetime payload options n plan v)
      (hUntouched : s.Untouched now after) : RestoreEnds (.error (.refused r), after)
  | broken {n : Int} {plan : RestorePlan} {v : Value} {after : Store}
      (hGranted : Granted form now s key lifetime payload options n plan v) (hLifetime : 0 < n)
      (hTooFar : Number.thousandth? n = none) (hKept : s.KeptOutside [(s.selected, key)] after)
      (hHeld : after.held? s.selected key = some { value := v }) :
      RestoreEnds (.error (.faulted .quotientTooLarge), after)

end Ends

/-- Working out a deadline ends with the one that was asked for, or is past the largest double. -/
theorem deadline?_cases (plan : RestorePlan) (now : Float) (n : Int) :
    (∃ t?, plan.deadline? now n = .ok t? ∧ Requested now plan n t?) ∨
      plan.deadline? now n = breakDown .quotientTooLarge ∧ 0 < n ∧
        Number.thousandth? n = none := by
  unfold RestorePlan.deadline? asSeconds
  by_cases hLifetime : n ≤ 0
  · rw [if_pos hLifetime]
    exact .inl ⟨none, rfl, .never hLifetime⟩
  · have hPositive : 0 < n := Int.not_le.1 hLifetime
    rw [if_neg hLifetime]
    cases hSeconds : Number.thousandth? n with
    | none => exact .inr ⟨rfl, hPositive, rfl⟩
    | some seconds =>
        left
        refine ⟨some (if plan.absolute then seconds else now + seconds), rfl, ?_⟩
        cases hPlan : plan.absolute with
        | true => exact .moment hPositive hPlan hSeconds
        | false => exact .span hPositive hPlan hSeconds

/-- The options of RESTORE are understood or refused. -/
theorem restorePlan_error {plan : RestorePlan} {options : List Octets} {h : Halt}
    (hError : RestorePlan.read plan options = .error h) : ∃ r, h = .refused r := by
  cases h with
  | refused r => exact ⟨r, rfl⟩
  | faulted f => exact ((Store.yields_restorePlan plan options).fault f hError).elim

/-- A key that is taken and may not be replaced, or a payload without a value, is refused. -/
theorem stepBy_refused {form : Payload.Form} {plan : RestorePlan} {payload : Octets}
    {seen : Option Entry}
    (hNot : ¬ ((seen = none ∨ plan.replace = true) ∧
      ∃ v, (form.read? payload).bind Payload.valueOf? = some v)) :
    ∃ r, plan.stepBy form payload seen = refuse r := by
  unfold RestorePlan.stepBy
  by_cases hTaken : (seen.isSome && !plan.replace) = true
  · rw [if_pos hTaken]
    exact ⟨_, rfl⟩
  · rw [if_neg hTaken]
    have hFree : seen = none ∨ plan.replace = true := by
      cases seen with
      | none => exact .inl rfl
      | some e => exact .inr (by simpa using hTaken)
    cases hValue : (form.read? payload).bind Payload.valueOf? with
    | none => exact ⟨_, rfl⟩
    | some v => exact absurd ⟨hFree, v, hValue⟩ hNot

end Backup

namespace Store

section AndThen

variable {α β : Type} {first : Act α} {next : α → Act β} {s after : Store}

theorem andThen_ok {a : α} (h : first s = (.ok a, after)) :
    andThen first next s = next a after := by
  unfold andThen
  simp only [h]

theorem andThen_error {halt : Halt} (h : first s = (.error halt, after)) :
    andThen first next s = (.error halt, after) := by
  unfold andThen
  simp only [h]

end AndThen

section Written

variable {now : Float} {s : Store} {key : Octets} {v : Value}

/-- The store after a value was put at a key of the selected database. -/
def written (s : Store) (now : Float) (key : Octets) (e : Entry) : Store :=
  (s.settle now s.selected key).setEntry s.selected key (some e)

theorem written_kept (e : Entry) : s.KeptOutside [(s.selected, key)] (s.written now key e) :=
  (KeptOutside.settle s now List.mem_cons_self).trans
    (KeptOutside.setEntry _ List.mem_cons_self _)

theorem written_held (hSelected : s.selected < s.databases.length) (e : Entry) :
    (s.written now key e).held? s.selected key = some e := by
  have hThere : s.selected < (s.settle now s.selected key).databases.length := by
    rw [length_settle]
    exact hSelected
  rw [written, held?_setEntry, if_pos ⟨rfl, hThere, rfl⟩]

/-- A deadline is put on the value that was put at a key just before. -/
theorem onKey_withDeadline (hSelected : s.selected < s.databases.length) (t : Float) :
    onKey now key (Backup.withDeadline t) (s.written now key { value := v }) =
      (.ok okReply, (s.written now key { value := v }).written now key
        { value := v, deadline? := some t }) := by
  have hLive : (s.written now key { value := v }).live? now s.selected key =
      some { value := v } :=
    (live?_eq_some_iff _ _ _ _ _).2 ⟨written_held hSelected _, rfl⟩
  refine onKey_ok ?_
  show Backup.withDeadline t ((s.written now key { value := v }).live? now s.selected key) = _
  rw [hLive]
  rfl

end Written

section RestoreBy

variable {form : Payload.Form} {now : Float} {s : Store} {key lifetime payload : Octets}
  {options : List Octets} {n : Int} {plan : Backup.RestorePlan} {v : Value}

/-- With everything in order the value is written, and then there is the deadline to work out. -/
theorem restoreBy_granted
    (h : Backup.Granted form now s key lifetime payload options n plan v) :
    Backup.restoreBy form now key lifetime payload options s =
      given (plan.deadline? now n) (fun
        | none => fun s => (.ok okReply, s)
        | some t => onKey now key (Backup.withDeadline t)) (s.written now key { value := v }) := by
  have hStep : onKey now key (plan.stepBy form payload) s =
      (.ok okReply, s.written now key { value := v }) := onKey_ok (stepBy_ok h.free h.value)
  unfold Backup.restoreBy readInt
  rw [h.lifetime, h.options]
  exact andThen_ok hStep

/-- With anything out of order, nothing is written. -/
theorem restoreBy_refused
    (hNot : ∀ n plan v, ¬ Backup.Granted form now s key lifetime payload options n plan v) :
    ∃ r after, Backup.restoreBy form now key lifetime payload options s =
      (.error (.refused r), after) ∧ s.Untouched now after := by
  unfold Backup.restoreBy readInt
  cases hLifetime : Number.int? lifetime with
  | none => exact ⟨_, s, rfl, .refl now s⟩
  | some n =>
      cases hPlan : Backup.RestorePlan.read {} options with
      | error h =>
          obtain ⟨r, rfl⟩ := Backup.restorePlan_error hPlan
          exact ⟨r, s, rfl, .refl now s⟩
      | ok plan =>
          have hOut : ¬ ((s.live? now s.selected key = none ∨ plan.replace = true) ∧
              ∃ v, (form.read? payload).bind Payload.valueOf? = some v) := by
            rintro ⟨hFree, v, hValue⟩
            exact hNot n plan v ⟨hLifetime, hPlan, hFree, hValue⟩
          obtain ⟨r, hRefused⟩ := Backup.stepBy_refused hOut
          refine ⟨r, s.settle now s.selected key, ?_, .settle now s s.selected key⟩
          show andThen (onKey now key (plan.stepBy form payload)) _ s = _
          exact andThen_error (onKey_error hRefused)

/-- RESTORE ends in one of three ways, whatever the form of payloads. -/
theorem restoreBy_ends (hSelected : s.selected < s.databases.length) :
    Backup.RestoreEnds form now s key lifetime payload options
      (Backup.restoreBy form now key lifetime payload options s) := by
  by_cases hGranted : ∃ n plan v, Backup.Granted form now s key lifetime payload options n plan v
  · obtain ⟨n, plan, v, hGranted⟩ := hGranted
    rw [restoreBy_granted hGranted]
    rcases Backup.deadline?_cases plan now n with ⟨_ | t, hDeadline, hRequested⟩ |
      ⟨hDeadline, hLifetime, hTooFar⟩ <;> rw [hDeadline]
    · exact .restored hGranted hRequested (written_kept _) (written_held hSelected _)
    · have hFirst : s.KeptOutside [(s.selected, key)] (s.written now key { value := v }) :=
        written_kept _
      have hSecond : (s.written now key { value := v }).KeptOutside [(s.selected, key)]
          ((s.written now key { value := v }).written now key
            { value := v, deadline? := some t }) :=
        written_kept (s := s.written now key { value := v }) _
      have hAgain : s.selected < (s.written now key { value := v }).databases.length :=
        hFirst.count ▸ hSelected
      show Backup.RestoreEnds form now s key lifetime payload options
        (onKey now key (Backup.withDeadline t) (s.written now key { value := v }))
      rw [onKey_withDeadline hSelected]
      exact .restored hGranted hRequested (hFirst.trans hSecond) (written_held hAgain _)
    · exact .broken hGranted hLifetime hTooFar (written_kept _) (written_held hSelected _)
  · have hNot (n : Int) (plan : Backup.RestorePlan) (v : Value) :
        ¬ Backup.Granted form now s key lifetime payload options n plan v :=
      fun h => hGranted ⟨n, plan, v, h⟩
    obtain ⟨r, after, hRun, hUntouched⟩ := restoreBy_refused hNot
    rw [hRun]
    exact .refused hNot hUntouched

/-- A command that asks for RESTORE is carried out in the form of the store. -/
theorem run_asked_restore {c : Command}
    (h : c.request? = some (.restore, key :: lifetime :: payload :: options)) :
    run now c s = Backup.restoreBy Payload.form now key lifetime payload options s := by
  have hMany : 3 ≤ options.length + 1 + 1 + 1 := by omega
  exact congrFun (run_of_open h rfl hMany) s

end RestoreBy

/-- How RESTORE ends on any store with a database selected.

* In any form of payloads it ends as `Backup.RestoreEnds` tells: all that was asked for is done, or
  it is refused and nothing is written, or the lifetime is too long for a deadline and the value is
  written without one.
* So ends every command that asks for it, in the form of the store. -/
theorem restore_ends (now : Float) {s : Store} (hSelected : s.selected < s.databases.length)
    (key lifetime payload : Octets) (options : List Octets) :
    (∀ form : Payload.Form, Backup.RestoreEnds form now s key lifetime payload options
      (Backup.restoreBy form now key lifetime payload options s)) ∧
    ∀ c : Command, c.request? = some (.restore, key :: lifetime :: payload :: options) →
      Backup.RestoreEnds Payload.form now s key lifetime payload options (run now c s) := by
  refine ⟨fun form => restoreBy_ends hSelected, fun c hRequest => ?_⟩
  rw [run_asked_restore hRequest]
  exact restoreBy_ends hSelected

/-- A string is put in the place of another, for five seconds. -/
theorem restore_ends_string :
    let k := Octets.ofText "k"
    let payload := Payload.write (Payload.contentOf (.string (Octets.ofText "w")))
    let c : Command := ⟨.restore, [.text "k", .text "5000", .octets payload, .text "REPLACE"]⟩
    let s := single [(k, { value := .string (Octets.ofText "v"), deadline? := some 100.0 })]
    s.selected < s.databases.length ∧
      c.request? = some (.restore, [k, Octets.ofText "5000", payload, Octets.ofText "REPLACE"]) ∧
      Backup.RestoreEnds Payload.form 0.0 s k (Octets.ofText "5000") payload
        [Octets.ofText "REPLACE"] (run 0.0 c s) := by
  intro k payload c s
  have hSelected : s.selected < s.databases.length := by decide
  exact ⟨hSelected, rfl, (restore_ends 0.0 hSelected k _ payload _).2 c rfl⟩

/-- With a lifetime of 401 digits RESTORE fails, and what the key held is gone, with its
deadline. -/
theorem restore_loses_entry :
    let k := Octets.ofText "k"
    let payload := Payload.write (Payload.contentOf (.string (Octets.ofText "w")))
    let c : Command := ⟨.restore, [.text "k", .octets longNumber, .octets payload, .text "REPLACE"]⟩
    let s := single [(k, { value := .string (Octets.ofText "v"), deadline? := some 100.0 })]
    (run 0.0 c s).1 = .error (.faulted .quotientTooLarge) ∧
      s.live? 0.0 0 k = some { value := .string (Octets.ofText "v"), deadline? := some 100.0 } ∧
      (run 0.0 c s).2.live? 0.0 0 k = some { value := .string (Octets.ofText "w") } := by
  decide +kernel

end Store

end BatchStore
