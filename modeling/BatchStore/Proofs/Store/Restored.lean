import BatchStore.Client
import BatchStore.Proofs.Store.Request
import BatchStore.Proofs.Store.RoundTrip

/-!
# A dumped key comes back

DUMP answers a payload, and RESTORE takes one. Between the two the payload is in the hands of a
caller, to whom a client may have handed it as a text, for it makes texts of octets where it can.
That loses nothing: a text is read from octets only if it is written as these octets
(`Octets.ofText_of_decode?`), and as an argument it is written again (`handOver_octets`).

So RESTORE finds the octets that DUMP answered, and what they bring back is the value that was
dumped, in any form of payloads that is faithful (`Payload.Form.Faithful.restored`).
`restore_undoes_dump` has the whole way, from a store to a later one.
-/

namespace BatchStore

/-- Octets that were made readable, where they could be, are the same octets as an argument. -/
theorem Arg.check_readable (w : Octets) :
    ∃ a, Arg.check (Datum.octets w).readable = .ok a ∧ a.toOctets = w := by
  unfold Datum.readable
  split
  · rename_i s hRead
    exact ⟨.text s, rfl, Octets.ofText_of_decode? hRead⟩
  · exact ⟨.octets w, rfl, rfl⟩

/-- However a client hands octets over, they are the same octets as an argument. -/
theorem Client.handOver_octets (o : ExecOptions) (w : Octets) :
    ∃ d a, Client.handOver o [.octets w] = .ok [d] ∧ Arg.check d = .ok a ∧ a.toOctets = w := by
  have hFirst : (if o.raiseOnError then Client.firstRefusal? [.octets w] else none) = none := by
    split <;> rfl
  unfold Client.handOver
  rw [hFirst]
  by_cases hBinary : o.binary = true
  · exact ⟨.octets w, .octets w, by rw [if_pos hBinary], rfl, rfl⟩
  · obtain ⟨a, hCheck, hOctets⟩ := Arg.check_readable w
    exact ⟨_, a, by rw [if_neg hBinary]; rfl, hCheck, hOctets⟩

namespace Store

/-- What a step does to a key of the selected database, if it succeeds. -/
theorem onKey_ok {now : Float} {key : Octets} {step : KeyStep} {s : Store} {reply : Datum}
    {e? : Option Entry} (h : step (s.live? now s.selected key) = .ok (reply, e?)) :
    onKey now key step s =
      (.ok reply, (s.settle now s.selected key).setEntry s.selected key e?) := by
  show given (step (s.live? now s.selected key)) _ (s.settle now s.selected key) = _
  rw [h]
  rfl

/-- A step that fails leaves a key as it was, but takes it out if it is expired. -/
theorem onKey_error {now : Float} {key : Octets} {step : KeyStep} {s : Store} {h : Halt}
    (hFails : step (s.live? now s.selected key) = .error h) :
    onKey now key step s = (.error h, s.settle now s.selected key) := by
  show given (step (s.live? now s.selected key)) _ (s.settle now s.selected key) = _
  rw [hFails]
  rfl

/-- A key is put where it is free, or in the place of what is there. -/
theorem stepBy_ok {form : Payload.Form} {plan : Backup.RestorePlan} {payload : Octets}
    {seen : Option Entry} {v : Value} (hFree : seen = none ∨ plan.replace = true)
    (hValue : (form.read? payload).bind Payload.valueOf? = some v) :
    plan.stepBy form payload seen = .ok (okReply, some { value := v }) := by
  have hTaken : (seen.isSome && !plan.replace) = false := by
    rcases hFree with rfl | hReplace
    · rfl
    · rw [hReplace, Bool.not_true, Bool.and_false]
  unfold Backup.RestorePlan.stepBy
  rw [hTaken, hValue]
  rfl

/-- Without a lifetime, a restored key has the value of the payload and no deadline. -/
theorem restoreBy_ok {form : Payload.Form} {now : Float} {t : Store} {key payload : Octets}
    {options : List Octets} {plan : Backup.RestorePlan} {v : Value}
    (hPlan : Backup.RestorePlan.read {} options = .ok plan)
    (hFree : t.live? now t.selected key = none ∨ plan.replace = true)
    (hValue : (form.read? payload).bind Payload.valueOf? = some v) :
    Backup.restoreBy form now key (Octets.ofText "0") payload options t =
      (.ok okReply, (t.settle now t.selected key).setEntry t.selected key
        (some { value := v })) := by
  have hZero : readInt (Octets.ofText "0") = .ok 0 := by decide +kernel
  unfold Backup.restoreBy
  rw [hZero, hPlan]
  unfold given andThen
  simp only [onKey_ok (stepBy_ok hFree hValue)]
  rfl

/-- RESTORE is admitted with any options. -/
theorem run_restore (now : Float) (j a : Arg) (options : ArgList) :
    run now ⟨.restore, j :: .text "0" :: a :: options⟩ =
      Backup.restore now j.toOctets (Octets.ofText "0") a.toOctets
        (options.map Arg.toOctets) := by
  have hMany : 3 ≤ (options.map Arg.toOctets).length + 1 + 1 + 1 := by omega
  have hRequest : (⟨.restore, j :: .text "0" :: a :: options⟩ : Command).request? =
      some (.restore, j.toOctets :: Octets.ofText "0" :: a.toOctets ::
        options.map Arg.toOctets) := rfl
  exact run_of_open hRequest rfl hMany

/-- What is answered of a key that shows, in any store, is brought back to any other store with a
database selected, by an argument that has the same octets and with options that are understood. The
very value stands at any key that is free or may be replaced, with its parts in their order, and
without a deadline. -/
def BringsBack (dump : Float → Arg → Step) (restore : Float → Arg → Arg → ArgList → Step) : Prop :=
  ∀ (now : Float) (s : Store) (k : Arg) (e : Entry),
    s.live? now s.selected k.toOctets = some e → e.value.Typed →
    ∃ payload, (dump now k s).1 = .ok (.octets payload) ∧
      ∀ (later : Float) (t : Store) (j a : Arg) (options : ArgList) (plan : Backup.RestorePlan),
        t.selected < t.databases.length → a.toOctets = payload →
        Backup.RestorePlan.read {} (options.map Arg.toOctets) = .ok plan →
        (t.live? later t.selected j.toOctets = none ∨ plan.replace = true) →
        let restored := restore later j a options t
        restored.1 = .ok okReply ∧
          restored.2.held? t.selected j.toOctets = some { value := e.value } ∧
          ∀ reading, restored.2.live? reading t.selected j.toOctets = some { value := e.value }

/-- A faithful form brings values back. -/
theorem bringsBack_of_faithful {form : Payload.Form} (hForm : form.Faithful) :
    BringsBack (fun now k => onKey now k.toOctets (Backup.dumpBy form))
      fun later j a options => Backup.restoreBy form later j.toOctets (Octets.ofText "0")
        a.toOctets (options.map Arg.toOctets) := by
  intro now s k e hLive hTyped
  have hDump : Backup.dumpBy form (s.live? now s.selected k.toOctets) =
      .ok (.octets (form.write (Payload.contentOf e.value)), some e) := by
    rw [hLive]
    rfl
  refine ⟨form.write (Payload.contentOf e.value), congrArg Prod.fst (onKey_ok hDump), ?_⟩
  intro later t j a options plan hSelected hOctets hPlan hFree restored
  have hValue : (form.read? a.toOctets).bind Payload.valueOf? = some e.value := by
    rw [hOctets]
    exact hForm.restored hTyped
  have hRestored : restored = _ := restoreBy_ok hPlan hFree hValue
  rw [hRestored]
  have hHeld : ((t.settle later t.selected j.toOctets).setEntry t.selected j.toOctets
      (some { value := e.value })).held? t.selected j.toOctets = some { value := e.value } := by
    have hThere : t.selected < (t.settle later t.selected j.toOctets).databases.length := by
      rw [length_settle]
      exact hSelected
    rw [held?_setEntry, if_pos ⟨rfl, hThere, rfl⟩]
  exact ⟨rfl, hHeld, fun _ => (live?_eq_some_iff _ _ _ _ _).2 ⟨hHeld, rfl⟩⟩

/-- What DUMP answers, RESTORE brings back.

* However a client hands octets over, as they came or made readable, they pass as an argument, and
  the store gets the same octets again.
* Nothing counts of the form of payloads but that it brings back the content of stored values.
* The form of the store does, and so its commands DUMP and RESTORE bring values back. -/
theorem restore_undoes_dump :
    (∀ (o : ExecOptions) (w : Octets), ∃ d a,
      Client.handOver o [.octets w] = .ok [d] ∧ Arg.check d = .ok a ∧ a.toOctets = w) ∧
    (∀ form : Payload.Form, form.Faithful →
      BringsBack (fun now k => onKey now k.toOctets (Backup.dumpBy form))
        fun later j a options => Backup.restoreBy form later j.toOctets (Octets.ofText "0")
          a.toOctets (options.map Arg.toOctets)) ∧
    BringsBack (fun now k => run now ⟨.dump, [k]⟩)
      fun later j a options => run later ⟨.restore, j :: .text "0" :: a :: options⟩ := by
  refine ⟨Client.handOver_octets, fun form hForm => bringsBack_of_faithful hForm, ?_⟩
  have hOwn := bringsBack_of_faithful Payload.faithful_form
  have hRestore : (fun later j a options => run later ⟨.restore, j :: .text "0" :: a :: options⟩) =
      fun later (j a : Arg) (options : ArgList) => Backup.restoreBy Payload.form later j.toOctets
        (Octets.ofText "0") a.toOctets (options.map Arg.toOctets) := by
    funext later j a options
    exact run_restore later j a options
  rw [hRestore]
  exact hOwn

/-- A sorted set is dumped, handed over readable, and replaces another value in a second store. -/
theorem restore_undoes_dump_zset :
    let scores : Table Datum Datum :=
      .ofList [(.octets [109], .real 1.5), (.octets [97], .real 0.5)]
    let s : Store := { databases := [.ofList [([107], { value := .zset scores })]] }
    let t : Store :=
      { databases := [.empty, .ofList [([106], { value := .string [118] })]], selected := 1 }
    ∃ payload d a, (run 0.0 ⟨.dump, [.text "k"]⟩ s).1 = .ok (.octets payload) ∧
      Client.handOver {} [.octets payload] = .ok [d] ∧ Arg.check d = .ok a ∧
      (run 1.0 ⟨.restore, [.text "j", .text "0", a, .text "REPLACE"]⟩ t).2.held? 1 [106] =
        some { value := .zset scores } := by
  intro scores s t
  have hLive : s.live? 0.0 s.selected (Arg.text "k").toOctets = some { value := .zset scores } := by
    decide +kernel
  have hTyped : (Value.zset scores).Typed := by
    refine Table.Each.putAll Table.each_empty (List.forall_mem_cons.2 ⟨?_, ?_⟩)
    · exact ⟨Datum.isOctets_octets _, Datum.isReal_real _⟩
    · exact List.forall_mem_singleton.2 ⟨Datum.isOctets_octets _, Datum.isReal_real _⟩
  have hPlan : Backup.RestorePlan.read {} ([Arg.text "REPLACE"].map Arg.toOctets) =
      .ok { replace := true } := rfl
  obtain ⟨hHandOver, -, hRestore⟩ := restore_undoes_dump
  obtain ⟨payload, hDump, hRestored⟩ := hRestore 0.0 s (.text "k") _ hLive hTyped
  obtain ⟨d, a, hHanded, hCheck, hOctets⟩ := hHandOver {} payload
  exact ⟨payload, d, a, hDump, hHanded, hCheck, (hRestored 1.0 t (.text "j") a [.text "REPLACE"]
    { replace := true } (by decide) hOctets hPlan (.inr rfl)).2.1⟩

end Store

end BatchStore
