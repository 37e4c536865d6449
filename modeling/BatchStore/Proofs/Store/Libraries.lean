import BatchStore.Proofs.Datum
import BatchStore.Proofs.Store.Restoring
import BatchStore.Proofs.Store.RoundTrip

/-!
# Libraries that are dumped and restored

FUNCTION DUMP answers all libraries in one payload. FUNCTION RESTORE brings them back by a policy:
in the place of those that are there, over them, or beside them (`Restores`). Under the last no
library may be in the way, and nothing is changed if one is.

What is one library and what is another goes by the worth of their names. `Apart` says that no two
names are worth the same, as in any mapping, and `Comparable` that names are worth the same as each
other or not at all. With these, libraries that are written over others are found before them
(`codeOf?_merged`), and libraries that stand beside others are simply behind them
(`merged_of_free`).

The search for a library that is in the way answers null if there is none. But null may be a name:
a payload from elsewhere can bring it. So a library without a name that is in the way lets all pass
that come behind it (`restore_passes_null`).
-/

namespace BatchStore

namespace Libraries

open Datum

/-! ## Policies -/

/-- The code of the library with a name. -/
def codeOf? (libraries : Table Datum Datum) (name : Datum) : Option Datum :=
  valueIn? libraries.entries name

/-- The first of some libraries' names that is the name of one of others. -/
def taken? (old new : Table Datum Datum) : Option Datum :=
  new.keys.find? fun name => name.isAmong old.keys

/-- Each name has the code that it has among the new libraries, or else among the old. -/
def Overrides (after old new : Table Datum Datum) : Prop :=
  Apart new.keys → ∀ name, Comparable (· ∈ name :: (old.keys ++ new.keys)) →
    codeOf? after name = (codeOf? new name).or (codeOf? old name)

section Policies

variable {old new : Table Datum Datum} {name : Datum}

theorem codeOf?_merged : Overrides (merged old new) old new :=
  fun hApart _ hNames => valueIn?_putPairs hNames hApart List.mem_cons_self
    (fun _ hd => List.mem_cons_of_mem _ (List.mem_append_left _ hd))
    (fun _ hd => List.mem_cons_of_mem _ (List.mem_append_right _ hd))

theorem merged_of_free (hApart : Apart new.keys) (hFree : taken? old new = none) :
    merged old new = ⟨old.entries ++ new.entries⟩ := by
  refine congrArg Table.mk (putPairs_free hApart fun k hk => ?_)
  simpa [Table.keys] using List.find?_eq_none.1 hFree k hk

theorem merged_empty (hApart : Apart new.keys) : merged .empty new = new :=
  merged_of_free hApart (List.find?_eq_none.2 fun k _ => by simp [isAmong, Table.empty, Table.keys])

/-- Beside others, libraries are put if no name of theirs is taken. -/
theorem restored_free (hFree : taken? old new = none) :
    restored (some .append) old new = .ok (merged old new) := by
  have hClash : clash? old new = none := by
    show (taken? old new).filter _ = none
    rw [hFree]
    rfl
  simp only [restored, hClash]

/-- A name that is taken is in the way, unless it is null. -/
theorem restored_taken (hTaken : taken? old new = some name) (hName : name ≠ .null) :
    ∃ h, restored (some .append) old new = .error h ∧
      ∀ text, name = .octets (Octets.ofText text) → h = .refused (.libraryClash text) := by
  have hClash : clash? old new = some name := by
    show (taken? old new).filter _ = some name
    rw [hTaken]
    simp [Option.filter, hName]
  simp only [restored, hClash]
  cases hShown : shownName name with
  | error h =>
      refine ⟨h, rfl, ?_⟩
      rintro text rfl
      rw [shownName, readText_ofText] at hShown
      cases hShown
  | ok shown =>
      refine ⟨_, rfl, ?_⟩
      rintro text rfl
      rw [shownName, readText_ofText] at hShown
      cases hShown
      rfl

/-- A null name that is taken lets all pass. -/
theorem restored_null (hTaken : taken? old new = some .null) :
    restored (some .append) old new = .ok (merged old new) := by
  have hClash : clash? old new = none := by
    show (taken? old new).filter _ = none
    rw [hTaken]
    rfl
  simp only [restored, hClash]

end Policies

/-! ## Restores -/

section Restores

variable {form : Payload.Form} {payload : Octets} {policy? : Option Octets} {s : Store}
  {new libraries : Table Datum Datum}

/-- A restore of a function dump does what its policy makes of the libraries. -/
theorem restoreBy_mapping (hRead : form.read? payload = some (.mapping new.entries)) :
    restoreBy form payload policy? s =
      Store.given (restored (policyOf policy?) s.libraries new)
        (fun libraries s => (.ok okReply, { s with libraries })) s := by
  unfold restoreBy
  rw [hRead]
  rfl

theorem restoreBy_restored (hRead : form.read? payload = some (.mapping new.entries))
    (h : restored (policyOf policy?) s.libraries new = .ok libraries) :
    restoreBy form payload policy? s = (.ok okReply, { s with libraries }) := by
  rw [restoreBy_mapping hRead, h]
  rfl

theorem restoreBy_failed (hRead : form.read? payload = some (.mapping new.entries)) {halt : Halt}
    (h : restored (policyOf policy?) s.libraries new = .error halt) :
    restoreBy form payload policy? s = (.error halt, s) := by
  rw [restoreBy_mapping hRead, h]
  rfl

/-- Where no libraries are, each policy brings back what was dumped. -/
theorem restored_empty (hApart : Apart new.keys)
    (hPolicy : policyOf policy? ∈ [some .flush, some .replace, some .append]) :
    restored (policyOf policy?) .empty new = .ok new := by
  have hFree : taken? .empty new = none :=
    List.find?_eq_none.2 fun k _ => by simp [isAmong, Table.empty, Table.keys]
  simp only [List.mem_cons, List.not_mem_nil, or_false] at hPolicy
  rcases hPolicy with hFlush | hReplace | hAppend
  · rw [hFlush]
    rfl
  · rw [hReplace]
    exact congrArg Except.ok (merged_empty hApart)
  · rw [hAppend, restored_free hFree, merged_empty hApart]

/-- The payload of a value is no function dump. -/
theorem restoreBy_value {row : List Datum} (hRead : form.read? payload = some (.tuple row)) :
    restoreBy form payload policy? s = (refuse .notAFunctionDump, s) := by
  unfold restoreBy
  rw [hRead]

end Restores

end Libraries

namespace Store

open Datum Libraries

/-- A function dump has no value, so RESTORE refuses it. -/
theorem restore_functionDump {form : Payload.Form} {payload : Octets} {ps : List (Datum × Datum)}
    (hRead : form.read? payload = some (.mapping ps)) (now : Float) (s : Store)
    (key lifetime : Octets) (options : List Octets) :
    ∃ r after, Backup.restoreBy form now key lifetime payload options s =
      (.error (.refused r), after) ∧ s.Untouched now after := by
  refine restoreBy_refused fun n plan v hGranted => ?_
  have hValue := hGranted.value
  rw [hRead] at hValue
  cases hValue

/-- What a restore of the dump of libraries `new` does to a store.

FLUSH leaves the libraries of the dump. REPLACE leaves them over those that were there. APPEND
leaves them behind those that were there if no name is taken. If a name is taken, it fails, with the
name in the refusal, and leaves the store as it was; but if the first that is taken is null, it does
what REPLACE does. -/
structure Restores (form : Payload.Form) (new : Table Datum Datum) (payload : Octets)
    (policy? : Option Octets) (s : Store) : Prop where
  flush : policyOf policy? = some .flush →
    restoreBy form payload policy? s = (.ok okReply, { s with libraries := new })
  replace : policyOf policy? = some .replace →
    restoreBy form payload policy? s =
      (.ok okReply, { s with libraries := merged s.libraries new })
  replaced : Overrides (merged s.libraries new) s.libraries new
  append : policyOf policy? = some .append → Apart new.keys → taken? s.libraries new = none →
    restoreBy form payload policy? s =
      (.ok okReply, { s with libraries := ⟨s.libraries.entries ++ new.entries⟩ })
  taken : policyOf policy? = some .append → ∀ name, taken? s.libraries new = some name →
    if name = .null then
      restoreBy form payload policy? s =
        (.ok okReply, { s with libraries := merged s.libraries new })
    else
      ∃ halt, restoreBy form payload policy? s = (.error halt, s) ∧
        ∀ text, name = .octets (Octets.ofText text) → halt = .refused (.libraryClash text)

theorem restores_of_read? {form : Payload.Form} {new : Table Datum Datum} {payload : Octets}
    (hRead : form.read? payload = some (.mapping new.entries)) (policy? : Option Octets)
    (s : Store) : Restores form new payload policy? s where
  flush hPolicy := restoreBy_restored hRead (by rw [hPolicy]; rfl)
  replace hPolicy := restoreBy_restored hRead (by rw [hPolicy]; rfl)
  replaced := codeOf?_merged
  append hPolicy hApart hFree := by
    rw [← merged_of_free hApart hFree]
    exact restoreBy_restored hRead (by rw [hPolicy, restored_free hFree])
  taken hPolicy name hTaken := by
    by_cases hNull : name = .null
    · subst hNull
      rw [if_pos rfl]
      exact restoreBy_restored hRead (by rw [hPolicy, restored_null hTaken])
    · rw [if_neg hNull]
      obtain ⟨halt, hFails, hShown⟩ := restored_taken hTaken hNull
      exact ⟨halt, restoreBy_failed hRead (by rw [hPolicy, hFails]), hShown⟩

/-- Libraries `new` that are dumped and restored into any store, in any form of payloads that brings
their dump back.

* The dump changes nothing. When all libraries are flushed after it, each policy brings back the
  store that was dumped.
* A restore of the dump goes by its policy, which is APPEND without a word and else the word in
  capitals (`Restores`).
* RESTORE refuses the dump and leaves all keys as they were. FUNCTION RESTORE refuses the payload of
  any value and leaves the store as it was.
* The commands do this in the form of the store, which brings back libraries of octets, and the
  payload of a value as a row. -/
theorem function_dumps_restore (form : Payload.Form) (new : Table Datum Datum)
    (hBack : form.read? (form.write (.mapping new.entries)) = some (.mapping new.entries)) :
    let payload := form.write (.mapping new.entries)
    (∀ s : Store, s.libraries = new → dumpBy form s = (.ok (.octets payload), s) ∧
      (Apart new.keys → ∀ policy?,
        policyOf policy? ∈ [some .flush, some .replace, some .append] →
        restoreBy form payload policy? (flush s).2 = (.ok okReply, s))) ∧
    (∀ (policy? : Option Octets) (s : Store), Restores form new payload policy? s) ∧
    (policyOf none = some .append ∧
      ∀ (k : Keyword) (w : Octets), w.upper = k.octets.upper → policyOf (some w) = some k) ∧
    (∀ (now : Float) (s : Store) (key lifetime : Octets) (options : List Octets),
      ∃ r after, Backup.restoreBy form now key lifetime payload options s =
        (.error (.refused r), after) ∧ s.Untouched now after) ∧
    (∀ (v : Value) (row : List Datum) (policy? : Option Octets) (s : Store),
      form.read? (form.write (Payload.contentOf v)) = some (.tuple row) →
      restoreBy form (form.write (Payload.contentOf v)) policy? s =
        (refuse .notAFunctionDump, s)) ∧
    (∀ (now : Float) (c : Command) (s : Store),
      (c.request? = some (.functionDump, []) → run now c s = dumpBy Payload.form s) ∧
      (∀ mode? : Option Octets,
        c.request? = some (.functionFlush, mode?.toList) → run now c s = flush s) ∧
      ∀ (sent : Octets) (policy? : Option Octets),
        c.request? = some (.functionRestore, sent :: policy?.toList) →
        run now c s = restoreBy Payload.form sent policy? s) ∧
    ((∀ e ∈ new.entries, e.1.IsOctets ∧ e.2.IsOctets) →
      Payload.form.read? (Payload.form.write (.mapping new.entries)) =
        some (.mapping new.entries)) ∧
    ∀ v : Value, ∃ row,
      Payload.form.read? (Payload.form.write (Payload.contentOf v)) = some (.tuple row) := by
  intro payload
  refine ⟨?dumped, restores_of_read? hBack, ?words, restore_functionDump hBack,
    fun v row policy? s => restoreBy_value, ?commands, ?octets,
    fun v => ⟨_, Payload.read?_write _⟩⟩
  case dumped =>
    rintro s rfl
    refine ⟨rfl, fun hApart policy? hPolicy => ?_⟩
    exact restoreBy_restored hBack (restored_empty hApart hPolicy)
  case words =>
    refine ⟨rfl, fun k w hWord => ?_⟩
    show Keyword.ofOctets? w = some k
    rw [Keyword.ofOctets?_eq_of_upper_eq hWord, Keyword.ofOctets?_octets]
  case commands =>
    intro now c s
    refine ⟨fun hRequest => ?_, fun mode? hRequest => ?_, fun sent policy? hRequest => ?_⟩
    · rw [run_of_request? hRequest]
      rfl
    · rw [run_of_request? hRequest]
      cases mode? <;> rfl
    · rw [run_of_request? hRequest]
      cases policy? <;> rfl
  case octets =>
    intro hOctets
    have hKept : Payload.keptPairs new.entries = new.entries :=
      Payload.keptPairs_eq fun e he => (hOctets e he).imp Payload.kept_octets Payload.kept_octets
    show Payload.read? (Payload.write (.mapping new.entries)) = _
    rw [Payload.read?_write, Payload.kept, hKept]

/-- A library is restored over one with its name, and beside it is refused. -/
theorem function_dumps_restore_two :
    let old : Table Datum Datum :=
      ⟨[(.octets [97], .octets [120]), (.octets [98], .octets [121])]⟩
    let new : Table Datum Datum :=
      ⟨[(.octets [98], .octets [122]), (.octets [99], .octets [119])]⟩
    let payload := Payload.form.write (.mapping new.entries)
    let s : Store := { databases := [.empty], libraries := old }
    Payload.form.read? payload = some (.mapping new.entries) ∧
      run 0.0 ⟨.functionRestore, [.octets payload, .text "replace"]⟩ s =
        (.ok okReply, { s with libraries := merged old new }) ∧
      codeOf? (merged old new) (.octets [98]) = some (.octets [122]) ∧
      run 0.0 ⟨.functionRestore, [.octets payload]⟩ s =
        (.error (.refused (.libraryClash "b")), s) := by
  intro old new payload s
  have hBack : Payload.form.read? payload = some (.mapping new.entries) :=
    Payload.read?_write (.mapping new.entries)
  obtain ⟨-, hRestores, -, -, -, hRun, -⟩ := function_dumps_restore Payload.form new hBack
  have hNames : Comparable (· ∈ .octets [98] :: (old.keys ++ new.keys)) :=
    comparable_simple.mono (by decide)
  obtain ⟨halt, hFails, hShown⟩ :=
    (hRestores none s).taken rfl (.octets [98]) (by decide +kernel)
  refine ⟨hBack, ?_, ?_, ?_⟩
  · rw [(hRun 0.0 _ s).2.2 payload (some (Octets.ofText "replace")) rfl]
    exact (hRestores _ s).replace rfl
  · rw [(hRestores none s).replaced (by decide +kernel) _ hNames]
    decide +kernel
  · rw [(hRun 0.0 _ s).2.2 payload none rfl, hFails, hShown "b" rfl]

/-- A library whose name is null, on both sides, lets another pass that is on both sides too. -/
theorem restore_passes_null :
    let name : Datum := .octets (Octets.ofText "lib")
    let here := Payload.write (.mapping [(.null, .octets [111]), (name, .octets [97])])
    let sent := Payload.write (.mapping [(.null, .octets [110]), (name, .octets [98])])
    let s := (history run [(0.0, ⟨[⟨.functionRestore, [.octets here]⟩], false⟩)]
      { databases := [.empty] }).2
    let after := run 0.0 ⟨.functionRestore, [.octets sent, .text "APPEND"]⟩ s
    codeOf? s.libraries name = some (.octets [97]) ∧ after.1 = .ok okReply ∧
      codeOf? after.2.libraries name = some (.octets [98]) := by
  decide +kernel

end Store

end BatchStore
