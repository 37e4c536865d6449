import BatchStore.Proofs.Batch.Requests
import BatchStore.Proofs.Store.Reach
import BatchStore.Proofs.Store.Request

/-!
# Batches for a cluster stay in their database

Where there is a cluster, databases cannot be named. A batch for a cluster does not take the
commands that name one: SELECT, MOVE and SCAN by their types, COPY by the word DB among its
options. A custom command spells its type and its options in words of the caller's, so the
batch has to read them as the store will. Type by type it does, whatever mixture of texts and
octet strings the words are (`CommandType.resolve?_toOctets`). The word DB it looks for in
capitals of all scripts, where the store knows those of ASCII only; it refuses more than it
would have to, never less (`namesDatabase_of_ofOctets?`).

`KeepsDatabase` is what this comes to for one command. Every command of a batch for a cluster
is of this kind (`calls_keepDatabase`), and in the store such commands keep to the selected
database: `cluster_confined`.
-/

namespace BatchStore

/-- A command that names no database: its type is allowed in a cluster, and the options of a
copy, behind its two keys, do not name the database of the destination. -/
def Command.KeepsDatabase (c : Command) : Prop :=
  ∀ t args, c.request? = some (t, args) →
    t.allowedInCluster = true ∧
      (t = .copy → ∀ w ∈ args.drop 2, Keyword.ofOctets? w ≠ some .db)

/-! ## What a batch for a cluster takes -/

namespace Call

/-- What the store reads as the keyword of a database, the batch finds. -/
theorem namesDatabase_of_ofOctets? {a : Arg} (h : Keyword.ofOctets? a.toOctets = some .db) :
    checkCluster.namesDatabase a = true := by
  have hUpper : Octets.upper a.toOctets = [68, 66] := Keyword.upper_of_ofOctets? h
  cases a with
  | octets w =>
      show (w.upper == Keyword.db.octets) = true
      rw [beq_iff_eq]
      exact hUpper
  | text s =>
      have hText : s = "DB" ∨ s = "Db" ∨ s = "dB" ∨ s = "db" := by
        rcases Octets.eq_of_upper_two hUpper with hWord | hWord | hWord | hWord
        · exact .inl (Octets.ofText_injective hWord)
        · exact .inr (.inl (Octets.ofText_injective hWord))
        · exact .inr (.inr (.inl (Octets.ofText_injective hWord)))
        · exact .inr (.inr (.inr (Octets.ofText_injective hWord)))
      rcases hText with rfl | rfl | rfl | rfl <;> decide

/-- A custom command that passes the check of a cluster names no database. -/
theorem keepsDatabase_of_checkCluster {words : ArgList} (h : checkCluster words = .ok ()) :
    Command.KeepsDatabase ⟨.customCommand, words⟩ := by
  intro t args hRequest
  obtain ⟨⟨u, n⟩, hResolved, hArgs⟩ := Option.map_eq_some_iff.1 hRequest
  cases hArgs
  unfold checkCluster at h
  rw [hResolved] at h
  dsimp only at h ⊢
  cases hAllowed : u.allowedInCluster with
  | false =>
      rw [hAllowed] at h
      cases h
  | true =>
      refine ⟨rfl, ?_⟩
      intro hCopy w hw hDb
      subst hCopy
      rw [List.drop_drop, ← List.map_drop] at hw
      obtain ⟨a, ha, rfl⟩ := List.mem_map.1 hw
      have hAny : (words.drop (n + 2)).any checkCluster.namesDatabase = true :=
        List.any_eq_true.2 ⟨a, ha, namesDatabase_of_ofOctets? hDb⟩
      rw [hAny] at h
      cases h

/-- The options of a copy in a cluster are the one flag. -/
theorem keepsDatabase_copy {source destination database : Datum} {replace : Bool} {r : Request}
    (h : request true (copy source destination database replace) = .ok r) :
    Command.KeepsDatabase ⟨r.1, r.2⟩ := by
  obtain ⟨a, b, words, -, -, hDatabase, rfl⟩ := request_copy h
  rcases hDatabase with ⟨-, rfl⟩ | ⟨-, hNever, -⟩
  · intro t args hRequest
    cases hRequest
    refine ⟨rfl, ?_⟩
    intro _ w hw hDb
    cases replace with
    | false => cases hw
    | true =>
        have hFlag : w = Keyword.replace.octets := List.mem_singleton.1 hw
        rw [hFlag, Keyword.ofOctets?_octets] at hDb
        cases hDb
  · cases hNever

/-- A request that a batch for a cluster makes a command of names no database. -/
theorem keepsDatabase_of_request {c : Call} {args : ArgList}
    (h : c.request true = .ok (c.commandType, args))
    (hAllowed : c.commandType.allowedInCluster = true) :
    Command.KeepsDatabase ⟨c.commandType, args⟩ := by
  by_cases hCopy : c.commandType = .copy
  · cases c <;> cases hCopy
    exact keepsDatabase_copy h
  by_cases hCustom : c.commandType = .customCommand
  · cases c <;> cases hCustom
    obtain ⟨v, words, -, -, hCheck, hRequest⟩ := request_custom h
    cases hRequest
    exact keepsDatabase_of_checkCluster (hCheck rfl)
  · intro t words hRequest
    have hType : t = c.commandType := by
      unfold Command.request? at hRequest
      split at hRequest
      · contradiction
      · cases hRequest
        rfl
    subst hType
    exact ⟨hAllowed, fun h => absurd h hCopy⟩

end Call

namespace Batch

/-- Makes calls on a batch one after another. A call that fails leaves it as it is. -/
def calls : Batch → List Call → Batch
  | b, [] => b
  | b, c :: cs =>
    match b.call c with
    | .ok after => calls after cs
    | .error _ => calls b cs

/-- A batch for a cluster all of whose commands name no database. -/
structure InCluster (b : Batch) : Prop where
  cluster : b.cluster = true
  building : b.state = .building
  commands : ∀ c ∈ b.commands, c.KeepsDatabase

theorem InCluster.call {b after : Batch} (hb : b.InCluster) {c : Call}
    (h : b.call c = .ok after) : after.InCluster := by
  obtain ⟨args, hRequest, hAppend⟩ := call_eq_ok h
  have hAllowed : c.commandType.allowedInCluster = true := by
    cases hType : c.commandType.allowedInCluster with
    | true => rfl
    | false =>
        unfold append at hAppend
        rw [hb.building, hb.cluster, hType] at hAppend
        cases hAppend
  obtain ⟨-, -, rfl⟩ := append_eq_ok hAppend
  refine ⟨hb.cluster, hb.building, ?_⟩
  intro command hMem
  rcases List.mem_append.1 hMem with hOld | hNew
  · exact hb.commands command hOld
  · rw [List.mem_singleton.1 hNew]
    rw [hb.cluster] at hRequest
    exact Call.keepsDatabase_of_request hRequest hAllowed

theorem InCluster.calls {b : Batch} (hb : b.InCluster) (cs : List Call) :
    (b.calls cs).InCluster := by
  induction cs generalizing b with
  | nil => exact hb
  | cons c cs ih =>
      unfold Batch.calls
      split
      · rename_i after hCall
        exact ih (hb.call hCall)
      · exact ih hb

end Batch

/-! ## In the store -/

namespace Store

/-- A command that names no database keeps to the selected one. -/
theorem run_confined {now : Float} {c : Command} (hc : c.KeepsDatabase) (s : Store) :
    s.Confined now (· = s.selected) (run now c s).2 := by
  rw [run_eq]
  cases hRequest : c.request? with
  | none => exact .refl now _ s
  | some r =>
      obtain ⟨hAllowed, hCopy⟩ := hc r.1 r.2 hRequest
      have hWithin : Within (· = s.selected) r.1 r.2 := by
        constructor
        · intro hSelect
          rw [hSelect] at hAllowed
          cases hAllowed
        · intro hMove
          rw [hMove] at hAllowed
          cases hAllowed
        · intro hType
          exact .inl (hCopy hType)
      exact runType_staysWithin hWithin s rfl

theorem submission_confined {now : Float} {b : Submission}
    (hb : ∀ c ∈ b.commands, c.KeepsDatabase) (s : Store) :
    s.Confined now (· = s.selected) (submission now b s).2 := by
  have hKeeps : ∀ c ∈ b.commands, ∀ t, s.Confined now (· = s.selected) t →
      s.Confined now (· = s.selected) (run now c t).2 := by
    intro c hc t ht
    have hAfter : t.Confined now (· = t.selected) (run now c t).2 := run_confined (hb c hc) t
    rw [ht.selected] at hAfter
    exact ht.trans hAfter
  exact submissionBy_keeps hKeeps (.refl now _ s)

end Store

/-- Calls of any kind on a batch for a cluster, failing ones among them, give a submission that
stays in the selected database of whatever store executes it.

* The batch and the store find the same type in the words of a custom command, in texts and in
  octets alike, and none of the commands names a database.
* The same database is selected afterwards.
* Every other database is as it was, or it was looked through for expired keys, and these are
  gone. A key that shows there shows as before, with its value and deadline. -/
theorem Batch.cluster_confined (atomic : Bool) (calls : List Call) (now : Float) (s : Store) :
    let b := ({ atomic, cluster := true } : Batch).calls calls
    let submission : Submission := ⟨b.commands, b.atomic⟩
    let after := (Store.execute now [submission] s).2
    b.submit = .ok ({ b with state := .submitted }, submission) ∧
      (∀ words : ArgList,
        CommandType.resolve? ((words.map Arg.toOctets).map .octets) =
          CommandType.resolve? words) ∧
      (∀ c ∈ b.commands, c.KeepsDatabase) ∧
      after.selected = s.selected ∧
      ∀ i, i ≠ s.selected →
        (after.database i = s.database i ∨
          after.database i = (s.database i).settleAll now) ∧
        ∀ key e, s.live? now i key = some e → after.live? now i key = some e := by
  intro b submission after
  have hb : b.InCluster :=
    InCluster.calls ⟨rfl, rfl, fun _ h => absurd h List.not_mem_nil⟩ calls
  have hAfter : s.Confined now (· = s.selected) after :=
    Store.submission_confined (b := submission) hb.commands s
  refine ⟨?_, CommandType.resolve?_toOctets, hb.commands, hAfter.selected, ?_⟩
  · unfold submit
    rw [hb.building]
    rfl
  · intro i hi
    exact ⟨hAfter.others i hi, fun key e hLive => hAfter.live? hi hLive⟩

end BatchStore
