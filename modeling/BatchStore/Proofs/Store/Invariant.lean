import BatchStore.Proofs.Store.Breaks
import BatchStore.Proofs.Store.History
import BatchStore.Proofs.Store.Reach
import BatchStore.Proofs.Store.RoundTrip

/-!
# What holds of a store at all times

A store begins with some databases, all empty and the first of them selected. Whatever submissions
are executed then, at whatever readings of the clock, it keeps its shape (`history_shaped`): there
are as many databases as in the beginning, and one of them is selected.

The values are well-formed as long as nothing foreign is restored (`history_wellFormed`).
`RestoresDumps` says that each payload that a RESTORE brings was the answer of a DUMP before it, in
the same submission or in another, even in one that was rolled back. A DUMP of a well-formed value
answers a payload that brings back this value and no other (`Payload.sane_dump`).
-/

namespace BatchStore

/-! ## The selected database -/

namespace Store

/-- There are `n` databases, and one of them is selected. -/
structure Shaped (n : Nat) (s : Store) : Prop where
  count : s.databases.length = n
  selected : s.selected < n

variable {n : Nat} {s : Store}

/-- SELECT refuses what is no database. -/
theorem select_shaped (index : Octets) (h : s.Shaped n) : (Server.select index s).2.Shaped n := by
  unfold Server.select
  rcases hIndex : (readInt index).bind s.index? with halt | j
  · exact h
  · have hRange : j < s.databases.length := by
      rcases hRead : readInt index with halt | i <;> rw [hRead] at hIndex
      · cases hIndex
      · exact index?_lt hIndex
    have hCount : s.databases.length = n := h.count
    exact ⟨hCount, hCount ▸ hRange⟩

/-- No other command changes the selection, and none the number of databases. -/
theorem runType_shaped (now : Float) (t : CommandType) (args : List Octets) (h : s.Shaped n) :
    (runType now t args s).2.Shaped n := by
  by_cases hSelect : t = .select
  · subst hSelect
    unfold runType
    split
    · rcases args with _ | ⟨index, _ | ⟨second, rest⟩⟩
      · exact h
      · exact select_shaped index h
      · exact h
    · exact h
  · have hWithin : Within (fun _ => True) t args :=
      ⟨hSelect, fun _ _ => trivial, fun _ => .inr fun _ => trivial⟩
    have hConfined : s.Confined now (fun _ => True) (runType now t args s).2 :=
      runType_staysWithin hWithin s trivial
    exact ⟨hConfined.count.trans h.count, by rw [hConfined.selected]; exact h.selected⟩

theorem run_shaped (now : Float) (c : Command) (h : s.Shaped n) : (run now c s).2.Shaped n := by
  rw [run_eq]
  cases c.request? with
  | none => exact h
  | some r => exact runType_shaped now r.1 r.2 h

/-- A new store has the databases that were asked for, the first of them selected. -/
theorem new_shaped {count : Int} {new : Store} (h : Store.new count = .ok new) :
    new.Shaped count.toNat := by
  unfold Store.new at h
  split at h
  · cases h
  · cases h
    exact ⟨List.length_replicate, by show 0 < count.toNat; omega⟩

theorem history_shaped (timeline : Timeline) (h : s.Shaped n) :
    (history run timeline s).2.Shaped n := by
  induction timeline generalizing s with
  | nil => exact h
  | cons e rest ih => exact ih (submissionBy_keeps (fun c _ s => run_shaped e.1 c) h)

end Store

/-! ## Payloads that were dumped -/

/-- The payload that a command restores, if it restores one. -/
def Command.restored? (c : Command) : Option Octets :=
  match c.request? with
  | some (.restore, _ :: _ :: payload :: _) => some payload
  | _ => none

/-- The payload that a command answered, if it dumped a key. -/
def Command.dumped? (c : Command) (reply : Reply) : Option Octets :=
  match c.request?, reply with
  | some (.dump, _), .ok (.octets payload) => some payload
  | _, _ => none

/-- Commands that were carried out, each with what it answered. -/
abbrev Chronicle := List (Command × Reply)

/-- The commands of a timeline that were carried out. -/
def Timeline.chronicle (timeline : Timeline) (episodes : List Episode) : Chronicle :=
  (timeline.zip episodes).flatMap fun e => e.1.2.commands.zip e.2.replies

/-- Every payload that is restored is known, or was dumped before. -/
def RestoresDumps (known : List Octets) : Chronicle → Prop
  | [] => True
  | e :: rest =>
    (∀ payload ∈ e.1.restored?, payload ∈ known) ∧
      RestoresDumps ((e.1.dumped? e.2).toList ++ known) rest

namespace RestoresDumps

instance decidable : ∀ (known : List Octets) (ran : Chronicle), Decidable (RestoresDumps known ran)
  | _, [] => .isTrue trivial
  | known, e :: rest =>
    have := decidable ((e.1.dumped? e.2).toList ++ known) rest
    inferInstanceAs (Decidable (_ ∧ _))

end RestoresDumps

namespace Store

variable {s : Store}

/-- A DUMP of a well-formed value answers a sane payload. -/
theorem run_dumps (now : Float) (c : Command) (hs : s.WellFormed) :
    ∀ payload ∈ c.dumped? (run now c s).1, Payload.Sane payload := by
  intro payload hDumped
  unfold Command.dumped? at hDumped
  split at hDumped
  · rename_i args dumped hRequest hReply
    cases hDumped
    rw [run_eq, hRequest] at hReply
    change (runType now .dump args s).1 = _ at hReply
    unfold runType at hReply
    split at hReply
    · rcases args with _ | ⟨key, _ | ⟨second, rest⟩⟩
      · cases hReply
      · change Except.ok ((s.live? now s.selected key).elim Datum.null fun e =>
          Datum.octets (Payload.write (Payload.contentOf e.value))) = _ at hReply
        rcases hSeen : s.live? now s.selected key with _ | e <;> rw [hSeen] at hReply <;>
          cases hReply
        exact Payload.sane_dump (hs.live? now s.selected key e hSeen)
      · cases hReply
    · cases hReply
  · cases hDumped

/-- A command that restores only sane payloads leaves a well-formed store well-formed. -/
theorem run_wellFormed (now : Float) (c : Command) (hs : s.WellFormed)
    (hSane : ∀ payload ∈ c.restored?, Payload.Sane payload) : (run now c s).2.WellFormed := by
  rw [run_eq]
  cases hRequest : c.request? with
  | none => exact hs
  | some r =>
      obtain ⟨t, args⟩ := r
      show (runType now t args s).2.WellFormed
      unfold runType
      split
      · rename_i hAdmits
        refine (step_behaves now hAdmits).keeps ?_ s hs
        rintro rfl key lifetime payload options rfl
        apply hSane
        unfold Command.restored?
        rw [hRequest]
        rfl
      · exact hs

/-- What is known to be sane grows with each command. -/
theorem trace_wellFormed {now : Float} (atomic : Bool) (cs : List Command) {known : List Octets}
    {later : Chronicle} (hs : s.WellFormed) (hKnown : ∀ payload ∈ known, Payload.Sane payload)
    (h : RestoresDumps known
      (cs.zip ((trace (run now) atomic cs s).map (·.1)) ++ later)) :
    (leftBy s (trace (run now) atomic cs s)).WellFormed ∧
      ∃ known', (∀ payload ∈ known', Payload.Sane payload) ∧ RestoresDumps known' later := by
  induction cs generalizing s known with
  | nil => exact ⟨hs, known, hKnown, h⟩
  | cons c cs ih =>
      rw [trace] at h ⊢
      have hHere : (∀ payload ∈ c.restored?, payload ∈ known) := by
        split at h <;> exact h.1
      have hAfter : (run now c s).2.WellFormed :=
        run_wellFormed now c hs fun payload hMem => hKnown payload (hHere payload hMem)
      have hGrown : ∀ payload ∈ (c.dumped? (run now c s).1).toList ++ known,
          Payload.Sane payload := by
        intro payload hMem
        rcases List.mem_append.1 hMem with hNew | hOld
        · exact run_dumps now c hs payload (Option.mem_toList.1 hNew)
        · exact hKnown payload hOld
      split at h <;> rename_i hGoesOn
      · rw [if_pos hGoesOn]
        exact ih hAfter hGrown h.2
      · rw [if_neg hGoesOn]
        refine ⟨hAfter, _, hGrown, ?_⟩
        simpa using h.2

theorem new_wellFormed {n : Int} {new : Store} (h : Store.new n = .ok new) : new.WellFormed := by
  unfold Store.new at h
  split at h
  · cases h
  · cases h
    intro db hMem e he
    rw [List.eq_of_mem_replicate hMem] at he
    cases he

theorem history_wellFormed (timeline : Timeline) {known : List Octets} (hs : s.WellFormed)
    (hKnown : ∀ payload ∈ known, Payload.Sane payload)
    (h : RestoresDumps known (timeline.chronicle (history run timeline s).1)) :
    (history run timeline s).2.WellFormed := by
  induction timeline generalizing s known with
  | nil => exact hs
  | cons e rest ih =>
      obtain ⟨now, b⟩ := e
      obtain ⟨hLeft, known', hGrown, hLater⟩ := trace_wellFormed b.atomic b.commands hs hKnown h
      refine ih ?_ hGrown hLater
      rcases submissionBy_left (run now) b s with hAfter | hBack
      · rw [hAfter]
        exact hLeft
      · rw [hBack]
        exact hs

end Store

end BatchStore
