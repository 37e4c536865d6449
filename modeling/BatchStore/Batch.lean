import BatchStore.Command

/-!
# Batches

A batch collects commands while it is being built. Submitting it freezes the commands;
when the submission has been answered the batch is finished, and it may then be
submitted again. Every call either changes the batch as it says or leaves it alone.
-/

namespace BatchStore

/-- What goes to the store: the commands, and whether all or none of them take effect. -/
structure Submission where
  commands : List Command
  atomic : Bool
deriving DecidableEq, Repr

/-- Commands to be carried out in one go. -/
structure Batch where
  atomic : Bool
  /-- Whether the batch is for a cluster, where databases cannot be named. -/
  cluster : Bool := false
  commands : List Command := []
  state : BatchState := .building
deriving DecidableEq, Repr

namespace Batch

/-- The count of commands. -/
def size (b : Batch) : Nat := b.commands.length

/-- Adds a command at the end. -/
def append (b : Batch) (t : CommandType) (args : ArgList) : Except Failure Batch :=
  if b.state != .building then .error (.batch (.notBuilding t b.state))
  else if b.cluster && !t.allowedInCluster then .error (.cluster (.type t))
  else do
    let c ← Command.build t args
    return { b with commands := b.commands ++ [c] }

/-- Freezes the commands and hands them out. -/
def submit (b : Batch) : Except Failure (Batch × Submission) :=
  if b.state == .submitted then .error (.batch .running)
  else .ok ({ b with state := .submitted }, ⟨b.commands, b.atomic⟩)

/-- Records how the submission ended. -/
def finish (b : Batch) (failed : Bool) : Except Failure Batch :=
  if b.state != .submitted then .error (.fault (.breach .batchNotSubmitted))
  else .ok { b with state := if failed then .failed else .completed }

/-- How a batch is shown. -/
def shown (b : Batch) : String :=
  "Batch(is_atomic=" ++ Text.shownBool b.atomic ++ ", cluster_mode=" ++ Text.shownBool b.cluster
    ++ ", commands=" ++ toString b.size ++ ", state=" ++ b.state.name ++ ")"

/-! ## What the calls keep -/

theorem append_eq_ok {b b' : Batch} {t : CommandType} {args : ArgList}
    (h : b.append t args = .ok b') :
    b.state = .building ∧ t.minArity ≤ args.length ∧
      b' = { b with commands := b.commands ++ [⟨t, args⟩] } := by
  simp only [append] at h
  split at h
  · cases h
  · rename_i hState
    split at h
    · cases h
    · simp only [bind, Except.bind] at h
      split at h
      · cases h
      · rename_i c hBuild
        obtain ⟨rfl, hLen⟩ := Command.build_eq_ok hBuild
        cases h
        exact ⟨by simpa using hState, hLen, rfl⟩

theorem submit_eq_ok {b b' : Batch} {s : Submission} (h : b.submit = .ok (b', s)) :
    b.state ≠ .submitted ∧ b' = { b with state := .submitted } ∧
      s = ⟨b.commands, b.atomic⟩ := by
  simp only [submit] at h
  split at h
  · cases h
  · rename_i hState
    cases h
    exact ⟨by simpa using hState, rfl, rfl⟩

end Batch

end BatchStore
