import BatchStore.Proofs.Store.Trace

/-!
# Pipelines and transactions

A pipeline and a transaction of the same commands run two loops of their own. This module
says how they agree. The common ground is `trace`: the commands of a submission in turn, each
with its reply and the store that it left, up to the command that ends the submission.

`execute_atomic` reads the transaction off the trace of the pipeline. If no command fails,
both have the same replies and leave the same store. If the first failure is a refusal, the
transaction answers with that refusal and leaves the store that it found. If it is a fault,
both answer with it, the transaction leaves the store that it found and the pipeline the
store that the fault was met in.
-/

namespace BatchStore

namespace Store

/-- How the two loops over the same commands end, by the first failure of the pipeline. -/
def Ends (carryOut : Runner Store) (place : Nat) (cs : List Command) (s : Store) :
    Option Halt → Prop
  | none =>
    ∃ replies, (trace carryOut false cs s).map (·.1) = replies.map .ok ∧
      pipeline carryOut cs s = (.ok replies, leftBy s (trace carryOut false cs s)) ∧
      attempt carryOut place cs s = (.ok replies, leftBy s (trace carryOut false cs s))
  | some (.refused r) =>
    ∃ stop after, stop.halt = .refused r ∧ attempt carryOut place cs s = (.error stop, after)
  | some (.faulted f) =>
    pipeline carryOut cs s = (.error f, leftBy s (trace carryOut false cs s)) ∧
      ∃ stop after, stop.halt = .faulted f ∧ attempt carryOut place cs s = (.error stop, after)

/-- A command that succeeds changes the store of both loops alike, so their first failure is
the same. -/
theorem ends (carryOut : Runner Store) (cs : List Command) (s : Store) (place : Nat) :
    Ends carryOut place cs s (firstHalt? (trace carryOut false cs s)) := by
  -- Up to the first failure both loops meet the same stores, so one induction serves for both.
  induction cs generalizing s place with
  | nil => exact ⟨[], rfl, rfl, rfl⟩
  | cons c cs ih =>
      rcases hRun : carryOut c s with ⟨⟨r | f⟩ | d, t⟩
      · rw [trace_refused hRun]
        exact ⟨_, t, rfl, attempt_error hRun⟩
      · rw [trace_faulted hRun]
        refine ⟨?_, _, t, rfl, attempt_error hRun⟩
        rw [trace_faulted hRun]
        exact pipeline_faulted hRun
      · have hFirst : firstHalt? (trace carryOut false (c :: cs) s) =
            firstHalt? (trace carryOut false cs t) := by
          rw [trace_ok hRun]
          rfl
        have hRest := ih t (place + 1)
        rw [hFirst]
        rcases hHalt : firstHalt? (trace carryOut false cs t) with _ | ⟨r | f⟩ <;>
          rw [hHalt] at hRest
        · obtain ⟨replies, hReplies, hPipeline, hAttempt⟩ := hRest
          refine ⟨d :: replies, ?_, ?_, ?_⟩
          · rw [trace_ok hRun, List.map_cons, hReplies]
            rfl
          · rw [pipeline_ok hRun, hPipeline, trace_ok hRun]
            rfl
          · rw [attempt_ok hRun, hAttempt, trace_ok hRun]
            rfl
        · obtain ⟨stop, after, hStop, hAttempt⟩ := hRest
          refine ⟨stop, after, hStop, ?_⟩
          rw [attempt_ok hRun, hAttempt]
        · obtain ⟨hPipeline, stop, after, hStop, hAttempt⟩ := hRest
          refine ⟨?_, stop, after, hStop, ?_⟩
          · rw [pipeline_ok hRun, hPipeline, trace_ok hRun]
            rfl
          · rw [attempt_ok hRun, hAttempt]

/-- What a caller gets for a submission that a fault ended. -/
def storeError (f : Fault) : Outcome :=
  .error (.status .storeError (some (.fault f)) ("store execution failed: " ++ f.message))

/-- What a caller gets for a transaction of which a command was refused. -/
def abortedBy (r : Refusal) : Outcome :=
  .error (.aborted ("EXECABORT Transaction discarded because of: " ++ r.message)
    (some (.request r)))

theorem execute_one {now : Float} {b : Submission} {s after : Store} {outcome : Outcome}
    {reports : List Report} (h : submissionBy (run now) b s = ((outcome, reports), after)) :
    (execute now [b] s).1.1 = [outcome] ∧ (execute now [b] s).2 = after := by
  simp [execute, submission, h]

/-- A transaction and a pipeline of the same commands, executed by the same store at one
reading of the clock, by the first command of the pipeline that fails.

* If none fails, both answer the replies of all commands and leave the same store.
* If it is refused, the transaction answers with the refusal and leaves the store as it was.
* If it breaks down, both answer with the fault. The transaction leaves the store as it was,
  the pipeline leaves it as it was when the fault was met. -/
theorem execute_atomic (now : Float) (commands : List Command) (s : Store) :
    let ran := trace (run now) false commands s
    let pipelined := execute now [⟨commands, false⟩] s
    let transacted := execute now [⟨commands, true⟩] s
    match firstHalt? ran with
    | none => ∃ replies, ran.map (·.1) = replies.map .ok ∧ pipelined.1.1 = [.ok replies] ∧
        transacted.1.1 = [.ok replies] ∧ transacted.2 = pipelined.2
    | some (.refused r) => transacted.1.1 = [abortedBy r] ∧ transacted.2 = s
    | some (.faulted f) => pipelined.1.1 = [storeError f] ∧ transacted.1.1 = [storeError f] ∧
        transacted.2 = s ∧ pipelined.2 = leftBy s ran := by
  intro ran pipelined transacted
  have hEnds := ends (run now) commands s 0
  rcases hHalt : firstHalt? ran with _ | ⟨r | f⟩ <;> rw [hHalt] at hEnds
  · obtain ⟨replies, hReplies, hPipeline, hAttempt⟩ := hEnds
    have hP := execute_one (submissionBy_pipeline_ok hPipeline)
    have hA := execute_one (submissionBy_attempt_ok hAttempt)
    exact ⟨replies, hReplies, hP.1, hA.1, hA.2.trans hP.2.symm⟩
  · obtain ⟨stop, after, hStop, hAttempt⟩ := hEnds
    exact execute_one (submissionBy_attempt_refused hStop hAttempt)
  · obtain ⟨hPipeline, stop, after, hStop, hAttempt⟩ := hEnds
    have hP := execute_one (submissionBy_pipeline_error hPipeline)
    have hA := execute_one (submissionBy_attempt_faulted hStop hAttempt)
    exact ⟨hP.1, hA.1, hA.2, hP.2⟩

end Store

end BatchStore
