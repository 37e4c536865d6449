import BatchStore.Proofs.Store.Breaks
import BatchStore.Proofs.Store.Outcomes
import BatchStore.Proofs.Store.Transaction

/-!
# Failures of a pipeline stay in place, but for faults

In a pipeline a command that is refused has its refusal among the replies, in its own place, and
the commands behind it are carried out. A command that breaks down is another matter: its fault
ends the whole submission, and the commands in front of it have taken effect without anybody
being told what they answered.

`pipeline_in_place` says which of the two happens. Without a fault there is one entry for each
command. With one there is nothing but the failure of the store, and the command that it comes
from is one that `Breaks` knows of. A number of some hundred digits as a lifetime is enough
(`pipeline_loses_replies`).
-/

namespace BatchStore

/-- The entry of a command among the replies of a pipeline. -/
def Reply.entry? : Reply → Option Datum
  | .ok d => some d
  | .error (.refused r) => some (.refusal r)
  | .error (.faulted _) => none

/-- The fault that a command ended with. -/
def Reply.fault? : Reply → Option Fault
  | .error (.faulted f) => some f
  | _ => none

namespace Store

/-- A command that breaks down has a request that does so for a reason. -/
theorem run_breaks {now : Float} {c : Command} {s : Store} {f : Fault}
    (h : (run now c s).1 = .error (.faulted f)) :
    ∃ t args, c.request? = some (t, args) ∧ t.admits args.length = true ∧
      Breaks now s t args f := by
  rw [run_eq] at h
  cases hRequest : c.request? with
  | none =>
      rw [hRequest] at h
      cases h
  | some r =>
      rw [hRequest] at h
      unfold runType at h
      dsimp only at h
      split at h
      · rename_i hAdmits
        exact ⟨r.1, r.2, rfl, hAdmits, (step_behaves now hAdmits).fault s f h⟩
      · cases h

/-- The first fault of a trace. -/
def firstFault? (ran : List (Reply × Store)) : Option Fault :=
  ran.findSome? fun r => Reply.fault? r.1

/-- How a pipeline ends, by the first fault among the commands that are carried out. -/
def PipelineEnds (now : Float) (cs : List Command) (s : Store) (ran : List (Reply × Store)) :
    Option Fault → Prop
  | none =>
    ∃ replies, pipeline (run now) cs s = (.ok replies, leftBy s ran) ∧
      replies.length = cs.length ∧ ran.map (fun r => Reply.entry? r.1) = replies.map some
  | some f =>
    pipeline (run now) cs s = (.error f, leftBy s ran) ∧
      ∃ before c after t args, cs = before ++ c :: after ∧ ran.length = before.length + 1 ∧
        c.request? = some (t, args) ∧ t.admits args.length = true ∧
        Breaks now (leftBy s (ran.take before.length)) t args f

/-- An entry in front of those of the commands behind it. -/
theorem PipelineEnds.follow {now : Float} {c : Command} {cs : List Command} {s t : Store}
    {reply : Reply} {d : Datum} {f? : Option Fault} (hEntry : reply.entry? = some d)
    (hRun : pipeline (run now) (c :: cs) s = pipeline.follow d (pipeline (run now) cs t))
    (h : PipelineEnds now cs t (trace (run now) false cs t) f?) :
    PipelineEnds now (c :: cs) s ((reply, t) :: trace (run now) false cs t) f? := by
  cases f? with
  | none =>
      obtain ⟨replies, hPipeline, hLength, hEntries⟩ := h
      refine ⟨d :: replies, ?_, ?_, ?_⟩
      · rw [hRun, hPipeline]
        rfl
      · rw [List.length_cons, List.length_cons, hLength]
      · rw [List.map_cons, List.map_cons, hEntry, hEntries]
  | some f =>
      obtain ⟨hPipeline, before, c', after, u, args, hCommands, hLength, hRest⟩ := h
      refine ⟨?_, c :: before, c', after, u, args, ?_, ?_, hRest⟩
      · rw [hRun, hPipeline]
        rfl
      · rw [hCommands, List.cons_append]
      · rw [List.length_cons, List.length_cons, hLength]

/-- One command after another: an entry each, up to the first fault. -/
theorem pipeline_ends (now : Float) (cs : List Command) (s : Store) :
    PipelineEnds now cs s (trace (run now) false cs s)
      (firstFault? (trace (run now) false cs s)) := by
  induction cs generalizing s with
  | nil => exact ⟨[], rfl, rfl, rfl⟩
  | cons c cs ih =>
      rcases hRun : run now c s with ⟨⟨r | f⟩ | d, t⟩
      · rw [trace_refused hRun]
        exact (ih t).follow rfl (pipeline_refused hRun)
      · rw [trace_faulted hRun]
        obtain ⟨u, args, hRequest, hAdmits, hBreaks⟩ := run_breaks (congrArg Prod.fst hRun)
        exact ⟨pipeline_faulted hRun, [], c, cs, u, args, rfl, rfl, hRequest, hAdmits, hBreaks⟩
      · rw [trace_ok hRun]
        exact (ih t).follow rfl (pipeline_ok hRun)

/-- How a store answers a pipeline, by the first fault among its commands.

* Without a fault there is an entry for each command in its own place: what it answered, or the
  refusal that it met.
* With one there are no entries at all, though the commands in front of the fault have taken
  effect. The fault comes from a command that breaks down for a reason in the store that the
  commands in front of it left. -/
theorem pipeline_in_place (now : Float) (commands : List Command) (s : Store) :
    let ran := trace (run now) false commands s
    let executed := execute now [⟨commands, false⟩] s
    executed.2 = leftBy s ran ∧
      match firstFault? ran with
      | none => ∃ replies, executed.1.1 = [.ok replies] ∧ replies.length = commands.length ∧
          ran.map (fun r => Reply.entry? r.1) = replies.map some
      | some f => executed.1.1 = [storeError f] ∧
          ∃ before c after t args, commands = before ++ c :: after ∧
            ran.length = before.length + 1 ∧ c.request? = some (t, args) ∧
            t.admits args.length = true ∧
            Breaks now (leftBy s (ran.take before.length)) t args f := by
  intro ran executed
  have hEnds := pipeline_ends now commands s
  rcases hFault : firstFault? ran with _ | f <;> rw [hFault] at hEnds
  · obtain ⟨replies, hPipeline, hLength, hEntries⟩ := hEnds
    have hOne := execute_one (submissionBy_pipeline_ok hPipeline)
    exact ⟨hOne.2, replies, hOne.1, hLength, hEntries⟩
  · obtain ⟨hPipeline, hReason⟩ := hEnds
    have hOne := execute_one (submissionBy_pipeline_error hPipeline)
    exact ⟨hOne.2, hOne.1, hReason⟩

/-- A number of 401 digits. -/
def longNumber : Octets := 49 :: List.replicate 400 48

/-- SET and EXPIRE with a lifetime of 401 digits. -/
def longLifetime : List Command :=
  [⟨.set, [.text "k", .text "v"]⟩, ⟨.expire, [.text "k", .octets longNumber]⟩]

/-- A store of one database, with and without the key that the pipeline sets. -/
def single (held : List (Octets × Entry)) : Store := { databases := [⟨held⟩] }

/-- The pipeline answers neither of its commands, though the first of them has set the key. -/
theorem pipeline_loses_replies :
    (execute 0.0 [⟨longLifetime, false⟩] (single [])).1.1 = [storeError .integerTooLarge] ∧
      (execute 0.0 [⟨longLifetime, false⟩] (single [])).2.held? 0 (Octets.ofText "k") =
        some { value := .string (Octets.ofText "v") } := by
  have hPipeline : pipeline (run 0.0) longLifetime (single []) =
      (.error .integerTooLarge,
        single [(Octets.ofText "k", { value := .string (Octets.ofText "v") })]) := by
    decide +kernel
  have hOne := execute_one (submissionBy_pipeline_error hPipeline)
  refine ⟨hOne.1, ?_⟩
  rw [hOne.2]
  rfl

end Store

end BatchStore
