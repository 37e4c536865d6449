import BatchStore.Proofs.Executor
import BatchStore.Proofs.Store.History

/-!
# What submissions answer

A submission that comes through has one reply for each of its commands, and a transaction
has no refusal among them (`submission_ok`). A submission that fails has a failure of the
store, never a bare fault (`submission_error`): whoever sees a bare fault knows that it comes
from somewhere else.

So the executor has nothing to find fault with in the answers of a sound store
(`aligned_submission`).
-/

namespace BatchStore.Store

theorem length_of_follow {d : Datum} {p : Except Fault Replies × Store} {replies : Replies}
    {after : Store} (h : pipeline.follow d p = (.ok replies, after)) :
    ∃ rest, p = (.ok rest, after) ∧ replies = d :: rest := by
  rcases p with ⟨_ | rest, t⟩
  · cases h
  · cases h
    exact ⟨rest, rfl, rfl⟩

theorem pipeline_length {carryOut : Runner Store} {cs : List Command} {s after : Store}
    {replies : Replies} (h : pipeline carryOut cs s = (.ok replies, after)) :
    replies.length = cs.length := by
  induction cs generalizing s replies with
  | nil =>
      cases h
      rfl
  | cons c cs ih =>
      rcases hRun : carryOut c s with ⟨⟨r | f⟩ | d, t⟩
      · rw [pipeline_refused hRun] at h
        obtain ⟨rest, hRest, rfl⟩ := length_of_follow h
        rw [List.length_cons, List.length_cons, ih hRest]
      · rw [pipeline_faulted hRun] at h
        cases h
      · rw [pipeline_ok hRun] at h
        obtain ⟨rest, hRest, rfl⟩ := length_of_follow h
        rw [List.length_cons, List.length_cons, ih hRest]

/-- A transaction that comes through has a result for each command, and none is a refusal. -/
theorem attempt_replies {now : Float} {cs : List Command} {s after : Store} (hs : s.Sound)
    {place : Nat} {replies : Replies} (h : attempt (run now) place cs s = (.ok replies, after)) :
    replies.length = cs.length ∧ ∀ d ∈ replies, d.isRefusal = false := by
  induction cs generalizing s place replies with
  | nil =>
      cases h
      exact ⟨rfl, fun _ hMem => nomatch hMem⟩
  | cons c cs ih =>
      rcases hRun : run now c s with ⟨halt | d, t⟩
      · rw [attempt_error hRun] at h
        cases h
      · rw [attempt_ok hRun] at h
        have hReply : d.isRefusal = false := run_isRefusal now c hs (congrArg Prod.fst hRun)
        have hAfter : t.Sound := by
          have hSound := run_sound now c hs
          rwa [hRun] at hSound
        rcases hRest : attempt (run now) (place + 1) cs t with ⟨stop | rest, u⟩ <;>
          rw [hRest] at h
        · cases h
        · cases h
          obtain ⟨hLength, hClean⟩ := ih hAfter hRest
          refine ⟨by rw [List.length_cons, List.length_cons, hLength], ?_⟩
          intro d' hMem
          rcases List.mem_cons.1 hMem with rfl | hLater
          · exact hReply
          · exact hClean d' hLater

/-- How a submission ends: with its replies, with a refusal that undid it, or with a fault. -/
theorem submission_ends (now : Float) (b : Submission) {s : Store} (hs : s.Sound) :
    (∃ replies, (submission now b s).1.1 = .ok replies ∧ replies.length = b.commands.length ∧
        (b.atomic = true → ∀ d ∈ replies, d.isRefusal = false)) ∨
      (∃ r, (submission now b s).1.1 = .error (.discarded r)) ∨
      ∃ f, (submission now b s).1.1 = .error (.storeFailed (.fault f)) := by
  obtain ⟨cs, atomic⟩ := b
  cases atomic with
  | false =>
      rcases hRun : pipeline (run now) cs s with ⟨f | replies, after⟩
      · rw [submission, submissionBy_pipeline_error hRun]
        exact .inr (.inr ⟨f, rfl⟩)
      · rw [submission, submissionBy_pipeline_ok hRun]
        exact .inl ⟨replies, rfl, pipeline_length hRun, fun hAtomic => nomatch hAtomic⟩
  | true =>
      rcases hRun : attempt (run now) 0 cs s with ⟨stop | replies, after⟩
      · rcases hStop : stop.halt with r | f
        · rw [submission, submissionBy_attempt_refused hStop hRun]
          exact .inr (.inl ⟨r, rfl⟩)
        · rw [submission, submissionBy_attempt_faulted hStop hRun]
          exact .inr (.inr ⟨f, rfl⟩)
      · rw [submission, submissionBy_attempt_ok hRun]
        obtain ⟨hLength, hClean⟩ := attempt_replies hs hRun
        exact .inl ⟨replies, rfl, hLength, fun _ => hClean⟩

section Endings

variable {now : Float} {b : Submission} {s : Store}

/-- A submission that comes through has one reply for each command, and no refusal among them
if it is a transaction. -/
theorem submission_ok (hs : s.Sound) {replies : Replies}
    (h : (submission now b s).1.1 = .ok replies) :
    replies.length = b.commands.length ∧
      (b.atomic = true → ∀ d ∈ replies, d.isRefusal = false) := by
  rcases submission_ends now b hs with ⟨replies', hEnd, hReplies⟩ | ⟨r, hEnd⟩ | ⟨f, hEnd⟩ <;>
    rw [hEnd] at h <;> cases h
  exact hReplies

/-- A submission never fails with a bare fault. -/
theorem submission_error (hs : s.Sound) {e : Failure} (h : (submission now b s).1.1 = .error e)
    (f : Fault) : e ≠ .fault f := by
  intro hFault
  subst hFault
  rcases submission_ends now b hs with ⟨replies, hEnd, -⟩ | ⟨r, hEnd⟩ | ⟨f', hEnd⟩ <;>
    rw [hEnd] at h <;> cases h

/-- What a sound store answers to a submission fits it. -/
theorem aligned_submission (hs : s.Sound) : Aligned Datum.isRefusal b (submission now b s).1.1 := by
  cases hEnd : (submission now b s).1.1 with
  | error e => trivial
  | ok replies => exact submission_ok hs hEnd

end Endings

end BatchStore.Store
