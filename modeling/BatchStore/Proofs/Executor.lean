import Mathlib.Data.List.Forall2
import BatchStore.Transport.Ticket

/-!
# What an executor lets through

An executor sits between the transports and a store that may answer anything. It lets answers
through that are `Aligned` with the submissions, and no others: its checks find nothing wrong
exactly with these (`breachBy?_eq_none`, `firstBreachBy?_eq_none`). What comes through is what the
store answered; a store that broke down answers every submission alike (`deliverBy_ok`,
`deliverBy_breach`).
-/

namespace BatchStore

/-- An outcome fits its submission: it fails as a whole, or there is a reply for each command, and
no failure among them if the submission is a transaction. -/
def Aligned {ρ : Type} (isFailure : ρ → Bool) (b : Submission) : Except Failure (List ρ) → Prop
  | .error _ => True
  | .ok replies =>
    replies.length = b.commands.length ∧ (b.atomic = true → ∀ d ∈ replies, isFailure d = false)

namespace Executor

variable {ρ : Type} {isFailure : ρ → Bool} {bs : List Submission}
  {outcomes : List (Except Failure (List ρ))}

/-- The check of one answer is exact. -/
theorem breachBy?_eq_none (b : Submission) (o : Except Failure (List ρ)) :
    breachBy? isFailure b o = none ↔ Aligned isFailure b o := by
  cases o with
  | error e => simp [breachBy?, Aligned]
  | ok replies =>
      unfold breachBy? Aligned
      by_cases hLength : replies.length = b.commands.length
      · cases hAtomic : b.atomic <;> simp [hLength]
      · simp [hLength]

/-- The check of all answers is exact. -/
theorem firstBreachBy?_eq_none (hLength : bs.length = outcomes.length) :
    firstBreachBy? isFailure bs outcomes = none ↔
      List.Forall₂ (Aligned isFailure) bs outcomes := by
  induction bs generalizing outcomes with
  | nil =>
      cases outcomes with
      | nil => simp [firstBreachBy?]
      | cons o os => cases hLength
  | cons b bs ih =>
      cases outcomes with
      | nil => cases hLength
      | cons o os =>
          have hRest := ih (Nat.succ.inj hLength)
          rw [List.forall₂_cons, ← hRest, ← breachBy?_eq_none, firstBreachBy?]
          cases breachBy? isFailure b o <;> simp

/-- Answers that fit are let through. -/
theorem deliverBy_ok (h : List.Forall₂ (Aligned isFailure) bs outcomes) :
    deliverBy isFailure bs (.ok outcomes) = .ok outcomes := by
  have hNone := (firstBreachBy?_eq_none h.length_eq).2 h
  simp [deliverBy, h.length_eq, hNone]

/-- Answers that do not fit are a broken promise. -/
theorem deliverBy_breach (h : ¬ List.Forall₂ (Aligned isFailure) bs outcomes) :
    ∃ breach, deliverBy isFailure bs (.ok outcomes) = .error (.breach breach) := by
  unfold deliverBy
  dsimp only
  by_cases hLength : bs.length = outcomes.length
  · have hSome : firstBreachBy? isFailure bs outcomes ≠ none :=
      fun hNone => h ((firstBreachBy?_eq_none hLength).1 hNone)
    obtain ⟨breach, hBreach⟩ := Option.ne_none_iff_exists'.1 hSome
    simp only [bne_iff_ne, ne_eq, hLength, not_true_eq_false, if_false, hBreach]
    exact ⟨breach, rfl⟩
  · simp only [bne_iff_ne, ne_eq, hLength, not_false_eq_true, if_true]
    exact ⟨.resultsPerSubmission, rfl⟩

/-- What an executor makes of any answer of any store. Either a promise was broken, and then the
answers do not fit. Or each ticket has an outcome under its label, in order: the failure of the
store, if it broke down, or else the store's answers, which fit. -/
theorem process_cases (ts : List Ticket)
    (answer : Except Failure (List (Except Failure (List ρ)))) :
    match process isFailure ts answer with
    | .error f => (∃ breach, f = .breach breach) ∧ ∃ outcomes, answer = .ok outcomes ∧
        ¬ List.Forall₂ (Aligned isFailure) (ts.map (·.submission)) outcomes
    | .ok delivered => delivered.map (·.1) = ts.map (·.label) ∧
        match answer with
        | .error e => ∀ d ∈ delivered, d.2 = .error (.storeFailed e)
        | .ok outcomes => delivered.map (·.2) = outcomes ∧
            List.Forall₂ (Aligned isFailure) (ts.map (·.submission)) outcomes := by
  unfold process
  cases answer with
  | error e =>
      have hLengths : (ts.map (·.label)).length =
          ((ts.map (·.submission)).map fun _ =>
            (.error (.storeFailed e) : Except Failure (List ρ))).length := by simp
      refine ⟨List.map_fst_zip (Nat.le_of_eq hLengths), fun d hd => ?_⟩
      obtain ⟨b, -, hFailed⟩ := List.mem_map.1 (List.of_mem_zip hd).2
      exact hFailed.symm
  | ok outcomes =>
      by_cases hFits : List.Forall₂ (Aligned isFailure) (ts.map (·.submission)) outcomes
      · have hLength : (ts.map (·.label)).length = outcomes.length := by
          simpa using hFits.length_eq
        rw [deliverBy_ok hFits]
        exact ⟨List.map_fst_zip (Nat.le_of_eq hLength),
          List.map_snd_zip (Nat.le_of_eq hLength.symm), hFits⟩
      · obtain ⟨breach, hBreach⟩ := deliverBy_breach hFits
        rw [hBreach]
        exact ⟨⟨breach, rfl⟩, outcomes, rfl, hFits⟩

/-- The deliveries of a transport are what the executor makes of the answer. -/
theorem process_deliveries (ts : List Ticket) (answer : Except Failure (List Outcome)) :
    process Datum.isRefusal ts answer =
      (deliver (ts.map (·.submission)) answer).map fun outcomes =>
        (Ticket.deliveries ts outcomes).map fun d => (d.label, d.outcome) := by
  have hZip (outcomes : List Outcome) : (ts.map (·.label)).zip outcomes =
      (Ticket.deliveries ts outcomes).map fun d => (d.label, d.outcome) := by
    simp [Ticket.deliveries, Ticket.delivery, List.zip, List.map_zipWith, List.zipWith_map_left]
  unfold process deliver
  simp only [hZip]

end Executor

end BatchStore
