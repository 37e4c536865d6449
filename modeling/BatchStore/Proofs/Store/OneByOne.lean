import BatchStore.Proofs.Store.Outcomes

/-!
# Submissions one by one

A store that is handed several submissions at once executes them as it would if each were handed in
alone: `execute_oneByOne`. So it does not matter how a row of submissions is cut into pieces
(`execute_append`, `oneByOne_append`), and an executor with a sound store behind it passes on what
the submissions answer one by one (`serve_oneByOne`).

A transaction that fails puts the store back as it found it, all of it (`submission_fallen`). The
submissions behind it then run as if it had not been there, and a row of submissions may be handed
in without those that fail (`execute_standing`). `execute_independent` has both facts.
-/

namespace BatchStore.Store

/-! ## Rows in pieces -/

@[simp] theorem execute_nil (now : Float) (s : Store) : execute now [] s = (([], []), s) := rfl

@[simp] theorem execute_cons (now : Float) (b : Submission) (bs : List Submission) (s : Store) :
    execute now (b :: bs) s =
      (((submission now b s).1.1 :: (execute now bs (submission now b s).2).1.1,
        (submission now b s).1.2 ++ (execute now bs (submission now b s).2).1.2),
        (execute now bs (submission now b s).2).2) := rfl

/-- A row of submissions answers and reports what its pieces do, one after the other. -/
theorem execute_append (now : Float) (as bs : List Submission) (s : Store) :
    execute now (as ++ bs) s =
      (((execute now as s).1.1 ++ (execute now bs (execute now as s).2).1.1,
        (execute now as s).1.2 ++ (execute now bs (execute now as s).2).1.2),
        (execute now bs (execute now as s).2).2) := by
  induction as generalizing s with
  | nil => simp
  | cons a as ih => simp [ih]

/-! ## One by one -/

/-- Executes submissions, each by a call of its own. -/
def oneByOne (now : Float) : List Submission → Store → List Outcome × Store
  | [], s => ([], s)
  | b :: bs, s =>
    let here := execute now [b] s
    let later := oneByOne now bs here.2
    (here.1.1 ++ later.1, later.2)

@[simp] theorem oneByOne_nil (now : Float) (s : Store) : oneByOne now [] s = ([], s) := rfl

@[simp] theorem oneByOne_cons (now : Float) (b : Submission) (bs : List Submission) (s : Store) :
    oneByOne now (b :: bs) s =
      ((submission now b s).1.1 :: (oneByOne now bs (submission now b s).2).1,
        (oneByOne now bs (submission now b s).2).2) := rfl

/-- Submissions that are handed in together are executed one by one. -/
theorem execute_oneByOne (now : Float) (bs : List Submission) (s : Store) :
    (execute now bs s).1.1 = (oneByOne now bs s).1 ∧
      (execute now bs s).2 = (oneByOne now bs s).2 := by
  induction bs generalizing s with
  | nil => exact ⟨rfl, rfl⟩
  | cons b bs ih =>
      obtain ⟨hOutcomes, hStore⟩ := ih (submission now b s).2
      simp [execute, hOutcomes, hStore]

theorem oneByOne_eq (now : Float) (bs : List Submission) (s : Store) :
    oneByOne now bs s = ((execute now bs s).1.1, (execute now bs s).2) :=
  Prod.ext (execute_oneByOne now bs s).1.symm (execute_oneByOne now bs s).2.symm

theorem oneByOne_append (now : Float) (as bs : List Submission) (s : Store) :
    oneByOne now (as ++ bs) s =
      ((oneByOne now as s).1 ++ (oneByOne now bs (oneByOne now as s).2).1,
        (oneByOne now bs (oneByOne now as s).2).2) := by
  simp only [oneByOne_eq, execute_append]

@[simp] theorem oneByOne_length (now : Float) (bs : List Submission) (s : Store) :
    (oneByOne now bs s).1.length = bs.length := by
  induction bs generalizing s with
  | nil => rfl
  | cons b bs ih => simp [ih]

theorem oneByOne_sound (now : Float) (bs : List Submission) {s : Store} (hs : s.Sound) :
    (oneByOne now bs s).2.Sound := by
  induction bs generalizing s with
  | nil => exact hs
  | cons b bs ih => exact ih (submission_sound now b hs)

/-- What holds of each answer of a sound store holds of all, one by one. -/
theorem forall₂_oneByOne {now : Float} {good : Submission → Outcome → Prop}
    (hGood : ∀ b {s : Store}, s.Sound → good b (submission now b s).1.1) (bs : List Submission)
    {s : Store} (hs : s.Sound) : List.Forall₂ good bs (oneByOne now bs s).1 := by
  induction bs generalizing s with
  | nil => exact .nil
  | cons b bs ih => exact .cons (hGood b hs) (ih (submission_sound now b hs))

/-- What a sound store answers to submissions, one by one, fits them. -/
theorem aligned_oneByOne (now : Float) (bs : List Submission) {s : Store} (hs : s.Sound) :
    List.Forall₂ (Aligned Datum.isRefusal) bs (oneByOne now bs s).1 :=
  forall₂_oneByOne (fun _ => aligned_submission) bs hs

/-- The executor passes on what the submissions answer one by one. -/
theorem serve_oneByOne (now : Float) (bs : List Submission) {s : Store} (hs : s.Sound) :
    (Executor.serve now bs (.memory s)).1.1 = .ok (oneByOne now bs s).1 ∧
      (Executor.serve now bs (.memory s)).2 = .memory (oneByOne now bs s).2 := by
  obtain ⟨hOutcomes, hStore⟩ := execute_oneByOne now bs s
  constructor
  · have hDeliver : Executor.deliver bs (.ok (oneByOne now bs s).1) =
        .ok (oneByOne now bs s).1 := Executor.deliverBy_ok (aligned_oneByOne now bs hs)
    rw [← hDeliver, ← hOutcomes]
    rfl
  · rw [← hStore]
    rfl

/-! ## Rows without the transactions that fail -/

/-- Whether a submission with its outcome is a transaction that failed. -/
def fallen (e : Submission × Outcome) : Bool := e.1.atomic && !e.2.isOk

/-- Submissions with their outcomes, without the transactions that failed. -/
def standing (bs : List Submission) (outcomes : List Outcome) : List (Submission × Outcome) :=
  (bs.zip outcomes).filter fun e => !fallen e

/-- A transaction that fails puts the store back, whatever it failed of. -/
theorem submission_fallen {now : Float} {b : Submission} {s : Store}
    (h : fallen (b, (submission now b s).1.1) = true) : (submission now b s).2 = s := by
  obtain ⟨cs, atomic⟩ := b
  obtain ⟨hAtomic, hFailed⟩ := (Bool.and_eq_true_iff).1 h
  cases hAtomic
  rcases hRun : attempt (run now) 0 cs s with ⟨stop | replies, after⟩
  · rcases hStop : stop.halt with r | f
    · rw [submission, submissionBy_attempt_refused hStop hRun]
    · rw [submission, submissionBy_attempt_faulted hStop hRun]
  · rw [submission, submissionBy_attempt_ok hRun] at hFailed
    cases hFailed

/-- Without the transactions that failed, the others answer the same and leave the same store, for
the submissions behind a failed one start where it did. -/
theorem execute_standing (now : Float) (bs : List Submission) (s : Store) :
    let kept := standing bs (execute now bs s).1.1
    (execute now (kept.map (·.1)) s).1.1 = kept.map (·.2) ∧
      (execute now (kept.map (·.1)) s).2 = (execute now bs s).2 := by
  induction bs generalizing s with
  | nil => exact ⟨rfl, rfl⟩
  | cons b bs ih =>
      intro kept
      obtain ⟨hOutcomes, hStore⟩ := ih (submission now b s).2
      cases hFallen : fallen (b, (submission now b s).1.1) with
      | true =>
          have hKept : kept = standing bs (execute now bs s).1.1 := by
            simp [kept, standing, hFallen, submission_fallen hFallen]
          rw [submission_fallen hFallen] at hOutcomes hStore
          rw [hKept, execute_cons, submission_fallen hFallen]
          exact ⟨hOutcomes, hStore⟩
      | false =>
          have hKept : kept = (b, (submission now b s).1.1) ::
              standing bs (execute now bs (submission now b s).2).1.1 := by
            simp [kept, standing, hFallen]
          rw [hKept, List.map_cons, List.map_cons, execute_cons, execute_cons]
          exact ⟨congrArg _ hOutcomes, hStore⟩

/-- Submissions that are handed in together depend on each other by the store alone, at any
reading of the clock and in any store.

* A row of submissions answers what its pieces answer, one after the other, and leaves the store
  that the last piece leaves.
* Each submission has an outcome. When the transactions that failed are left out, the others
  answer the same and leave the same store. -/
theorem execute_independent (now : Float) (s : Store) :
    (∀ as bs : List Submission,
      (execute now (as ++ bs) s).1.1 =
          (execute now as s).1.1 ++ (execute now bs (execute now as s).2).1.1 ∧
        (execute now (as ++ bs) s).2 = (execute now bs (execute now as s).2).2) ∧
      ∀ bs : List Submission,
        let kept := standing bs (execute now bs s).1.1
        (execute now bs s).1.1.length = bs.length ∧
          (execute now (kept.map (·.1)) s).1.1 = kept.map (·.2) ∧
          (execute now (kept.map (·.1)) s).2 = (execute now bs s).2 := by
  refine ⟨fun as bs => ?_, fun bs => ⟨?_, execute_standing now bs s⟩⟩
  · rw [execute_append]
    exact ⟨rfl, rfl⟩
  · rw [(execute_oneByOne now bs s).1, oneByOne_length]

end BatchStore.Store
