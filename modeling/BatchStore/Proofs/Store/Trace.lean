import BatchStore.Store.Execute

/-!
# The commands of a submission in turn

`trace` lists what happens in a submission: the commands that are carried out, each with its
reply and the store that it left. A fault ends either kind of submission, and a refusal ends
a transaction; in a pipeline it does not.

The two loops of the store are opened here once, one command at a time (`pipeline_ok` and its
like), and so is the choice between them (`submissionBy_pipeline_ok` and its like).

A submission leaves the store that its trace leads to, or the one that it found
(`submissionBy_left`). So whatever each command keeps, the submission keeps:
`submissionBy_keeps`.

`Follows` relates two acts whose results are the same on related states, and `Simulates` two runners
of which that holds for every command. Then the replies and the outcome of every submission are the
same too, and the states stay related: `trace_simulates` and `submissionBy_simulates`.
-/

namespace BatchStore

/-- Whether the commands behind a reply are carried out as well. -/
def goesOn (atomic : Bool) : Reply → Bool
  | .ok _ => true
  | .error (.refused _) => !atomic
  | .error (.faulted _) => false

/-- What a reply has in place of a result. -/
def halt? : Reply → Option Halt
  | .ok _ => none
  | .error h => some h

namespace Store

/-- The commands of a submission in turn, each with its reply and the store that it left, up
to the one that ends the submission. -/
def trace {σ : Type} (carryOut : Runner σ) (atomic : Bool) :
    List Command → σ → List (Reply × σ)
  | [], _ => []
  | c :: cs, s =>
    let r := carryOut c s
    if goesOn atomic r.1 then r :: trace carryOut atomic cs r.2 else [r]

/-- The first failure of a trace. -/
def firstHalt? {σ : Type} (ran : List (Reply × σ)) : Option Halt := ran.findSome? fun r => halt? r.1

/-- The store that a trace leads to. -/
def leftBy {σ : Type} (s : σ) : List (Reply × σ) → σ
  | [] => s
  | r :: rest => leftBy r.2 rest

section Steps

variable {σ : Type} {carryOut : Runner σ} {c : Command} {cs : List Command} {s t : σ} {place : Nat}

/-- A command that succeeds is followed by those behind it. -/
theorem trace_ok {atomic : Bool} {d : Datum} (h : carryOut c s = (.ok d, t)) :
    trace carryOut atomic (c :: cs) s = (.ok d, t) :: trace carryOut atomic cs t := by
  rw [trace, h]
  rfl

/-- In a pipeline so is one that is refused. -/
theorem trace_refused {r : Refusal} (h : carryOut c s = (.error (.refused r), t)) :
    trace carryOut false (c :: cs) s =
      (.error (.refused r), t) :: trace carryOut false cs t := by
  rw [trace, h]
  rfl

/-- A command that breaks down is the last. -/
theorem trace_faulted {atomic : Bool} {f : Fault} (h : carryOut c s = (.error (.faulted f), t)) :
    trace carryOut atomic (c :: cs) s = [(.error (.faulted f), t)] := by
  rw [trace, h]
  rfl

theorem pipeline_ok {d : Datum} (h : carryOut c s = (.ok d, t)) :
    pipeline carryOut (c :: cs) s = pipeline.follow d (pipeline carryOut cs t) := by
  rw [pipeline, h]

/-- A refusal stands among the replies of a pipeline. -/
theorem pipeline_refused {r : Refusal} (h : carryOut c s = (.error (.refused r), t)) :
    pipeline carryOut (c :: cs) s = pipeline.follow (.refusal r) (pipeline carryOut cs t) := by
  rw [pipeline, h]

theorem pipeline_faulted {f : Fault} (h : carryOut c s = (.error (.faulted f), t)) :
    pipeline carryOut (c :: cs) s = (.error f, t) := by
  rw [pipeline, h]

/-- A transaction stops at the first failure, at its place. -/
theorem attempt_error {halt : Halt} (h : carryOut c s = (.error halt, t)) :
    attempt carryOut place (c :: cs) s = (.error ⟨place, c.type, halt⟩, t) := by
  rw [attempt, h]

theorem attempt_ok {d : Datum} (h : carryOut c s = (.ok d, t)) :
    attempt carryOut place (c :: cs) s =
      match attempt carryOut (place + 1) cs t with
      | (.ok replies, s) => (.ok (d :: replies), s)
      | (.error stop, s) => (.error stop, s) := by
  rcases rest : attempt carryOut (place + 1) cs t with ⟨replies | stop, u⟩ <;>
    simp only [attempt, h, rest]

end Steps

section Submissions

variable {σ : Type} {carryOut : Runner σ} {cs : List Command} {s after : σ}

/-- A pipeline that comes to its end answers its replies. -/
theorem submissionBy_pipeline_ok {replies : Replies}
    (h : pipeline carryOut cs s = (.ok replies, after)) :
    submissionBy carryOut ⟨cs, false⟩ s = ((.ok replies, []), after) := by
  simp [submissionBy, h]

/-- One that breaks down answers the fault, and leaves what it did. -/
theorem submissionBy_pipeline_error {f : Fault} (h : pipeline carryOut cs s = (.error f, after)) :
    submissionBy carryOut ⟨cs, false⟩ s = (brokenDown f, after) := by
  simp [submissionBy, h]

theorem submissionBy_attempt_ok {replies : Replies}
    (h : attempt carryOut 0 cs s = (.ok replies, after)) :
    submissionBy carryOut ⟨cs, true⟩ s = ((.ok replies, []), after) := by
  simp [submissionBy, h]

/-- A transaction that is refused hands back the store and reports which command it was. -/
theorem submissionBy_attempt_refused {stop : Stop} {r : Refusal} (hStop : stop.halt = .refused r)
    (h : attempt carryOut 0 cs s = (.error stop, after)) :
    submissionBy carryOut ⟨cs, true⟩ s =
      ((.error (.discarded r), [.rolledBack stop.place cs.length stop.command r]), s) := by
  obtain ⟨place, command, halt⟩ := stop
  subst hStop
  simp [submissionBy, h]

/-- So does one that breaks down, without a word on the command. -/
theorem submissionBy_attempt_faulted {stop : Stop} {f : Fault} (hStop : stop.halt = .faulted f)
    (h : attempt carryOut 0 cs s = (.error stop, after)) :
    submissionBy carryOut ⟨cs, true⟩ s = (brokenDown f, s) := by
  obtain ⟨place, command, halt⟩ := stop
  subst hStop
  simp [submissionBy, h]

end Submissions

/-! ## The store that a submission leaves -/

section Left

variable {σ : Type} (carryOut : Runner σ)

theorem follow_snd (d : Datum) (p : Except Fault Replies × σ) :
    (pipeline.follow d p).2 = p.2 := by
  rcases p with ⟨_ | _, _⟩ <;> rfl

/-- A pipeline leaves the store that its commands lead to. -/
theorem pipeline_left (cs : List Command) (s : σ) :
    (pipeline carryOut cs s).2 = leftBy s (trace carryOut false cs s) := by
  induction cs generalizing s with
  | nil => rfl
  | cons c cs ih =>
      rcases hRun : carryOut c s with ⟨⟨r | f⟩ | d, t⟩
      · rw [pipeline_refused hRun, trace_refused hRun, follow_snd]
        exact ih t
      · rw [pipeline_faulted hRun, trace_faulted hRun]
        rfl
      · rw [pipeline_ok hRun, trace_ok hRun, follow_snd]
        exact ih t

/-- So does a transaction, before it hands back the one it found. -/
theorem attempt_left (place : Nat) (cs : List Command) (s : σ) :
    (attempt carryOut place cs s).2 = leftBy s (trace carryOut true cs s) := by
  induction cs generalizing place s with
  | nil => rfl
  | cons c cs ih =>
      rcases hRun : carryOut c s with ⟨halt | d, t⟩
      · have hTrace : trace carryOut true (c :: cs) s = [(.error halt, t)] := by
          rw [trace, hRun]
          cases halt <;> rfl
        rw [attempt_error hRun, hTrace]
        rfl
      · have hRest := ih (place + 1) t
        rw [attempt_ok hRun, trace_ok hRun]
        rcases hAfter : attempt carryOut (place + 1) cs t with ⟨_ | _, u⟩ <;>
          rw [hAfter] at hRest <;>
          exact hRest

/-- A submission leaves the store that its commands lead to, or hands back the one it found. -/
theorem submissionBy_left (b : Submission) (s : σ) :
    (submissionBy carryOut b s).2 = leftBy s (trace carryOut b.atomic b.commands s) ∨
      (submissionBy carryOut b s).2 = s := by
  obtain ⟨cs, atomic⟩ := b
  cases atomic with
  | false =>
      have hLeft := pipeline_left carryOut cs s
      rcases hRun : pipeline carryOut cs s with ⟨f | replies, after⟩ <;> rw [hRun] at hLeft
      · rw [submissionBy_pipeline_error hRun]
        exact .inl hLeft
      · rw [submissionBy_pipeline_ok hRun]
        exact .inl hLeft
  | true =>
      have hLeft := attempt_left carryOut 0 cs s
      rcases hRun : attempt carryOut 0 cs s with ⟨stop | replies, after⟩ <;> rw [hRun] at hLeft
      · rcases hStop : stop.halt with r | f
        · rw [submissionBy_attempt_refused hStop hRun]
          exact .inr rfl
        · rw [submissionBy_attempt_faulted hStop hRun]
          exact .inr rfl
      · rw [submissionBy_attempt_ok hRun]
        exact .inl hLeft

end Left

/-! ## What the commands keep, a submission keeps -/

section Invariants

variable {σ : Type} {carryOut : Runner σ} {Inv : σ → Prop} {cs : List Command} {s : σ}

/-- What every command keeps, a row of them keeps. -/
theorem trace_keeps (h : ∀ c ∈ cs, ∀ s, Inv s → Inv (carryOut c s).2) (atomic : Bool)
    (hs : Inv s) : Inv (leftBy s (trace carryOut atomic cs s)) := by
  induction cs generalizing s with
  | nil => exact hs
  | cons c cs ih =>
      have hFirst : Inv (carryOut c s).2 := h c List.mem_cons_self s hs
      rw [trace]
      split
      · exact ih (fun c' hc' => h c' (List.mem_cons_of_mem _ hc')) hFirst
      · exact hFirst

/-- A transaction that fails hands back the store that it found. -/
theorem submissionBy_keeps {b : Submission}
    (h : ∀ c ∈ b.commands, ∀ s, Inv s → Inv (carryOut c s).2) (hs : Inv s) :
    Inv (submissionBy carryOut b s).2 := by
  rcases submissionBy_left carryOut b s with hLeft | hBack
  · rw [hLeft]
    exact trace_keeps h b.atomic hs
  · rw [hBack]
    exact hs

end Invariants

/-! ## Runners that do the same -/

/-- Equal results, and states that are related. -/
def Related {σ τ α : Type} (R : σ → τ → Prop) (p : α × σ) (q : α × τ) : Prop :=
  p.1 = q.1 ∧ R p.2 q.2

/-- On related states two acts have the same result, and they leave related states. -/
def Follows {σ τ α : Type} (R : σ → τ → Prop) (p : ActOn σ α) (q : ActOn τ α) : Prop :=
  ∀ s t, R s t → Related R (p s) (q t)

/-- On related states two runners answer the same, and they leave related states. -/
def Simulates {σ τ : Type} (R : σ → τ → Prop) (f : Runner σ) (g : Runner τ) : Prop :=
  ∀ c s t, R s t → Related R (f c s) (g c t)

section Simulation

variable {σ τ : Type} {R : σ → τ → Prop} {f : Runner σ} {g : Runner τ}

/-- Related results are one result, with two states. -/
theorem Related.exists {α : Type} {p : α × σ} {q : α × τ} (h : Related R p q) :
    ∃ a s t, p = (a, s) ∧ q = (a, t) ∧ R s t :=
  ⟨p.1, p.2, q.2, rfl, Prod.ext h.1.symm rfl, h.2⟩

/-- Acts that follow each other, each with what is done behind it. -/
theorem Follows.andThen {α β : Type} {p : ActOn σ α} {q : ActOn τ α} {next : α → ActOn σ β}
    {next' : α → ActOn τ β} (h : Follows R p q) (hNext : ∀ a, Follows R (next a) (next' a)) :
    Follows R (Store.andThen p next) (Store.andThen q next') := by
  intro s t hst
  obtain ⟨r, s', t', hp, hq, hAfter⟩ := (h s t hst).exists
  unfold Store.andThen
  rw [hp, hq]
  cases r with
  | error halt => exact ⟨rfl, hAfter⟩
  | ok a => exact hNext a s' t' hAfter

/-- What is done with a result that both are given. -/
theorem Follows.given {α β : Type} {x : Except Halt α} {next : α → ActOn σ β}
    {next' : α → ActOn τ β} (hNext : ∀ a, Follows R (next a) (next' a)) :
    Follows R (Store.given x next) (Store.given x next') :=
  .andThen (fun _ _ hst => ⟨rfl, hst⟩) hNext

/-- An answer that touches nothing. -/
theorem Follows.answer {α : Type} (r : Except Halt α) :
    Follows R (fun s => (r, s)) (fun t => (r, t)) :=
  fun _ _ hst => ⟨rfl, hst⟩

/-- Runners that simulate each other answer the same to a row of commands. -/
theorem trace_simulates (h : Simulates R f g) (atomic : Bool) (cs : List Command) {s : σ}
    {t : τ} (hst : R s t) :
    (trace f atomic cs s).map (·.1) = (trace g atomic cs t).map (·.1) := by
  induction cs generalizing s t with
  | nil => rfl
  | cons c cs ih =>
      obtain ⟨reply, s', t', hf, hg, hAfter⟩ := (h c s t hst).exists
      rw [trace, trace, hf, hg]
      cases goesOn atomic reply with
      | false => rfl
      | true => exact congrArg (reply :: ·) (ih hAfter)

theorem follow_related (d : Datum) {p : Except Fault Replies × σ} {q : Except Fault Replies × τ}
    (h : Related R p q) :
    Related R (pipeline.follow d p) (pipeline.follow d q) := by
  obtain ⟨answer, s, t, rfl, rfl, hAfter⟩ := h.exists
  cases answer with
  | error f => exact ⟨rfl, hAfter⟩
  | ok replies => exact ⟨rfl, hAfter⟩

/-- Pipelines end alike. -/
theorem pipeline_simulates (h : Simulates R f g) (cs : List Command) {s : σ} {t : τ}
    (hst : R s t) : Related R (pipeline f cs s) (pipeline g cs t) := by
  induction cs generalizing s t with
  | nil => exact ⟨rfl, hst⟩
  | cons c cs ih =>
      obtain ⟨reply, s', t', hf, hg, hAfter⟩ := (h c s t hst).exists
      rcases reply with ⟨r | fault⟩ | d
      · rw [pipeline_refused hf, pipeline_refused hg]
        exact follow_related (.refusal r) (ih hAfter)
      · rw [pipeline_faulted hf, pipeline_faulted hg]
        exact ⟨rfl, hAfter⟩
      · rw [pipeline_ok hf, pipeline_ok hg]
        exact follow_related d (ih hAfter)

/-- Transactions stop at the same command or come to the same end. -/
theorem attempt_simulates (h : Simulates R f g) (place : Nat) (cs : List Command) {s : σ} {t : τ}
    (hst : R s t) : Related R (attempt f place cs s) (attempt g place cs t) := by
  induction cs generalizing place s t with
  | nil => exact ⟨rfl, hst⟩
  | cons c cs ih =>
      obtain ⟨reply, s', t', hf, hg, hAfter⟩ := (h c s t hst).exists
      cases reply with
      | error halt =>
          rw [attempt_error hf, attempt_error hg]
          exact ⟨rfl, hAfter⟩
      | ok d =>
          obtain ⟨answer, s'', t'', hfs, hgs, hEnd⟩ := (ih (place + 1) hAfter).exists
          rw [attempt_ok hf, attempt_ok hg, hfs, hgs]
          cases answer with
          | error stop => exact ⟨rfl, hEnd⟩
          | ok replies => exact ⟨rfl, hEnd⟩

/-- Submissions end alike. A transaction that fails hands back the stores that it found. -/
theorem submissionBy_simulates (h : Simulates R f g) (b : Submission) {s : σ} {t : τ}
    (hst : R s t) : Related R (submissionBy f b s) (submissionBy g b t) := by
  obtain ⟨cs, atomic⟩ := b
  cases atomic with
  | false =>
      obtain ⟨answer, s', t', hf, hg, hAfter⟩ := (pipeline_simulates h cs hst).exists
      cases answer with
      | error fault =>
          rw [submissionBy_pipeline_error hf, submissionBy_pipeline_error hg]
          exact ⟨rfl, hAfter⟩
      | ok replies =>
          rw [submissionBy_pipeline_ok hf, submissionBy_pipeline_ok hg]
          exact ⟨rfl, hAfter⟩
  | true =>
      obtain ⟨answer, s', t', hf, hg, hAfter⟩ := (attempt_simulates h 0 cs hst).exists
      rcases answer with stop | replies
      · rcases hStop : stop.halt with r | fault
        · rw [submissionBy_attempt_refused hStop hf, submissionBy_attempt_refused hStop hg]
          exact ⟨rfl, hst⟩
        · rw [submissionBy_attempt_faulted hStop hf, submissionBy_attempt_faulted hStop hg]
          exact ⟨rfl, hst⟩
      · rw [submissionBy_attempt_ok hf, submissionBy_attempt_ok hg]
        exact ⟨rfl, hAfter⟩

end Simulation

end Store

end BatchStore
