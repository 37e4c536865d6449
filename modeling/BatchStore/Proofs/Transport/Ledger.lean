import BatchStore.Transport.Shuffle

/-!
# Losses by place

A flush draws for one submission after another, and has to remember what it drew until the store
has answered. It can do so by place: a submission that is lost before is remembered by its place
among all that wait, and one that is lost on the way back by its place among those that are sent.
The two counts drift apart with the first loss. `Ledger` keeps the books so.

`Shuffle.flush` gives each ticket its fate instead. The two come to the same (`flushByPlace_eq`),
for the books agree with the fates after each draw (`Agrees`): the place at which a loss on the
way back is noted is the one at which its submission is sent next.
-/

namespace BatchStore.Shuffle

/-- The books of a flush. -/
structure Ledger where
  /-- Which are lost before, by place among those that wait. -/
  lostBefore : List Nat := []
  /-- Which are lost on the way back, by place among those that are sent. -/
  lostAfter : List Nat := []
  lost : List Ticket := []
  sent : List Ticket := []

namespace Ledger

/-- Draws for a submission, noting a loss at its place. -/
def draw (risk : Float) (place : Nat) (chance : Chance) (l : Ledger) : Ledger × Chance :=
  let (x, chance) := chance.draw
  if x < risk then
    let (i, chance) := chance.choose 1
    (if i = 0 then { l with lostBefore := l.lostBefore ++ [place] }
     else { l with lostAfter := l.lostAfter ++ [l.sent.length] }, chance)
  else (l, chance)

/-- Sends the submission at a place, unless it is lost. -/
def send (place : Nat) (ticket : Ticket) (l : Ledger) : Ledger :=
  if l.lostBefore.contains place then { l with lost := l.lost ++ [ticket] }
  else { l with sent := l.sent ++ [ticket] }

/-- Goes through the submissions that wait, from a place on. -/
def survey (risk : Float) : Nat → List Ticket → Chance → Ledger → Ledger × Chance
  | _, [], chance, l => (l, chance)
  | place, ticket :: rest, chance, l =>
    let (l, chance) := l.draw risk place chance
    survey risk (place + 1) rest chance (l.send place ticket)

/-- What is delivered for the store's answers to what was sent. -/
def returned (l : Ledger) (outcomes : List Outcome) : List Delivery :=
  (l.sent.zip outcomes).mapIdx fun i e =>
    e.1.delivery (if l.lostAfter.contains i then .error (.fault .lostAfter) else e.2)

end Ledger

/-- A flush that keeps its books by place. -/
def flushByPlace (now : Float) (t : Shuffle) : (Except Fault Unit × List Report) × Shuffle :=
  if t.pending.isEmpty then ((.ok (), []), t)
  else if !t.hasExecutor then ((.error (.breach .noExecutor), []), t)
  else
    let (l, chance) := Ledger.survey t.risk 0 t.pending t.chance {}
    let lostDeliveries := l.lost.map fun ticket => ticket.delivery (.error (.fault .lostBefore))
    let ((answer, reports), store) := Executor.serve now (l.sent.map (·.submission)) t.store
    match answer with
    | .error f =>
      ((.error f, reports), { t with chance, store, done := t.done ++ lostDeliveries })
    | .ok outcomes =>
      ((.ok (), reports),
        { t with chance, store, pending := [],
                 done := t.done ++ lostDeliveries ++ l.returned outcomes })

namespace Ledger

/-- The tickets that were drawn for and that are sent. -/
def sentOf (drawn : List (Ticket × Fate)) : List (Ticket × Fate) :=
  drawn.filter fun e => e.2 ≠ .lostBefore

/-- Books that agree with the fates of the tickets that were drawn for. -/
structure Agrees (l : Ledger) (drawn : List (Ticket × Fate)) : Prop where
  lost : l.lost = (drawn.filter fun e => e.2 = .lostBefore).map (·.1)
  sent : l.sent = (sentOf drawn).map (·.1)
  lostBefore : ∀ i ∈ l.lostBefore, i < drawn.length
  lostAfter : ∀ i, i ∈ l.lostAfter ↔ ∃ ticket, (sentOf drawn)[i]? = some (ticket, .lostAfter)

/-- Notes a fate at a place. -/
def note (place : Nat) (l : Ledger) : Fate → Ledger
  | .carried => l
  | .lostBefore => { l with lostBefore := l.lostBefore ++ [place] }
  | .lostAfter => { l with lostAfter := l.lostAfter ++ [l.sent.length] }

/-- A draw notes the fate that the ticket is given. -/
theorem draw_note (risk : Float) (chance : Chance) (ticket : Ticket) (place : Nat) (l : Ledger) :
    ∃ fate, (l.draw risk place chance).1 = l.note place fate ∧
      ∀ rest, fates risk chance (ticket :: rest) =
        ((ticket, fate) :: (fates risk (l.draw risk place chance).2 rest).1,
          (fates risk (l.draw risk place chance).2 rest).2) := by
  by_cases hLoss : chance.draw.1 < risk
  · by_cases hBefore : (chance.draw.2.choose 1).1 = 0
    · exact ⟨.lostBefore, by simp [draw, note, hLoss, hBefore], fun rest => by
        simp [draw, fates, hLoss, hBefore]⟩
    · exact ⟨.lostAfter, by simp [draw, note, hLoss, hBefore], fun rest => by
        simp [draw, fates, hLoss, hBefore]⟩
  · exact ⟨.carried, by simp [draw, note, hLoss], fun rest => by simp [draw, fates, hLoss]⟩

/-- Noting the fate of a ticket and sending the ticket keep the books in agreement: what is sent
next stands at the place where a loss on the way back is noted. -/
theorem agrees_note {l : Ledger} {drawn : List (Ticket × Fate)} (h : l.Agrees drawn)
    (ticket : Ticket) (fate : Fate) :
    ((l.note drawn.length fate).send drawn.length ticket).Agrees (drawn ++ [(ticket, fate)]) := by
  have hFresh : drawn.length ∉ l.lostBefore := fun hMem => Nat.lt_irrefl _ (h.lostBefore _ hMem)
  have hLength : l.sent.length = (sentOf drawn).length := by rw [h.sent, List.length_map]
  have hNext (i : Nat) (e : Ticket × Fate) : (sentOf drawn ++ [(ticket, fate)])[i]? = some e ↔
      (sentOf drawn)[i]? = some e ∨ i = l.sent.length ∧ (ticket, fate) = e := by
    rw [hLength]
    grind
  have hSend (hFate : fate ≠ .lostBefore) :
      sentOf (drawn ++ [(ticket, fate)]) = sentOf drawn ++ [(ticket, fate)] := by
    simp [sentOf, hFate]
  have hWithin {i : Nat} (hMem : i ∈ l.lostBefore) : i < drawn.length + 1 :=
    Nat.lt_succ_of_lt (h.lostBefore i hMem)
  cases fate with
  | lostBefore =>
      refine ⟨?_, ?_, ?_, ?_⟩
      · simp [note, send, h.lost]
      · simp [note, send, h.sent, sentOf]
      · intro i hMem
        have hCases : i ∈ l.lostBefore ∨ i = drawn.length := by simpa [note, send] using hMem
        rcases hCases with hOld | rfl
        · simpa using hWithin hOld
        · simp
      · simpa [note, send, sentOf] using h.lostAfter
  | carried | lostAfter =>
      have hSent := hSend (by decide)
      refine ⟨?_, ?_, ?_, fun i => ?_⟩
      · simp [note, send, hFresh, h.lost]
      · simp [note, send, hFresh, h.sent, hSent]
      · simpa [note, send, hFresh] using fun i hMem => hWithin hMem
      · simp only [hSent, hNext]
        simp [note, send, hFresh, h.lostAfter, exists_or]

/-- The books of a flush agree with the fates that it draws. -/
theorem agrees_survey (risk : Float) (tickets : List Ticket) (chance : Chance) {l : Ledger}
    {drawn : List (Ticket × Fate)} (h : l.Agrees drawn) :
    (survey risk drawn.length tickets chance l).1.Agrees
        (drawn ++ (fates risk chance tickets).1) ∧
      (survey risk drawn.length tickets chance l).2 = (fates risk chance tickets).2 := by
  induction tickets generalizing chance l drawn with
  | nil => exact ⟨by simpa [survey, fates] using h, rfl⟩
  | cons ticket rest ih =>
      obtain ⟨fate, hNote, hFates⟩ := draw_note risk chance ticket drawn.length l
      have hStep := agrees_note h ticket fate
      rw [← hNote] at hStep
      have hRest := ih (l.draw risk drawn.length chance).2 hStep
      rw [List.length_append, List.append_assoc] at hRest
      rw [hFates]
      exact hRest

theorem returned_eq {l : Ledger} {drawn : List (Ticket × Fate)} (h : l.Agrees drawn)
    (outcomes : List Outcome) :
    l.returned outcomes = (sentOf drawn).zipWith received outcomes := by
  refine List.ext_getElem? fun i => ?_
  have hPlace := h.lostAfter i
  rcases hSent : (sentOf drawn)[i]? with _ | ⟨ticket, fate⟩
  · simp [returned, h.sent, List.zip, List.getElem?_zipWith, hSent]
  · have hFate : i ∈ l.lostAfter ↔ fate = .lostAfter := by simp [hPlace, hSent]
    rcases hOutcome : outcomes[i]? with _ | o <;>
      simp [returned, h.sent, List.zip, List.getElem?_zipWith, hSent, hOutcome, received, hFate]

end Ledger

/-- Keeping the books by place comes to the same as giving each ticket its fate. -/
theorem flushByPlace_eq (now : Float) (t : Shuffle) : t.flushByPlace now = t.flush now := by
  have hNew : Ledger.Agrees {} [] :=
    ⟨rfl, rfl, (fun _ hNever => nomatch hNever), by simp [Ledger.sentOf]⟩
  obtain ⟨hAgrees, hChance⟩ := Ledger.agrees_survey t.risk t.pending t.chance hNew
  rcases hBooks : Ledger.survey t.risk 0 t.pending t.chance {} with ⟨l, chance⟩
  rcases hDrawn : fates t.risk t.chance t.pending with ⟨drawn, chance'⟩
  simp only [List.length_nil, List.nil_append, hBooks, hDrawn] at hAgrees hChance
  subst hChance
  have hSubmissions : l.sent.map (·.submission) =
      (drawn.filter fun e => e.2 ≠ .lostBefore).map (·.1.submission) := by
    rw [hAgrees.sent, List.map_map]
    rfl
  have hLost : (l.lost.map fun ticket => ticket.delivery (.error (.fault .lostBefore))) =
      (drawn.filter fun e => e.2 = .lostBefore).map
        fun e => e.1.delivery (.error (.fault .lostBefore)) := by
    rw [hAgrees.lost, List.map_map]
    rfl
  simp only [flushByPlace, flush, hBooks, hDrawn, hSubmissions, hLost, Ledger.returned_eq hAgrees]
  rfl

end BatchStore.Shuffle
