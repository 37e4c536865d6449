import BatchStore.Proofs.Store.Effects
import BatchStore.Proofs.Store.Trace

/-!
# Histories of a store

A `Timeline` is a row of submissions, each with the reading of the clock at which it is
executed. `history` executes a timeline and tells of each submission what its commands
answered and how it ended. A store is `Reachable` if it is left by some timeline that began
with a new store; the clock may have gone any way.

* `reachable_sound`: a reachable store is sound.
* `history_related`: two ways to carry commands out that do the same at every reading of the clock
  do the same over a whole timeline.
* `history_simulates`: so do two that do the same only on stores that a reading of the clock
  relates, as long as the clock does not go back.
-/

namespace BatchStore

/-- Submissions in order, each with a reading of the clock. -/
abbrev Timeline := List (Float × Submission)

/-- The readings of the clock. -/
def Timeline.readings (timeline : Timeline) : List Float := timeline.map (·.1)

/-- The clock does not go back: no reading is above a later one. -/
def Timeline.Rising (timeline : Timeline) : Prop := timeline.readings.Pairwise (· ≤ ·)

/-- What comes of a submission: the replies of the commands that were carried out, and how
it ended, with what was reported. -/
structure Episode where
  replies : List Reply
  ending : Outcome × List Report

namespace Store

/-- Executes a timeline, with a runner for each reading of the clock. -/
def history {σ : Type} (runner : Float → Runner σ) : Timeline → σ → List Episode × σ
  | [], s => ([], s)
  | (now, b) :: rest, s =>
    let done := submissionBy (runner now) b s
    let later := history runner rest done.2
    (⟨(trace (runner now) b.atomic b.commands s).map (·.1), done.1⟩ :: later.1, later.2)

/-- A store that a timeline leads to from a new store. -/
def Reachable (s : Store) : Prop :=
  ∃ n new timeline, Store.new n = .ok new ∧ s = (history run timeline new).2

/-! ## Soundness -/

theorem submission_sound (now : Float) (b : Submission) {s : Store} (hs : s.Sound) :
    (submission now b s).2.Sound := by
  have hSim : Simulates (fun s t => s = t ∧ s.Sound) (run now) (run now) := by
    rintro c s _ ⟨rfl, hs⟩
    exact ⟨rfl, rfl, run_sound now c hs⟩
  exact (submissionBy_simulates hSim b ⟨rfl, hs⟩).2.2

theorem history_sound (timeline : Timeline) {s : Store} (hs : s.Sound) :
    (history run timeline s).2.Sound := by
  induction timeline generalizing s with
  | nil => exact hs
  | cons e rest ih => exact ih (submission_sound e.1 e.2 hs)

/-- A store that submissions lead to is sound. -/
theorem reachable_sound {s : Store} (h : s.Reachable) : s.Sound := by
  obtain ⟨n, new, timeline, hNew, rfl⟩ := h
  exact history_sound timeline (sound_new hNew)

/-! ## Histories that are the same -/

/-- Two ways to carry commands out that do the same at every reading of the clock: a timeline goes
alike, whatever the clock does. -/
theorem history_related {σ τ : Type} {R : σ → τ → Prop} {f : Float → Runner σ}
    {g : Float → Runner τ} (hSim : ∀ now, Simulates R (f now) (g now)) (timeline : Timeline)
    {s : σ} {t : τ} (hst : R s t) : Related R (history f timeline s) (history g timeline t) := by
  induction timeline generalizing s t with
  | nil => exact ⟨rfl, hst⟩
  | cons e rest ih =>
      obtain ⟨now, b⟩ := e
      have hReplies := trace_simulates (hSim now) b.atomic b.commands hst
      obtain ⟨hEnding, hAfter⟩ := submissionBy_simulates (hSim now) b hst
      obtain ⟨hRest, hLast⟩ := ih hAfter
      refine ⟨?_, hLast⟩
      simp only [history, hReplies, hEnding, hRest]

/-- Two ways to carry commands out that do the same at each reading of the clock, on stores
that stay related while the clock goes on. They are related at all readings that are still to come,
for none of these is below the one before it. -/
theorem history_simulates {R : Float → Store → Store → Prop} {f g : Float → Runner Store}
    (hSim : ∀ now, Simulates (R now) (f now) (g now))
    (hLater : ∀ now later s t, now ≤ later → R now s t → R later s t) {timeline : Timeline}
    (hRising : timeline.Rising) {s t : Store} (hStart : ∀ now ∈ timeline.readings, R now s t) :
    (history f timeline s).1 = (history g timeline t).1 ∧
      ∀ now ∈ timeline.readings.getLast?,
        R now (history f timeline s).2 (history g timeline t).2 := by
  induction timeline generalizing s t with
  | nil => exact ⟨rfl, fun _ h => nomatch h⟩
  | cons e rest ih =>
      obtain ⟨now, b⟩ := e
      have hNow : R now s t := hStart now List.mem_cons_self
      have hReplies := trace_simulates (hSim now) b.atomic b.commands hNow
      obtain ⟨hEnding, hAfter⟩ := submissionBy_simulates (hSim now) b hNow
      have hOrder := List.pairwise_cons.1 hRising
      obtain ⟨hRest, hLast⟩ := ih hOrder.2 fun later hMem =>
        hLater now later _ _ (hOrder.1 later hMem) hAfter
      constructor
      · simp only [history, hReplies, hEnding, hRest]
      · intro last hMem
        cases rest with
        | nil =>
            cases hMem
            exact hAfter
        | cons e' rest' => exact hLast last hMem

end Store

end BatchStore
