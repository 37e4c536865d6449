import BatchStore.Proofs.Number.Order
import BatchStore.Proofs.Store.History

/-!
# Lazy expiry cannot be noticed

The store takes an expired key out when something looks it up, and until then it stays in
the table. `runSwept` is how an eager store would do it: all expired keys of all databases go
before each command.

`history_runSwept` says that nobody can tell the two apart while the clock does not go back.
Over any timeline both give the same replies to the same commands and end each submission in
the same way, and the stores are the same once the expired keys are out of both. A
transaction that is undone brings keys back that were taken out, which changes nothing: they
are expired now and stay so.

The one fact about the clock that this needs is that a deadline that has come stays come
(`isExpired_later`).
-/

namespace BatchStore

/-- An entry that has expired is expired at every later reading of the clock. -/
theorem Entry.isExpired_later {now later : Float} (hLater : now ≤ later) {e : Entry}
    (h : e.isExpired now = true) : e.isExpired later = true := by
  unfold isExpired at *
  cases hDeadline : e.deadline? with
  | none =>
      rw [hDeadline] at h
      cases h
  | some t =>
      rw [hDeadline] at h
      exact decide_eq_true (Number.real_le_trans (of_decide_eq_true h) hLater)

/-- What shows at a later reading is what shows of what showed before. -/
theorem Entry.shown?_later {now later : Float} (hLater : now ≤ later) (e? : Option Entry) :
    shown? later e? = shown? later (shown? now e?) := by
  cases e? with
  | none => rfl
  | some e =>
      cases hExpired : e.isExpired now with
      | false => simp [shown?, Option.filter_some, hExpired]
      | true => simp [shown?, Option.filter_some, hExpired, isExpired_later hLater hExpired]

namespace Store

/-- Carries a command out after all expired keys of all databases are taken out. -/
def runSwept (now : Float) : Runner Store := fun c s => run now c (s.sweep now)

theorem Alike.later {now later : Float} {s t : Store} (hLater : now ≤ later)
    (h : s.Alike now t) : s.Alike later t := by
  refine ⟨h.toSameFrame, fun i key => ?_⟩
  have hNow := h.live i key
  rw [live?_eq_shown?, live?_eq_shown?] at *
  rw [Entry.shown?_later hLater, hNow, ← Entry.shown?_later hLater]

theorem simulates_runSwept (now : Float) :
    Simulates (SoundAlike now) (run now) (runSwept now) := by
  intro c s t h
  have hSwept : s.Alike now (t.sweep now) := h.toAlike.trans (Alike.sweep h.right now).symm
  exact run_soundAlike c ⟨hSwept, h.left, h.right.sweep now⟩

/-- A store that takes expired keys out when they are looked up, and one that takes all of
them out before each command, cannot be told apart while the clock does not go back. -/
theorem history_runSwept {n : Int} {new : Store} (hNew : Store.new n = .ok new)
    (earlier : Timeline) (now : Float) (b : Submission)
    (hRising : Timeline.Rising (earlier ++ [(now, b)])) :
    let lazy := history run (earlier ++ [(now, b)]) new
    let eager := history runSwept (earlier ++ [(now, b)]) new
    lazy.1 = eager.1 ∧ (lazy.2.sweep now).Same (eager.2.sweep now) := by
  intro lazy eager
  have hSound : new.Sound := sound_new hNew
  have hLater (now later : Float) (s t : Store) (hLe : now ≤ later) (h : SoundAlike now s t) :
      SoundAlike later s t :=
    ⟨h.toAlike.later hLe, h.left, h.right⟩
  obtain ⟨hEpisodes, hLast⟩ := history_simulates simulates_runSwept hLater hRising
    fun now _ => ⟨Alike.refl now new, hSound, hSound⟩
  have hNow : SoundAlike now lazy.2 eager.2 := by
    apply hLast
    simp [Timeline.readings]
  exact ⟨hEpisodes, hNow.same_sweep⟩

/-- A key that is set for five seconds and asked for twice, the second time ten seconds
later. -/
theorem history_runSwept_get :
    let set : Command := ⟨.set, [.text "k", .text "v", .text "EX", .text "5"]⟩
    let get : Command := ⟨.get, [.text "k"]⟩
    let timeline : Timeline := [(0.0, ⟨[set, get], true⟩)] ++ [(10.0, ⟨[get], false⟩)]
    let new : Store := { databases := [.empty, .empty] }
    Timeline.Rising timeline ∧
      (history run timeline new).1 = (history runSwept timeline new).1 ∧
      ((history run timeline new).2.sweep 10.0).Same
        ((history runSwept timeline new).2.sweep 10.0) := by
  intro set get timeline new
  have hRising : timeline.Rising := List.pairwise_pair.2 (by decide +kernel)
  exact ⟨hRising, history_runSwept (n := 2) rfl _ _ _ hRising⟩

end Store

end BatchStore
