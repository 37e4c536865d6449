import BatchStore.Proofs.Store.History

/-!
# A refused command leaves no trace

What a refused command changes is told by `run_untouched`: it takes out keys that were
expired, and nothing else. So in a pipeline it might as well not be there. `accepted` are the
commands of a pipeline without those that are refused. Executed by themselves they have the
same replies as they have among the others, and they leave a store that is the same once the
expired keys are out (`refused_leaves_nothing`).

Without them the pipeline meets stores that still hold some expired keys, so the two runs do
not go through the same stores. They go through stores that are alike, which is what
`pipeline_accepted` carries along.
-/

namespace BatchStore

/-- Replies without the refusals among them. -/
def withoutRefusals (replies : Replies) : Replies := replies.filter fun d => !d.isRefusal

namespace Store

/-- The commands of a pipeline without those that are refused. -/
def accepted (carryOut : Runner Store) : List Command → Store → List Command
  | [], _ => []
  | c :: cs, s =>
    match carryOut c s with
    | (.error (.refused _), s) => accepted carryOut cs s
    | (.error (.faulted _), _) => c :: cs
    | (.ok _, s) => c :: accepted carryOut cs s

section Steps

variable {carryOut : Runner Store} {c : Command} {cs : List Command} {s t : Store}

theorem accepted_refused {r : Refusal} (h : carryOut c s = (.error (.refused r), t)) :
    accepted carryOut (c :: cs) s = accepted carryOut cs t := by
  rw [accepted, h]

theorem accepted_faulted {f : Fault} (h : carryOut c s = (.error (.faulted f), t)) :
    accepted carryOut (c :: cs) s = c :: cs := by
  rw [accepted, h]

theorem accepted_ok {d : Datum} (h : carryOut c s = (.ok d, t)) :
    accepted carryOut (c :: cs) s = c :: accepted carryOut cs t := by
  rw [accepted, h]

end Steps

theorem withoutRefusals_follow_refusal (r : Refusal) (p : Except Fault Replies × Store) :
    (pipeline.follow (.refusal r) p).1.map withoutRefusals = p.1.map withoutRefusals := by
  rcases p with ⟨_ | replies, s⟩ <;> rfl

theorem withoutRefusals_follow {d : Datum} (h : d.isRefusal = false)
    (p q : Except Fault Replies × Store) (hSame : q.1 = p.1.map withoutRefusals) :
    (pipeline.follow d q).1 = (pipeline.follow d p).1.map withoutRefusals := by
  rcases p with ⟨f | replies, s⟩ <;> rcases q with ⟨f' | replies', t⟩ <;> cases hSame
  · rfl
  · simp [pipeline.follow, Except.map, withoutRefusals, h]

/-- A pipeline and what is left of it without the refused commands, on stores that are
alike. What a refused command left is alike to where the other run still is. -/
theorem pipeline_accepted {now : Float} (cs : List Command) {s t : Store}
    (h : SoundAlike now s t) :
    (pipeline (run now) (accepted (run now) cs s) t).1 =
        (pipeline (run now) cs s).1.map withoutRefusals ∧
      SoundAlike now (pipeline (run now) cs s).2
        (pipeline (run now) (accepted (run now) cs s) t).2 := by
  induction cs generalizing s t with
  | nil => exact ⟨rfl, h⟩
  | cons c cs ih =>
      have hSim : Simulates (SoundAlike now) (run now) (run now) := fun c _ _ => run_soundAlike c
      obtain ⟨reply, s', t', hs, ht, hAfter⟩ := (hSim c s t h).exists
      rcases reply with ⟨r | f⟩ | d
      · have hRefused : (run now c s).1 = .error (.refused r) := by rw [hs]
        have hLeft := run_untouched h.left hRefused
        rw [hs] at hLeft
        have hSkip : SoundAlike now s' t :=
          ⟨hLeft.alike.symm.trans h.toAlike, hAfter.left, h.right⟩
        rw [accepted_refused hs, pipeline_refused hs, withoutRefusals_follow_refusal, follow_snd]
        exact ih hSkip
      · rw [accepted_faulted hs, pipeline_faulted hs, pipeline_faulted ht]
        exact ⟨rfl, hAfter⟩
      · have hReply : d.isRefusal = false := run_isRefusal now c h.left (congrArg Prod.fst hs)
        obtain ⟨hReplies, hEnd⟩ := ih hAfter
        rw [accepted_ok hs, pipeline_ok hs, pipeline_ok ht, follow_snd, follow_snd]
        exact ⟨withoutRefusals_follow hReply _ _ hReplies, hEnd⟩

/-- A command that is refused by a reachable store takes out keys that were expired, and
changes nothing else. A pipeline without the commands that are refused in it answers what the
others answer in it, and leaves the same store once the expired keys are out. -/
theorem refused_leaves_nothing {s : Store} (hs : s.Reachable) (now : Float) :
    (∀ c r, (run now c s).1 = .error (.refused r) → s.Untouched now (run now c s).2) ∧
      ∀ commands,
        let all := submission now ⟨commands, false⟩ s
        let others := submission now ⟨accepted (run now) commands s, false⟩ s
        others.1.1 = all.1.1.map withoutRefusals ∧
          (all.2.sweep now).Same (others.2.sweep now) := by
  have hSound : s.Sound := reachable_sound hs
  refine ⟨fun c r => run_untouched hSound, fun commands => ?_⟩
  intro all others
  obtain ⟨hReplies, hEnd⟩ := pipeline_accepted commands ⟨Alike.refl now s, hSound, hSound⟩
  rcases hAll : pipeline (run now) commands s with ⟨f | replies, after⟩ <;>
    rcases hOthers : pipeline (run now) (accepted (run now) commands s) s with
      ⟨f' | replies', after'⟩ <;>
    rw [hAll, hOthers] at hReplies hEnd <;> cases hReplies
  · have hLeft : all = (brokenDown f, after) := submissionBy_pipeline_error hAll
    have hRight : others = (brokenDown f, after') := submissionBy_pipeline_error hOthers
    rw [hLeft, hRight]
    exact ⟨rfl, hEnd.same_sweep⟩
  · have hLeft : all = ((.ok replies, []), after) := submissionBy_pipeline_ok hAll
    have hRight : others = ((.ok (withoutRefusals replies), []), after') :=
      submissionBy_pipeline_ok hOthers
    rw [hLeft, hRight]
    exact ⟨rfl, hEnd.same_sweep⟩

/-- A list that is taken for a string, between two commands that come through. -/
theorem refused_leaves_nothing_incr :
    let push : Command := ⟨.rpush, [.text "k", .text "v"]⟩
    let incr : Command := ⟨.incr, [.text "k"]⟩
    let s := (history run [(0.0, ⟨[push], false⟩)] { databases := [.empty] }).2
    let all := submission 1.0 ⟨[push, incr, push], false⟩ s
    let others := submission 1.0 ⟨accepted (run 1.0) [push, incr, push] s, false⟩ s
    s.Reachable ∧ others.1.1 = all.1.1.map withoutRefusals ∧
      (all.2.sweep 1.0).Same (others.2.sweep 1.0) := by
  intro push incr s all others
  have hReachable : s.Reachable :=
    ⟨1, { databases := [.empty] }, [(0.0, ⟨[push], false⟩)], rfl, rfl⟩
  have hLeft := (refused_leaves_nothing hReachable 1.0).2 [push, incr, push]
  refine ⟨hReachable, ?_⟩
  unfold others all
  exact hLeft

end Store

end BatchStore
