import BatchStore.Proofs.Store.Script

/-!
# What a command can tell, and what it leaves

Three properties of all commands, each by induction on scripts.

* `run_sound`: a sound store stays sound, and a command that succeeds answers no refusal.
* `run_alike`: a command cannot tell two stores apart that are alike. It gives the same reply
  on both and leaves stores that are alike.
* `run_untouched`: a command that is refused has written nothing. The one thing that it may
  have done is to take out keys that were expired.
-/

namespace BatchStore

open Store

namespace Scripted

variable {now : Float} {written : Bool} {step : Step}

theorem accepted_ok {reply : Reply} (h : Accepted reply) {d : Datum} (hOk : reply = .ok d) :
    d.isRefusal = false := by
  subst hOk
  exact h

theorem not_accepted_refuse {reply : Reply} (h : Accepted reply) {r : Refusal}
    (hRefused : reply = .error (.refused r)) : False := by
  subst hRefused
  exact h

/-- A script keeps a sound store sound. -/
theorem sound (h : Scripted now written step) {s : Store} (hs : s.Sound) : (step s).2.Sound := by
  induction h generalizing s with
  | answer _ => exact hs
  | refuse _ => exact hs
  | consult next _ _ ih => exact ih s hs
  | look i key _ ih => exact ih _ (hs.live?_clean now i key) (hs.settle now i key)
  | write i key hClean _ ih => exact ih (hs.setEntry i key hClean)
  | clear i _ => exact hs.setDatabase i Table.distinct_empty fun _ h => nomatch h
  | select i _ => exact ⟨hs.distinct, hs.clean⟩
  | relabel libraries _ => exact ⟨hs.distinct, hs.clean⟩
  | count i _ _ _ => exact hs.settleAll now i
  | survey _ _ _ => exact hs.sweep now

/-- A script does not answer with a refusal in place of a result. -/
theorem isRefusal (h : Scripted now written step) {s : Store} (hs : s.Sound) {d : Datum}
    (hOk : (step s).1 = .ok d) : d.isRefusal = false := by
  induction h generalizing s with
  | answer hReply => exact accepted_ok hReply hOk
  | refuse _ => cases hOk
  | consult next _ _ ih => exact ih s hs hOk
  | look i key _ ih => exact ih _ (hs.live?_clean now i key) (hs.settle now i key) hOk
  | write i key hClean _ ih => exact ih (hs.setEntry i key hClean) hOk
  | clear i hReply => exact accepted_ok hReply hOk
  | select i hReply => exact accepted_ok hReply hOk
  | relabel libraries hReply => exact accepted_ok hReply hOk
  | count i reply _ hReply => exact accepted_ok (hReply _) hOk
  | survey reply _ hReply => exact accepted_ok (hReply _) hOk

/-- A script does the same to stores that are alike. -/
theorem alike (h : Scripted now written step) {s t : Store} (hs : s.Sound) (ht : t.Sound)
    (hSame : s.Alike now t) : (step s).1 = (step t).1 ∧ (step s).2.Alike now (step t).2 := by
  induction h generalizing s t with
  | answer _ => exact ⟨rfl, hSame⟩
  | refuse _ => exact ⟨rfl, hSame⟩
  | consult next hFrame _ ih =>
      show (next s s).1 = (next t t).1 ∧ (next s s).2.Alike now (next t t).2
      rw [← hFrame s t hSame.toSameFrame]
      exact ih s hs ht hSame
  | @look _ i key next _ ih =>
      show (next _ _).1 = (next _ _).1 ∧ (next _ _).2.Alike now (next _ _).2
      rw [← hSame.live i key]
      have hSettled : (s.settle now i key).Alike now (t.settle now i key) :=
        (Alike.settle now s i key).trans (hSame.trans (Alike.settle now t i key).symm)
      exact ih _ (hs.live?_clean now i key) (hs.settle now i key) (ht.settle now i key) hSettled
  | write i key hClean _ ih =>
      exact ih (hs.setEntry i key hClean) (ht.setEntry i key hClean) (hSame.setEntry i key _)
  | clear i _ => exact ⟨rfl, hSame.setDatabase i .empty⟩
  | select i _ => exact ⟨rfl, ⟨rfl, hSame.libraries, hSame.count⟩, hSame.live⟩
  | relabel libraries _ => exact ⟨rfl, ⟨hSame.selected, rfl, hSame.count⟩, hSame.live⟩
  | count i reply hOrder _ =>
      constructor
      · show reply _ = reply _
        rw [database_settleAll, database_settleAll]
        exact hOrder _ _ (hSame.reordered hs ht i)
      · exact (Alike.settleAll hs now i).trans (hSame.trans (Alike.settleAll ht now i).symm)
  | survey reply hOrder _ =>
      constructor
      · exact hOrder _ _ (hSame.reordered_sweep hs ht)
      · exact (Alike.sweep hs now).trans (hSame.trans (Alike.sweep ht now).symm)

/-- A script that refuses has written nothing before. -/
theorem untouched (h : Scripted now written step) {s : Store} (hs : s.Sound) {r : Refusal}
    (hRefused : (step s).1 = .error (.refused r)) :
    written = false ∧ s.Untouched now (step s).2 := by
  induction h generalizing s with
  | answer hReply => exact (not_accepted_refuse hReply hRefused).elim
  | refuse _ => exact ⟨rfl, .refl now s⟩
  | consult next _ _ ih => exact ih s hs hRefused
  | look i key _ ih =>
      obtain ⟨hUnwritten, hRest⟩ :=
        ih _ (hs.live?_clean now i key) (hs.settle now i key) hRefused
      exact ⟨hUnwritten, (Untouched.settle now s i key).trans hRest⟩
  | write i key hClean _ ih =>
      have hWritten := (ih (hs.setEntry i key hClean) hRefused).1
      cases hWritten
  | clear i hReply => exact (not_accepted_refuse hReply hRefused).elim
  | select i hReply => exact (not_accepted_refuse hReply hRefused).elim
  | relabel libraries hReply => exact (not_accepted_refuse hReply hRefused).elim
  | count i reply _ hReply => exact (not_accepted_refuse (hReply _) hRefused).elim
  | survey reply _ hReply => exact (not_accepted_refuse (hReply _) hRefused).elim

end Scripted

namespace Store

/-- Every command keeps a store sound. -/
theorem run_sound (now : Float) (c : Command) {s : Store} (hs : s.Sound) :
    (run now c s).2.Sound :=
  (scripted_run now c).sound hs

/-- What a command answers, if it succeeds, is no refusal. -/
theorem run_isRefusal (now : Float) (c : Command) {s : Store} (hs : s.Sound) {d : Datum}
    (hOk : (run now c s).1 = .ok d) : d.isRefusal = false :=
  (scripted_run now c).isRefusal hs hOk

/-- A command cannot tell two stores apart that are alike. -/
theorem run_alike {now : Float} (c : Command) {s t : Store} (hs : s.Sound) (ht : t.Sound)
    (hSame : s.Alike now t) :
    (run now c s).1 = (run now c t).1 ∧ (run now c s).2.Alike now (run now c t).2 :=
  (scripted_run now c).alike hs ht hSame

/-- The same for sound stores, which stay sound. -/
theorem run_soundAlike {now : Float} (c : Command) {s t : Store} (h : SoundAlike now s t) :
    (run now c s).1 = (run now c t).1 ∧ SoundAlike now (run now c s).2 (run now c t).2 := by
  obtain ⟨hReply, hAfter⟩ := run_alike c h.left h.right h.toAlike
  exact ⟨hReply, hAfter, run_sound now c h.left, run_sound now c h.right⟩

/-- A command that is refused leaves a store as it was, but for expired keys. -/
theorem run_untouched {now : Float} {c : Command} {s : Store} (hs : s.Sound) {r : Refusal}
    (hRefused : (run now c s).1 = .error (.refused r)) : s.Untouched now (run now c s).2 :=
  ((scripted_run now c).untouched hs hRefused).2

end Store

end BatchStore
