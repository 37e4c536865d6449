import BatchStore.Proofs.Store.Footprint
import BatchStore.Proofs.Store.Invariant
import BatchStore.Proofs.Store.Pipeline

/-!
# Keys that are carried over

RENAME, MOVE and COPY carry what one key holds to another place: to another key, to the same key of
another database, or to any key of any database. What is carried is the `Transfer` of the command,
and `Carried` says what a store is like behind it. An entry goes over as a whole, with its deadline
or without one. Nothing is left of what the other place held, be it expired or not, and nothing of
the entry where it came from, unless it is to stay.

Each of the commands either carries its key over or leaves what shows as it was: `TransferEnds` has
the ways in which they end, told apart by the reply, and `Transfer.Granted` says when it is the
first.

## Main results

* `transfer_ends`: every one of the three ends so.
* `moves_back`: a key that was moved is moved back from the other side.
-/

namespace BatchStore

namespace Store

/-! ## What a transfer does -/

/-- One key is to be carried to another place. It may stay at its own as well, and may take the
place of what shows at the other. -/
structure Transfer where
  source : Site
  target : Site
  stays : Bool
  replaces : Bool

/-- What a command is to carry where, by its arguments. -/
def transfer? (s : Store) : CommandType → List Octets → Option Transfer
  | .rename, [key, newKey] => some ⟨(s.selected, key), (s.selected, newKey), false, true⟩
  | .move, [key, index] =>
    match (readInt index).bind s.index? with
    | .ok target => some ⟨(s.selected, key), (target, key), false, false⟩
    | .error _ => none
  | .copy, source :: destination :: options =>
    match Keys.CopyPlan.read s { target := s.selected } options with
    | .ok plan => some ⟨(s.selected, source), (plan.target, destination), true, plan.replace⟩
    | .error _ => none
  | _, _ => none

/-- A transfer takes place: something shows at its source, nothing is in its way at the target, and
what stays is not to be carried to where it is. -/
structure Transfer.Granted (now : Float) (s : Store) (x : Transfer) : Prop where
  seen : ∃ e, s.live? now x.source.1 x.source.2 = some e
  free : x.replaces = true ∨ s.live? now x.target.1 x.target.2 = none
  apart : x.stays = true → x.source ≠ x.target

/-- The second store is the first after a transfer of an entry that showed at its source: the target
holds it, the source only if it stays there or is the target, and all else is as it was. -/
structure Carried (now : Float) (s : Store) (x : Transfer) (e : Entry) (after : Store) : Prop where
  seen : s.live? now x.source.1 x.source.2 = some e
  there : after.held? x.target.1 x.target.2 = some e
  left : after.held? x.source.1 x.source.2 =
    if x.stays = true ∨ x.source = x.target then some e else none
  kept : s.KeptOutside [x.source, x.target] after

/-- How a command ends that is to carry something over, and answers `done` if it does. If it does
not, nothing that shows is changed. -/
inductive TransferEnds (now : Float) (s : Store) (x? : Option Transfer) (done : Datum) :
    Reply × Store → Prop where
  | carried {x : Transfer} {e : Entry} {after : Store} (hTransfer : x? = some x)
      (hGranted : x.Granted now s) (hCarried : Carried now s x e after) :
      TransferEnds now s x? done (.ok done, after)
  | declined {after : Store} (hNot : ∀ x, x? = some x → ¬ x.Granted now s)
      (hDone : done = .bool true) (hUntouched : s.Untouched now after) :
      TransferEnds now s x? done (.ok (.bool false), after)
  | failed {h : Halt} {after : Store} (hNot : ∀ x, x? = some x → ¬ x.Granted now s)
      (hUntouched : s.Untouched now after) : TransferEnds now s x? done (.error h, after)

/-- Without arguments that say what to carry, nothing is carried. -/
theorem TransferEnds.refused {now : Float} {s : Store} {done : Datum} {halt : Halt} :
    TransferEnds now s none done (.error halt, s) :=
  .failed (fun _ h => nomatch h) (.refl now s)

theorem Transfer.not_granted {now : Float} {s : Store} {x : Transfer} (h : ¬ x.Granted now s) :
    ∀ y, some x = some y → ¬ y.Granted now s := by
  rintro _ ⟨⟩
  exact h

section Ends

variable {now : Float} {s : Store} {key newKey : Octets} {i target : Nat} {e : Entry}

theorem rename_ends (hSelected : s.selected < s.databases.length) (now : Float)
    (key newKey : Octets) :
    TransferEnds now s (some ⟨(s.selected, key), (s.selected, newKey), false, true⟩) okReply
      (Keys.rename now key newKey s) := by
  have hKept : s.KeptOutside [(s.selected, key), (s.selected, newKey)]
      (Keys.rename now key newKey s).2 :=
    (KeepsTo.rename (r := s) (by simp) (by simp)).outside s ⟨rfl, rfl⟩
  cases hLive : s.live? now s.selected key with
  | none =>
      have hRun : Keys.rename now key newKey s =
          (refuse .noSuchKey, s.settle now s.selected key) := by
        simp only [Keys.rename, withSelected, lookUp, hLive]
      rw [hRun]
      refine .failed (Transfer.not_granted fun hGranted => ?_) (.settle now s s.selected key)
      obtain ⟨e, hSeen⟩ := hGranted.seen
      exact nomatch hLive.symm.trans hSeen
  | some e =>
      have hRun : Keys.rename now key newKey s = (.ok okReply,
          ((s.settle now s.selected key).setEntry s.selected key none).setEntry s.selected newKey
            (some e)) := by
        simp only [Keys.rename, withSelected, lookUp, hLive]
      rw [hRun] at hKept ⊢
      refine .carried rfl ⟨⟨e, hLive⟩, .inl rfl, nofun⟩ ⟨hLive, ?_, ?_, hKept⟩
      · rw [held?_setEntry, if_pos ⟨rfl, by simpa using hSelected, rfl⟩]
      · rw [held?_setEntry]
        by_cases hSame : key = newKey
        · simp [hSame, hSelected]
        · simp [hSame, hSelected, held?_setEntry]

/-- MOVE is carried out: the databases are different, and the key shows in the first alone. -/
structure Moves (now : Float) (s : Store) (key : Octets) (target i : Nat) (e : Entry) : Prop where
  apart : target ≠ i
  seen : s.live? now i key = some e
  free : s.live? now target key = none

theorem moveTo_carries (h : Moves now s key target i e) (hTarget : target < s.databases.length) :
    ∃ after, Keys.moveTo now key target i s = (.ok (.bool true), after) ∧
      Carried now s ⟨(i, key), (target, key), false, false⟩ e after := by
  have hSource := lt_of_live? h.seen
  have hKept : s.KeptOutside [(i, key), (target, key)] (Keys.moveTo now key target i s).2 :=
    (KeepsTo.moveTo (r := s) (by simp) (by simp)).outside s ⟨rfl, rfl⟩
  have hRun : Keys.moveTo now key target i s = (.ok (.bool true),
      (((s.settle now i key).settle now target key).setEntry target key (some e)).setEntry i key
        none) := by
    simp only [Keys.moveTo, lookUp, if_neg h.apart, h.seen, live?_settle, h.free]
    rfl
  rw [hRun] at hKept
  refine ⟨_, hRun, h.seen, ?_, ?_, hKept⟩
  · rw [held?_setEntry, if_neg (by simp [h.apart]), held?_setEntry,
      if_pos ⟨rfl, by simpa using hTarget, rfl⟩]
  · rw [held?_setEntry, if_pos ⟨rfl, by simpa using hSource, rfl⟩]
    simp [h.apart.symm]

/-- Otherwise it answers so or is refused, and nothing that shows is changed. -/
theorem moveTo_stays (h : ∀ e, ¬ Moves now s key target i e) :
    ∃ after, s.Untouched now after ∧
      (Keys.moveTo now key target i s = (.ok (.bool false), after) ∨
        ∃ halt, Keys.moveTo now key target i s = (.error halt, after)) := by
  unfold Keys.moveTo
  split
  · exact ⟨s, .refl now s, .inr ⟨_, rfl⟩⟩
  · rename_i hApart
    cases hLive : s.live? now i key with
    | none =>
        refine ⟨s.settle now i key, .settle now s i key, .inl ?_⟩
        simp only [lookUp, hLive]
    | some e =>
        have hTaken : (s.live? now target key).isSome = true :=
          Option.isSome_iff_ne_none.2 fun hFree => h e ⟨hApart, hLive, hFree⟩
        refine ⟨(s.settle now i key).settle now target key,
          (Untouched.settle now s i key).trans (.settle now _ target key), .inl ?_⟩
        simp only [lookUp, hLive, live?_settle, hTaken, if_true]

theorem granted_iff_moves :
    Transfer.Granted now s ⟨(i, key), (target, key), false, false⟩ ↔
      ∃ e, Moves now s key target i e := by
  constructor
  · rintro ⟨⟨e, hSeen⟩, hFree | hFree, -⟩
    · cases hFree
    · refine ⟨e, fun hSame => ?_, hSeen, hFree⟩
      subst hSame
      exact nomatch hFree.symm.trans hSeen
  · rintro ⟨e, hMoves⟩
    exact ⟨⟨e, hMoves.seen⟩, .inr hMoves.free, nofun⟩

theorem moveTo_ends (hTarget : target < s.databases.length) (now : Float) (key : Octets) (i : Nat) :
    TransferEnds now s (some ⟨(i, key), (target, key), false, false⟩) (.bool true)
      (Keys.moveTo now key target i s) := by
  by_cases hMoves : ∃ e, Moves now s key target i e
  · have hGranted := granted_iff_moves.2 hMoves
    obtain ⟨e, hMoves⟩ := hMoves
    obtain ⟨after, hRun, hCarried⟩ := moveTo_carries hMoves hTarget
    rw [hRun]
    exact .carried rfl hGranted hCarried
  · have hNot := Transfer.not_granted fun hGranted => hMoves (granted_iff_moves.1 hGranted)
    obtain ⟨after, hUntouched, hRun | ⟨halt, hRun⟩⟩ := moveTo_stays (not_exists.1 hMoves)
    · rw [hRun]
      exact .declined hNot rfl hUntouched
    · rw [hRun]
      exact .failed hNot hUntouched

theorem copyPlan_run_ends {plan : Keys.CopyPlan} (hTarget : plan.target < s.databases.length)
    (now : Float) (source destination : Octets) (i : Nat) :
    TransferEnds now s (some ⟨(i, source), (plan.target, destination), true, plan.replace⟩)
      (.bool true)
      (plan.run now source destination i s) := by
  have hKept : s.KeptOutside [(i, source), (plan.target, destination)]
      (plan.run now source destination i s).2 :=
    (KeepsTo.copyPlan_run (r := s) (by simp) (by simp)).outside s ⟨rfl, rfl⟩
  unfold Keys.CopyPlan.run at hKept ⊢
  split
  · rename_i hSame
    refine .failed (Transfer.not_granted fun hGranted => hGranted.apart rfl ?_) (.refl now s)
    rw [hSame.1, hSame.2]
  · rename_i hApart
    rw [if_neg hApart] at hKept
    cases hLive : s.live? now i source with
    | none =>
        simp only [lookUp, hLive]
        refine .declined (Transfer.not_granted fun hGranted => ?_) rfl (.settle now s i source)
        obtain ⟨e, hSeen⟩ := hGranted.seen
        exact nomatch hLive.symm.trans hSeen
    | some e =>
        simp only [lookUp, hLive, live?_settle] at hKept ⊢
        split
        · rename_i hTaken
          refine .declined (Transfer.not_granted fun hGranted => ?_) rfl
            ((Untouched.settle now s i source).trans (.settle now _ _ destination))
          rcases hGranted.free with hReplaces | hFree
          · simp [show plan.replace = true from hReplaces] at hTaken
          · simp [show s.live? now plan.target destination = none from hFree] at hTaken
        · rename_i hFree
          rw [if_neg hFree] at hKept
          refine .carried rfl ⟨⟨e, hLive⟩, ?_, fun _ hSame => ?_⟩ ⟨hLive, ?_, ?_, hKept⟩
          · cases hReplaces : plan.replace with
            | true => exact .inl rfl
            | false => exact .inr (by simpa [hReplaces] using hFree)
          · exact hApart ⟨(congrArg Prod.fst hSame).symm, congrArg Prod.snd hSame⟩
          · rw [held?_setEntry, if_pos ⟨rfl, by simpa using hTarget, rfl⟩]
          · rw [held?_setEntry, if_neg fun h => hApart ⟨h.1.symm, h.2.2⟩, held?_settle_eq,
              if_neg fun h => hApart ⟨h.1.symm, h.2⟩, held?_settle_eq, if_pos ⟨rfl, rfl⟩]
            exact hLive

end Ends

/-! ## Commands that carry keys over -/

/-- What a command answers that has carried its key over. -/
def carriedReply (t : CommandType) : Datum := if t = .rename then okReply else .bool true

theorem move_ends (s : Store) (now : Float) (key index : Octets) :
    TransferEnds now s (s.transfer? .move [key, index]) (.bool true)
      (Keys.move now key index s) := by
  unfold Keys.move given andThen
  cases hIndex : (readInt index).bind s.index? with
  | error halt =>
      simp only [transfer?, hIndex]
      exact .refused
  | ok target =>
      obtain ⟨n, -, hTarget⟩ := ok_of_bind hIndex
      simp only [transfer?, hIndex]
      exact moveTo_ends (index?_lt hTarget) now key s.selected

theorem copy_ends {s : Store} (hSelected : s.selected < s.databases.length) (now : Float)
    (source destination : Octets) (options : List Octets) :
    TransferEnds now s (s.transfer? .copy (source :: destination :: options)) (.bool true)
      (Keys.copy now source destination options s) := by
  unfold Keys.copy given andThen
  cases hRead : Keys.CopyPlan.read s { target := s.selected } options with
  | error halt =>
      simp only [transfer?, hRead]
      exact .refused
  | ok plan =>
      simp only [transfer?, hRead]
      exact copyPlan_run_ends
        (Scripted.copyPlan_read_lt hSelected hRead) now source destination s.selected

/-- Every one of the three commands ends so. So many arguments as say what to carry are never
refused for their number. -/
theorem transfer_ends {s : Store} (hSelected : s.selected < s.databases.length) (now : Float)
    {c : Command} {t : CommandType} {args : List Octets} (hRequest : c.request? = some (t, args))
    (hType : t = .rename ∨ t = .move ∨ t = .copy) :
    TransferEnds now s (s.transfer? t args) (carriedReply t) (run now c s) := by
  rw [run_of_request? hRequest]
  unfold runType
  split
  · rcases hType with rfl | rfl | rfl
    · match args with
      | [key, newKey] => exact rename_ends hSelected now key newKey
      | [] | [_] | _ :: _ :: _ :: _ => exact .refused
    · match args with
      | [key, index] => exact move_ends s now key index
      | [] | [_] | _ :: _ :: _ :: _ => exact .refused
    · match args with
      | source :: destination :: options => exact copy_ends hSelected now source destination options
      | [] | [_] => exact .refused
  · rename_i hRefused
    rcases hType with rfl | rfl | rfl
    · match args with
      | [_, _] => exact absurd rfl hRefused
      | [] | [_] | _ :: _ :: _ :: _ => exact .refused
    · match args with
      | [_, _] => exact absurd rfl hRefused
      | [] | [_] | _ :: _ :: _ :: _ => exact .refused
    · match args with
      | _ :: _ :: options =>
          exact absurd (CommandType.admits_open rfl (Nat.le_add_left 2 options.length)) hRefused
      | [] | [_] => exact .refused

/-! ## There and back -/

/-- A command moves a key to the database with a number. -/
def MovesTo (c : Command) (key : Octets) (n : Int) : Prop :=
  ∃ word, c.request? = some (.move, [key, word]) ∧ Number.int? word = some n

/-- A command selects the database with a number. -/
def Selects (c : Command) (n : Int) : Prop :=
  ∃ word, c.request? = some (.select, [word]) ∧ Number.int? word = some n

theorem run_move {c : Command} {key : Octets} {n : Int} (h : MovesTo c key n) (now : Float)
    (s : Store) :
    run now c s =
      given (s.index? n) (fun target => withSelected (Keys.moveTo now key target)) s := by
  obtain ⟨word, hRequest, hNumber⟩ := h
  rw [run_of_request? hRequest]
  show given ((readInt word).bind s.index?) _ s = _
  rw [readInt_of_int? hNumber]
  rfl

theorem run_select {c : Command} {n : Int} (h : Selects c n) {s : Store} {target : Nat}
    (hTarget : s.index? n = .ok target) (now : Float) :
    run now c s = (.ok okReply, { s with selected := target }) := by
  obtain ⟨word, hRequest, hNumber⟩ := h
  rw [run_of_request? hRequest]
  show given ((readInt word).bind s.index?) _ s = _
  rw [readInt_of_int? hNumber]
  show given (s.index? n) _ s = _
  rw [hTarget]
  rfl

/-- MOVE has answered that it was carried out: it was. -/
theorem moves_of_reply {c : Command} {key : Octets} {n : Int} (h : MovesTo c key n) {now : Float}
    {s : Store} (hReply : (run now c s).1 = .ok (.bool true)) :
    ∃ target e, s.index? n = .ok target ∧ Moves now s key target s.selected e := by
  rw [run_move h] at hReply
  cases hIndex : s.index? n with
  | error halt =>
      rw [hIndex] at hReply
      cases hReply
  | ok target =>
      rw [hIndex] at hReply
      by_contra hNever
      have hNot (e : Entry) : ¬ Moves now s key target s.selected e :=
        fun hMoves => hNever ⟨target, e, rfl, hMoves⟩
      have hMoveTo : (Keys.moveTo now key target s.selected s).1 = .ok (.bool true) := hReply
      obtain ⟨after, -, hRun | ⟨halt, hRun⟩⟩ := moveTo_stays hNot
      · rw [hRun] at hMoveTo
        cases hMoveTo
      · rw [hRun] at hMoveTo
        cases hMoveTo

/-- MOVE is carried out where it can be. -/
theorem run_moves {c : Command} {key : Octets} {n : Int} (h : MovesTo c key n) {now : Float}
    {s : Store} {target : Nat} {e : Entry} (hTarget : s.index? n = .ok target)
    (hMoves : Moves now s key target s.selected e) :
    ∃ after, run now c s = (.ok (.bool true), after) ∧
      Carried now s ⟨(s.selected, key), (target, key), false, false⟩ e after := by
  obtain ⟨after, hRun, hCarried⟩ := moveTo_carries hMoves (index?_lt hTarget)
  refine ⟨after, ?_, hCarried⟩
  rw [run_move h, hTarget]
  exact hRun

theorem index?_natCast {s : Store} {i : Nat} (h : i < s.databases.length) :
    s.index? (i : Int) = .ok i := by
  unfold index?
  rw [if_pos ⟨by omega, by omega⟩, Int.toNat_natCast]

/-- An entry that was carried over shows at its target, and at its source no more, unless it stays
there. -/
theorem Carried.moved {now : Float} {s after : Store} {i target : Nat} {key : Octets} {e : Entry}
    (h : Carried now s ⟨(i, key), (target, key), false, false⟩ e after) (hApart : target ≠ i) :
    after.live? now target key = some e ∧ after.live? now i key = none := by
  constructor
  · exact (live?_eq_some_iff after now target key e).2
      ⟨h.there, ((live?_eq_some_iff s now i key e).1 h.seen).2⟩
  · have hGone : after.held? i key = none := h.left.trans (if_neg (by simp [hApart.symm]))
    rw [live?_eq_shown?, hGone]
    rfl

/-- An entry that was moved and moved back shows where it showed, and nothing else is changed. -/
theorem alike_of_moves {now : Float} {s away back : Store} {i target : Nat} {key : Octets}
    {e : Entry} (h : Moves now s key target i e)
    (hAway : Carried now s ⟨(i, key), (target, key), false, false⟩ e away)
    (hBack : Carried now { away with selected := target }
      ⟨(target, key), (i, key), false, false⟩ e back) :
    s.Alike now { back with selected := s.selected } := by
  refine ⟨⟨rfl, hAway.kept.libraries.trans hBack.kept.libraries,
    hAway.kept.count.trans hBack.kept.count⟩, fun j k => ?_⟩
  show s.live? now j k = back.live? now j k
  obtain ⟨hReturned, hLeft⟩ := hBack.moved h.apart.symm
  by_cases hSource : (j, k) = (i, key)
  · cases hSource
    rw [h.seen, hReturned]
  · by_cases hTarget : (j, k) = (target, key)
    · cases hTarget
      rw [h.free, hLeft]
    · have hThere : s.held? j k = away.held? j k :=
        hAway.kept.held (j, k) (by simp [hSource, hTarget])
      have hHere : away.held? j k = back.held? j k :=
        hBack.kept.held (j, k) (by simp [hSource, hTarget])
      rw [live?_eq_shown?, live?_eq_shown?, hThere, hHere]

/-- MOVE to another database, and from there back: the key was seen where it came from, so the way
back is free. -/
theorem moves_back {s : Store} (hs : s.Sound) (hSelected : s.selected < s.databases.length)
    (now : Float) {go enter comeBack leave : Command} {key : Octets} {n : Int}
    (hGo : MovesTo go key n) (hEnter : Selects enter n)
    (hComeBack : MovesTo comeBack key s.selected) (hLeave : Selects leave s.selected)
    (hMoved : (run now go s).1 = .ok (.bool true)) :
    ∃ after, pipeline (run now) [go, enter, comeBack, leave] s =
        (.ok [.bool true, okReply, .bool true, okReply], after) ∧
      (s.sweep now).Same (after.sweep now) := by
  obtain ⟨target, e, hIndex, hMoves⟩ := moves_of_reply hGo hMoved
  obtain ⟨away, hAwayRun, hAway⟩ := run_moves hGo hIndex hMoves
  have hAwayIndex : away.index? n = .ok target :=
    Scripted.index?_congr hAway.kept.count ▸ hIndex
  have hEnterRun := run_select hEnter hAwayIndex now
  obtain ⟨hThere, hGone⟩ := hAway.moved hMoves.apart
  have hReturn : Moves now { away with selected := target } key s.selected target e :=
    ⟨hMoves.apart.symm, hThere, hGone⟩
  have hHome : ({ away with selected := target } : Store).index? s.selected = .ok s.selected :=
    index?_natCast (hAway.kept.count ▸ hSelected)
  obtain ⟨back, hBackRun, hBack⟩ := run_moves hComeBack hHome hReturn
  have hBackIndex : back.index? s.selected = .ok s.selected :=
    Scripted.index?_congr hBack.kept.count ▸ hHome
  have hLeaveRun := run_select hLeave hBackIndex now
  refine ⟨{ back with selected := s.selected }, ?_, ?_⟩
  · rw [pipeline_ok hAwayRun, pipeline_ok hEnterRun, pipeline_ok hBackRun, pipeline_ok hLeaveRun]
    rfl
  · have hSound : ({ back with selected := s.selected } : Store).Sound := by
      have hAwaySound := run_sound now go hs
      rw [hAwayRun] at hAwaySound
      have hEnterSound := run_sound now enter hAwaySound
      rw [hEnterRun] at hEnterSound
      have hBackSound := run_sound now comeBack hEnterSound
      rw [hBackRun] at hBackSound
      have hLeaveSound := run_sound now leave hBackSound
      rwa [hLeaveRun] at hLeaveSound
    exact SoundAlike.same_sweep ⟨alike_of_moves hMoves hAway hBack, hs, hSound⟩

/-- In a reachable store a database is selected that is there. -/
theorem reachable_selected {s : Store} (h : s.Reachable) : s.selected < s.databases.length := by
  obtain ⟨n, new, timeline, hNew, rfl⟩ := h
  have hShaped := history_shaped timeline (new_shaped hNew)
  exact hShaped.count ▸ hShaped.selected

end Store

end BatchStore
