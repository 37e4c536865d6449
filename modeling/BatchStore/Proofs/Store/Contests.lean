import BatchStore.Proofs.Store.Deeds

/-!
# Contests for a key

A SET under a condition is a `Bid` for a key. It is weighed against what the key holds, and either
writes its value or leaves the key alone, with its deadline. Callers build locks on this: of
several that write where nothing is, or in the place of one and the same value, only one may come
through.

`valueLeft` says who comes through by the bids alone: each is weighed against the value that the
last one before it that took effect has left. `Contest.standing` shows that this is the value that
the key holds, deed by deed, as long as nothing else writes to it and time does not take it away.
What follows for locks is a matter of `valueLeft` (`takesEffect_missing_iff`,
`not_takesEffect_equals`).
-/

namespace BatchStore

namespace Strings

/-- The conditions among the options of SET, if the others are GET, KEEPTTL and timed expiries. -/
def conditions : List Octets → Option (List Guard)
  | [] => some []
  | w :: rest =>
    match Keyword.ofOctets? w, rest with
    | some .nx, rest => (conditions rest).map (.ifMissing :: ·)
    | some .xx, rest => (conditions rest).map (.ifExists :: ·)
    | some .ifeq, v :: rest => (conditions rest).map (.ifEquals v :: ·)
    | some .get, rest => conditions rest
    | some .keepttl, rest => conditions rest
    | some k, _ :: rest => if k.setsDeadline then conditions rest else none
    | _, _ => none

/-- A plan that is read has the last of the conditions. -/
theorem SetPlan.guard_of_read {now : Float} {plan plan' : SetPlan} {words : List Octets}
    {guards : List Guard} (h : SetPlan.read now plan words = .ok plan')
    (hGuards : conditions words = some guards) :
    plan'.guard = guards.getLast?.getD plan.guard := by
  fun_induction SetPlan.read now plan words generalizing guards with
  | case1 plan =>
      cases h
      cases hGuards
      rfl
  | case2 plan w rest hWord ih | case3 plan w rest hWord ih =>
      simp only [conditions, hWord] at hGuards
      obtain ⟨others, hOthers, rfl⟩ := Option.map_eq_some_iff.1 hGuards
      rw [ih h hOthers, List.getLast?_cons, Option.getD_some]
  | case4 plan w v rest hWord ih =>
      simp only [conditions, hWord] at hGuards
      obtain ⟨others, hOthers, rfl⟩ := Option.map_eq_some_iff.1 hGuards
      rw [ih h hOthers, List.getLast?_cons, Option.getD_some]
  | case5 plan w rest hWord ih | case6 plan w rest hWord ih =>
      simp only [conditions, hWord] at hGuards
      exact ih h hGuards
  | case7 plan w k v rest hNx hXx hIfeq hGet hKeepttl hWord hSets ih =>
      obtain ⟨amount, -, hAfter⟩ := ok_of_bind h
      obtain ⟨deadline, -, hRest⟩ := ok_of_bind hAfter
      have hSame : conditions (w :: v :: rest) = conditions rest := by
        cases k <;> first
          | exact absurd hSets Bool.false_ne_true
          | simp [conditions, hWord, Keyword.setsDeadline]
      exact ih deadline hRest (hSame ▸ hGuards)
  | _ => cases h

theorem ne_always_of_conditions {words : List Octets} {guards : List Guard}
    (h : conditions words = some guards) : .always ∉ guards := by
  fun_induction conditions words generalizing guards with
  | case1 =>
      cases h
      exact List.not_mem_nil
  | case2 w rest hWord ih | case3 w rest hWord ih | case4 w v rest hWord ih =>
      obtain ⟨others, hOthers, rfl⟩ := Option.map_eq_some_iff.1 h
      simpa using ih hOthers
  | case5 w rest hWord ih | case6 w rest hWord ih => exact ih h
  | case7 w k v rest hNx hXx hIfeq hGet hKeepttl hWord hSets ih => exact ih h
  | _ => cases h

/-- Whether the condition of a guard holds of a value, or of none. -/
def Guard.holdsOf (g : Guard) (v? : Option Value) : Bool :=
  match g with
  | always => true
  | ifMissing => v?.isNone
  | ifExists => v?.isSome
  | ifEquals w => v? == some (.string w)

/-- A guard looks at the value and at nothing else. -/
theorem Guard.allows_eq (g : Guard) (seen : Option Entry) :
    g.allows seen = g.holdsOf (seen.map (·.value)) := by
  cases g <;> cases seen <;> rfl

end Strings

open Strings

/-! ## Bids -/

/-- A value that is written under a condition. -/
structure Bid where
  guard : Guard
  value : Octets
deriving DecidableEq

/-- The bid of a command for a key: a SET with one condition. -/
def Command.bid? (key : Octets) (c : Command) : Option Bid :=
  match c.request? with
  | some (.set, k :: value :: options) =>
    if k = key then
      match conditions options with
      | some [guard] => some ⟨guard, value⟩
      | _ => none
    else none
  | _ => none

theorem Command.bid?_eq_some {key : Octets} {c : Command} {bid : Bid} (h : c.bid? key = some bid) :
    ∃ options, c.request? = some (.set, key :: bid.value :: options) ∧
      conditions options = some [bid.guard] := by
  unfold bid? at h
  split at h
  · rename_i k value options hRequest
    by_cases hKey : k = key
    · subst hKey
      rw [if_pos rfl] at h
      split at h
      · rename_i guard hGuard
        cases h
        exact ⟨options, hRequest, hGuard⟩
      · cases h
    · rw [if_neg hKey] at h
      cases h
  · cases h

namespace Deed

variable {site : Site} {d : Deed} {bid : Bid}

/-- The bid of a deed for a site. -/
def bid? (site : Site) (d : Deed) : Option Bid :=
  if d.before.selected = site.1 then d.command.bid? site.2 else none

/-- A bid comes through: its value is held, with the deadline that its options ask for, and the
answer says so unless the old value was asked for. -/
def Wins (site : Site) (bid : Bid) (d : Deed) : Prop :=
  ∃ options plan, d.command.request? = some (.set, site.2 :: bid.value :: options) ∧
    SetPlan.read d.now {} options = .ok plan ∧
    d.after.held? site.1 site.2 =
      some { value := .string bid.value, deadline? := plan.newDeadline (d.seen site) } ∧
    (plan.returnOld = false → d.reply = .ok okReply)

/-- A bid does not come through: the key keeps its value and its deadline, and the answer does not
say otherwise. -/
def Loses (site : Site) (d : Deed) : Prop := d.Keeps site ∧ d.reply ≠ .ok okReply

theorem bid?_eq_some (h : d.bid? site = some bid) :
    d.before.selected = site.1 ∧
      ∃ options, d.command.request? = some (.set, site.2 :: bid.value :: options) ∧
        conditions options = some [bid.guard] := by
  unfold bid? at h
  by_cases hSite : d.before.selected = site.1
  · rw [if_pos hSite] at h
    exact ⟨hSite, Command.bid?_eq_some h⟩
  · rw [if_neg hSite] at h
    cases h

theorem guard_ne_always (h : d.bid? site = some bid) : bid.guard ≠ .always := by
  obtain ⟨-, options, -, hGuard⟩ := bid?_eq_some h
  simpa [eq_comm] using ne_always_of_conditions hGuard

end Deed

/-- What SET does to a key: it fails, or writes as its guard allows and answers accordingly. -/
theorem Strings.SetPlan.step_cases (plan : SetPlan) (value : Octets) (seen : Option Entry) :
    (∃ h, plan.step value seen = .error h) ∨
      ∃ answer, plan.step value seen =
          .ok (answer, if plan.guard.allows seen then
            some { value := .string value, deadline? := plan.newDeadline seen } else seen) ∧
        (plan.returnOld = false → answer = if plan.guard.allows seen then okReply else .null) ∧
        (plan.guard.allows seen = false → answer ≠ okReply) := by
  unfold SetPlan.step
  cases plan.returnOld with
  | false =>
      refine .inr ⟨_, rfl, fun _ => rfl, fun hNot => ?_⟩
      simp [hNot, okReply]
  | true =>
      cases hOld : expect Value.string? seen with
      | error h => exact .inl ⟨h, rfl⟩
      | ok old =>
          refine .inr ⟨shown old, rfl, (fun hNever => nomatch hNever), fun _ => ?_⟩
          cases old <;> simp [shown, okReply]

namespace Deed

variable {site : Site} {d : Deed} {bid : Bid}

/-- What a bid comes to: it is refused, or it comes through just if its condition holds of what it
sees. -/
theorem bid_cases (hThere : d.before.selected < d.before.databases.length)
    (h : d.bid? site = some bid) :
    d.reply.isOk = false ∧ d.Keeps site ∨
      d.reply.isOk = true ∧
        if bid.guard.holdsOf ((d.seen site).map (·.value)) then d.Wins site bid
        else d.Loses site := by
  obtain ⟨hSite, options, hRequest, hGuards⟩ := bid?_eq_some h
  have hRun : Store.run d.now d.command d.before =
      Store.given (SetPlan.read d.now {} options)
        (fun plan => Store.onKey d.now site.2 (plan.step bid.value)) d.before := by
    rw [Store.run_of_open hRequest rfl (Nat.le_add_left 2 _)]
    rfl
  cases hRead : SetPlan.read d.now {} options with
  | error halt =>
      have hNothing : Store.run d.now d.command d.before = (.error halt, d.before) := by
        rw [hRun, hRead]
        rfl
      refine .inl ⟨?_, keeps_of_after ?_⟩
      · rw [reply, hNothing]
        rfl
      · rw [after, hNothing]
  | ok plan =>
      have hGuard : plan.guard = bid.guard := SetPlan.guard_of_read hRead hGuards
      have hOnKey : Store.run d.now d.command d.before =
          Store.onKey d.now site.2 (plan.step bid.value) d.before := by
        rw [hRun, hRead]
        rfl
      rcases plan.step_cases bid.value (d.seen site) with
        ⟨halt, hStep⟩ | ⟨answer, hStep, hPlain, hQuiet⟩
      · obtain ⟨hReply, hKeeps⟩ := onKey_error hSite hOnKey hStep
        exact .inl ⟨by rw [hReply]; rfl, hKeeps⟩
      · obtain ⟨hReply, hHeld, hLeft⟩ := onKey_ok hThere hSite hOnKey hStep
        refine .inr ⟨by rw [hReply]; rfl, ?_⟩
        rw [← hGuard, ← Guard.allows_eq]
        cases hAllows : plan.guard.allows (d.seen site) with
        | true =>
            rw [hAllows] at hHeld hPlain
            exact ⟨options, plan, hRequest, hRead, hHeld,
              fun hOld => hReply.trans (congrArg Except.ok (hPlain hOld))⟩
        | false =>
            rw [hAllows] at hLeft
            refine ⟨hLeft.trans (d.shown?_seen site), fun hSays => hQuiet hAllows ?_⟩
            exact Except.ok.inj (hReply.symm.trans hSays)

end Deed

/-! ## Who comes through -/

/-- What a deed writes at a site that holds a value, if it is a bid that is not refused and its
condition holds. -/
def Deed.writes? (site : Site) (v? : Option Value) (d : Deed) : Option Octets :=
  match d.bid? site with
  | some bid => if d.reply.isOk && bid.guard.holdsOf v? then some bid.value else none
  | none => none

/-- The value that the last bid that took effect has left at a site, or the one at first. -/
def valueLeft (site : Site) (v? : Option Value) (log : List Deed) : Option Value :=
  log.foldl (fun v? d => ((d.writes? site v?).map .string).or v?) v?

/-- A deed behind others is a bid that takes effect. -/
def TakesEffect (site : Site) (v? : Option Value) (front : List Deed) (d : Deed) : Prop :=
  (d.writes? site (valueLeft site v? front)).isSome = true

section Left

variable {site : Site} {v? : Option Value} {front back log : List Deed} {d : Deed} {bid : Bid}

@[simp] theorem valueLeft_nil : valueLeft site v? [] = v? := rfl

@[simp] theorem valueLeft_concat : valueLeft site v? (front ++ [d]) =
    ((d.writes? site (valueLeft site v? front)).map .string).or (valueLeft site v? front) := by
  simp [valueLeft]

theorem takesEffect_iff (h : d.bid? site = some bid) :
    TakesEffect site v? front d ↔
      d.reply.isOk = true ∧ bid.guard.holdsOf (valueLeft site v? front) = true := by
  unfold TakesEffect Deed.writes?
  rw [h, ← Bool.and_eq_true]
  dsimp only
  by_cases hBoth : (d.reply.isOk && bid.guard.holdsOf (valueLeft site v? front)) = true
  · rw [if_pos hBoth, hBoth, Option.isSome_some]
  · rw [if_neg hBoth, Option.isSome_none]
    exact (iff_false_left Bool.false_ne_true).2 hBoth

/-- A deed that writes nothing leaves the value as it was. -/
theorem writes?_eq_none (h : d.bid? site = none) : d.writes? site v? = none := by
  unfold Deed.writes?
  rw [h]

/-- What is written is the value of a bid that is not refused and whose condition holds. -/
theorem writes?_eq_some {w : Octets} (h : d.writes? site v? = some w) :
    ∃ bid, d.bid? site = some bid ∧ d.reply.isOk = true ∧ bid.guard.holdsOf v? = true ∧
      bid.value = w := by
  unfold Deed.writes? at h
  cases hBid : d.bid? site with
  | none =>
      rw [hBid] at h
      cases h
  | some bid =>
      rw [hBid] at h
      dsimp only at h
      by_cases hBoth : (d.reply.isOk && bid.guard.holdsOf v?) = true
      · rw [if_pos hBoth] at h
        obtain ⟨hOk, hHolds⟩ := (Bool.and_eq_true_iff).1 hBoth
        exact ⟨bid, rfl, hOk, hHolds, Option.some.inj h⟩
      · rw [if_neg hBoth] at h
        cases h

/-- Where nothing was at first, nothing is until the first bid for a missing key that is not
refused. -/
theorem valueLeft_eq_none_iff : valueLeft site none log = none ↔
    ∀ d ∈ log, ∀ bid, d.bid? site = some bid → bid.guard = .ifMissing → d.reply.isOk = false := by
  induction log using List.reverseRecOn with
  | nil => simp
  | append_singleton front d ih =>
      rw [valueLeft_concat, Option.or_eq_none_iff, Option.map_eq_none_iff, List.forall_mem_append,
        List.forall_mem_singleton, ← ih, and_comm]
      refine and_congr_right fun hNone => ?_
      rw [hNone]
      constructor
      · intro hWrites bid hBid hGuard
        by_contra hOk
        have hSome : d.writes? site none = some bid.value := by
          simp [Deed.writes?, hBid, hGuard, Guard.holdsOf, hOk]
        rw [hWrites] at hSome
        cases hSome
      · intro hRefused
        by_contra hSome
        obtain ⟨w, hWrites⟩ := Option.ne_none_iff_exists'.1 hSome
        obtain ⟨bid, hBid, hOk, hHolds, -⟩ := writes?_eq_some hWrites
        have hMissing : bid.guard = .ifMissing := by
          have hSome := Deed.guard_ne_always hBid
          cases hGuard : bid.guard <;> simp [hGuard, Guard.holdsOf] at hHolds hSome ⊢
        rw [hRefused bid hBid hMissing] at hOk
        cases hOk

/-- Of the bids for a missing key the first that is not refused takes effect, and no other. -/
theorem takesEffect_missing_iff (hBid : d.bid? site = some bid) (hGuard : bid.guard = .ifMissing) :
    TakesEffect site none front d ↔ d.reply.isOk = true ∧
      ∀ d' ∈ front, ∀ bid', d'.bid? site = some bid' → bid'.guard = .ifMissing →
        d'.reply.isOk = false := by
  rw [takesEffect_iff hBid, hGuard, ← valueLeft_eq_none_iff]
  simp [Guard.holdsOf]

/-- If no bid writes a value and it was not there before, it is not there. -/
theorem valueLeft_ne {u : Octets} (hOther : v? ≠ some (.string u))
    (hValues : ∀ d ∈ log, ∀ bid, d.bid? site = some bid → bid.value ≠ u) :
    valueLeft site v? log ≠ some (.string u) := by
  induction log using List.reverseRecOn with
  | nil => exact hOther
  | append_singleton front d ih =>
      rw [List.forall_mem_append, List.forall_mem_singleton] at hValues
      rw [valueLeft_concat]
      cases hWrites : d.writes? site (valueLeft site v? front) with
      | none => simpa using ih hValues.1
      | some w =>
          obtain ⟨bid, hBid, -, -, rfl⟩ := writes?_eq_some hWrites
          simpa using hValues.2 bid hBid

theorem valueLeft_append : valueLeft site v? (front ++ back) =
    valueLeft site (valueLeft site v? front) back := by
  simp [valueLeft]

/-- If no bid writes a value, then of those that compare with it none takes effect after another. -/
theorem not_takesEffect_equals {u : Octets} {mid : List Deed} {d' : Deed} {bid' : Bid}
    (hValues : ∀ e ∈ front ++ d :: mid, ∀ bid, e.bid? site = some bid → bid.value ≠ u)
    (hFirst : TakesEffect site v? front d) (hBid : d'.bid? site = some bid')
    (hGuard : bid'.guard = .ifEquals u) : ¬ TakesEffect site v? (front ++ d :: mid) d' := by
  rw [takesEffect_iff hBid, hGuard, List.append_cons, valueLeft_append, valueLeft_concat]
  obtain ⟨w, hWrites⟩ := Option.isSome_iff_exists.1 hFirst
  obtain ⟨bid, hFirstBid, -, -, rfl⟩ := writes?_eq_some hWrites
  have hOther : some (Value.string bid.value) ≠ some (.string u) := by
    simpa using hValues d (by simp) bid hFirstBid
  have hLeft : valueLeft site (some (.string bid.value)) mid ≠ some (.string u) :=
    valueLeft_ne hOther fun e he => hValues e (by simp [he])
  rw [hWrites]
  simpa [Guard.holdsOf] using fun _ => hLeft

end Left

/-! ## The value at the key -/

/-- A run in which the value and the deadline at a site are left alone by all but bids: no other
command changes them, and time does not, not even at once by a deadline that has come when it is
written. -/
structure Contest (site : Site) (start : Option Entry) (log : List Deed) : Prop where
  steady : Steady site start log
  others : ∀ d ∈ log, d.bid? site = none → d.Keeps site
  lasting : ∀ d ∈ log, (d.bid? site).isSome = true → d.reply.isOk = true →
    ∀ e ∈ d.after.held? site.1 site.2, e.isExpired d.now = false

/-- At each point of a run the key holds the value that the last bid that took effect has left. -/
theorem Contest.standing {site : Site} {start : Option Entry} {log front back : List Deed}
    (h : Contest site start log)
    (hThere : ∀ d ∈ log, d.before.selected < d.before.databases.length)
    (hSplit : log = front ++ back) :
    (lastLeft site start front).map (·.value) = valueLeft site (start.map (·.value)) front := by
  refine h.steady.holds (fun front e? =>
    e?.map (·.value) = valueLeft site (start.map (·.value)) front) rfl ?_ hSplit
  intro front d back hHere hSeen
  have hMem : d ∈ log := by simp [hHere]
  rw [valueLeft_concat, ← hSeen]
  cases hBid : d.bid? site with
  | none =>
      rw [writes?_eq_none hBid, h.others d hMem hBid]
      rfl
  | some bid =>
      rcases Deed.bid_cases (hThere d hMem) hBid with ⟨hRefused, hKeeps⟩ | ⟨hOk, hEnds⟩
      · rw [hKeeps]
        simp [Deed.writes?, hBid, hRefused]
      · by_cases hHolds : bid.guard.holdsOf ((d.seen site).map (·.value)) = true
        · rw [if_pos hHolds] at hEnds
          obtain ⟨-, plan, -, -, hHeld, -⟩ := hEnds
          have hLive := h.lasting d hMem (by rw [hBid]; rfl) hOk _ hHeld
          have hLeft := (Store.live?_eq_some_iff ..).2 ⟨hHeld, hLive⟩
          change d.left site = _ at hLeft
          rw [hLeft]
          simp [Deed.writes?, hBid, hOk, hHolds]
        · rw [if_neg hHolds] at hEnds
          rw [hEnds.1]
          simp [Deed.writes?, hBid, hHolds]

/-- A bid that takes effect comes through, and one that does not leaves the key alone. -/
theorem Contest.ends {site : Site} {start : Option Entry} {log front back : List Deed} {d : Deed}
    {bid : Bid} (h : Contest site start log)
    (hThere : ∀ d ∈ log, d.before.selected < d.before.databases.length)
    (hHere : log = front ++ d :: back) (hBid : d.bid? site = some bid) :
    (d.seen site).map (·.value) = valueLeft site (start.map (·.value)) front ∧
      (TakesEffect site (start.map (·.value)) front d → d.Wins site bid) ∧
      (¬ TakesEffect site (start.map (·.value)) front d → d.Loses site) := by
  have hSeen := h.standing hThere hHere
  rw [← h.steady.seen_eq hHere] at hSeen
  rw [takesEffect_iff hBid, ← hSeen]
  refine ⟨rfl, ?_⟩
  rcases Deed.bid_cases (hThere d (by simp [hHere])) hBid with ⟨hRefused, hKeeps⟩ | ⟨hOk, hEnds⟩
  · have hSilent : d.reply ≠ .ok okReply := by
      intro hSays
      rw [hSays] at hRefused
      cases hRefused
    exact ⟨fun hTakes => absurd hTakes.1 (by simp [hRefused]), fun _ => ⟨hKeeps, hSilent⟩⟩
  · by_cases hHolds : bid.guard.holdsOf ((d.seen site).map (·.value)) = true
    · rw [if_pos hHolds] at hEnds
      exact ⟨fun _ => hEnds, fun hNot => absurd ⟨hOk, hHolds⟩ hNot⟩
    · rw [if_neg hHolds] at hEnds
      exact ⟨fun hTakes => absurd hTakes.2 hHolds, fun _ => hEnds⟩

/-- Bids for a key, in any submissions from any reachable store on, among commands that leave the
key alone.

* A bid sees the value that the last one before it that took effect has left. It takes effect just
  if it is not refused and its condition holds of that value. Then its own value is held, and else
  neither the value nor the deadline is changed.
* Where nothing was at first, the first bid for a missing key that is not refused takes effect, and
  no other for a missing key does.
* If no bid writes a certain value, at most one of those that compare with it takes effect. -/
theorem bids_exclude_each_other {s : Store} (hs : s.Reachable) (timeline : Timeline) (now : Float)
    (b : Submission) (site : Site) (start : Option Entry)
    (hContest : Contest site start (Store.recordWith timeline now b s)) :
    let log := Store.recordWith timeline now b s
    let v? := start.map (·.value)
    (∀ front d back bid, log = front ++ d :: back → d.bid? site = some bid →
      (d.seen site).map (·.value) = valueLeft site v? front ∧
        (TakesEffect site v? front d ↔
          d.reply.isOk = true ∧ bid.guard.holdsOf (valueLeft site v? front) = true) ∧
        (TakesEffect site v? front d → d.Wins site bid) ∧
        (¬ TakesEffect site v? front d → d.Loses site)) ∧
    (start = none → ∀ front d back bid, log = front ++ d :: back → d.bid? site = some bid →
      bid.guard = .ifMissing →
      (TakesEffect site v? front d ↔ d.reply.isOk = true ∧
        ∀ d' ∈ front, ∀ bid', d'.bid? site = some bid' → bid'.guard = .ifMissing →
          d'.reply.isOk = false)) ∧
    ∀ u, (∀ d ∈ log, ∀ bid, d.bid? site = some bid → bid.value ≠ u) →
      ∀ front d mid d' back bid bid', log = front ++ d :: (mid ++ d' :: back) →
        d.bid? site = some bid → bid.guard = .ifEquals u →
        d'.bid? site = some bid' → bid'.guard = .ifEquals u →
        ¬ (TakesEffect site v? front d ∧ TakesEffect site v? (front ++ d :: mid) d') := by
  intro log v?
  have hThere := (Store.linked_recordWith timeline now b s).selected hs
  refine ⟨?_, ?_, ?_⟩
  · intro front d back bid hHere hBid
    obtain ⟨hSeen, hWins, hLoses⟩ := hContest.ends hThere hHere hBid
    exact ⟨hSeen, takesEffect_iff hBid, hWins, hLoses⟩
  · intro hNone front d back bid hHere hBid hGuard
    have hNothing : v? = none := by simp [v?, hNone]
    rw [hNothing]
    exact takesEffect_missing_iff hBid hGuard
  · intro u hValues front d mid d' back bid bid' hHere hBid hGuard hBid' hGuard' hBoth
    refine not_takesEffect_equals ?_ hBoth.1 hBid' hGuard' hBoth.2
    intro e he
    apply hValues e
    rw [hHere]
    simp only [List.mem_append, List.mem_cons] at he ⊢
    tauto

/-- Two bids for a key that is missing, and two for one whose value both compare with. -/
theorem bids_exclude_each_other_twice :
    let old : Submission := ⟨[⟨.set, [.text "l", .text "a"]⟩], false⟩
    let locks : Submission := ⟨[⟨.set, [.text "k", .text "x", .text "NX"]⟩,
      ⟨.set, [.text "k", .text "y", .text "get", .text "nx"]⟩], false⟩
    let swaps : Submission := ⟨[⟨.set, [.text "l", .text "b", .text "IFEQ", .text "a"]⟩,
      ⟨.set, [.text "l", .text "c", .text "EX", .text "9", .text "IFEQ", .text "a"]⟩], true⟩
    let s := (Store.history Store.run [(0.0, old)] { databases := [.empty] }).2
    let held : Entry := { value := .string [97] }
    let log := Store.recordWith [(1.0, locks)] 2.0 swaps s
    s.Reachable ∧ Contest (0, [107]) none log ∧ Contest (0, [108]) (some held) log ∧
      ∃ d₁ d₂ d₃ d₄, log = [d₁, d₂, d₃, d₄] ∧
        TakesEffect (0, [107]) none [] d₁ ∧ ¬ TakesEffect (0, [107]) none [d₁] d₂ ∧
        d₂.Loses (0, [107]) ∧
        TakesEffect (0, [108]) (some (.string [97])) [d₁, d₂] d₃ ∧
        ¬ TakesEffect (0, [108]) (some (.string [97])) [d₁, d₂, d₃] d₄ := by
  intro old locks swaps s held log
  have hReachable : s.Reachable := ⟨1, _, _, rfl, rfl⟩
  have hLocks : Contest (0, [107]) none log :=
    { steady := by decide +kernel
      others := by decide +kernel
      lasting := by decide +kernel }
  have hSwaps : Contest (0, [108]) (some held) log :=
    { steady := by decide +kernel
      others := by decide +kernel
      lasting := by decide +kernel }
  have hAnswered : log.map (·.reply.isOk) = [true, true, true, true] := by decide +kernel
  have hLockBids : log.map (·.bid? (0, [107])) =
      [some ⟨.ifMissing, [120]⟩, some ⟨.ifMissing, [121]⟩, none, none] := by decide +kernel
  have hSwapBids : log.map (·.bid? (0, [108])) =
      [none, none, some ⟨.ifEquals [97], [98]⟩, some ⟨.ifEquals [97], [99]⟩] := by decide +kernel
  have hValues : ∀ d ∈ log, ∀ bid, d.bid? (0, [108]) = some bid → bid.value ≠ [97] := by
    have hAll : ∀ bid? ∈ log.map (·.bid? (0, [108])), ∀ bid ∈ bid?, bid.value ≠ [97] := by
      rw [hSwapBids]
      decide
    exact fun d hd bid hBid => hAll _ (List.mem_map_of_mem hd) bid hBid
  obtain ⟨d₁, d₂, d₃, d₄, hLog⟩ := List.length_eq_four.1 (by decide +kernel : log.length = 4)
  obtain ⟨hEach, hFirst, -⟩ := bids_exclude_each_other hReachable _ _ _ _ _ hLocks
  obtain ⟨hEachSwap, -, hOnce⟩ := bids_exclude_each_other hReachable _ _ _ _ _ hSwaps
  simp only [hLog, List.map_cons, List.map_nil, List.cons.injEq, and_true]
    at hAnswered hLockBids hSwapBids
  obtain ⟨h₁, h₂, h₃, -⟩ := hAnswered
  obtain ⟨hBid₁, hBid₂, -⟩ := hLockBids
  obtain ⟨hNone₁, hNone₂, hBid₃, hBid₄⟩ := hSwapBids
  have hTaken : TakesEffect (0, [107]) none [] d₁ :=
    (hFirst rfl [] d₁ [d₂, d₃, d₄] _ hLog hBid₁ rfl).2 ⟨h₁, fun _ hNever => nomatch hNever⟩
  have hLate : ¬ TakesEffect (0, [107]) none [d₁] d₂ := by
    intro hTakes
    have hNoFirst := ((hFirst rfl [d₁] d₂ [d₃, d₄] _ hLog hBid₂ rfl).1 hTakes).2
    rw [hNoFirst d₁ List.mem_cons_self _ hBid₁ rfl] at h₁
    cases h₁
  have hStill : valueLeft (0, [108]) (some (.string [97])) [d₁, d₂] = some (.string [97]) := by
    simp [valueLeft, writes?_eq_none hNone₁, writes?_eq_none hNone₂]
  have hSwapped : TakesEffect (0, [108]) (some (.string [97])) [d₁, d₂] d₃ := by
    refine (hEachSwap [d₁, d₂] d₃ [d₄] _ hLog hBid₃).2.1.2 ⟨h₃, ?_⟩
    show Guard.holdsOf _ (valueLeft (0, [108]) (some (.string [97])) [d₁, d₂]) = true
    rw [hStill]
    decide
  refine ⟨hReachable, hLocks, hSwaps, d₁, d₂, d₃, d₄, hLog, hTaken, hLate, ?_, hSwapped, ?_⟩
  · exact (hEach [d₁] d₂ [d₃, d₄] _ hLog hBid₂).2.2.2 hLate
  · intro hAgain
    exact hOnce [97] hValues [d₁, d₂] d₃ [] d₄ [] _ _ hLog hBid₃ rfl hBid₄ rfl ⟨hSwapped, hAgain⟩

end BatchStore
