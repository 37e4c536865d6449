import BatchStore.Options.Backup
import BatchStore.Proofs.Store.Breaks

/-!
# Commands that the store understands

Some refusals are about the words of a command and not about what it meets: too few or too many of
them, options that make no sense, more keys than words, a range whose ends are no ends. `Understood`
says that a result is none of these; every other refusal, and every fault, may come up. An act is
`Understands` if its result is understood in every store.

Readers of words refuse for such a reason only where the words are not what they look for, so what
is asked for here is that words are taken in pairs or triples, and that the readers of options are
understood. The rest of a command looks at values, and values are refused for other reasons.
-/

namespace BatchStore

/-- Whether a refusal says that the words of a command make no sense. -/
def Refusal.isMalformed : Refusal → Bool
  | syntaxError | wrongArity _ | tooManyKeys | badRangeItem => true
  | _ => false

/-- A result that is no refusal of malformed words. -/
structure Understood {α : Type} (x : Except Halt α) : Prop where
  notMalformed : ∀ r, x = .error (.refused r) → r.isMalformed = false

namespace Understood

variable {α β : Type}

theorem ok (a : α) : Understood (.ok a) := ⟨fun _ hNever => nomatch hNever⟩

/-- A refusal is understood unless it is about malformed words. -/
theorem refused {r : Refusal} (h : r.isMalformed = false) : Understood (α := α) (refuse r) := by
  refine ⟨fun r' hRefused => ?_⟩
  cases hRefused
  exact h

theorem faulted (f : Fault) : Understood (α := α) (breakDown f) :=
  ⟨fun _ hNever => nomatch hNever⟩

/-- A sequence is understood where its first part is, and its second at each value that the first
can yield. -/
theorem bind {x : Except Halt α} {f : α → Except Halt β} (hx : Understood x)
    (hf : ∀ a, x = .ok a → Understood (f a)) : Understood (x >>= f) := by
  rcases x with ⟨r | fault⟩ | a
  · exact refused (hx.notMalformed r rfl)
  · exact faulted fault
  · exact hf a rfl

theorem map {x : Except Halt α} (f : α → β) (hx : Understood x) : Understood (x.map f) := by
  rcases x with ⟨r | fault⟩ | a
  · exact refused (hx.notMalformed r rfl)
  · exact faulted fault
  · exact ok (f a)

/-! ## Readers of words -/

/-- Asking for a kind of value refuses for the kind alone. -/
theorem expect (kind? : Value → Option α) (seen : Option Entry) :
    Understood (BatchStore.expect kind? seen) := by
  unfold BatchStore.expect
  split
  · exact ok _
  · split
    · exact ok _
    · exact refused rfl

theorem readInt (w : Octets) : Understood (BatchStore.readInt w) := by
  unfold BatchStore.readInt
  split
  · exact ok _
  · exact refused rfl

theorem readReal (w : Octets) : Understood (BatchStore.readReal w) := by
  unfold BatchStore.readReal
  split
  · exact ok _
  · exact refused rfl

theorem readText (w : Octets) : Understood (BatchStore.readText w) := by
  unfold BatchStore.readText
  split
  · exact ok _
  · exact faulted _

theorem asReal (n : Int) : Understood (BatchStore.asReal n) := by
  unfold BatchStore.asReal
  split
  · exact ok _
  · exact faulted _

theorem asSeconds (n : Int) : Understood (BatchStore.asSeconds n) := by
  unfold BatchStore.asSeconds
  split
  · exact ok _
  · exact faulted _

/-- An expiry can be no expiry or be out of range, and neither is said of malformed words. -/
theorem deadlineOf (now : Float) (unit : Keyword) (amount : Int) :
    Understood (BatchStore.deadlineOf now unit amount) := by
  have hSpan {x : Except Halt Float} (hx : Understood x) :
      Understood (if amount ≤ 0 then refuse .invalidExpireTime else x.map (now + ·)) := by
    by_cases hPositive : amount ≤ 0
    · rw [if_pos hPositive]
      exact refused rfl
    · rw [if_neg hPositive]
      exact hx.map _
  unfold BatchStore.deadlineOf
  split
  · exact hSpan (asReal amount)
  · exact hSpan (asSeconds amount)
  · exact asReal amount
  · exact asSeconds amount

theorem index? (s : Store) (i : Int) : Understood (s.index? i) := by
  unfold Store.index?
  by_cases hThere : 0 ≤ i ∧ i < s.databases.length
  · rw [if_pos hThere]
    exact ok _
  · rw [if_neg hThere]
    exact refused rfl

theorem orBreakDown (x : Except Fault α) : Understood (SortedSets.orBreakDown x) := by
  cases x with
  | error f => exact faulted f
  | ok a => exact ok a

/-- Scores are read one by one, each refused for itself. -/
theorem readScores (pairs : List (Octets × Octets)) : Understood (SortedSets.readScores pairs) := by
  induction pairs with
  | nil => exact ok _
  | cons e rest ih =>
      obtain ⟨score, member⟩ := e
      exact (readReal score).bind fun _ _ => ih.bind fun _ _ => .ok _

/-- Places are read one by one, each refused for a number that is none or for being off the map. -/
theorem readPlaces (places : List (Octets × Octets × Octets)) :
    Understood (Places.readPlaces places) := by
  induction places with
  | nil => exact ok _
  | cons e rest ih =>
      obtain ⟨longitude, latitude, member⟩ := e
      refine (readReal longitude).bind fun x _ => (readReal latitude).bind fun y _ => ?_
      have hScore : Understood (Places.score? x y) := by
        unfold Places.score?
        split
        · exact ok _
        · exact refused rfl
      exact hScore.bind fun _ _ => ih.bind fun _ _ => .ok _

end Understood

/-! ## Steps on keys -/

/-- A key step that never says that the words of its command make no sense. -/
def KeyStep.Understands (step : KeyStep) : Prop := ∀ seen, Understood (step seen)

namespace KeyStep.Understands

/-- A step that asks for a kind of value first. -/
theorem ofExpect {α : Type} {step : KeyStep} {kind? : Value → Option α}
    {next : Option Entry → Option α → Except Halt (Datum × Option Entry)}
    (hStep : ∀ seen, step seen = BatchStore.expect kind? seen >>= next seen)
    (hNext : ∀ seen a?, Understood (next seen a?)) : step.Understands := by
  intro seen
  rw [hStep seen]
  exact (Understood.expect kind? seen).bind fun a? _ => hNext seen a?

end KeyStep.Understands

/-! ## Acts -/

/-- An act whose result is understood in every store. -/
def Store.Understands {α : Type} (p : Act α) : Prop := ∀ s, Understood (p s).1

namespace Store.Understands

variable {α β : Type} {now : Float}

theorem answer (a : α) : Store.Understands fun s => (.ok a, s) := fun _ => .ok a

theorem refuse {r : Refusal} (h : r.isMalformed = false) :
    Store.Understands fun s => (BatchStore.refuse (α := α) r, s) := fun _ => .refused h

/-- An act followed by another is understood where both are. -/
theorem andThen {first : Act α} {next : α → Act β} (hFirst : Store.Understands first)
    (hNext : ∀ a, Store.Understands (next a)) : Store.Understands (Store.andThen first next) := by
  intro s
  have hHere := hFirst s
  unfold Store.andThen
  rcases hRun : first s with ⟨⟨r | fault⟩ | a, t⟩ <;> rw [hRun] at hHere
  · exact .refused (hHere.notMalformed r rfl)
  · exact .faulted fault
  · exact hNext a t

/-- A check before an act: the act need be understood only at values that the check lets through. -/
theorem given {x : Except Halt α} {next : α → Act β} (hx : Understood x)
    (hNext : ∀ a, x = .ok a → Store.Understands (next a)) :
    Store.Understands (Store.given x next) := by
  intro s
  rcases x with ⟨r | fault⟩ | a
  · exact .refused (hx.notMalformed r rfl)
  · exact .faulted fault
  · exact hNext a rfl s

theorem withSelected {next : Nat → Act α} (hNext : ∀ i, Store.Understands (next i)) :
    Store.Understands (Store.withSelected next) := fun s => hNext s.selected s

theorem withLibraries {next : Table Datum Datum → Act α}
    (hNext : ∀ libraries, Store.Understands (next libraries)) :
    Store.Understands (Store.withLibraries next) := fun s => hNext s.libraries s

/-- Looking a key up has no result of its own, so that only what is done with the entry matters. -/
theorem lookUp (i : Nat) (key : Octets) {next : Option Entry → Act α}
    (hNext : ∀ seen, Store.Understands (next seen)) :
    Store.Understands (Store.lookUp now i key next) :=
  fun s => hNext (s.live? now i key) (s.settle now i key)

/-- A command on one key is understood where its step is. -/
theorem onKey (key : Octets) {step : KeyStep} (h : step.Understands) :
    Store.Understands (Store.onKey now key step) :=
  withSelected fun i => lookUp i key fun seen => given (h seen) fun _ _ _ => .ok _

/-- A command on some keys is understood where the step on each of them is. -/
theorem onEach {step : KeyStep} (h : step.Understands) (keys : List Octets) :
    Store.Understands (Store.onEach now step keys) := by
  induction keys with
  | nil => exact answer []
  | cons key keys ih => exact (onKey key h).andThen fun _ => ih.andThen fun _ => answer _

/-- An answer from the selected database, once the expired keys are out. -/
theorem count (now : Float) {reply : Database → Except Halt α} (h : ∀ db, Understood (reply db)) :
    Store.Understands (Store.withSelected fun i s =>
      (reply ((s.settleAll now i).database i), s.settleAll now i)) :=
  fun s => h ((s.settleAll now s.selected).database s.selected)

theorem countKeys {step : KeyStep} (h : step.Understands) (keys : List Octets) :
    Store.Understands (Store.countKeys now step keys) := (onEach h keys).andThen fun _ => answer _

theorem listKeys {step : KeyStep} (h : step.Understands) (keys : List Octets) :
    Store.Understands (Store.listKeys now step keys) := (onEach h keys).andThen fun _ => answer _

end Store.Understands

/-! ## Keys of any kind -/

namespace Keys

theorem delete_understands : KeyStep.Understands delete := fun _ => .ok _

theorem exists?_understands : KeyStep.Understands exists? := fun _ => .ok _

/-- EXPIRE is given its seconds as a number, so that it has no more words to read. -/
theorem expireStep_understands (now : Float) (seconds : Int) :
    (expireStep now seconds).Understands := by
  intro seen
  unfold expireStep
  split
  · exact .ok _
  · split
    · exact .ok _
    · exact (Understood.asReal seconds).bind fun _ _ => .ok _

/-- TTL can fail to round what is left of a life, but has no words to refuse. -/
theorem ttl_understands (now : Float) : (ttl now).Understands := by
  intro seen
  unfold ttl
  split
  · exact .ok _
  · split
    · exact .ok _
    · rename_i t _
      have hRound : Understood (roundReal (t - now)) := by
        unfold roundReal
        split
        · exact .ok _
        · exact .faulted _
      exact hRound.bind fun _ _ => .ok _

theorem persist_understands : KeyStep.Understands persist := fun _ => .ok _

theorem type_understands : KeyStep.Understands type := fun _ => .ok _

end Keys

namespace Backup

theorem dump_understands : KeyStep.Understands dump := fun _ => .ok _

/-- RESTORE looks at its words before the step, which can only find the key taken or the payload
bad. -/
theorem step_understands (plan : RestorePlan) (payload : Octets) :
    (plan.step payload).Understands := by
  intro seen
  unfold RestorePlan.step RestorePlan.stepBy
  split
  · exact .refused rfl
  · split
    · exact .refused rfl
    · exact .ok _

theorem withDeadline_understands (t : Float) : (withDeadline t).Understands := fun _ => .ok _

end Backup

/-! ## Strings -/

namespace Strings

/-- SET looks at its words before the step, which can only be asked for the old value of another
kind. -/
theorem step_understands (plan : SetPlan) (value : Octets) : (plan.step value).Understands := by
  intro seen
  unfold SetPlan.step
  cases plan.returnOld
  · exact .ok _
  · exact (Understood.expect Value.string? seen).bind fun _ _ => .ok _

theorem get_understands : KeyStep.Understands get := .ofExpect (fun _ => rfl) fun _ _ => .ok _

theorem strlen_understands : KeyStep.Understands strlen :=
  .ofExpect (fun _ => rfl) fun _ _ => .ok _

theorem peek_understands : KeyStep.Understands peek := fun _ => .ok _

theorem append_understands (value : Octets) : (append value).Understands :=
  .ofExpect (fun _ => rfl) fun _ _ => .ok _

theorem writeInt_understood (seen : Option Entry) (n : Int) : Understood (writeInt seen n) := by
  unfold writeInt
  split
  · exact .faulted _
  · exact .ok _

/-- Counting refuses a value that is no number and a sum that is too long. -/
theorem add_understands (amount : Int) : (add amount).Understands := by
  refine .ofExpect (fun _ => rfl) fun seen a? => ?_
  cases a? with
  | none => exact writeInt_understood seen amount
  | some w => exact (Understood.readInt w).bind fun n _ => writeInt_understood seen (n + amount)

end Strings

/-! ## Hashes, lists and sets -/

namespace Hashes

theorem hsetStep_understands (pairs : List (Octets × Octets)) : (hsetStep pairs).Understands :=
  .ofExpect (fun _ => rfl) fun _ _ => .ok _

theorem hget_understands (field : Octets) : (hget field).Understands :=
  .ofExpect (fun _ => rfl) fun _ _ => .ok _

theorem hdel_understands (fields : List Octets) : (hdel fields).Understands :=
  .ofExpect (fun _ => rfl) fun _ a? => by cases a? <;> exact .ok _

theorem hgetall_understands : KeyStep.Understands hgetall :=
  .ofExpect (fun _ => rfl) fun _ _ => .ok _

theorem hexists_understands (field : Octets) : (hexists field).Understands :=
  .ofExpect (fun _ => rfl) fun _ _ => .ok _

theorem hlen_understands : KeyStep.Understands hlen := .ofExpect (fun _ => rfl) fun _ _ => .ok _

end Hashes

namespace Lists

theorem pushStep_understands (e : End) (elements : List Octets) :
    (pushStep e elements).Understands := .ofExpect (fun _ => rfl) fun _ _ => .ok _

theorem popStep_understands (e : End) : (popStep e).Understands := by
  refine .ofExpect (fun _ => rfl) fun seen a? => ?_
  dsimp only
  split <;> exact .ok _

theorem llen_understands : KeyStep.Understands llen := .ofExpect (fun _ => rfl) fun _ _ => .ok _

theorem lrange_understands (first last : Octets) : (lrange first last).Understands :=
  .ofExpect (fun _ => rfl) fun _ _ =>
    (Understood.readInt first).bind fun _ _ => (Understood.readInt last).bind fun _ _ => .ok _

theorem lposStep_understands (q : Search) (element : Octets) : (lposStep q element).Understands :=
  .ofExpect (fun _ => rfl) fun _ _ => .ok _

end Lists

namespace Sets

theorem sadd_understands (ms : List Octets) : (sadd ms).Understands :=
  .ofExpect (fun _ => rfl) fun _ _ => .ok _

theorem srem_understands (ms : List Octets) : (srem ms).Understands :=
  .ofExpect (fun _ => rfl) fun _ a? => by cases a? <;> exact .ok _

theorem smembers_understands : KeyStep.Understands smembers :=
  .ofExpect (fun _ => rfl) fun _ _ => .ok _

theorem sismember_understands (m : Octets) : (sismember m).Understands :=
  .ofExpect (fun _ => rfl) fun _ _ => .ok _

theorem scard_understands : KeyStep.Understands scard := .ofExpect (fun _ => rfl) fun _ _ => .ok _

end Sets

/-! ## Sorted sets -/

namespace SortedSets

theorem scoresAt_understood (seen : Option Entry) : Understood (scoresAt seen) :=
  (Understood.expect Value.zset? seen).bind fun _ _ => .ok _

theorem zaddStep_understands (pairs : List (Datum × Datum)) : (zaddStep pairs).Understands :=
  fun seen => (scoresAt_understood seen).bind fun _ _ => .ok _

theorem zrem_understands (members : List Octets) : (zrem members).Understands :=
  .ofExpect (fun _ => rfl) fun _ a? => by cases a? <;> exact .ok _

theorem zscore_understands (member : Octets) : (zscore member).Understands :=
  fun seen => (scoresAt_understood seen).bind fun _ _ => .ok _

theorem zcard_understands : KeyStep.Understands zcard :=
  fun seen => (scoresAt_understood seen).bind fun _ _ => .ok _

/-- The two commands that pop the extremes of a sorted set read their count before the step. -/
theorem zpopStep_understands (e : Extreme) (count : Int) : (zpopStep e count).Understands := by
  refine .ofExpect (fun _ => rfl) fun seen a? => ?_
  cases a? with
  | none => exact .ok _
  | some old =>
      have hOrder : Understood (extremes old e count) :=
        (Understood.orBreakDown _).bind fun _ _ => .ok _
      exact hOrder.bind fun _ _ => .ok _

/-- An end of a range of scores that is no number is refused as such. -/
theorem scoreEnd_understood (w : Octets) : Understood (ScoreEnd.read w) := by
  unfold ScoreEnd.read
  split <;> exact (Understood.readReal _).bind fun _ _ => .ok _

/-- A plan fits two ends if it asks for no window on a range by place and for ends at members
that are such. -/
structure RangePlan.Fits (plan : RangePlan) (first last : Octets) : Prop where
  window : plan.goesBy = .index → plan.limit? = none
  first : plan.goesBy = .lex → ∃ e, LexEnd.read first = .ok e
  last : plan.goesBy = .lex → ∃ e, LexEnd.read last = .ok e

theorem RangePlan.Fits.swap {plan : RangePlan} {first last : Octets} (h : plan.Fits first last) :
    plan.Fits last first := ⟨h.window, h.last, h.first⟩

/-- With ends that fit the mode of the range, no end is refused for its form. -/
theorem between_understood {plan : RangePlan} {low high : Octets} (h : plan.Fits low high)
    (members : List Scored) : Understood (between plan members low high) := by
  unfold between
  cases hBy : plan.goesBy with
  | index =>
      dsimp only
      rw [h.window hBy]
      exact (Understood.readInt low).bind fun _ _ => (Understood.readInt high).bind fun _ _ => .ok _
  | score =>
      exact (scoreEnd_understood low).bind fun _ _ =>
        (scoreEnd_understood high).bind fun _ _ => .orBreakDown _
  | lex =>
      obtain ⟨a, hLow⟩ := h.first hBy
      obtain ⟨b, hHigh⟩ := h.last hBy
      dsimp only
      rw [hLow, hHigh]
      exact .orBreakDown _

/-- ZRANGE understands ends that fit the mode it was asked for. -/
theorem zrangeStep_understands {plan : RangePlan} {first last : Octets}
    (h : plan.Fits first last) : (zrangeStep plan first last).Understands := by
  intro seen
  refine (scoresAt_understood seen).bind fun scores _ => ?_
  have hSelect : Understood (plan.select scores first last) := by
    refine (Understood.orBreakDown _).bind fun members _ => ?_
    have hEnds (swapped : Bool) : plan.Fits (if swapped then last else first)
        (if swapped then first else last) := by
      cases swapped
      · exact h
      · exact h.swap
    exact (between_understood (hEnds _) _).bind fun _ _ => .ok _
  exact hSelect.bind fun _ _ => .ok _

end SortedSets

theorem Places.geoaddStep_understands (flags : Flags) (places : List (Datum × Datum)) :
    (geoaddStep flags places).Understands :=
  fun seen => (SortedSets.scoresAt_understood seen).bind fun _ _ => .ok _

/-! ## Commands -/

section Commands

variable {now : Float}

open Store

/-- SELECT refuses an index that is no number and one that is too large, and both are of no account
here. -/
theorem select_understands (index : Octets) : Store.Understands (Server.select index) := by
  have hIndex (s : Store) : Understood ((readInt index).bind s.index?) :=
    (Understood.readInt index).bind fun i _ => .index? s i
  exact fun s => Store.Understands.given (hIndex s) (fun _ _ _ => .ok _) s

/-- RENAME can only say that there is no such key. -/
theorem rename_understands (key newKey : Octets) :
    Store.Understands (Keys.rename now key newKey) := by
  refine .withSelected fun i => .lookUp i key fun seen => ?_
  cases seen with
  | none => exact .refuse rfl
  | some e => exact fun _ => .ok _

/-- MOVE can only say that source and destination are the same. -/
theorem moveTo_understands (key : Octets) (target i : Nat) :
    Store.Understands (Keys.moveTo now key target i) := by
  unfold Keys.moveTo
  by_cases hSame : target = i
  · rw [if_pos hSame]
    exact .refuse rfl
  · rw [if_neg hSame]
    refine .lookUp i key fun seen => ?_
    cases seen with
    | none => exact .answer _
    | some e =>
        refine .lookUp target key fun taken s => ?_
        cases taken <;> exact .ok _

theorem move_understands (key index : Octets) : Store.Understands (Keys.move now key index) := by
  have hIndex (s : Store) : Understood ((readInt index).bind s.index?) :=
    (Understood.readInt index).bind fun i _ => .index? s i
  exact fun s => Store.Understands.given (hIndex s)
    (fun target _ => .withSelected fun i => moveTo_understands key target i) s

/-- COPY, once its options are read, has no more words to refuse. -/
theorem copyPlan_understands (plan : Keys.CopyPlan) (source destination : Octets) (i : Nat) :
    Store.Understands (plan.run now source destination i) := by
  unfold Keys.CopyPlan.run
  split
  · exact .refuse rfl
  · refine .lookUp i source fun seen => ?_
    cases seen with
    | none => exact .answer _
    | some e =>
        refine .lookUp plan.target destination fun taken s => ?_
        split <;> exact .ok _

/-- COPY understands options that its reader does, whatever database is selected. -/
theorem copy_understands (source destination : Octets) {options : List Octets}
    (h : ∀ s : Store, Understood (Keys.CopyPlan.read s { target := s.selected } options)) :
    Store.Understands (Keys.copy now source destination options) :=
  fun s => Store.Understands.given (h s)
    (fun plan _ => .withSelected fun i => copyPlan_understands plan source destination i) s

/-- SCAN understands options that its reader does, at any cursor. -/
theorem scan_understands (cursor : Octets) {options : List Octets}
    (h : ∀ cursor, Understood (Scan.Plan.read { cursor } options)) :
    Store.Understands (Scan.scan now cursor options) := by
  unfold Scan.scan Scan.scanBy
  split
  · exact .refuse rfl
  · rename_i n _
    refine .given (h n) fun plan _ => ?_
    have hReply (db : Database) : Understood (plan.reply Octets.fitsGlob db) := by
      unfold Scan.Plan.reply
      split
      · exact .faulted _
      · exact .ok _
    have hCount := Store.Understands.count now hReply
    exact hCount

/-- RESTORE understands options that its reader does. -/
theorem restore_understands (key lifetime payload : Octets) {options : List Octets}
    (h : Understood (Backup.RestorePlan.read {} options)) :
    Store.Understands (Backup.restore now key lifetime payload options) := by
  refine .given (.readInt lifetime) fun n _ => .given h fun plan _ => ?_
  refine .andThen (.onKey key (Backup.step_understands plan payload)) fun reply => ?_
  have hDeadline : Understood (plan.deadline? now n) := by
    unfold Backup.RestorePlan.deadline?
    split
    · exact .ok _
    · exact (Understood.asSeconds n).bind fun _ _ => .ok _
  refine .given hDeadline fun t? _ => ?_
  cases t? with
  | none => exact .answer _
  | some t => exact .onKey key (Backup.withDeadline_understands t)

/-- MSET understands words that go into pairs. -/
theorem mset_understands {words : List Octets} (h : (pairUp words).isSome = true) :
    Store.Understands (Strings.mset words) := by
  unfold Strings.mset
  cases hPairs : pairUp words with
  | none =>
      rw [hPairs] at h
      cases h
  | some pairs => exact fun _ => .ok _

/-- HSET understands fields and values that go into pairs. -/
theorem hset_understands (key : Octets) {words : List Octets} (h : (pairUp words).isSome = true) :
    Store.Understands (Hashes.hset now key words) := by
  unfold Hashes.hset
  cases hPairs : pairUp words with
  | none =>
      rw [hPairs] at h
      cases h
  | some pairs => exact .onKey key (Hashes.hsetStep_understands pairs)

/-- ZADD understands scores and members that go into pairs. -/
theorem zadd_understands (key : Octets) {words : List Octets} (h : (pairUp words).isSome = true) :
    Store.Understands (SortedSets.zadd now key words) := by
  unfold SortedSets.zadd
  cases hPairs : pairUp words with
  | none =>
      rw [hPairs] at h
      cases h
  | some pairs =>
      exact .given (.readScores pairs) fun _ _ =>
        .onKey key (SortedSets.zaddStep_understands _)

/-- GEOADD understands words that are flags followed by at least one triple. -/
theorem geoadd_understands (key : Octets) {words rest : List Octets} {flags : Places.Flags}
    (hFlags : Places.Flags.read {} words = (flags, rest))
    {places : List (Octets × Octets × Octets)} (hPlaces : Places.triples rest = some places)
    (hSome : places ≠ []) : Store.Understands (Places.geoadd now key words) := by
  unfold Places.geoadd
  rw [hFlags]
  dsimp only
  rw [hPlaces]
  cases places with
  | nil => exact absurd rfl hSome
  | cons e rest =>
      exact .given (.readPlaces _) fun _ _ => .onKey key (Places.geoaddStep_understands _ _)

theorem zpop_understands (e : SortedSets.Extreme) (key : Octets) (count? : Option Octets) :
    Store.Understands (SortedSets.zpop now e key count?) := by
  have hCount : Understood (count?.mapM readInt) := by
    cases count? with
    | none => exact .ok _
    | some w => exact (Understood.readInt w).map some
  exact .given hCount fun _ _ => .onKey key (SortedSets.zpopStep_understands e _)

theorem addRead_understands (key amount : Octets) (sign : Int) :
    Store.Understands (Store.addRead now key amount sign) :=
  .given (.readInt amount) fun _ _ => .onKey key (Strings.add_understands _)

/-! ## Function libraries -/

theorem load_understands (first code : Octets) :
    Store.Understands (Libraries.load first code) := by
  unfold Libraries.load
  split
  · exact .refuse rfl
  · rename_i name _
    refine .withLibraries fun libraries => ?_
    dsimp only
    split
    · exact .given (.readText name) fun _ _ => .refuse rfl
    · exact fun _ => .ok _

/-- FUNCTION RESTORE understands any payload, given that the policy is one of the three that there
are. -/
theorem restoreLibraries_understands (payload : Octets) {policy? : Option Octets}
    (h : ∀ old new, Understood
      (Libraries.restored (policy?.elim (some .append) Keyword.ofOctets?) old new)) :
    Store.Understands (Libraries.restore payload policy?) := by
  unfold Libraries.restore Libraries.restoreBy
  split
  · exact .refuse rfl
  · exact .withLibraries fun old => .given (h old _) fun _ _ _ => .ok _
  · exact .refuse rfl

/-- A policy that is known is understood. -/
theorem restored_understood (p : RestorePolicy) (old new : Table Datum Datum) :
    Understood (Libraries.restored (some p.keyword) old new) := by
  cases p with
  | flush => exact .ok _
  | replace => exact .ok _
  | append =>
      show Understood (Libraries.restored (some .append) old new)
      unfold Libraries.restored
      dsimp only
      split
      · rename_i clash _
        have hShown : Understood (Libraries.shownName clash) := by
          unfold Libraries.shownName
          split
          · exact .readText _
          · exact .faulted _
        exact hShown.bind fun _ _ => .refused rfl
      · exact .ok _

/-- A call of a function understands a number of keys that is at most the number of words behind it.
-/
theorem call_understands (function : Octets) {numkeys : Octets} {words : List Octets}
    (h : ∀ n, Number.int? numkeys = some n → 0 ≤ n ∧ n ≤ words.length) :
    Store.Understands (Libraries.call function numkeys words) := by
  refine .withLibraries fun libraries s => ?_
  refine (Understood.readInt numkeys).bind fun n hRead => ?_
  have hBounds : 0 ≤ n ∧ n ≤ words.length := by
    refine h n ?_
    unfold readInt at hRead
    split at hRead
    · cases hRead
      assumption
    · cases hRead
  have hTest : ¬ (decide (n < 0) || decide ((words.length : Int) < n)) = true := by
    rw [decide_eq_false (by omega), decide_eq_false (by omega)]
    exact Bool.false_ne_true
  rw [if_neg hTest]
  split
  · exact .faulted _
  · exact .refused rfl
  · exact .refused rfl

end Commands

end BatchStore
