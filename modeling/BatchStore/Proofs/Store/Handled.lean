import BatchStore.Proofs.Store.Breaks

/-!
# Commands that the store handles

The store has a step for each type of command. Where it has none it would say so in one of two
ways: it calls a command unknown if its words spell no type, and it says that the number of
arguments is wrong if no line of `Store.step` takes them. A type that is known, with as many
arguments as it admits, meets neither answer, but that two types take their arguments in pairs and
say of an odd number that it is wrong (`Store.runType_unhandled`).

`Handled` says of a result that it is neither answer. It holds of the readers of words, and it is
kept where results are put together, so that simplification follows a step from line to line.
-/

namespace BatchStore

/-- Whether a refusal says that there is no step for a command. -/
@[simp] def Refusal.isUnhandled : Refusal → Bool
  | unknownCommand _ | wrongArity _ => true
  | _ => false

/-- A result that comes from a step. -/
def Handled {α : Type} (x : Except Halt α) : Prop := ∀ r, x = refuse r → r.isUnhandled = false

section Results

variable {α β : Type}

@[simp] theorem handled_ok (a : α) : Handled (.ok a) := fun _ h => nomatch h

@[simp] theorem handled_pure (a : α) : Handled (pure a : Except Halt α) := handled_ok a

@[simp] theorem handled_keep (seen : Option Entry) (reply : Datum) : Handled (keep seen reply) :=
  handled_ok _

@[simp] theorem handled_breakDown (f : Fault) : Handled (breakDown (α := α) f) :=
  fun _ h => nomatch h

/-- A refusal is handled unless it is one of the two answers of a store that has no step. -/
@[simp] theorem handled_refuse_iff (r : Refusal) :
    Handled (refuse (α := α) r) ↔ r.isUnhandled = false := by
  simp [Handled, refuse]

/-- A sequence is handled where its first part is, and its second at each value that the first can
yield. -/
@[simp] theorem handled_bind_iff (x : Except Halt α) (f : α → Except Halt β) :
    Handled (x >>= f) ↔ Handled x ∧ ∀ a, x = .ok a → Handled (f a) := by
  rcases x with ⟨r | fault⟩ | a <;> simp [Handled, refuse, bind, Except.bind]

@[simp] theorem handled_map_iff (x : Except Halt α) (f : α → β) :
    Handled (x.map f) ↔ Handled x := by
  rcases x with ⟨r | fault⟩ | a <;> simp [Handled, refuse, Except.map]

@[simp] theorem handled_fmap_iff (f : α → β) (x : Except Halt α) : Handled (f <$> x) ↔ Handled x :=
  handled_map_iff x f

/-! ## Readers of words -/

/-- Asking for a kind of value refuses for the kind alone. -/
@[simp] theorem handled_expect (kind? : Value → Option α) (seen : Option Entry) :
    Handled (expect kind? seen) := by
  unfold expect
  split
  · simp
  · split <;> simp

@[simp] theorem handled_readInt (w : Octets) : Handled (readInt w) := by
  unfold readInt
  split <;> simp

@[simp] theorem handled_readReal (w : Octets) : Handled (readReal w) := by
  unfold readReal
  split <;> simp

@[simp] theorem handled_readText (w : Octets) : Handled (readText w) := by
  unfold readText
  split <;> simp

@[simp] theorem handled_asReal (n : Int) : Handled (asReal n) := by
  unfold asReal
  split <;> simp

@[simp] theorem handled_asSeconds (n : Int) : Handled (asSeconds n) := by
  unfold asSeconds
  split <;> simp

/-- An expiry can be no expiry or be out of range; neither says that there is no step. -/
@[simp] theorem handled_deadlineOf (now : Float) (unit : Keyword) (amount : Int) :
    Handled (deadlineOf now unit amount) := by
  unfold deadlineOf
  split
  · split <;> simp
  · split <;> simp
  · simp
  · simp

@[simp] theorem handled_index? (s : Store) (i : Int) : Handled (s.index? i) := by
  unfold Store.index?
  split <;> simp

@[simp] theorem handled_orBreakDown (x : Except Fault α) : Handled (SortedSets.orBreakDown x) := by
  cases x <;> simp [SortedSets.orBreakDown]

end Results

/-! ## Readers of options -/

/-- The options of COPY are refused for their syntax or for a database that there is not. -/
@[simp] theorem handled_copyPlan (s : Store) (plan : Keys.CopyPlan) (words : List Octets) :
    Handled (Keys.CopyPlan.read s plan words) := by
  fun_induction Keys.CopyPlan.read s plan words <;> simp_all

@[simp] theorem handled_scanPlan (plan : Scan.Plan) (words : List Octets) :
    Handled (Scan.Plan.read plan words) := by
  fun_induction Scan.Plan.read plan words with
  | case4 plan w v rest hWord ih =>
      simp only [handled_bind_iff, handled_readInt, true_and]
      intro count _
      split
      · simp
      · simp_all
  | _ => simp_all

@[simp] theorem handled_restorePlan (plan : Backup.RestorePlan) (words : List Octets) :
    Handled (Backup.RestorePlan.read plan words) := by
  fun_induction Backup.RestorePlan.read plan words <;> simp_all

/-- The options of SET are refused for their syntax or for their expiry. -/
@[simp] theorem handled_setPlan (now : Float) (plan : Strings.SetPlan) (words : List Octets) :
    Handled (Strings.SetPlan.read now plan words) := by
  fun_induction Strings.SetPlan.read now plan words <;> simp_all

@[simp] theorem handled_search (q : Lists.Search) (words : List Octets) :
    Handled (Lists.Search.read q words) := by
  fun_induction Lists.Search.read q words with
  | case3 q w v rest hWord ih =>
      simp only [handled_bind_iff, handled_readInt, true_and]
      intro rank _
      split
      · simp
      · simp_all
  | _ => simp_all

@[simp] theorem handled_rangePlan (plan : SortedSets.RangePlan) (words : List Octets) :
    Handled (SortedSets.RangePlan.read plan words) := by
  fun_induction SortedSets.RangePlan.read plan words <;> simp_all

/-- Scores are read one after the other, so that the first bad one refuses all of them. -/
@[simp] theorem handled_readScores (pairs : List (Octets × Octets)) :
    Handled (SortedSets.readScores pairs) := by
  fun_induction SortedSets.readScores pairs <;> simp_all

@[simp] theorem handled_score? (longitude latitude : Float) :
    Handled (Places.score? longitude latitude) := by
  unfold Places.score?
  split <;> simp

@[simp] theorem handled_readPlaces (places : List (Octets × Octets × Octets)) :
    Handled (Places.readPlaces places) := by
  fun_induction Places.readPlaces places <;> simp_all

@[simp] theorem handled_lexEnd (w : Octets) : Handled (SortedSets.LexEnd.read w) := by
  unfold SortedSets.LexEnd.read
  split <;> simp

@[simp] theorem handled_scoreEnd (w : Octets) : Handled (SortedSets.ScoreEnd.read w) := by
  unfold SortedSets.ScoreEnd.read
  split <;> simp

/-- Restoring libraries refuses for a name that clashes, not for the command. -/
@[simp] theorem handled_restored (policy : Option Keyword) (old new : Table Datum Datum) :
    Handled (Libraries.restored policy old new) := by
  have hShown (d : Datum) : Handled (Libraries.shownName d) := by
    unfold Libraries.shownName
    split <;> simp
  unfold Libraries.restored
  split
  · simp
  · simp
  · split <;> simp [hShown]
  · simp

/-! ## Steps on keys -/

/-- A step on a key whose result is one of a step. -/
def KeyStep.Handled (step : KeyStep) : Prop := ∀ seen, BatchStore.Handled (step seen)

namespace Keys

/-- EXPIRE fails only where its seconds are out of the range of doubles. -/
theorem expireStep_handled (now : Float) (seconds : Int) : (expireStep now seconds).Handled := by
  intro seen
  unfold expireStep
  split
  · simp
  · split <;> simp

theorem ttl_handled (now : Float) : (ttl now).Handled := by
  intro seen
  have hRound (x : Float) : Handled (roundReal x) := by
    unfold roundReal
    split <;> simp
  unfold ttl
  split
  · simp
  · split <;> simp [hRound]

end Keys

namespace Backup

/-- RESTORE can find the key taken or the payload bad, and writes otherwise. -/
theorem step_handled (plan : RestorePlan) (payload : Octets) : (plan.step payload).Handled := by
  intro seen
  unfold RestorePlan.step RestorePlan.stepBy
  split
  · simp
  · split <;> simp

end Backup

namespace Strings

theorem step_handled (plan : SetPlan) (value : Octets) : (plan.step value).Handled := by
  intro seen
  unfold SetPlan.step
  split <;> simp

/-- GETEX reads the options only after it has seen the value. -/
theorem getex_handled (now : Float) (options : List Octets) : (getex now options).Handled := by
  intro seen
  unfold getex
  simp only [handled_bind_iff, handled_expect, true_and]
  intro value _
  split
  · simp
  · split <;> simp
  · split
    · split <;> simp
    · simp
  · simp

theorem writeInt_handled (seen : Option Entry) (n : Int) : Handled (writeInt seen n) := by
  unfold writeInt
  split <;> simp

theorem add_handled (amount : Int) : (add amount).Handled := by
  intro seen
  unfold add
  simp only [handled_bind_iff, handled_expect, true_and]
  intro old _
  split <;> simp [writeInt_handled]

end Strings

namespace Hashes

/-- Deleting fields asks for a hash and answers a count. -/
theorem hdel_handled (fields : List Octets) : (hdel fields).Handled := by
  intro seen
  unfold hdel
  simp only [handled_bind_iff, handled_expect, true_and]
  intro old _
  split <;> simp

end Hashes

namespace Lists

theorem popStep_handled (e : End) : (popStep e).Handled := by
  intro seen
  unfold popStep
  simp only [handled_bind_iff, handled_expect, true_and]
  intro old _
  split <;> simp

end Lists

namespace Sets

theorem srem_handled (ms : List Octets) : (srem ms).Handled := by
  intro seen
  unfold srem
  simp only [handled_bind_iff, handled_expect, true_and]
  intro old _
  split <;> simp

end Sets

namespace SortedSets

@[simp] theorem handled_scoresAt (seen : Option Entry) : BatchStore.Handled (scoresAt seen) := by
  simp [scoresAt]

/-- Removing members asks for a sorted set and answers a count. -/
theorem zrem_handled (members : List Octets) : (zrem members).Handled := by
  intro seen
  unfold zrem
  simp only [handled_bind_iff, handled_expect, true_and]
  intro old _
  split <;> simp

theorem zpopStep_handled (e : Extreme) (count : Int) : (zpopStep e count).Handled := by
  intro seen
  unfold zpopStep
  simp only [handled_bind_iff, handled_expect, true_and]
  intro old _
  split <;> simp [extremes, inOrder]

theorem zrangeStep_handled (plan : RangePlan) (first last : Octets) :
    (zrangeStep plan first last).Handled := by
  have hBetween (members : List Scored) (low high : Octets) :
      BatchStore.Handled (between plan members low high) := by
    unfold between
    split
    · split <;> simp
    · simp
    · simp
  intro seen
  simp [zrangeStep, RangePlan.select, inOrder, hBetween]

end SortedSets

/-! ## Acts -/

namespace Store

/-- An act whose result is one of a step. -/
def Handled {α : Type} (p : Act α) : Prop := ∀ s, BatchStore.Handled (p s).1

namespace Handled

variable {α β : Type} {now : Float}

theorem answer {x : Except Halt α} (h : BatchStore.Handled x) : Handled fun s => (x, s) :=
  fun _ => h

/-- An act followed by another is handled where both are: the first result, if it is no value, is
the result of the two. -/
theorem andThen {first : Act α} {next : α → Act β} (hFirst : Handled first)
    (hNext : ∀ a, Handled (next a)) : Handled (Store.andThen first next) := by
  intro s
  have hHere := hFirst s
  unfold Store.andThen
  rcases hRun : first s with ⟨⟨r | fault⟩ | a, t⟩ <;> rw [hRun] at hHere
  · exact (handled_refuse_iff r).2 (hHere r rfl)
  · exact handled_breakDown fault
  · exact hNext a t

/-- A check before an act is an act that leaves the store. -/
theorem given {x : Except Halt α} {next : α → Act β} (hx : BatchStore.Handled x)
    (hNext : ∀ a, Handled (next a)) : Handled (Store.given x next) := andThen (answer hx) hNext

theorem withSelected {next : Nat → Act α} (hNext : ∀ i, Handled (next i)) :
    Handled (Store.withSelected next) := fun s => hNext s.selected s

theorem withLibraries {next : Table Datum Datum → Act α}
    (hNext : ∀ libraries, Handled (next libraries)) : Handled (Store.withLibraries next) :=
  fun s => hNext s.libraries s

/-- Looking a key up has no result of its own, so that only what is done with the entry matters. -/
theorem lookUp (i : Nat) (key : Octets) {next : Option Entry → Act α}
    (hNext : ∀ seen, Handled (next seen)) : Handled (Store.lookUp now i key next) :=
  fun s => hNext (s.live? now i key) (s.settle now i key)

/-- A command on one key is handled where its step is. -/
theorem onKey (key : Octets) {step : KeyStep} (h : step.Handled) :
    Handled (Store.onKey now key step) :=
  withSelected fun i => lookUp i key fun seen => given (h seen) fun _ _ => handled_ok _

/-- A command on some keys is handled where the step on each of them is. -/
theorem onEach {step : KeyStep} (h : step.Handled) (keys : List Octets) :
    Handled (Store.onEach now step keys) := by
  induction keys with
  | nil => exact answer (handled_ok _)
  | cons key keys ih =>
      exact (onKey key h).andThen fun _ => ih.andThen fun _ => answer (handled_ok _)

theorem index {next : Nat → Act α} (index : Octets) (hNext : ∀ i, Handled (next i)) :
    Handled fun s => Store.given ((readInt index).bind s.index?) next s := fun s =>
  given ((handled_bind_iff _ _).2 ⟨handled_readInt index, fun i _ => handled_index? s i⟩) hNext s

/-- MOVE refuses the database that the key is in, and otherwise says whether it has moved the
key. -/
theorem moveTo (key : Octets) (target i : Nat) : Handled (Keys.moveTo now key target i) := by
  unfold Keys.moveTo
  split
  · exact answer (by simp)
  · refine lookUp i key fun seen => ?_
    cases seen with
    | none => exact answer (handled_ok _)
    | some e =>
        refine lookUp target key fun taken s => ?_
        split <;> simp

/-- RENAME can only say that there is no such key. -/
theorem rename (key newKey : Octets) : Handled (Keys.rename now key newKey) := by
  refine withSelected fun i => lookUp i key fun seen => ?_
  cases seen with
  | none => exact answer (by simp)
  | some e => exact fun _ => handled_ok _

/-- COPY, once its options are read, refuses only the key itself as its destination. -/
theorem copyPlan (plan : Keys.CopyPlan) (source destination : Octets) (i : Nat) :
    Handled (plan.run now source destination i) := by
  unfold Keys.CopyPlan.run
  split
  · exact answer (by simp)
  · refine lookUp i source fun seen => ?_
    cases seen with
    | none => exact answer (handled_ok _)
    | some e =>
        refine lookUp plan.target destination fun taken s => ?_
        split <;> simp

theorem copy (source destination : Octets) (options : List Octets) :
    Handled (Keys.copy now source destination options) := fun s =>
  given (handled_copyPlan s _ options)
    (fun plan => withSelected (copyPlan plan source destination)) s

theorem scan (cursor : Octets) (options : List Octets) :
    Handled (Scan.scan now cursor options) := by
  unfold Scan.scan Scan.scanBy
  split
  · exact answer (by simp)
  · refine given (handled_scanPlan _ options) fun plan => withSelected fun i s => ?_
    unfold Scan.Plan.reply
    dsimp only
    split <;> simp

/-- RESTORE refuses a bad lifetime, bad options and a bad payload, each as a step does. -/
theorem restore (key lifetime payload : Octets) (options : List Octets) :
    Handled (Backup.restore now key lifetime payload options) := by
  refine given (handled_readInt lifetime) fun n => ?_
  refine given (handled_restorePlan _ options) fun plan => ?_
  refine andThen (onKey key (Backup.step_handled plan payload)) fun reply => ?_
  have hDeadline : BatchStore.Handled (plan.deadline? now n) := by
    unfold Backup.RestorePlan.deadline?
    split <;> simp
  refine given hDeadline fun t? => ?_
  cases t? with
  | none => exact answer (handled_ok _)
  | some t => exact onKey key fun _ => handled_ok _

/-- MSET says that the number of its arguments is wrong of an odd number of them; with an even
number it is handled. -/
theorem mset {words : List Octets} (h : (pairUp words).isSome = true) :
    Handled (Strings.mset words) := by
  unfold Strings.mset
  split
  · simp_all
  · exact fun _ => handled_ok _

/-- HSET says that the number of its arguments is wrong of an odd number of fields and values; with
an even number it is handled. -/
theorem hset (key : Octets) {words : List Octets} (h : (pairUp words).isSome = true) :
    Handled (Hashes.hset now key words) := by
  unfold Hashes.hset
  split
  · simp_all
  · exact onKey key fun seen => by simp [Hashes.hsetStep]

/-- ZADD calls an odd number of scores and members a syntax error, so it is handled with any. -/
theorem zadd (key : Octets) (words : List Octets) : Handled (SortedSets.zadd now key words) := by
  unfold SortedSets.zadd
  split
  · exact answer (by simp)
  · exact given (handled_readScores _) fun pairs => onKey key fun seen => by
      simp [SortedSets.zaddStep]

/-- The two commands that pop the extremes of a sorted set differ in the end alone. -/
theorem zpop (e : SortedSets.Extreme) (key : Octets) (count? : Option Octets) :
    Handled (SortedSets.zpop now e key count?) := by
  refine given ?_ fun _ => onKey key (SortedSets.zpopStep_handled e _)
  cases count? with
  | none => exact handled_ok _
  | some w => exact (handled_map_iff _ some).2 (handled_readInt w)

theorem geoadd (key : Octets) (words : List Octets) : Handled (Places.geoadd now key words) := by
  unfold Places.geoadd
  dsimp only
  split
  · exact answer (by simp)
  · exact answer (by simp)
  · exact given (handled_readPlaces _) fun places => onKey key fun seen => by
      simp [Places.geoaddStep]

theorem load (first code : Octets) : Handled (Libraries.load first code) := by
  unfold Libraries.load
  split
  · exact answer (by simp)
  · refine withLibraries fun libraries => ?_
    dsimp only
    split
    · exact given (handled_readText _) fun _ => answer (by simp)
    · exact fun _ => handled_ok _

/-- FUNCTION RESTORE refuses a bad policy, a bad payload and a clash of names. -/
theorem restoreLibraries (payload : Octets) (policy? : Option Octets) :
    Handled (Libraries.restore payload policy?) := by
  unfold Libraries.restore Libraries.restoreBy
  split
  · exact answer (by simp)
  · exact withLibraries fun old => given (handled_restored _ old _) fun _ _ => handled_ok _
  · exact answer (by simp)

theorem call (function numkeys : Octets) (words : List Octets) :
    Handled (Libraries.call function numkeys words) := by
  refine withLibraries fun libraries => answer ?_
  unfold Libraries.called
  simp only [handled_bind_iff, handled_readInt, true_and]
  intro n _
  split
  · simp
  · split <;> simp

end Handled

end Store

/-! ## Types -/

/-- Whether the arguments that a type takes in pairs are in pairs. -/
def CommandType.pairs : CommandType → List Octets → Bool
  | .mset, words => (pairUp words).isSome
  | .hset, _ :: words => (pairUp words).isSome
  | _, _ => true

/-- Whether a type takes these arguments: as many as it admits, and in pairs where it takes pairs.
-/
def CommandType.takes (t : CommandType) (args : List Octets) : Bool :=
  t.admits args.length && t.pairs args

namespace Store

variable {now : Float} {t : CommandType} {args : List Octets} {s : Store}

/-- A type has a step of its own for the arguments that it takes. -/
theorem step_handled (hType : t ≠ .customCommand) (hAdmitted : t.admits args.length = true)
    (hPairs : t.pairs args = true) : Store.Handled (step now t args) := by
  unfold Store.step
  split
  · exact .answer (handled_ok _)
  · exact .answer (handled_ok _)
  · exact .index _ fun _ _ => handled_ok _
  · exact fun _ => handled_ok _
  · exact fun _ => handled_ok _
  · exact fun _ => handled_ok _
  · exact (Handled.onEach (fun _ => handled_ok _) _).andThen fun _ => .answer (handled_ok _)
  · exact (Handled.onEach (fun _ => handled_ok _) _).andThen fun _ => .answer (handled_ok _)
  · exact .given (handled_readInt _) fun _ => .onKey _ (Keys.expireStep_handled now _)
  · exact .onKey _ (Keys.ttl_handled now)
  · exact .onKey _ fun _ => handled_ok _
  · exact .onKey _ fun _ => handled_ok _
  · exact .rename _ _
  · exact .index _ fun _ => .withSelected fun _ => .moveTo _ _ _
  · exact .copy _ _ _
  · exact .scan _ _
  · exact .onKey _ fun _ => handled_ok _
  · exact .restore _ _ _ _
  · exact .given (handled_setPlan now _ _) fun _ => .onKey _ (Strings.step_handled _ _)
  · exact .onKey _ fun seen => by simp [Strings.get]
  · exact .onKey _ (Strings.getex_handled now _)
  · exact .onKey _ fun seen => by simp [Strings.append]
  · exact .onKey _ (Strings.add_handled _)
  · exact .given (handled_readInt _) fun _ => .onKey _ (Strings.add_handled _)
  · exact .onKey _ (Strings.add_handled _)
  · exact .given (handled_readInt _) fun _ => .onKey _ (Strings.add_handled _)
  · exact .mset hPairs
  · exact (Handled.onEach (fun _ => handled_ok _) _).andThen fun _ => .answer (handled_ok _)
  · exact .onKey _ fun seen => by simp [Strings.strlen]
  · exact .hset _ hPairs
  · exact .onKey _ fun seen => by simp [Hashes.hget]
  · exact .onKey _ (Hashes.hdel_handled _)
  · exact .onKey _ fun seen => by simp [Hashes.hgetall]
  · exact .onKey _ fun seen => by simp [Hashes.hexists]
  · exact .onKey _ fun seen => by simp [Hashes.hlen]
  · exact .onKey _ fun seen => by simp [Lists.pushStep]
  · exact .onKey _ fun seen => by simp [Lists.pushStep]
  · exact .onKey _ (Lists.popStep_handled _)
  · exact .onKey _ (Lists.popStep_handled _)
  · exact .onKey _ fun seen => by simp [Lists.llen]
  · exact .onKey _ fun seen => by simp [Lists.lrange]
  · exact .given (handled_search _ _) fun _ => .onKey _ fun seen => by simp [Lists.lposStep]
  · exact .onKey _ fun seen => by simp [Sets.sadd]
  · exact .onKey _ (Sets.srem_handled _)
  · exact .onKey _ fun seen => by simp [Sets.smembers]
  · exact .onKey _ fun seen => by simp [Sets.sismember]
  · exact .onKey _ fun seen => by simp [Sets.scard]
  · exact .zadd _ _
  · exact .onKey _ (SortedSets.zrem_handled _)
  · exact .onKey _ fun seen => by simp [SortedSets.zscore]
  · exact .onKey _ fun seen => by simp [SortedSets.zcard]
  · exact .given (handled_rangePlan _ _) fun _ => .onKey _ (SortedSets.zrangeStep_handled _ _ _)
  · exact .zpop _ _ _
  · exact .zpop _ _ _
  · exact .geoadd _ _
  · exact .load _ _
  · exact fun _ => handled_ok _
  · exact .withLibraries fun _ _ => handled_ok _
  · exact .restoreLibraries _ _
  · exact .call _ _ _
  · exact .call _ _ _
  · exfalso
    rcases args with _ | ⟨a, _ | ⟨b, _ | ⟨c, _ | ⟨d, rest⟩⟩⟩⟩ <;> cases t <;>
      simp [CommandType.admits, CommandType.minArity, CommandType.maxArity?] at hType hAdmitted <;>
      grind

/-- Words that do not go into pairs are refused for their number. -/
theorem step_odd (hPairs : t.pairs args = false) :
    (step now t args s).1 = refuse (.wrongArity t) := by
  unfold CommandType.pairs at hPairs
  split at hPairs
  · simp_all [step, Strings.mset]
  · simp_all [step, Hashes.hset]
  · cases hPairs

/-- A type of which the store has a step is handled with the arguments that it takes. -/
theorem runType_handled (hType : t ≠ .customCommand) (h : t.takes args = true) :
    Store.Handled (runType now t args) := by
  intro s
  obtain ⟨hAdmitted, hPairs⟩ : t.admits args.length = true ∧ t.pairs args = true := by
    simpa [CommandType.takes] using h
  rw [runType, if_pos hAdmitted]
  exact step_handled hType hAdmitted hPairs s

/-- Arguments that a type does not take are wrong in number, whatever the store holds. -/
theorem runType_wrongArity (h : t.takes args = false) :
    (runType now t args s).1 = refuse (.wrongArity t) := by
  rw [runType]
  split
  · rename_i hAdmitted
    exact step_odd (by simpa [CommandType.takes, hAdmitted] using h)
  · rfl

/-- A request is never called unknown, and it is refused for the number of its arguments only if
its type does not take them. -/
theorem runType_unhandled (hType : t ≠ .customCommand) {r : Refusal}
    (hRun : (runType now t args s).1 = refuse r) (hUnhandled : r.isUnhandled = true) :
    r = .wrongArity t ∧ t.takes args = false := by
  rcases hTakes : t.takes args with _ | _
  · rw [runType_wrongArity hTakes] at hRun
    cases hRun
    exact ⟨rfl, rfl⟩
  · rw [runType_handled hType hTakes s r hRun] at hUnhandled
    cases hUnhandled

end Store

end BatchStore
