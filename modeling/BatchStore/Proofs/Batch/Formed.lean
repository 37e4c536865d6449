import BatchStore.Batch.Call
import BatchStore.Proofs.Argument

/-!
# Requests do not fail for their list of arguments

Two things can be wrong with a list of arguments: there are too few, or one of them is none. A
request never fails for either. What does not fit is noticed where it is looked at, a value by its
type, an option by what it says, so the failure is always about one of them. `Formed` says of a
result that it is no failure of a whole list, and `Call.request_formed` that the request of a call
is such, whatever the caller gave.
-/

namespace BatchStore

/-- A result that is no failure for a list of arguments. -/
structure Formed {α : Type} (x : Except Failure α) : Prop where
  notMalformed : ∀ flaw, x ≠ .error (.arguments flaw)

namespace Formed

variable {α β : Type}

theorem ok (a : α) : Formed (.ok a) := ⟨fun _ hNever => nomatch hNever⟩

/-- Any failure that is not about the list of arguments will do. -/
theorem error {e : Failure} (h : ∀ flaw, e ≠ .arguments flaw) : Formed (α := α) (.error e) :=
  ⟨fun flaw hFailed => h flaw (Except.error.inj hFailed)⟩

/-- What the store breaks down with is no fault of the list of arguments. -/
theorem fault (f : Fault) : Formed (α := α) (.error (.fault f)) :=
  error fun _ hNever => nomatch hNever

/-- Options that contradict themselves fail as options. -/
theorem option (flaw : OptionFlaw) : Formed (α := α) (.error (.option flaw)) :=
  error fun _ hNever => nomatch hNever

theorem cluster (flaw : ClusterFlaw) : Formed (α := α) (.error (.cluster flaw)) :=
  error fun _ hNever => nomatch hNever

theorem argumentType (found : String) : Formed (α := α) (.error (.argumentType found)) :=
  error fun _ hNever => nomatch hNever

/-- What is formed of two steps fails in one of them. -/
theorem bind {x : Except Failure α} {f : α → Except Failure β} (hx : Formed x)
    (hf : ∀ a, Formed (f a)) : Formed (x >>= f) := by
  cases x with
  | error e => exact error fun flaw hEq => hx.notMalformed flaw (congrArg Except.error hEq)
  | ok a => exact hf a

theorem map {x : Except Failure α} (f : α → β) (hx : Formed x) : Formed (x.map f) := by
  cases x with
  | error e => exact error fun flaw hEq => hx.notMalformed flaw (congrArg Except.error hEq)
  | ok a => exact ok (f a)

/-! ## Values -/

/-- A value that is no argument fails for its type. -/
theorem check (v : Datum) : Formed (Arg.check v) := by
  unfold Arg.check
  split
  · exact ok _
  · exact argumentType _

theorem checkEach (vs : List Datum) : Formed (Arg.checkEach vs) := by
  induction vs with
  | nil => exact ok _
  | cons v vs ih => exact (check v).bind fun _ => ih.bind fun _ => ok _

/-- Arguments that are checked together fail like the first that is none. -/
theorem checkAll (v : Datum) : Formed (Arg.checkAll v) := by
  unfold Arg.checkAll
  split
  · exact ok _
  · split
    · exact checkEach _
    · exact fault _

theorem wholeText (n : Int) : Formed (BatchStore.wholeText n) := by
  unfold BatchStore.wholeText
  split
  · exact ok _
  · exact fault _

/-- A value that is no number fails for its type, and one with too many digits as a fault. -/
theorem numberText (v : Datum) : Formed (BatchStore.numberText v) := by
  unfold BatchStore.numberText
  split
  · exact wholeText _
  · exact ok _
  · exact argumentType _

theorem shownNumber (v : Datum) : Formed (BatchStore.shownNumber v) := by
  unfold BatchStore.shownNumber
  split
  · exact ok _
  · exact ok _
  · exact numberText _

/-- Numbers of different types are compared or break down. -/
theorem compareNumber (c : Comparison) (a b : Datum) : Formed (BatchStore.compareNumber c a b) := by
  unfold BatchStore.compareNumber
  cases c.holds a b with
  | error f => exact fault f
  | ok held => exact ok held

/-! ## The builder -/

/-- A value that is encoded fails for its type, at whatever depth the wrong one stands. -/
theorem encode (v : Datum) : Formed (Arg.encode v) := by
  unfold Arg.encode
  split
  · exact ok _
  · exact (numberText v).map _

/-- What breaks the builder off is the failure of one value. -/
theorem add (args : ArgList) (v : Datum) : Formed (ArgList.add args v).toExcept := by
  unfold ArgList.Added.toExcept
  split
  · exact ok _
  · rename_i e hFailure
    rw [ArgList.add, ArgList.partsOf_eq] at hFailure
    obtain ⟨l, -, hError⟩ := ArgList.exists_of_failure hFailure
    exact error fun flaw hEq => (encode l).notMalformed flaw (hEq ▸ hError)

/-! ## Options -/

theorem numberOption (k : Keyword) (v : Datum) : Formed (BatchStore.numberOption k v) := by
  unfold BatchStore.numberOption
  split
  · exact ok _
  · exact (numberText _).bind fun _ => ok _

/-- An expiry that its command does not take, or of a negative time, fails as an option. -/
theorem expiry (e : Expiry) (allowed : List ExpiryType) : Formed (e.toArgs allowed) := by
  have hTime : Formed e.time := by
    have hMoment (f : Moment → Datum) : Formed (e.moment.map f) := by
      refine map f ?_
      unfold Expiry.moment
      split
      · exact ok _
      · exact option _
    unfold Expiry.time
    split
    · exact hMoment _
    · exact hMoment _
    · exact ok _
  unfold Expiry.toArgs
  split
  · exact option _
  · split
    · exact ok _
    · exact ok _
    · refine hTime.bind fun time => (compareNumber _ _ _).bind fun negative => ?_
      cases negative with
      | true => exact option _
      | false => exact (shownNumber time).bind fun _ => ok _

/-- A condition with its value to compare is checked like an argument. -/
theorem condition (o : SetOptions) : Formed o.conditionArgs := by
  unfold SetOptions.conditionArgs
  split
  · exact ok _
  · split
    · exact option _
    · exact (check _).bind fun _ => ok _
  · exact ok _

/-- SET: the condition, the old value and the expiry, each after the other. -/
theorem setOptions (o : SetOptions) : Formed o.toArgs := by
  refine (condition o).bind fun _ => ?_
  dsimp only
  cases o.expiry? with
  | none => exact ok _
  | some e => exact (expiry e _).bind fun _ => ok _

theorem getExOptions (o : GetExOptions) : Formed o.toArgs := by
  unfold GetExOptions.toArgs
  split
  · exact ok _
  · exact expiry _ _

theorem lposOptions (o : LPosOptions) : Formed o.toArgs :=
  (numberOption _ _).bind fun _ => (numberOption _ _).bind fun _ => ok _

/-- SCAN: the pattern, the count and the type, each checked on its own. -/
theorem scanOptions (o : ScanOptions) : Formed o.toArgs := by
  have hPattern : Formed o.patternArgs := by
    unfold ScanOptions.patternArgs
    split
    · exact ok _
    · exact (check _).bind fun _ => ok _
  have hCount : Formed o.countArgs := by
    unfold ScanOptions.countArgs
    split
    · exact ok _
    · refine (compareNumber _ _ _).bind fun nothing => ?_
      cases nothing with
      | true => exact option _
      | false => exact numberOption _ _
  exact hPattern.bind fun _ => hCount.bind fun _ => ok _

theorem restoreOptions (o : RestoreOptions) : Formed o.toArgs := by
  unfold RestoreOptions.toArgs
  dsimp only
  cases o.eviction? with
  | none => exact ok _
  | some e => exact (numberText e.count).bind fun _ => ok _

theorem zpopOptions (o : ZPopOptions) : Formed o.toArgs := by
  refine (compareNumber _ _ _).bind fun nothing => ?_
  cases nothing with
  | true => exact ok _
  | false => exact (numberText _).bind fun _ => ok _

theorem limit (l : Limit) : Formed l.toArgs :=
  (numberText _).bind fun _ => (numberText _).bind fun _ => ok _

/-- A point off the ranges of longitude and latitude fails as an option. -/
theorem geoPoint (p : GeoPoint) : Formed p.toArgs := by
  have hWithin (bound : Float) (v : Datum) : Formed (GeoPoint.isWithin bound v) := by
    refine (compareNumber _ _ _).bind fun above => ?_
    cases above with
    | true => exact compareNumber _ _ _
    | false => exact ok _
  refine (hWithin _ _).bind fun inLongitude => ?_
  cases inLongitude with
  | false => exact (shownNumber _).bind fun _ => option _
  | true =>
      refine (hWithin _ _).bind fun inLatitude => ?_
      cases inLatitude with
      | false => exact (shownNumber _).bind fun _ => option _
      | true => exact (numberText _).bind fun _ => (numberText _).bind fun _ => ok _

theorem geoAddOptions (o : GeoAddOptions) : Formed o.toArgs := by
  obtain ⟨condition?, changed⟩ := o
  match condition? with
  | none => exact ok _
  | some .onlyIfEquals => exact option _
  | some .onlyIfExists => exact ok _
  | some .onlyIfMissing => exact ok _

/-- A range is made of two ends that are written one after the other, and perhaps a limit. -/
theorem rangeQuery (q : RangeQuery) : Formed q.toArgs := by
  have hLimit (limit? : Option Limit) : Formed (RangeQuery.limitArgs limit?) := by
    cases limit? with
    | none => exact ok _
    | some l => exact limit l
  cases q with
  | byIndex first last reverse =>
      exact (numberText _).bind fun _ => (numberText _).bind fun _ => ok _
  | byScore first last reverse limit? => exact (hLimit limit?).bind fun _ => ok _
  | byLex first last reverse limit? => exact (hLimit limit?).bind fun _ => ok _

/-- So every object of options is written or fails for a reason of its own. -/
theorem options (o : Options) : Formed o.toArgs := by
  induction o with
  | expiry e => exact expiry e []
  | set o => exact setOptions o
  | getex o => exact getExOptions o
  | lpos o => exact lposOptions o
  | scan o => exact scanOptions o
  | restore o => exact restoreOptions o
  | zpop o => exact zpopOptions o
  | limit l => exact limit l
  | place p => exact geoPoint p
  | geoadd o => exact geoAddOptions o
  | range q => exact rangeQuery q
  | rangeThen q others ih => exact (rangeQuery q).bind fun _ => ih.bind fun _ => ok _
  | wordless found => exact fault _

theorem wordsOf (options? : Option Options) : Formed (Options.wordsOf options?) := by
  cases options? with
  | none => exact ok _
  | some o => exact options o

theorem namedPlaces (places : List (Datum × Options)) : Formed (BatchStore.namedPlaces places) := by
  induction places with
  | nil => exact ok _
  | cons place rest ih =>
      obtain ⟨name, point⟩ := place
      exact (options point).bind fun _ => (check name).bind fun _ => ih.bind fun _ => ok _

end Formed

/-! ## Calls -/

namespace Call

variable {t : CommandType}

/-- A row that must not be empty fails as an option when it is. -/
theorem nonempty_formed (v : Datum) (what : String) : Formed (nonempty v what) := by
  unfold nonempty
  split
  · exact .option _
  · exact .ok _

/-- Pairs are taken out of a mapping that must not be empty. -/
theorem pairs_formed (v : Datum) (what : String) : Formed (pairs v what) := by
  refine (nonempty_formed v what).bind fun w => ?_
  cases w <;> first | exact .ok _ | exact .fault _

theorem pairArgs_formed (ps : List (Datum × Datum)) : Formed (pairArgs ps) := by
  induction ps with
  | nil => exact .ok _
  | cons p rest ih =>
      obtain ⟨key, value⟩ := p
      exact (Formed.check key).bind fun _ => (Formed.check value).bind fun _ =>
        ih.bind fun _ => .ok _

/-- Scores are numbers, so they are encoded behind their members. -/
theorem scoreArgs_formed (ps : List (Datum × Datum)) : Formed (scoreArgs ps) := by
  induction ps with
  | nil => exact .ok _
  | cons p rest ih =>
      obtain ⟨member, score⟩ := p
      exact (Formed.add [] score).bind fun _ => (Formed.check member).bind fun _ =>
        ih.bind fun _ => .ok _

theorem onKey_formed (key : Datum) : Formed (onKey t key) :=
  (Formed.check key).bind fun _ => .ok _

theorem onKeyAnd_formed (key other : Datum) : Formed (onKeyAnd t key other) :=
  (Formed.check key).bind fun _ => (Formed.check other).bind fun _ => .ok _

theorem onKeyNumber_formed (key number : Datum) : Formed (onKeyNumber t key number) :=
  (Formed.check key).bind fun _ => (Formed.add _ number).bind fun _ => .ok _

/-- A key and a row behind it: the row is checked after the key. -/
theorem onKeyEach_formed (key others : Datum) (what : String) :
    Formed (onKeyEach t key others what) :=
  (Formed.check key).bind fun _ => (nonempty_formed others what).bind fun v =>
    (Formed.checkAll v).bind fun _ => .ok _

theorem onKeys_formed (keys : Datum) : Formed (onKeys t keys) :=
  (nonempty_formed keys _).bind fun v => (Formed.checkAll v).bind fun _ => .ok _

theorem onKeyWith_formed (key : Datum) (options? : Option Options) :
    Formed (onKeyWith t key options?) :=
  (Formed.check key).bind fun _ => (Formed.wordsOf options?).bind fun _ => .ok _

theorem onKeyValueWith_formed (key value : Datum) (options? : Option Options) :
    Formed (onKeyValueWith t key value options?) :=
  (Formed.check key).bind fun _ => (Formed.check value).bind fun _ =>
    (Formed.wordsOf options?).bind fun _ => .ok _

/-- The keys of a function are counted before the other arguments are looked at. -/
theorem functionCall_formed (function keys arguments : Datum) :
    Formed (functionCall t function keys arguments) :=
  (Formed.checkAll keys).bind fun _ => (Formed.check function).bind fun _ =>
    (Formed.checkAll arguments).bind fun _ => .ok _

/-- A command that a cluster does not take fails as one. -/
theorem checkCluster_formed (words : ArgList) : Formed (checkCluster words) := by
  unfold checkCluster
  split
  · exact .ok _
  · split
    · exact .cluster _
    · split
      · exact .cluster _
      · exact .ok _

/-- COPY to another database fails in a cluster as a command that it does not take. -/
theorem copyRequest_formed (cluster : Bool) (source destination database : Datum) (replace : Bool) :
    Formed (copyRequest cluster source destination database replace) := by
  refine (Formed.check source).bind fun a => (Formed.check destination).bind fun b => ?_
  dsimp only
  split
  · exact .ok _
  · split
    · exact .cluster _
    · exact (Formed.add _ _).bind fun _ => .ok _

/-- The request of a call never fails for its list of arguments. -/
theorem request_formed (cluster : Bool) (c : Call) : Formed (c.request cluster) := by
  cases c with
  | ping message => cases message <;> first | exact onKey_formed _ | exact .ok _
  | info | dbsize | flushdb | functionFlush | functionDump => exact .ok _
  | echo key | ttl key | persist key | type key | dump key | get key | incr key | decr key
  | strlen key | hgetall key | hlen key | lpop key | rpop key | llen key | smembers key
  | scard key | zcard key => exact onKey_formed key
  | rename key other | append key other | hget key other | hexists key other
  | sismember key other | zscore key other => exact onKeyAnd_formed key other
  | expire key number | move key number | incrby key number | decrby key number =>
      exact onKeyNumber_formed key number
  | delete keys | «exists» keys | mget keys => exact onKeys_formed keys
  | hdel key others | lpush key others | rpush key others | sadd key others
  | srem key others | zrem key others => exact onKeyEach_formed key others _
  | scan key options? | getex key options? | zpopmin key options? | zpopmax key options? =>
      exact onKeyWith_formed key options?
  | set key value options? | lpos key value options? =>
      exact onKeyValueWith_formed key value options?
  | fcall function keys arguments | fcallReadonly function keys arguments =>
      exact functionCall_formed function keys arguments
  | select index => exact (Formed.add [] index).bind fun _ => .ok _
  | custom words =>
      refine (nonempty_formed words _).bind fun v => (Formed.checkAll v).bind fun args => ?_
      cases cluster with
      | false => exact .ok _
      | true => exact (checkCluster_formed args).bind fun _ => .ok _
  | copy source destination database replace =>
      exact copyRequest_formed cluster source destination database replace
  | restore key lifetime payload options? =>
      exact (Formed.check key).bind fun _ => (Formed.add _ lifetime).bind fun _ =>
        (Formed.check payload).bind fun _ => (Formed.wordsOf options?).bind fun _ => .ok _
  | mset ps => exact (pairs_formed ps _).bind fun qs => (pairArgs_formed qs).bind fun _ => .ok _
  | hset key ps =>
      exact (Formed.check key).bind fun _ => (pairs_formed ps _).bind fun qs =>
        (pairArgs_formed qs).bind fun _ => .ok _
  | lrange key first last =>
      exact (Formed.check key).bind fun _ => (Formed.add _ first).bind fun _ =>
        (Formed.add _ last).bind fun _ => .ok _
  | zadd key scores =>
      exact (Formed.check key).bind fun _ => (pairs_formed scores _).bind fun qs =>
        (scoreArgs_formed qs).bind fun _ => .ok _
  | zrange key query =>
      exact (Formed.check key).bind fun _ => (Formed.options query).bind fun _ => .ok _
  | geoadd key places options? =>
      refine (Formed.check key).bind fun _ => (Formed.wordsOf options?).bind fun _ => ?_
      cases places with
      | nil => exact .option _
      | cons place rest => exact (Formed.namedPlaces _).bind fun _ => .ok _
  | functionLoad code replace => exact (Formed.check code).bind fun _ => .ok _
  | functionRestore payload policy? => exact (Formed.check payload).bind fun _ => .ok _

end Call

end BatchStore
