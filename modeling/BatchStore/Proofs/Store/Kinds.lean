import BatchStore.Proofs.Store.Breaks
import BatchStore.Proofs.Store.Effects
import BatchStore.Proofs.Store.Restored

/-!
# Commands of one kind

A value is of one of five kinds, and most commands are for values of one of them. Such a command
asks for the kind of what its key holds, but not always first: ZADD has read its scores before, and
LPOS its options. None of that can break down, so whatever comes first, the command is refused in
the end.

A key step is `KeyStep.OfKind` a kind if it refuses values of the others and leaves values of this
kind or none. Every step of every command for a kind is, with one lemma for each. `step_onKind` says
of the commands what follows: they are refused at once, or they do a step of their kind on their
key. So a key of another kind is left as it is (`run_refuses_others`).
-/

namespace BatchStore

/-! ## Kinds -/

/-- The kinds of values. -/
inductive Value.Kind where
  | string
  | list
  | set
  | hash
  | zset
deriving DecidableEq, Repr

namespace Value

/-- The kind of a value. -/
def kind : Value → Kind
  | string _ => .string
  | list _ => .list
  | set _ => .set
  | hash _ => .hash
  | zset _ => .zset

/-- A reader finds something in the values of one kind alone. -/
def Kind.ReadBy (K : Kind) {α : Type} (kind? : Value → Option α) : Prop :=
  ∀ v, (kind? v).isSome = decide (v.kind = K)

/-- Strings are what GET and its like ask for. -/
theorem readBy_string? : Kind.string.ReadBy string? := by
  intro v
  cases v <;> rfl

theorem readBy_list? : Kind.list.ReadBy list? := by
  intro v
  cases v <;> rfl

theorem readBy_set? : Kind.set.ReadBy set? := by
  intro v
  cases v <;> rfl

theorem readBy_hash? : Kind.hash.ReadBy hash? := by
  intro v
  cases v <;> rfl

theorem readBy_zset? : Kind.zset.ReadBy zset? := by
  intro v
  cases v <;> rfl

end Value

/-- The kind that a command of a type asks of its key. SET and MSET write over any kind, and MGET
passes over those that it cannot show. -/
def CommandType.kind? : CommandType → Option Value.Kind
  | .get | .getex | .append | .incr | .incrby | .decr | .decrby | .strlen => some .string
  | .hset | .hget | .hdel | .hgetall | .hexists | .hlen => some .hash
  | .lpush | .rpush | .lpop | .rpop | .llen | .lrange | .lpos => some .list
  | .sadd | .srem | .smembers | .sismember | .scard => some .set
  | .zadd | .zrem | .zscore | .zcard | .zrange | .zpopmin | .zpopmax | .geoadd => some .zset
  | _ => none

/-! ## Steps of one kind -/

section Steps

variable {K : Value.Kind} {seen : Option Entry}

/-- What is left of a kind: an entry has a value of the kind. -/
def Entry.OfKind (K : Value.Kind) (e? : Option Entry) : Prop := ∀ e ∈ e?, e.value.kind = K

namespace Entry

/-- Of a missing key nothing is asked. -/
theorem ofKind_none : OfKind K none := fun _ h => nomatch h

theorem ofKind_some {e : Entry} (h : e.value.kind = K) : OfKind K (some e) := by
  rintro _ ⟨⟩
  exact h

/-- A change of deadlines leaves the kind. -/
theorem ofKind_map (h : OfKind K seen) {f : Entry → Entry} (hValue : ∀ e, (f e).value = e.value) :
    OfKind K (seen.map f) := by
  intro e he
  obtain ⟨old, hOld, rfl⟩ := Option.map_eq_some_iff.1 he
  rw [hValue]
  exact h old hOld

/-- A value that replaces another is of its own kind, whatever the other was. -/
theorem ofKind_replace (old? : Option Entry) {v : Value} (h : v.kind = K) :
    OfKind K (some (.replace old? v)) := ofKind_some h

/-- A value that goes if it is empty leaves its kind or none. -/
theorem ofKind_replaceUnlessEmpty (old? : Option Entry) {v : Value} (h : v.kind = K) :
    OfKind K (replaceUnlessEmpty old? v) := by
  unfold replaceUnlessEmpty
  split
  · exact ofKind_none
  · exact ofKind_replace old? h

end Entry

/-- If there is an answer, what stays at the key is of a kind. -/
def AnswerOf (K : Value.Kind) (r : Except Halt (Datum × Option Entry)) : Prop :=
  ∀ reply after, r = .ok (reply, after) → Entry.OfKind K after

namespace AnswerOf

/-- An answer is of the kind of the entry that it leaves. -/
theorem ok {reply : Datum} {after : Option Entry} (h : Entry.OfKind K after) :
    AnswerOf K (.ok (reply, after)) := by
  rintro _ _ ⟨⟩
  exact h

/-- A refusal leaves no entry, so it is of any kind. -/
theorem error (h : Halt) : AnswerOf K (.error h) := by
  rintro _ _ ⟨⟩

/-- A check before an answer has no part in the kind. -/
theorem bind {α : Type} {x : Except Halt α} {f : α → Except Halt (Datum × Option Entry)}
    (h : ∀ a, AnswerOf K (f a)) : AnswerOf K (x >>= f) := by
  cases x with
  | error e => exact error e
  | ok a => exact h a

end AnswerOf

/-- A step for values of one kind: it refuses the others, and leaves none but its own. -/
structure KeyStep.OfKind (K : Value.Kind) (step : KeyStep) : Prop where
  others : ∀ e : Entry, e.value.kind ≠ K → step (some e) = refuse .wrongType
  answer : ∀ seen, Entry.OfKind K seen → AnswerOf K (step seen)

namespace KeyStep.OfKind

variable {step : KeyStep} {α : Type} {kind? : Value → Option α}

/-- Whatever was seen, what is left is of the kind. -/
theorem leaves (h : step.OfKind K) {reply : Datum} {e : Entry}
    (hOk : step seen = .ok (reply, some e)) : e.value.kind = K := by
  have hSeen : Entry.OfKind K seen := by
    rintro old ⟨⟩
    by_contra hOther
    rw [h.others old hOther] at hOk
    cases hOk
  exact h.answer seen hSeen reply (some e) hOk e rfl

/-- A step that asks for a kind of value first. -/
theorem ofExpect (hKind : K.ReadBy kind?)
    {next : Option Entry → Option α → Except Halt (Datum × Option Entry)}
    (hStep : ∀ seen, step seen = expect kind? seen >>= next seen)
    (hNext : ∀ seen a?, Entry.OfKind K seen → AnswerOf K (next seen a?)) : step.OfKind K where
  others := by
    intro e hOther
    have hNone : kind? e.value = none := by
      have hSome := hKind e.value
      rw [decide_eq_false hOther] at hSome
      exact Option.isSome_eq_false_iff.1 hSome |> Option.isNone_iff_eq_none.1
    rw [hStep]
    simp only [expect, hNone]
    rfl
  answer := by
    intro seen hSeen
    rw [hStep]
    exact .bind fun a? => hNext seen a? hSeen

/-- A step that answers from a value of its kind and leaves it. -/
theorem reading (hKind : K.ReadBy kind?) {reply : Option α → Datum}
    (hStep : ∀ seen, step seen = expect kind? seen >>= fun a? => keep seen (reply a?)) :
    step.OfKind K := ofExpect hKind hStep fun _ _ hSeen => .ok hSeen

/-- A step that writes what it makes of a value of its kind, with the old deadline. -/
theorem writing (hKind : K.ReadBy kind?) {reply : Option α → Datum} {new : Option α → Value}
    (hNew : ∀ a?, (new a?).kind = K)
    (hStep : ∀ seen, step seen =
      expect kind? seen >>= fun a? => .ok (reply a?, some (.replace seen (new a?)))) :
    step.OfKind K := ofExpect hKind hStep fun seen a? _ => .ok (Entry.ofKind_replace seen (hNew a?))

end KeyStep.OfKind

end Steps

namespace Strings

theorem get_ofKind : KeyStep.OfKind .string get := .reading Value.readBy_string? fun _ => rfl

/-- GETEX asks for a string before it looks at its options. -/
theorem getex_ofKind (now : Float) (options : List Octets) :
    KeyStep.OfKind .string (getex now options) := by
  refine .ofExpect Value.readBy_string? (fun _ => rfl) fun seen value hSeen => ?_
  have hNew (deadline? : Option Float) :
      Entry.OfKind .string (seen.map fun e => { e with deadline? := deadline? }) :=
    Entry.ofKind_map hSeen fun _ => rfl
  split
  · exact .ok hSeen
  · split
    · exact .ok (hNew none)
    · exact .error _
  · split
    · split
      · exact .bind fun amount => .bind fun deadline => .ok (hNew (some deadline))
      · exact .error _
    · exact .error _
  · exact .error _

theorem strlen_ofKind : KeyStep.OfKind .string strlen := .reading Value.readBy_string? fun _ => rfl

theorem append_ofKind (value : Octets) : KeyStep.OfKind .string (append value) :=
  .writing Value.readBy_string? (fun _ => rfl) fun _ => rfl

/-- A counter is written back as a string. -/
theorem writeInt_ofKind (seen : Option Entry) (number : Int) :
    AnswerOf .string (writeInt seen number) := by
  unfold writeInt
  split
  · exact .error _
  · exact .ok (Entry.ofKind_replace seen rfl)

/-- Counting asks for a string, and leaves one. -/
theorem add_ofKind (amount : Int) : KeyStep.OfKind .string (add amount) := by
  refine .ofExpect Value.readBy_string? (fun _ => rfl) fun seen old _ => ?_
  cases old with
  | none => exact writeInt_ofKind seen amount
  | some w => exact .bind fun number => writeInt_ofKind seen (number + amount)

end Strings

namespace Hashes

theorem hsetStep_ofKind (pairs : List (Octets × Octets)) : KeyStep.OfKind .hash (hsetStep pairs) :=
  .writing Value.readBy_hash? (fun _ => rfl) fun _ => rfl

theorem hget_ofKind (field : Octets) : KeyStep.OfKind .hash (hget field) :=
  .reading Value.readBy_hash? fun _ => rfl

/-- Deleting fields leaves a hash or none. -/
theorem hdel_ofKind (fields : List Octets) : KeyStep.OfKind .hash (hdel fields) := by
  refine .ofExpect Value.readBy_hash? (fun _ => rfl) fun seen fields? hSeen => ?_
  cases fields? with
  | none => exact .ok hSeen
  | some old => exact .ok (Entry.ofKind_replaceUnlessEmpty seen rfl)

theorem hgetall_ofKind : KeyStep.OfKind .hash hgetall := .reading Value.readBy_hash? fun _ => rfl

theorem hexists_ofKind (field : Octets) : KeyStep.OfKind .hash (hexists field) :=
  .reading Value.readBy_hash? fun _ => rfl

theorem hlen_ofKind : KeyStep.OfKind .hash hlen := .reading Value.readBy_hash? fun _ => rfl

end Hashes

namespace Lists

theorem pushStep_ofKind (e : End) (elements : List Octets) :
    KeyStep.OfKind .list (pushStep e elements) :=
  .writing Value.readBy_list? (fun _ => rfl) fun _ => rfl

/-- A pop leaves a list or none. -/
theorem popStep_ofKind (e : End) : KeyStep.OfKind .list (popStep e) := by
  refine .ofExpect Value.readBy_list? (fun _ => rfl) fun seen items? hSeen => ?_
  dsimp only
  split
  · exact .ok hSeen
  · exact .ok (Entry.ofKind_replaceUnlessEmpty seen rfl)

theorem llen_ofKind : KeyStep.OfKind .list llen := .reading Value.readBy_list? fun _ => rfl

theorem lrange_ofKind (first last : Octets) : KeyStep.OfKind .list (lrange first last) :=
  .ofExpect Value.readBy_list? (fun _ => rfl) fun _ _ hSeen =>
    .bind fun _ => .bind fun _ => .ok hSeen

theorem lposStep_ofKind (q : Search) (element : Octets) :
    KeyStep.OfKind .list (lposStep q element) :=
  .reading Value.readBy_list? fun _ => rfl

end Lists

namespace Sets

theorem sadd_ofKind (ms : List Octets) : KeyStep.OfKind .set (sadd ms) :=
  .writing Value.readBy_set? (fun _ => rfl) fun _ => rfl

/-- Removing members leaves a set or none. -/
theorem srem_ofKind (ms : List Octets) : KeyStep.OfKind .set (srem ms) := by
  refine .ofExpect Value.readBy_set? (fun _ => rfl) fun seen members? hSeen => ?_
  cases members? with
  | none => exact .ok hSeen
  | some old => exact .ok (Entry.ofKind_replaceUnlessEmpty seen rfl)

theorem smembers_ofKind : KeyStep.OfKind .set smembers := .reading Value.readBy_set? fun _ => rfl

theorem sismember_ofKind (m : Octets) : KeyStep.OfKind .set (sismember m) :=
  .reading Value.readBy_set? fun _ => rfl

theorem scard_ofKind : KeyStep.OfKind .set scard := .reading Value.readBy_set? fun _ => rfl

end Sets

namespace SortedSets

/-- The scores at a key are asked for as a sorted set. -/
theorem scoresAt_bind {α : Type} (seen : Option Entry) (next : Table Datum Datum → Except Halt α) :
    scoresAt seen >>= next =
      expect Value.zset? seen >>= fun scores? => next (scores?.getD .empty) := by
  unfold scoresAt
  cases expect Value.zset? seen <;> rfl

theorem zaddStep_ofKind (pairs : List (Datum × Datum)) : KeyStep.OfKind .zset (zaddStep pairs) :=
  .writing Value.readBy_zset? (fun _ => rfl) fun seen => scoresAt_bind seen _

/-- Removing members leaves a sorted set or none. -/
theorem zrem_ofKind (members : List Octets) : KeyStep.OfKind .zset (zrem members) := by
  refine .ofExpect Value.readBy_zset? (fun _ => rfl) fun seen scores? hSeen => ?_
  cases scores? with
  | none => exact .ok hSeen
  | some old => exact .ok (Entry.ofKind_replaceUnlessEmpty seen rfl)

theorem zscore_ofKind (member : Octets) : KeyStep.OfKind .zset (zscore member) :=
  .reading Value.readBy_zset? fun seen => scoresAt_bind seen _

theorem zcard_ofKind : KeyStep.OfKind .zset zcard :=
  .reading Value.readBy_zset? fun seen => scoresAt_bind seen _

theorem zrangeStep_ofKind (plan : RangePlan) (first last : Octets) :
    KeyStep.OfKind .zset (zrangeStep plan first last) :=
  .ofExpect Value.readBy_zset? (fun seen => scoresAt_bind seen _) fun _ _ hSeen =>
    .bind fun _ => .ok hSeen

/-- Popping the extremes leaves a sorted set or none. -/
theorem zpopStep_ofKind (e : Extreme) (count : Int) : KeyStep.OfKind .zset (zpopStep e count) := by
  refine .ofExpect Value.readBy_zset? (fun _ => rfl) fun seen scores? hSeen => ?_
  cases scores? with
  | none => exact .ok hSeen
  | some old => exact .bind fun popped => .ok (Entry.ofKind_replaceUnlessEmpty seen rfl)

end SortedSets

/-- Places are held as a sorted set. -/
theorem Places.geoaddStep_ofKind (flags : Flags) (places : List (Datum × Datum)) :
    KeyStep.OfKind .zset (geoaddStep flags places) :=
  .ofExpect Value.readBy_zset? (fun seen => SortedSets.scoresAt_bind seen _) fun seen _ _ =>
    .ok (Entry.ofKind_replaceUnlessEmpty seen rfl)

namespace Store

/-! ## Commands of one kind -/

/-- An act that is refused at once, or does a step of a kind on a key. -/
def OnKind (K : Value.Kind) (now : Float) (key : Octets) (p : Step) : Prop :=
  ∀ s, (∃ r, p s = (refuse r, s)) ∨
    ∃ step : KeyStep, step.OfKind K ∧ p s = onKey now key step s

namespace OnKind

variable {K : Value.Kind} {now : Float} {key : Octets} {α : Type}

/-- What refuses at once has done nothing to the key. -/
theorem refused (r : Refusal) : OnKind K now key fun s => (refuse r, s) :=
  fun _ => .inl ⟨r, rfl⟩

theorem onKey {step : KeyStep} (h : step.OfKind K) : OnKind K now key (Store.onKey now key step) :=
  fun _ => .inr ⟨step, h, rfl⟩

/-- Words that are read first may be refused. -/
theorem given {good : α → Prop} {x : Except Halt α} {next : α → Step}
    (hx : Yields good (fun _ => False) x) (hNext : ∀ a, OnKind K now key (next a)) :
    OnKind K now key (Store.given x next) := by
  intro s
  rcases x with ⟨r | fault⟩ | a
  · exact .inl ⟨r, rfl⟩
  · exact (hx.fault fault rfl).elim
  · exact hNext a s

/-- HSET takes its words in pairs before it looks at the key. -/
theorem hset (words : List Octets) : OnKind .hash now key (Hashes.hset now key words) := by
  unfold Hashes.hset
  split
  · exact refused _
  · exact onKey (Hashes.hsetStep_ofKind _)

/-- ZADD reads its scores before it looks at the key. -/
theorem zadd (words : List Octets) : OnKind .zset now key (SortedSets.zadd now key words) := by
  unfold SortedSets.zadd
  split
  · exact refused _
  · exact given (SortedSets.yields_readScores _) fun _ => onKey (SortedSets.zaddStep_ofKind _)

/-- GEOADD reads its flags and its places before it looks at the key. -/
theorem geoadd (words : List Octets) : OnKind .zset now key (Places.geoadd now key words) := by
  unfold Places.geoadd
  dsimp only
  split
  · exact refused _
  · exact refused _
  · exact given (Places.yields_readPlaces _) fun _ => onKey (Places.geoaddStep_ofKind _ _)

end OnKind

/-- A command for values of a kind is refused at once, or does a step of the kind on its key. -/
theorem step_onKind {t : CommandType} {K : Value.Kind} (h : t.kind? = some K) (now : Float)
    (key : Octets) (rest : List Octets) : OnKind K now key (step now t (key :: rest)) := by
  cases t <;> cases h
  case get.refl => cases rest <;> [exact .onKey Strings.get_ofKind; exact .refused _]
  case getex.refl => exact .onKey (Strings.getex_ofKind now rest)
  case append.refl =>
      match rest with
      | [word] => exact .onKey (Strings.append_ofKind word)
      | [] | _ :: _ :: _ => exact .refused _
  case incr.refl => cases rest <;> [exact .onKey (Strings.add_ofKind 1); exact .refused _]
  case incrby.refl =>
      match rest with
      | [amount] => exact .given (yields_readInt amount) fun _ => .onKey (Strings.add_ofKind _)
      | [] | _ :: _ :: _ => exact .refused _
  case decr.refl => cases rest <;> [exact .onKey (Strings.add_ofKind (-1)); exact .refused _]
  case decrby.refl =>
      match rest with
      | [amount] => exact .given (yields_readInt amount) fun _ => .onKey (Strings.add_ofKind _)
      | [] | _ :: _ :: _ => exact .refused _
  case strlen.refl => cases rest <;> [exact .onKey Strings.strlen_ofKind; exact .refused _]
  case hset.refl => exact .hset rest
  case hget.refl =>
      match rest with
      | [word] => exact .onKey (Hashes.hget_ofKind word)
      | [] | _ :: _ :: _ => exact .refused _
  case hdel.refl => exact .onKey (Hashes.hdel_ofKind rest)
  case hgetall.refl => cases rest <;> [exact .onKey Hashes.hgetall_ofKind; exact .refused _]
  case hexists.refl =>
      match rest with
      | [word] => exact .onKey (Hashes.hexists_ofKind word)
      | [] | _ :: _ :: _ => exact .refused _
  case hlen.refl => cases rest <;> [exact .onKey Hashes.hlen_ofKind; exact .refused _]
  case lpush.refl => exact .onKey (Lists.pushStep_ofKind .left rest)
  case rpush.refl => exact .onKey (Lists.pushStep_ofKind .right rest)
  case lpop.refl => cases rest <;> [exact .onKey (Lists.popStep_ofKind .left); exact .refused _]
  case rpop.refl => cases rest <;> [exact .onKey (Lists.popStep_ofKind .right); exact .refused _]
  case llen.refl => cases rest <;> [exact .onKey Lists.llen_ofKind; exact .refused _]
  case lrange.refl =>
      match rest with
      | [first, last] => exact .onKey (Lists.lrange_ofKind first last)
      | [] | [_] | _ :: _ :: _ :: _ => exact .refused _
  case lpos.refl =>
      match rest with
      | element :: options =>
          exact .given (yields_search {} options) fun q => .onKey (Lists.lposStep_ofKind q element)
      | [] => exact .refused _
  case sadd.refl => exact .onKey (Sets.sadd_ofKind rest)
  case srem.refl => exact .onKey (Sets.srem_ofKind rest)
  case smembers.refl => cases rest <;> [exact .onKey Sets.smembers_ofKind; exact .refused _]
  case sismember.refl =>
      match rest with
      | [word] => exact .onKey (Sets.sismember_ofKind word)
      | [] | _ :: _ :: _ => exact .refused _
  case scard.refl => cases rest <;> [exact .onKey Sets.scard_ofKind; exact .refused _]
  case zadd.refl => exact .zadd rest
  case zrem.refl => exact .onKey (SortedSets.zrem_ofKind rest)
  case zscore.refl =>
      match rest with
      | [word] => exact .onKey (SortedSets.zscore_ofKind word)
      | [] | _ :: _ :: _ => exact .refused _
  case zcard.refl => cases rest <;> [exact .onKey SortedSets.zcard_ofKind; exact .refused _]
  case zrange.refl =>
      match rest with
      | first :: last :: options =>
          exact .given (yields_rangePlan {} options) fun plan =>
            .onKey (SortedSets.zrangeStep_ofKind plan first last)
      | [] | [_] => exact .refused _
  case zpopmin.refl =>
    exact .given (yields_count _) fun _ => .onKey (SortedSets.zpopStep_ofKind .least _)
  case zpopmax.refl =>
    exact .given (yields_count _) fun _ => .onKey (SortedSets.zpopStep_ofKind .greatest _)
  case geoadd.refl => exact .geoadd rest

section Run

variable {now : Float} {s : Store} {c : Command} {t : CommandType} {K : Value.Kind} {key : Octets}
  {rest : List Octets}

/-- A command of any spelling whose type is for one kind runs on its key as that kind asks for. -/
theorem run_onKind (hRequest : c.request? = some (t, key :: rest)) (h : t.kind? = some K)
    (now : Float) : OnKind K now key (run now c) := by
  intro s
  rw [run_of_request? hRequest, runType]
  split
  · exact step_onKind h now key rest s
  · exact .inl ⟨_, rfl⟩

/-- A command for values of a kind is refused if its key holds a value of another, and leaves the
store as it was, but for expired keys. -/
theorem run_refuses_others (hs : s.Sound) (hRequest : c.request? = some (t, key :: rest))
    (h : t.kind? = some K) {e : Entry} (hLive : s.live? now s.selected key = some e)
    (hOther : e.value.kind ≠ K) :
    ∃ r, (run now c s).1 = .error (.refused r) ∧ s.Untouched now (run now c s).2 := by
  have hRefused : ∃ r, (run now c s).1 = .error (.refused r) := by
    obtain ⟨r, hRun⟩ | ⟨step, hStep, hRun⟩ := run_onKind hRequest h now s
    · exact ⟨r, by rw [hRun]; rfl⟩
    · have hFails : step (s.live? now s.selected key) = .error (.refused .wrongType) := by
        rw [hLive]
        exact hStep.others e hOther
      exact ⟨.wrongType, by rw [hRun, onKey_error hFails]⟩
  obtain ⟨r, hReply⟩ := hRefused
  exact ⟨r, hReply, run_untouched hs hReply⟩

end Run

end Store

end BatchStore
