import BatchStore.Proofs.Store.WellFormed

/-!
# Orderly key steps

A key step may go wrong in two ways. It may be refused, which is always in order, or it may
break down, which is not; and what it leaves at the key may be malformed. `KeyStep.Orderly cause
step` says that `step` makes well-formed values of well-formed values, and that it breaks down
only where `cause` holds of what it sees and of the fault. Most steps never break down at all
(`Faultless`). The others do so on numbers that do not fit: a lifetime past the largest double,
a counter past the longest numeral, a deadline that is no number of seconds away; or on a sorted
set whose members cannot be ranked, which only a foreign payload can bring in.

`Yields` is the same for a single result, so that steps are followed from one line to the next.
-/

namespace BatchStore

/-- A result is as told, and a fault has a cause as told. A refusal is always in order. -/
structure Yields {α : Type} (good : α → Prop) (cause : Fault → Prop) (x : Except Halt α) :
    Prop where
  result : ∀ a, x = .ok a → good a
  fault : ∀ f, x = .error (.faulted f) → cause f

namespace Yields

variable {α β : Type} {good : α → Prop} {goal : β → Prop} {cause cause' : Fault → Prop}

theorem ok {a : α} (h : good a) : Yields good cause (.ok a) where
  result := by
    intro a' hOk
    cases hOk
    exact h
  fault := fun _ hNever => nomatch hNever

theorem refused (r : Refusal) : Yields good cause (refuse r) where
  result := fun _ hNever => nomatch hNever
  fault := fun _ hNever => nomatch hNever

theorem faulted {f : Fault} (h : cause f) : Yields good cause (breakDown f) where
  result := fun _ hNever => nomatch hNever
  fault := by
    intro f' hFault
    cases hFault
    exact h

/-- What the first result is known to be is at hand when the second is followed. -/
theorem bind {x : Except Halt α} {f : α → Except Halt β} (hx : Yields good cause x)
    (hf : ∀ a, x = .ok a → good a → Yields goal cause (f a)) : Yields goal cause (x >>= f) := by
  rcases x with ⟨r | fault⟩ | a
  · exact refused r
  · exact faulted (hx.fault fault rfl)
  · exact hf a rfl (hx.result a rfl)

theorem map {x : Except Halt α} (g : α → β) (hx : Yields good cause x)
    (hg : ∀ a, good a → goal (g a)) : Yields goal cause (x.map g) := by
  rcases x with ⟨r | fault⟩ | a
  · exact refused r
  · exact faulted (hx.fault fault rfl)
  · exact ok (hg a (hx.result a rfl))

/-- A fault with a narrower cause has any wider one. -/
theorem weaken {x : Except Halt α} (hx : Yields good cause x) (h : ∀ f, cause f → cause' f) :
    Yields good cause' x :=
  ⟨hx.result, fun f hf => h f (hx.fault f hf)⟩

end Yields

/-- A step that makes well-formed values of well-formed values, and breaks down only for a
cause. -/
def KeyStep.Orderly (cause : Option Entry → Fault → Prop) (step : KeyStep) : Prop :=
  ∀ seen, Yields (fun a => Entry.WellFormed seen → Entry.WellFormed a.2) (cause seen) (step seen)

/-- An orderly step that never breaks down. -/
abbrev KeyStep.Faultless (step : KeyStep) : Prop := step.Orderly fun _ _ => False

/-! ## Lines of steps -/

section Lines

variable {cause : Fault → Prop} {seen : Option Entry}

/-- What a line leaves at the key, given that what was seen there is well-formed. -/
abbrev Leaves (cause : Fault → Prop) (seen : Option Entry) :
    Except Halt (Datum × Option Entry) → Prop :=
  Yields (fun a => Entry.WellFormed seen → Entry.WellFormed a.2) cause

/-- A step that leaves the key as it is leaves a well-formed value there. -/
theorem leaves_keep (reply : Datum) : Leaves cause seen (keep seen reply) := .ok fun h => h

/-- The value of the expected kind; a value of another kind is refused. -/
theorem yields_expect {α : Type} (kind? : Value → Option α) :
    Yields (fun a? => expect kind? seen = .ok a?) cause (expect kind? seen) :=
  ⟨fun _ h => h, fun f hFault => by
    unfold expect at hFault
    split at hFault
    · cases hFault
    · split at hFault <;> cases hFault⟩

/-- A word is read as the number that it spells, and is refused if it spells none. -/
theorem yields_readInt (w : Octets) :
    Yields (fun n => Number.int? w = some n) cause (readInt w) := by
  unfold readInt
  split
  · exact .ok ‹_›
  · exact .refused _

theorem yields_readReal (w : Octets) :
    Yields (fun x => Number.real? w = some x) cause (readReal w) := by
  unfold readReal
  split
  · exact .ok ‹_›
  · exact .refused _

end Lines

/-! ## Deadlines -/

/-- A whole number of seconds, or of milliseconds, that no double is near to. -/
def TooFar (unit : Keyword) (amount : Int) (f : Fault) : Prop :=
  match unit with
  | .ex | .exat => f = .integerTooLarge ∧ Number.ofInt? amount = none
  | _ => f = .quotientTooLarge ∧ Number.thousandth? amount = none

/-- An integer breaks down as a double only if it is past the largest. -/
theorem yields_asReal (n : Int) :
    Yields (fun _ => True) (fun f => f = .integerTooLarge ∧ Number.ofInt? n = none) (asReal n) := by
  unfold asReal
  split
  · exact .ok trivial
  · rename_i hNone
    exact .faulted ⟨rfl, hNone⟩

/-- Milliseconds break down as seconds only if their thousandth is past the largest double. -/
theorem yields_asSeconds (n : Int) :
    Yields (fun _ => True) (fun f => f = .quotientTooLarge ∧ Number.thousandth? n = none)
      (asSeconds n) := by
  unfold asSeconds
  split
  · exact .ok trivial
  · rename_i hNone
    exact .faulted ⟨rfl, hNone⟩

/-- A deadline breaks down only at an amount too large for its unit. -/
theorem yields_deadlineOf (now : Float) {unit : Keyword} (hUnit : unit.setsDeadline = true)
    (amount : Int) : Yields (fun _ => True) (TooFar unit amount) (deadlineOf now unit amount) := by
  have hSpan {x : Except Halt Float} {cause : Fault → Prop}
      (hx : Yields (fun _ => True) cause x) : Yields (fun _ => True) cause
        (if amount ≤ 0 then refuse .invalidExpireTime else x.map (now + ·)) := by
    split
    · exact .refused _
    · exact hx.map _ fun _ _ => trivial
  cases unit with
  | ex => exact hSpan (yields_asReal amount)
  | px => exact hSpan (yields_asSeconds amount)
  | exat => exact yields_asReal amount
  | pxat => exact yields_asSeconds amount
  | _ => cases hUnit

/-- A word that sets a deadline, and behind it a number that is too large for one. -/
def LongDeadline (words : List Octets) (f : Fault) : Prop :=
  ∃ before word amount behind k n, words = before ++ word :: amount :: behind ∧
    Keyword.ofOctets? word = some k ∧ k.setsDeadline = true ∧ Number.int? amount = some n ∧
    TooFar k n f

/-- A deadline among some words is one among more of them. -/
theorem LongDeadline.cons {words : List Octets} {f : Fault} (h : LongDeadline words f)
    (w : Octets) : LongDeadline (w :: words) f := by
  obtain ⟨before, word, amount, behind, k, n, rfl, hRest⟩ := h
  exact ⟨w :: before, word, amount, behind, k, n, rfl, hRest⟩

/-! ## Keys of any kind -/

namespace Keys

theorem delete_orderly : KeyStep.Faultless delete := fun _ => .ok fun _ => Entry.wellFormed_none

theorem exists?_orderly : KeyStep.Faultless exists? := fun _ => leaves_keep _

/-- EXPIRE breaks down on a positive number of seconds that no double is near to, if there is a
key. -/
theorem expireStep_orderly (now : Float) (seconds : Int) :
    (expireStep now seconds).Orderly fun seen f =>
      seen.isSome = true ∧ 0 < seconds ∧ TooFar .ex seconds f := by
  intro seen
  unfold expireStep
  split
  · exact leaves_keep _
  · rename_i e
    split
    · exact .ok fun _ => Entry.wellFormed_none
    · rename_i hPositive
      have hSpan := (yields_asReal seconds).weaken
        (fun f hf => (⟨rfl, by omega, hf⟩ : (some e).isSome = true ∧ 0 < seconds ∧
          TooFar .ex seconds f))
      refine hSpan.bind fun span _ _ => .ok fun hSeen => Entry.wellFormed_some ?_
      exact hSeen e rfl

/-- A deadline that is no number of seconds away. -/
def Unmeasured (now : Float) (seen : Option Entry) : Prop :=
  ∃ e t, seen = some e ∧ e.deadline? = some t ∧ Number.Dyadic.ofFloat? (t - now) = none

/-- TTL breaks down only at a deadline that is no number of seconds away. -/
theorem ttl_orderly (now : Float) :
    (ttl now).Orderly fun seen _ => Unmeasured now seen := by
  intro seen
  unfold ttl
  split
  · exact leaves_keep _
  · rename_i e
    split
    · exact leaves_keep _
    · rename_i t hDeadline
      have hRound : Yields (fun _ => True) (fun _ => Unmeasured now (some e))
          (roundReal (t - now)) := by
        unfold roundReal
        split
        · exact .ok trivial
        · rename_i hNone
          exact .faulted ⟨e, t, rfl, hDeadline, hNone⟩
      exact hRound.bind fun seconds _ _ => leaves_keep _

theorem persist_orderly : KeyStep.Faultless persist :=
  fun _ => .ok fun hSeen => Entry.wellFormed_map hSeen fun _ => rfl

theorem type_orderly : KeyStep.Faultless type := fun _ => leaves_keep _

end Keys

/-! ## Strings -/

namespace Strings

/-- SET writes a string or leaves what is at the key. -/
theorem step_orderly (plan : SetPlan) (value : Octets) : KeyStep.Faultless (plan.step value) := by
  intro seen
  have hAfter (hSeen : Entry.WellFormed seen) :
      Entry.WellFormed (if plan.guard.allows seen then
        some { value := .string value, deadline? := plan.newDeadline seen } else seen) := by
    split
    · exact Entry.wellFormed_some (Value.wellFormed_string value)
    · exact hSeen
  unfold SetPlan.step
  split
  · exact (yields_expect _).bind fun old _ _ => .ok hAfter
  · exact .ok hAfter

theorem get_orderly : KeyStep.Faultless get :=
  fun _ => (yields_expect _).bind fun _ _ _ => leaves_keep _

/-- GETEX breaks down only at a deadline that its options set too far away. -/
theorem getex_orderly (now : Float) (options : List Octets) :
    (getex now options).Orderly fun _ f => LongDeadline options f := by
  intro seen
  refine (yields_expect _).bind fun value _ _ => ?_
  have hNew (deadline? : Option Float) (hSeen : Entry.WellFormed seen) :
      Entry.WellFormed (seen.map fun e => { e with deadline? := deadline? }) :=
    Entry.wellFormed_map hSeen fun _ => rfl
  split
  · exact leaves_keep _
  · split
    · exact .ok (hNew none)
    · exact .refused _
  · rename_i w v
    split
    · rename_i k hWord
      split
      · rename_i hUnit
        refine (yields_readInt v).bind fun amount _ hAmount => ?_
        have hDeadline := (yields_deadlineOf now hUnit amount).weaken
          (fun f hf => (⟨[], w, v, [], k, amount, rfl, hWord, hUnit, hAmount, hf⟩ :
            LongDeadline [w, v] f))
        exact hDeadline.bind fun deadline _ _ => .ok (hNew (some deadline))
      · exact .refused _
    · exact .refused _
  · exact .refused _

theorem strlen_orderly : KeyStep.Faultless strlen :=
  fun _ => (yields_expect _).bind fun _ _ _ => leaves_keep _

theorem peek_orderly : KeyStep.Faultless peek := fun _ => leaves_keep _

theorem append_orderly (value : Octets) : KeyStep.Faultless (append value) :=
  fun seen => (yields_expect _).bind fun _ _ _ =>
    .ok fun _ => Entry.wellFormed_replace seen (Value.wellFormed_string _)

/-- A number that is too long to be written. -/
def TooLong (n : Int) (f : Fault) : Prop := f = .tooManyDigits ∧ Number.intText? n = none

/-- A counter breaks down only where its numeral is past the longest. -/
theorem writeInt_leaves (seen : Option Entry) (number : Int) :
    Leaves (TooLong number) seen (writeInt seen number) := by
  unfold writeInt
  split
  · rename_i hNone
    exact .faulted ⟨rfl, hNone⟩
  · exact .ok fun _ => Entry.wellFormed_replace seen (Value.wellFormed_string _)

/-- The number that a key counts, a missing one being at zero. -/
def counted? : Option Entry → Option Int
  | none => some 0
  | some e => e.value.string?.bind Number.int?

/-- A counter breaks down where the number after the change is too long to be written. -/
theorem add_orderly (amount : Int) :
    (add amount).Orderly fun seen f =>
      ∃ n, counted? seen = some n ∧ TooLong (n + amount) f := by
  intro seen
  refine (yields_expect _).bind fun old _ hOld => ?_
  cases old with
  | none =>
      have hZero : counted? seen = some 0 := by
        cases seen with
        | none => rfl
        | some e =>
            unfold expect at hOld
            dsimp only at hOld
            split at hOld <;> cases hOld
      have hCause :
          ∀ f, TooLong amount f → ∃ n, counted? seen = some n ∧ TooLong (n + amount) f := by
        intro f hf
        refine ⟨0, hZero, ?_⟩
        rw [Int.zero_add]
        exact hf
      dsimp only
      exact (writeInt_leaves seen amount).weaken hCause
  | some w =>
      obtain ⟨e, rfl, hString⟩ := expect_eq_some hOld
      dsimp only
      refine (yields_readInt w).bind fun number _ hNumber => ?_
      have hCounted : counted? (some e) = some number := by
        show e.value.string?.bind Number.int? = some number
        rw [hString]
        exact hNumber
      have hCause : ∀ f, TooLong (number + amount) f →
          ∃ n, counted? (some e) = some n ∧ TooLong (n + amount) f :=
        fun f hf => ⟨number, hCounted, hf⟩
      exact (writeInt_leaves (some e) (number + amount)).weaken hCause

end Strings

/-! ## Hashes -/

namespace Hashes

/-- What holds of all fields holds of those that are left. -/
theorem each_removeAll {good : Datum × Datum → Prop} {t : Table Datum Datum} (h : t.Each good)
    (keys : List Octets) : (removeAll t keys).1.Each good := by
  induction keys generalizing t with
  | nil => exact h
  | cons key rest ih => exact ih (h.erase _)

/-- At least one field is set, so that the hash is not empty. -/
theorem hsetStep_orderly {pairs : List (Octets × Octets)} (h : pairs ≠ []) :
    KeyStep.Faultless (hsetStep pairs) := by
  intro seen
  refine (yields_expect _).bind fun fields? _ hFields =>
    .ok fun hSeen => Entry.wellFormed_replace seen ?_
  refine ⟨(hash_typed hSeen hFields).putAll ?_, fun _ => Table.isEmpty_putAll (.inl ?_)⟩
  · intro e he
    obtain ⟨p, -, rfl⟩ := List.mem_map.1 he
    exact ⟨Datum.isOctets_octets p.1, Datum.isOctets_octets p.2⟩
  · simpa using h

theorem hget_orderly (field : Octets) : KeyStep.Faultless (hget field) :=
  fun _ => (yields_expect _).bind fun _ _ _ => leaves_keep _

/-- A hash that has lost its last field goes, so that no empty one is left. -/
theorem hdel_orderly (fields : List Octets) : KeyStep.Faultless (hdel fields) := by
  intro seen
  refine (yields_expect _).bind fun fields? _ hFields => ?_
  cases fields? with
  | none => exact leaves_keep _
  | some old =>
      refine .ok fun hSeen => Entry.wellFormed_replaceUnlessEmpty seen ?_
      exact each_removeAll (hash_typed hSeen hFields) fields

theorem hgetall_orderly : KeyStep.Faultless hgetall :=
  fun _ => (yields_expect _).bind fun _ _ _ => leaves_keep _

theorem hexists_orderly (field : Octets) : KeyStep.Faultless (hexists field) :=
  fun _ => (yields_expect _).bind fun _ _ _ => leaves_keep _

theorem hlen_orderly : KeyStep.Faultless hlen :=
  fun _ => (yields_expect _).bind fun _ _ _ => leaves_keep _

end Hashes

/-! ## Lists -/

namespace Lists

/-- At least one element is pushed, so that the list is not empty. -/
theorem pushStep_orderly (e : End) {elements : List Octets} (h : elements ≠ []) :
    KeyStep.Faultless (pushStep e elements) := by
  intro seen
  refine (yields_expect _).bind fun items? _ hItems =>
    .ok fun hSeen => Entry.wellFormed_replace seen ⟨?_, ?_⟩
  · intro d hd
    rcases mem_push hd with hOld | hNew
    · exact list_typed hSeen hItems d hOld
    · exact hNew
  · intro _
    cases e <;> simp [push, Value.isEmpty, h]

/-- A list that has lost its last element goes, so that no empty one is left. -/
theorem popStep_orderly (e : End) : KeyStep.Faultless (popStep e) := by
  intro seen
  refine (yields_expect _).bind fun items? _ hItems => ?_
  dsimp only
  split
  · exact leaves_keep _
  · rename_i element new hPop
    refine .ok fun hSeen => Entry.wellFormed_replaceUnlessEmpty seen fun d hd => ?_
    exact list_typed hSeen hItems d ((mem_of_pop?_eq_some hPop).2 d hd)

theorem llen_orderly : KeyStep.Faultless llen :=
  fun _ => (yields_expect _).bind fun _ _ _ => leaves_keep _

theorem lrange_orderly (first last : Octets) : KeyStep.Faultless (lrange first last) :=
  fun _ => (yields_expect _).bind fun _ _ _ => (yields_readInt first).bind fun _ _ _ =>
    (yields_readInt last).bind fun _ _ _ => leaves_keep _

theorem lposStep_orderly (q : Search) (element : Octets) :
    KeyStep.Faultless (lposStep q element) :=
  fun _ => (yields_expect _).bind fun _ _ _ => leaves_keep _

end Lists

/-! ## Sets -/

namespace Sets

/-- A set to which a member is added, or that has one, is not empty. -/
theorem insertAll_filled (members : List Datum) {ms : List Octets} (h : ms ≠ [] ∨ members ≠ []) :
    insertAll members ms ≠ [] := by
  induction ms generalizing members with
  | nil => exact h.resolve_left fun hNever => hNever rfl
  | cons m ms ih =>
      refine ih (insert members m) (.inr ?_)
      unfold insert
      split
      · rename_i hThere
        intro hNil
        rw [hNil] at hThere
        cases hThere
      · simp

/-- Members of the set that comes out were members before or are octet strings. -/
theorem mem_insertAll {members : List Datum} {ms : List Octets} {d : Datum}
    (h : d ∈ insertAll members ms) : d ∈ members ∨ d.IsOctets := by
  induction ms generalizing members with
  | nil => exact .inl h
  | cons m ms ih =>
      rcases ih h with hInsert | hOctets
      · unfold insert at hInsert
        split at hInsert
        · exact .inl hInsert
        · rcases List.mem_append.1 hInsert with hOld | hNew
          · exact .inl hOld
          · exact .inr ⟨m, List.mem_singleton.1 hNew⟩
      · exact .inr hOctets

/-- At least one member is added, so that the set is not empty. -/
theorem sadd_orderly {ms : List Octets} (h : ms ≠ []) : KeyStep.Faultless (sadd ms) := by
  intro seen
  refine (yields_expect _).bind fun members? _ hMembers =>
    .ok fun hSeen => Entry.wellFormed_replace seen ⟨?_, ?_⟩
  · intro d hd
    rcases mem_insertAll hd with hOld | hNew
    · exact set_typed hSeen hMembers d hOld
    · exact hNew
  · intro _
    simpa [Value.isEmpty] using insertAll_filled (members?.getD []) (.inl h)

/-- A set that has lost its last member goes, so that no empty one is left. -/
theorem srem_orderly (ms : List Octets) : KeyStep.Faultless (srem ms) := by
  intro seen
  refine (yields_expect _).bind fun members? _ hMembers => ?_
  cases members? with
  | none => exact leaves_keep _
  | some old =>
      refine .ok fun hSeen => Entry.wellFormed_replaceUnlessEmpty seen fun d hd => ?_
      exact set_typed hSeen hMembers d (List.mem_filter.1 hd).1

theorem smembers_orderly : KeyStep.Faultless smembers :=
  fun _ => (yields_expect _).bind fun _ _ _ => leaves_keep _

theorem sismember_orderly (m : Octets) : KeyStep.Faultless (sismember m) :=
  fun _ => (yields_expect _).bind fun _ _ _ => leaves_keep _

theorem scard_orderly : KeyStep.Faultless scard :=
  fun _ => (yields_expect _).bind fun _ _ _ => leaves_keep _

end Sets

/-! ## Sorted sets -/

/-- A sorted set of which some member is not a string of octets, or some score not a double
other than NaN. -/
def Unrankable (seen : Option Entry) : Prop :=
  ∃ e scores, seen = some e ∧ e.value = .zset scores ∧ scores.entries.all Scored.isPlain = false

/-- Pairs of a string of octets and a double, as commands write them. -/
def MemberScores (pairs : List (Datum × Datum)) : Prop :=
  ∀ e ∈ pairs, e.1.IsOctets ∧ e.2.IsReal

theorem MemberScores.cons {pairs : List (Datum × Datum)} (h : MemberScores pairs) (w : Octets)
    (x : Float) : MemberScores ((.octets w, .real x) :: pairs) := by
  intro e he
  rcases List.mem_cons.1 he with rfl | hOther
  · exact ⟨Datum.isOctets_octets w, Datum.isReal_real x⟩
  · exact h e hOther

namespace SortedSets

/-- The scores that are read, as many as there are words for. -/
theorem yields_readScores {cause : Fault → Prop} (words : List (Octets × Octets)) :
    Yields (fun pairs => MemberScores pairs ∧ pairs.length = words.length) cause
      (readScores words) := by
  induction words with
  | nil => exact .ok ⟨(fun _ hNever => nomatch hNever), rfl⟩
  | cons word rest ih =>
      obtain ⟨score, member⟩ := word
      refine (yields_readReal score).bind fun x _ _ => ih.bind fun others _ hOthers => .ok ?_
      exact ⟨hOthers.1.cons member x, congrArg (· + 1) hOthers.2⟩

theorem yields_scoresAt {cause : Fault → Prop} (seen : Option Entry) :
    Yields (fun scores => scores = .empty ∨ ∃ e, seen = some e ∧ e.value = .zset scores) cause
      (scoresAt seen) := by
  refine (yields_expect Value.zset?).bind fun scores? _ hScores => .ok ?_
  cases scores? with
  | none => exact .inl rfl
  | some scores =>
      obtain ⟨e, hSeen, hKind⟩ := expect_eq_some hScores
      exact .inr ⟨e, hSeen, eq_zset_of_zset? hKind⟩

/-- Scores read from a well-formed entry are of the types that commands write. -/
theorem scoresAt_typed {seen : Option Entry} (hSeen : Entry.WellFormed seen)
    {scores : Table Datum Datum} (h : scoresAt seen = .ok scores) : (Value.zset scores).Typed := by
  obtain ⟨scores?, hExpect, hScores⟩ := ok_of_bind h
  cases hScores
  exact zset_typed hSeen hExpect

/-- At least one member is scored, so that the sorted set is not empty. -/
theorem zaddStep_orderly {pairs : List (Datum × Datum)} (h : MemberScores pairs)
    (hSome : pairs ≠ []) : KeyStep.Faultless (zaddStep pairs) := by
  intro seen
  refine (yields_scoresAt seen).bind fun scores hScores _ =>
    .ok fun hSeen => Entry.wellFormed_replace seen ⟨?_, ?_⟩
  · exact Table.Each.putAll (scoresAt_typed hSeen hScores) h
  · exact fun _ => Table.isEmpty_putAll (.inl hSome)

/-- A sorted set that has lost its last member goes, so that no empty one is left. -/
theorem zrem_orderly (members : List Octets) : KeyStep.Faultless (zrem members) := by
  intro seen
  refine (yields_expect _).bind fun scores? _ hScores => ?_
  cases scores? with
  | none => exact leaves_keep _
  | some old =>
      refine .ok fun hSeen => Entry.wellFormed_replaceUnlessEmpty seen ?_
      exact Hashes.each_removeAll (zset_typed hSeen hScores) members

theorem zscore_orderly (member : Octets) : KeyStep.Faultless (zscore member) :=
  fun seen => (yields_scoresAt seen).bind fun _ _ _ => leaves_keep _

theorem zcard_orderly : KeyStep.Faultless zcard :=
  fun seen => (yields_scoresAt seen).bind fun _ _ _ => leaves_keep _

/-- Members break down in ranking only if one of them is not plain. -/
theorem yields_inOrder (scores : Table Datum Datum) :
    Yields (fun members => scores.entries.all Scored.isPlain = true →
        members.all Scored.isPlain = true)
      (fun _ => scores.entries.all Scored.isPlain = false) (inOrder scores) := by
  unfold inOrder ranked
  cases hPlain : scores.entries.all Scored.isPlain with
  | false =>
      exact ⟨fun _ _ hNever => (nomatch hNever), fun _ _ => rfl⟩
  | true =>
      refine .ok fun _ => List.all_eq_true.2 fun m hm => ?_
      exact List.all_eq_true.1 hPlain m ((List.mergeSort_perm _ _).mem_iff.1 hm)

/-- A test breaks down over a row only where it does at some member. -/
theorem passing_fault {test : Scored → Except Fault Bool} {members : List Scored} {f : Fault}
    (h : passing test members = .error f) : ∃ m ∈ members, test m = .error f := by
  induction members with
  | nil => cases h
  | cons m ms ih =>
      unfold passing at h
      cases hTest : test m with
      | error f' =>
          rw [hTest] at h
          cases h
          exact ⟨m, List.mem_cons_self, hTest⟩
      | ok pass =>
          cases hRest : passing test ms with
          | error f' =>
              rw [hTest, hRest] at h
              cases h
              obtain ⟨m', hMem, hFault⟩ := ih hRest
              exact ⟨m', List.mem_cons_of_mem _ hMem, hFault⟩
          | ok others =>
              rw [hTest, hRest] at h
              cases h

/-- Two questions that both have an answer have one together. -/
theorem passesBoth_ok {first second : Except Fault Bool} (hFirst : ∃ a, first = .ok a)
    (hSecond : ∃ b, second = .ok b) : ∃ c, passesBoth first second = .ok c := by
  obtain ⟨a, rfl⟩ := hFirst
  obtain ⟨b, rfl⟩ := hSecond
  cases a
  · exact ⟨false, rfl⟩
  · exact ⟨b, rfl⟩

theorem holds_octets (c : Comparison) (v w : Octets) :
    ∃ b, c.holds (.octets v) (.octets w) = .ok b := ⟨_, rfl⟩

theorem holds_real (c : Comparison) (x y : Float) :
    ∃ b, c.holds (.real x) (.real y) = .ok b := ⟨_, rfl⟩

theorem LexEnd.admitsFrom_ok (e : LexEnd) (w : Octets) :
    ∃ b, e.admitsFrom (.octets w) = .ok b := by
  cases e with
  | unbounded u => cases u <;> exact ⟨_, rfl⟩
  | «at» v exclusive => exact holds_octets _ w v

theorem LexEnd.admitsTo_ok (e : LexEnd) (w : Octets) : ∃ b, e.admitsTo (.octets w) = .ok b := by
  cases e with
  | unbounded u => cases u <;> exact ⟨_, rfl⟩
  | «at» v exclusive => exact holds_octets _ w v

/-- A test that breaks down at no plain member breaks down only over rows that are not plain. -/
theorem yields_passing {test : Scored → Except Fault Bool} {members : List Scored}
    (hTest : ∀ w x, ∃ b, test (.octets w, .real x) = .ok b) :
    Yields (fun _ => True) (fun _ => members.all Scored.isPlain = false)
      (orBreakDown (passing test members)) := by
  cases hRun : passing test members with
  | ok chosen => exact .ok trivial
  | error f =>
      refine .faulted ?_
      obtain ⟨m, hMem, hFault⟩ := passing_fault hRun
      cases hPlain : members.all Scored.isPlain with
      | false => rfl
      | true =>
          have hm : Scored.isPlain m = true := List.all_eq_true.1 hPlain m hMem
          obtain ⟨member, score⟩ := m
          cases member <;> cases score <;> first
            | cases hm
            | (obtain ⟨b, hOk⟩ := hTest _ _
               rw [hOk] at hFault
               cases hFault)

/-- A range breaks down only over members that cannot all be ranked. -/
theorem yields_between (plan : RangePlan) (members : List Scored) (low high : Octets) :
    Yields (fun _ => True) (fun _ => members.all Scored.isPlain = false)
      (between plan members low high) := by
  unfold between
  split
  · split
    · exact .refused _
    · exact (yields_readInt low).bind fun _ _ _ => (yields_readInt high).bind fun _ _ _ =>
        .ok trivial
  · have hEnd (w : Octets) : Yields (fun _ => True) (fun _ => members.all Scored.isPlain = false)
        (ScoreEnd.read w) := by
      unfold ScoreEnd.read
      split
      · exact (yields_readReal _).bind fun _ _ _ => .ok trivial
      · exact (yields_readReal _).bind fun _ _ _ => .ok trivial
    refine (hEnd low).bind fun first _ _ => (hEnd high).bind fun last _ _ => ?_
    exact yields_passing fun w x => passesBoth_ok (holds_real _ x _) (holds_real _ x _)
  · have hEnd (w : Octets) : Yields (fun _ => True) (fun _ => members.all Scored.isPlain = false)
        (LexEnd.read w) := by
      unfold LexEnd.read
      split <;> first
        | exact .ok trivial
        | exact .refused _
    refine (hEnd low).bind fun first _ _ => (hEnd high).bind fun last _ _ => ?_
    exact yields_passing fun w x =>
      passesBoth_ok (LexEnd.admitsFrom_ok first w) (LexEnd.admitsTo_ok last w)

theorem all_reverse {α : Type} (p : α → Bool) (xs : List α) : xs.reverse.all p = xs.all p := by
  simp

/-- A range breaks down only over members that cannot be ranked. -/
theorem yields_select (plan : RangePlan) (scores : Table Datum Datum) (first last : Octets) :
    Yields (fun _ => True) (fun _ => scores.entries.all Scored.isPlain = false)
      (plan.select scores first last) := by
  refine (yields_inOrder scores).bind fun members _ hMembers => ?_
  have hRow (backwards : Bool) :
      (if backwards then members.reverse else members).all Scored.isPlain = false →
        scores.entries.all Scored.isPlain = false := by
    intro hNot
    cases hPlain : scores.entries.all Scored.isPlain with
    | false => rfl
    | true =>
        have hAll := hMembers hPlain
        cases backwards <;> simp [hAll] at hNot
  exact ((yields_between plan _ _ _).weaken fun _ => hRow plan.reverse).bind fun _ _ _ =>
    .ok trivial

/-- What cannot be ranked is a sorted set at the key. -/
theorem unrankable_of_scoresAt {seen : Option Entry} {scores : Table Datum Datum}
    (h : scores = .empty ∨ ∃ e, seen = some e ∧ e.value = .zset scores)
    (hNot : scores.entries.all Scored.isPlain = false) : Unrankable seen := by
  rcases h with rfl | ⟨e, hSeen, hValue⟩
  · cases hNot
  · exact ⟨e, scores, hSeen, hValue, hNot⟩

/-- ZRANGE breaks down only on a sorted set whose members cannot be ranked. -/
theorem zrangeStep_orderly (plan : RangePlan) (first last : Octets) :
    (zrangeStep plan first last).Orderly fun seen _ => Unrankable seen := by
  intro seen
  refine (yields_scoresAt seen).bind fun scores _ hScores => ?_
  have hSelect := (yields_select plan scores first last).weaken fun _ =>
    unrankable_of_scoresAt hScores
  exact hSelect.bind fun _ _ _ => leaves_keep _

/-- Popping the extremes breaks down only on a sorted set whose members cannot be ranked. -/
theorem zpopStep_orderly (e : Extreme) (count : Int) :
    (zpopStep e count).Orderly fun seen _ => Unrankable seen := by
  intro seen
  refine (yields_expect _).bind fun scores? _ hScores => ?_
  cases scores? with
  | none => exact leaves_keep _
  | some old =>
      obtain ⟨entry, hSeen, hKind⟩ := expect_eq_some hScores
      have hZset := eq_zset_of_zset? hKind
      have hOrder := (yields_inOrder old).weaken fun _ hNot =>
        (⟨entry, old, hSeen, hZset, hNot⟩ : Unrankable seen)
      have hPopped : Yields (fun _ => True) (fun _ => Unrankable seen) (extremes old e count) :=
        hOrder.bind fun _ _ _ => .ok trivial
      refine hPopped.bind fun popped _ _ =>
        .ok fun hSeen => Entry.wellFormed_replaceUnlessEmpty seen ?_
      exact Table.Each.withoutEntries (zset_typed hSeen hScores) popped

end SortedSets

/-! ## Places -/

namespace Places

/-- The scores of places are doubles, of members that are octet strings. -/
theorem yields_readPlaces {cause : Fault → Prop} (words : List (Octets × Octets × Octets)) :
    Yields MemberScores cause (readPlaces words) := by
  induction words with
  | nil => exact .ok fun _ hNever => nomatch hNever
  | cons word rest ih =>
      obtain ⟨longitude, latitude, member⟩ := word
      refine (yields_readReal longitude).bind fun x _ _ =>
        (yields_readReal latitude).bind fun y _ _ => ?_
      have hScore : Yields (fun _ => True) cause (score? x y) := by
        unfold score?
        split
        · exact .ok trivial
        · exact .refused _
      exact hScore.bind fun score _ _ => ih.bind fun others _ hOthers =>
        .ok (hOthers.cons member score)

/-- What holds of all scores, the new ones included, holds of those that are left. -/
theorem each_write {good : Datum × Datum → Prop} {flags : Flags} {scores : Table Datum Datum}
    {places : List (Datum × Datum)} (h : scores.Each good) (hNew : ∀ e ∈ places, good e) :
    (flags.write scores places).1.Each good := by
  induction places generalizing scores with
  | nil => exact h
  | cons place rest ih =>
      have hRest : ∀ e ∈ rest, good e := fun e he => hNew e (List.mem_cons_of_mem _ he)
      unfold Flags.write
      dsimp only
      split
      · exact ih (h.put (hNew place List.mem_cons_self)) hRest
      · exact ih h hRest

/-- A conditional GEOADD may write none of its places, so no set is left where there was none. -/
theorem geoaddStep_orderly (flags : Flags) {places : List (Datum × Datum)}
    (h : MemberScores places) : KeyStep.Faultless (geoaddStep flags places) := by
  intro seen
  refine (SortedSets.yields_scoresAt seen).bind fun scores hScores _ =>
    .ok fun hSeen => Entry.wellFormed_replaceUnlessEmpty seen ?_
  exact each_write (SortedSets.scoresAt_typed hSeen hScores) h

end Places

/-! ## Backups -/

/-- A payload that holds no stored value, or a well-formed one. -/
def Payload.Sane (payload : Octets) : Prop :=
  ∀ v, (read? payload).bind valueOf? = some v → v.WellFormed

namespace Backup

theorem dump_orderly : KeyStep.Faultless dump := fun _ => leaves_keep _

/-- What a payload brings in is well-formed if the payload is sane. -/
theorem step_yields {cause : Fault → Prop} (plan : RestorePlan) (payload : Octets)
    (seen : Option Entry) :
    Yields (fun a => Payload.Sane payload → Entry.WellFormed a.2) cause
      (plan.step payload seen) := by
  unfold RestorePlan.step RestorePlan.stepBy
  split
  · exact .refused _
  · split
    · exact .refused _
    · rename_i value hValue
      exact .ok fun hSane => Entry.wellFormed_some (hSane value hValue)

theorem withDeadline_orderly (t : Float) : KeyStep.Faultless (withDeadline t) :=
  fun _ => .ok fun hSeen => Entry.wellFormed_map hSeen fun _ => rfl

end Backup

end BatchStore
